/-
**The tail of the super block.**

`sync_super_block` gets its buffer from `get_block`, which does not read the block. When the super
block is no longer cached, the buffer is that of some other block, whose bytes are then written behind
the fields of the super block.

* `sync_loses_tail` — **with a full cache that has given up the super block**, `sync_all` replaces its
  tail by that of another block.
* `first_evicted` — the super block is the first one that a full cache gives up.
* `later_reads_lose_tail` — the kernel's cache, after `init_fs` and 304 more blocks.
-/
import Mathlib.Data.Bool.AllAny
import Sprite.Fs.Persistence
import Sprite.Fs.Queue

namespace Sprite.Fs

open Cache Ide

variable {N : Nat} [NeZero N]

/-! ### A buffer of another block -/

section Stale

variable {content : UInt32 → Block} {w : FsWorld N}

theorem syncSuperBlock_stale (coherent : Coherent w content) (two : 2 ≤ N) (g : Globals)
    (absent : ¬ Cached w kSuperBlockBNO) (full : N ≤ w.cache.count) :
    ∃ k content' w', Cached w k ∧ syncSuperBlock g w = .ok w' ∧ Coherent w' content' ∧
      blockOf w'.outside.disk kSuperBlockBNO = content' kSuperBlockBNO ∧
      ∀ m : Fin 1024, sizeofDSuperBlock ≤ m → content' kSuperBlockBNO m = content k m := by
  obtain ⟨node, w₁, content₁, ran, holds, coherent₁, _, _, _, stale⟩ :=
    coherent.target two (by decide : FitsDisk kSuperBlockBNO)
  obtain ⟨k, cached, data⟩ := stale absent full
  have pouring := Pouring.begin
    (records g.g_super_block.bytes 0 sizeofDSuperBlock sizeofDSuperBlock) sizeofDSuperBlock
    sizeofDSuperBlock coherent₁ holds
  obtain ⟨mem, content₂, copied, pouring₂⟩ := pouring.copy (by decide) (by decide) (by decide)
  obtain ⟨w₃, wrote, poured⟩ := pouring₂.finish (Nat.mul_one _)
  rw [first_block] at wrote
  have onlyFirst : ∀ q, Touched sizeofDSuperBlock q → q = 0 := by
    rintro q (first | inside)
    · exact first
    · simp only [sizeofDSuperBlock] at inside
      omega
  refine ⟨k, content₂, w₃, cached, ?_, poured.coherent, ?_, fun m behind => ?_⟩
  · simp only [Nat.zero_mul, Nat.add_zero] at copied
    simp only [syncSuperBlock, ran, called_some, ok_bind, copied, wrote]
    rfl
  · have settled := poured.settled 0 (.inl rfl)
    rwa [first_block] at settled
  · obtain ⟨_, inside⟩ := poured.kept fun q touched => by
      rw [onlyFirst q touched, first_block]
      exact ⟨node, holds⟩
    rcases inside kSuperBlockBNO m with same | ⟨a, within, _, rfl⟩
    · rw [same, data]
    · simp only [sizeofDSuperBlock, Fin.val_ofNat] at within behind
      omega

/-- **A super block that is no longer cached loses its tail**: behind its fields `sync_all` writes the
bytes of a block that was in the cache. -/
theorem sync_loses_tail (coherent : Coherent w content) (two : 2 ≤ N) (g : Globals)
    (fit : CountsFit g.g_super_block.bytes) (absent : ¬ Cached w kSuperBlockBNO)
    (full : N ≤ w.cache.count) :
    ∃ k w', Cached w k ∧ syncAll g w = .ok w' ∧ ∀ m : Fin 1024, sizeofDSuperBlock ≤ m →
      blockOf w'.outside.disk kSuperBlockBNO m = content k m := by
  obtain ⟨k, content₁, w₁, cached, ran, coherent₁, onDisk, tail⟩ :=
    syncSuperBlock_stale coherent two g absent full
  obtain ⟨content', w', ran', pouredAll⟩ := syncTables_spec coherent₁ two g fit
  -- The whole block is a region that the tables are apart from.
  let whole : Region := ⟨kSuperBlockBNO, 1024, fun a => content₁ kSuperBlockBNO (Fin.ofNat 1024 a)⟩
  have saved : whole.Saved content₁ w₁ := by
    intro a inside
    have number : a / 1024 = 0 := Nat.div_eq_of_lt inside
    rw [regionByte, number, first_block]
    exact ⟨rfl, onDisk⟩
  have apart : ∀ s ∈ (syncRegions g).tail, whole.Apart s := by
    intro s member
    obtain ⟨behind, near⟩ := syncRegions_near g fit s member
    refine Region.apart_of_before (fun a inside => ?_) near
    have isOne : whole.start.toNat = 1 := rfl
    have few : a < 1024 := inside
    omega
  have saved' := pouredAll.keeps apart saved
  refine ⟨k, w', cached, ?_, fun m behind => ?_⟩
  · rw [syncAll, ran, ok_bind, ran']
  · obtain ⟨isByte, onDisk'⟩ := saved' m m.isLt
    have number : m.val / 1024 = 0 := Nat.div_eq_of_lt m.isLt
    have same : Fin.ofNat 1024 m.val = m := Fin.ext (Nat.mod_eq_of_lt m.isLt)
    rw [number] at onDisk'
    rw [regionByte, number, ← onDisk', same] at isByte
    rw [← tail m behind]
    exact isByte.trans (congrArg (content₁ kSuperBlockBNO) same)

end Stale

/-! ### The first block to be evicted -/

/-- Reads of new blocks put them behind one another, as long as there is room. -/
theorem readAll_inOrder : ∀ (reads : List UInt32) (w : FsWorld N) (order : List Key),
    InOrder (w, order) → (order ++ reads).Nodup → order.length + reads.length ≤ N →
    (∀ bno ∈ reads, FitsDisk bno) →
    ∃ w', readAll w reads = some w' ∧ InOrder (w', order ++ reads) := by
  intro reads
  induction reads with
  | nil =>
    intro w order inOrder _ _ _
    rw [List.append_nil]
    exact ⟨w, rfl, inOrder⟩
  | cons bno reads ih =>
    intro w order inOrder nodup room onDisk
    have counted : w.cache.count_ = order.length := inOrder.counted
    rw [List.length_cons] at room
    have passes : OnDisk (w, order) (.readBlock bno) :=
      secnoOk_of_fits inOrder.valid (onDisk bno List.mem_cons_self)
    have evicts : EvictsNothing (w, order) (.readBlock bno) := by
      refine .inr ?_
      show w.cache.count_ < N
      omega
    have new : bno ∉ order := fun old =>
      (List.disjoint_of_nodup_append nodup) old List.mem_cons_self
    obtain ⟨⟨w₁, order₁⟩, stepped, inOrder₁⟩ := perform_keeps inOrder passes evicts
    obtain ⟨_, performed, same⟩ := Option.map_eq_some_iff.mp stepped
    rw [orderAfter, if_neg new, if_pos (by dsimp only; omega)] at same
    cases same
    obtain ⟨w', rest, inOrder'⟩ := ih w₁ (order ++ [bno]) inOrder₁ (by rwa [← List.append_cons])
      (by rw [List.length_append, List.length_singleton]; omega)
      fun bno' member => onDisk bno' (List.mem_cons_of_mem bno member)
    refine ⟨w', ?_, by rwa [← List.append_cons] at inOrder'⟩
    have performed : (readBlock (some uncache) bno w).map Prod.snd = some w₁ := performed
    rw [readAll, List.foldlM_cons, performed]
    exact rest

/-- **A full cache gives up the block used least recently.** -/
theorem first_evicted {w : FsWorld N} {k second bno : Key} {order : List Key}
    (inOrder : InOrder (w, k :: second :: order)) (full : w.cache.count_ = N) (fits : FitsDisk k)
    (new : bno ∉ k :: second :: order) (fits' : FitsDisk bno) :
    ∃ w', readAll w [bno] = some w' ∧ ¬ Cached w' k ∧ w'.cache.count_ = N := by
  obtain ⟨c, d⟩ := w
  obtain ⟨⟨entries, mirrors, sameOrder⟩, valid⟩ := inOrder
  dsimp only at mirrors sameOrder valid full
  match entries, sameOrder with
  | (_, z) :: (_, first) :: rest, rfl =>
    have absent : ∀ buff, (bno, buff) ∉ (k, z) :: (second, first) :: rest :=
      fun buff member => new (List.mem_map_of_mem member : bno ∈ (_ :: _ :: rest).map Prod.fst)
    have holds : c.Holds k z := (mirrors.holds k z).mpr List.mem_cons_self
    obtain ⟨slot, q, d', ran, valid', hangs, _⟩ :=
      evicting_alloc mirrors full (secnoOk_of_fits valid fits) bno
    have passes : secnoOk d' (blockToSector bno) (blockToSector 1) = true :=
      secnoOk_of_fits (valid'.trans valid) fits'
    obtain ⟨value, d'', filled, _⟩ :=
      fill_returns { c with toQueue := q, key := Function.update c.key z bno } z passes
    refine ⟨⟨{ c with toQueue := q, key := Function.update c.key z bno, value := value }, d''⟩, ?_,
      ?_, hangs.counted⟩
    · simp only [readAll, List.foldlM_cons, List.foldlM_nil, readBlock,
        world_get_miss mirrors absent d, Option.bind_eq_bind, Option.bind_some, ran, filled,
        Option.pure_def, Option.map_some]
    · rintro ⟨node, held⟩
      rcases (holds_replaced holds q value k node).mp held with ⟨same, _⟩ | ⟨other, held'⟩
      · exact new (same ▸ List.mem_cons_self)
      · exact other (mirrors.indexed.holds_unique held' holds)

/-! ### The reads of `init_fs` -/

section Init

variable {n : Nat}

/-- Items of one block are copied without another read. -/
theorem readItems_world (input output size : Nat) (count : Nat) : ∀ {bno : UInt32} {block : Ptr}
    {src dst : Nat} {area : Area n} {w : FsWorld N} {result : Area n × FsWorld N},
    (∀ j < count, src + j * input < 1024) →
    readItems input output size count bno block src area dst w = .ok result → result.2 = w := by
  induction count with
  | zero =>
    intro bno block src dst area w result _ ran
    cases ran
    rfl
  | succ count ih =>
    intro bno block src dst area w result inside ran
    have here : ¬ kBlockSize ≤ src := by
      have first := inside 0 (Nat.succ_pos count)
      rw [Nat.zero_mul] at first
      exact Nat.not_le.mpr first
    rw [readItems, nextSource, if_neg here] at ran
    obtain ⟨_, same, ran⟩ := bind_eq_ok ran
    cases same
    obtain ⟨area', _, rest⟩ := bind_eq_ok ran
    refine ih (fun j below => ?_) rest
    have later := inside (j + 1) (Nat.succ_lt_succ below)
    rw [Nat.succ_mul] at later
    omega

theorem readBlocks_world {input output size count base : Nat} {start : UInt32} {area : Area n}
    {w : FsWorld N} {result : Area n × FsWorld N} (inside : ∀ j < count, j * input < 1024)
    (ran : readBlocks input output start area base count size w = .ok result) :
    (readBlock (some uncache) start w).map Prod.snd = some result.2 := by
  obtain ⟨⟨block, w₁⟩, got, looped⟩ := bind_eq_ok ran
  rw [called_eq_ok got, Option.map_some,
    readItems_world input output size count (fun j below => by rw [Nat.zero_add]; exact inside j below)
      looped]

/-- On a volume whose tables take a block each, `init_fs` reads four blocks. -/
theorem initFs_reads {g₀ g : Globals} {w w₁ : FsWorld N} (loaded : initFs g₀ w = .ok (g, w₁))
    (few : num_inodes g.g_super_block.bytes ≤ 32) (small : num_zones g.g_super_block.bytes < 8192) :
    ∃ w₀, beforeInstall w = some w₀ ∧ readAll w₀ [inodeStart g.g_super_block.bytes, imapStart,
      zmapStart g.g_super_block.bytes] = some w₁ := by
  obtain ⟨⟨block, w₀⟩, got, loaded⟩ := bind_eq_ok loaded
  obtain ⟨super, _, loaded⟩ := bind_eq_ok loaded
  obtain ⟨⟨inodes, w₂⟩, ran₂, loaded⟩ := bind_eq_ok loaded
  obtain ⟨⟨imap, w₃⟩, ran₃, loaded⟩ := bind_eq_ok loaded
  obtain ⟨⟨zmap, w₄⟩, ran₄, loaded⟩ := bind_eq_ok loaded
  cases loaded
  dsimp only at few small ran₂ ran₃ ran₄ ⊢
  refine ⟨w₀, ?_, ?_⟩
  · rw [beforeInstall, called_eq_ok got]
    rfl
  · have read₂ := readBlocks_world (fun j below => by simp only [sizeofDInode]; omega) ran₂
    have read₃ := readBlocks_world (fun j below => by omega) ran₃
    have read₄ := readBlocks_world (fun j below => by omega) ran₄
    simp only [readAll, List.foldlM_cons, List.foldlM_nil, read₂, read₃, read₄, Option.bind_eq_bind,
      Option.bind_some, Option.pure_def]

/-- **After `init_fs` four blocks are cached**, in the order in which they were read. -/
theorem initFs_inOrder (four : 4 ≤ N) (links : Ptr → Option Ptr) (key : Ptr → Key)
    (value : Ptr → BlockBuffer) {d : Device} (valid : d.valid = 1) {g₀ g : Globals} {w₁ : FsWorld N}
    (loaded : initFs g₀ ⟨LRUCache.fresh N links key value, d⟩ = .ok (g, w₁))
    (few : num_inodes g.g_super_block.bytes ≤ 32) (small : num_zones g.g_super_block.bytes < 8192)
    {tables : List UInt32} (read : [inodeStart g.g_super_block.bytes, imapStart,
      zmapStart g.g_super_block.bytes] = tables)
    (distinct : (kSuperBlockBNO :: tables).Nodup) (onDisk : ∀ bno ∈ tables, FitsDisk bno) :
    InOrder (w₁, kSuperBlockBNO :: tables) := by
  obtain ⟨w₀, started, reads₁⟩ := initFs_reads loaded few small
  rw [read] at reads₁
  obtain ⟨_, started', inOrder₀⟩ := beforeInstall_inOrder links key value valid (N := N)
  cases started.symm.trans started'
  have three : tables.length = 3 := by rw [← read]; rfl
  obtain ⟨_, reads₁', inOrder₁⟩ := readAll_inOrder tables w₀ _ inOrder₀ distinct
    (by rw [List.length_singleton, three]; exact four) onDisk
  cases reads₁.symm.trans reads₁'
  exact inOrder₁

end Init

/-! ### A volume -/

/-- A volume of 32 inodes and 100 zones. All blocks but the super block are full of sevens. -/
def sevens : Device :=
  { numbered with disk := fun s i =>
      if s = 2 then [32, 0, 100, 0, 1, 0, 1, 0].getD i 0 else if s = 3 then 0 else 7 }

/-- The empty cache of the kernel over it. -/
def sevensWorld : FsWorld 307 :=
  ⟨LRUCache.fresh 307 (fun _ => none) (fun _ => 0) fun _ => ⟨fun _ => 0, 0, 0⟩, sevens⟩

theorem sevens_quiet : sevens.Quiet := numbered_quiet

/-- As many blocks as given, one behind the other. -/
def blocksFrom (start count : Nat) : List UInt32 := (List.range' start count).map UInt32.ofNat

theorem length_blocksFrom (start count : Nat) : (blocksFrom start count).length = count := by
  rw [blocksFrom, List.length_map, List.length_range']

theorem mem_blocksFrom {start count : Nat} (small : start + count ≤ UInt32.size) {bno : UInt32}
    (member : bno ∈ blocksFrom start count) : start ≤ bno.toNat ∧ bno.toNat < start + count := by
  obtain ⟨i, inside, rfl⟩ := List.mem_map.mp member
  have range := List.mem_range'_1.mp inside
  rwa [UInt32.toNat_ofNat_of_lt' (Nat.lt_of_lt_of_le range.2 small)]

theorem nodup_blocksFrom {start count : Nat} (small : start + count ≤ UInt32.size) :
    (blocksFrom start count).Nodup := by
  refine List.Nodup.map_on (fun i inside j inside' same => ?_) List.nodup_range'
  have below := (List.mem_range'_1.mp inside).2
  have below' := (List.mem_range'_1.mp inside').2
  have numbers := congrArg UInt32.toNat same
  rwa [UInt32.toNat_ofNat_of_lt' (Nat.lt_of_lt_of_le below small),
    UInt32.toNat_ofNat_of_lt' (Nat.lt_of_lt_of_le below' small)] at numbers

/-- The first blocks are on the disk. -/
theorem fits_blocksFrom {start count : Nat} (small : start + count ≤ 2 ^ 27) :
    ∀ bno ∈ blocksFrom start count, FitsDisk bno := by
  intro bno member
  have bound : MAX_DISK_NSECS.toNat = 2 ^ 28 := rfl
  have range := mem_blocksFrom (Nat.le_trans small (by decide)) member
  unfold FitsDisk
  omega

/-- The blocks that fill the cache after `init_fs`. -/
def fillingReads : List UInt32 := (List.range 303).map fun i => UInt32.ofNat (5 + i)

theorem filling_eq : fillingReads = blocksFrom 5 303 := by
  rw [blocksFrom, List.range'_eq_map_range, List.map_map]
  rfl

theorem filling_range {bno : UInt32} (member : bno ∈ fillingReads) :
    5 ≤ bno.toNat ∧ bno.toNat < 308 := by
  rw [filling_eq] at member
  exact mem_blocksFrom (by decide) member

theorem filling_nodup : ([kSuperBlockBNO] ++ [4, 2, 3] ++ fillingReads).Nodup := by
  refine List.Nodup.append (by decide) ?_ fun bno early late => ?_
  · rw [filling_eq]
    exact nodup_blocksFrom (by decide)
  · have range := (filling_range late).1
    have small : ∀ bno ∈ [kSuperBlockBNO] ++ [4, 2, 3], bno.toNat < 5 :=
      List.all_iff_forall_prop.mp (by decide)
    have less := small bno early
    omega

/-- Nothing is lost as long as the metadata is cached. -/
theorem few_reads_unchanged :
    ∃ g w₁ w₂, initFs noGlobals sevensWorld = .ok (g, w₁) ∧ readAll w₁ [5, 6, 5] = some w₂ ∧
      (RegionsCached (syncRegions g) w₂ → ∃ w₃, syncAll g w₂ = .ok w₃ ∧
        ∀ bno, FitsDisk bno → blockOf w₃.outside.disk bno = blockOf sevens.disk bno) :=
  sync_unchanged (by decide) _ _ _ rfl sevens_quiet (by decide) noGlobals [5, 6, 5]
    (List.all_iff_forall_prop.mp (by decide))

/-- **After 304 other blocks the super block is no longer cached**, and `sync_all` writes sevens
behind it. -/
theorem later_reads_lose_tail :
    ∃ g w₁ w₂ w₃, initFs noGlobals sevensWorld = .ok (g, w₁) ∧
      readAll w₁ (fillingReads ++ [308]) = some w₂ ∧ syncAll g w₂ = .ok w₃ ∧
      blockOf sevens.disk kSuperBlockBNO 1023 = 0 ∧
      blockOf w₃.outside.disk kSuperBlockBNO 1023 = 7 := by
  have valid : sevens.valid = 1 := rfl
  have fit : CountsFit (blockBytes (blockOf sevens.disk kSuperBlockBNO)) := by decide
  have spec := initFs_spec (fresh_coherent (N := 307) (fun _ => none) (fun _ => 0)
    (fun _ => ⟨fun _ => 0, 0, 0⟩) valid sevens_quiet) (by decide) (Nat.pos_of_neZero 307) noGlobals
  rw [if_pos fit] at spec
  obtain ⟨g, w₁, loaded, coherent₁, toward, isLoaded⟩ := spec
  obtain ⟨inodes, zones, zmap, start⟩ := fields_eq fun a (inside : a < 18) =>
    isLoaded.super a (Nat.lt_trans inside (by decide))
  have fit' : CountsFit g.g_super_block.bytes := by
    rw [CountsFit, inodes, zones]
    exact fit
  have tables : [inodeStart g.g_super_block.bytes, imapStart, zmapStart g.g_super_block.bytes]
      = [4, 2, 3] := by
    rw [zmap, start]
    decide
  have inOrder₁ := initFs_inOrder (by decide) _ _ _ valid loaded (by rw [inodes]; decide)
    (by rw [zones]; decide) tables (by decide) (List.all_iff_forall_prop.mp (by decide))
  have onDisk : ∀ bno ∈ fillingReads ++ [308], FitsDisk bno := by
    intro bno member
    rcases List.mem_append.mp member with filling | last
    · rw [filling_eq] at filling
      exact fits_blocksFrom (by decide) bno filling
    · rw [List.mem_singleton.mp last]
      decide
  have new : 308 ∉ 1 :: 4 :: 2 :: 3 :: fillingReads := by
    intro member
    have range := @filling_range 308
    have number : (308 : UInt32).toNat = 308 := rfl
    simp only [List.mem_cons] at member
    rcases member with same | same | same | same | filling
    · exact absurd same (by decide)
    · exact absurd same (by decide)
    · exact absurd same (by decide)
    · exact absurd same (by decide)
    · have less := (range filling).2
      omega
  have length : fillingReads.length = 303 := by rw [fillingReads, List.length_map, List.length_range]
  obtain ⟨wf, filled, inOrder⟩ := readAll_inOrder fillingReads w₁ _ inOrder₁ filling_nodup
    (by rw [length]; decide) fun bno member => onDisk bno (List.mem_append_left _ member)
  have full : wf.cache.count_ = 307 := by
    refine inOrder.counted.trans ?_
    show (1 :: 4 :: 2 :: 3 :: fillingReads).length = 307
    rw [List.length_cons, List.length_cons, List.length_cons, List.length_cons, length]
  have inOrder : InOrder (wf, 1 :: 4 :: 2 :: 3 :: fillingReads) := inOrder
  obtain ⟨w₂, evicted, absent, full₂⟩ := first_evicted inOrder full (by decide) new
    (by decide : FitsDisk 308)
  have reads₂ : readAll w₁ (fillingReads ++ [308]) = some w₂ := by
    rw [readAll, List.foldlM_append]
    exact Option.bind_eq_some_iff.mpr ⟨wf, filled, evicted⟩
  have clean : Clean sevensWorld (blockOf sevens.disk) := fun _ _ => rfl
  obtain ⟨_, reads₂', coherent₂, _⟩ := readAll_spec (by decide) (fillingReads ++ [308]) w₁ coherent₁
    (clean.toward toward) onDisk
  cases reads₂.symm.trans reads₂'
  obtain ⟨k, w₃, cached, saved, tail⟩ := sync_loses_tail coherent₂ (by decide) g fit' absent
    (Nat.le_of_eq full₂.symm)
  refine ⟨g, w₁, w₂, w₃, loaded, reads₂, saved, by decide, (tail 1023 (by decide)).trans ?_⟩
  have other : k.toNat ≠ 1 := by
    intro same
    obtain rfl : k = 1 := UInt32.toNat_inj.mp same
    exact absent cached
  show (if 2 * k.toNat + 1 = 2 then _ else if 2 * k.toNat + 1 = 3 then _ else _) = _
  rw [if_neg (by omega), if_neg (by omega)]

end Sprite.Fs

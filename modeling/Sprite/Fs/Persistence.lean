/-
**Metadata across a reboot.**

* `metadata_round_trip` — **what `sync_all` has saved is what `init_fs` loads**, from any cache that
  holds contents, with an empty cache after the reboot.
* `sync_unchanged` — **loading, reading and saving leaves the disk as it was**, when every block that
  `sync_all` asks for is still cached.
-/
import Sprite.Fs.Saving

namespace Sprite.Fs

open Cache Ide

variable {N : Nat} [NeZero N]

/-! ### Regions that stay as they were written -/

section Regions

variable {content content' : UInt32 → Block} {w w' : FsWorld N}

/-- The region is on the disk, and its blocks are there as the contents have them. -/
def Region.Saved (r : Region) (content : UInt32 → Block) (w : FsWorld N) : Prop :=
  ∀ a < r.len, regionByte content r.start a = r.bytes a ∧
    blockOf w.outside.disk (r.start + UInt32.ofNat (a / 1024))
      = content (r.start + UInt32.ofNat (a / 1024))

/-- Writing the second region does not ask for a block of the first one. -/
def Region.Apart (r s : Region) : Prop :=
  ∀ a < r.len, ∀ q, Touched s.len q → r.start + UInt32.ofNat (a / 1024) ≠ s.start + UInt32.ofNat q

theorem Poured.saved {r : Region} (poured : Poured r.bytes r.start r.len content w content' w') :
    r.Saved content' w' := by
  intro a inside
  refine ⟨poured.poured a inside, poured.settled (a / 1024) ?_⟩
  rcases Nat.eq_zero_or_pos (a / 1024) with first | later
  · exact .inl first
  · exact .inr (by omega)

theorem Region.Saved.after {r s : Region} (saved : r.Saved content w) (apart : r.Apart s)
    (poured : Poured s.bytes s.start s.len content w content' w') : r.Saved content' w' := by
  intro a inside
  obtain ⟨isByte, onDisk⟩ := saved a inside
  obtain ⟨same, disk⟩ := poured.others _ (apart a inside)
  refine ⟨?_, ?_⟩
  · rw [← isByte, regionByte, same]
    rfl
  · rw [same]
    exact disk.elim (fun stayed => stayed.trans onDisk) id

theorem PouredAll.keeps {r : Region} {rs : List Region} : ∀ {content content' : UInt32 → Block}
    {w w' : FsWorld N}, PouredAll rs content w content' w' → (∀ s ∈ rs, r.Apart s) →
      r.Saved content w → r.Saved content' w' := by
  induction rs with
  | nil =>
    rintro content content' w w' ⟨rfl, rfl⟩ _ saved
    exact saved
  | cons s rs ih =>
    rintro content content' w w' ⟨content₁, w₁, poured, rest⟩ apart saved
    exact ih rest (fun t member => apart t (List.mem_cons_of_mem s member))
      (saved.after (apart s List.mem_cons_self) poured)

/-- **All regions are on the disk** when none of them is written over later. -/
theorem PouredAll.saved {rs : List Region} : ∀ {content content' : UInt32 → Block}
    {w w' : FsWorld N}, PouredAll rs content w content' w' → rs.Pairwise Region.Apart →
      ∀ r ∈ rs, r.Saved content' w' := by
  induction rs with
  | nil => exact fun _ _ _ impossible => absurd impossible List.not_mem_nil
  | cons s rs ih =>
    rintro content content' w w' ⟨content₁, w₁, poured, rest⟩ pairwise r member
    obtain ⟨apart, pairwise'⟩ := List.pairwise_cons.mp pairwise
    rcases List.mem_cons.mp member with rfl | later
    · exact rest.keeps apart poured.saved
    · exact ih rest pairwise' r later

theorem PouredAll.coherent {rs : List Region} : ∀ {content content' : UInt32 → Block}
    {w w' : FsWorld N}, PouredAll rs content w content' w' → Coherent w content →
      Coherent w' content' := by
  induction rs with
  | nil =>
    rintro content content' w w' ⟨rfl, rfl⟩ coherent
    exact coherent
  | cons s rs ih =>
    rintro content content' w w' ⟨content₁, w₁, poured, rest⟩ _
    exact ih rest poured.coherent

/-- Every block that writing the regions asks for is cached. -/
def RegionsCached (rs : List Region) (w : FsWorld N) : Prop :=
  ∀ r ∈ rs, ∀ q, Touched r.len q → Cached w (r.start + UInt32.ofNat q)

/-- The disk has what the contents have. -/
def Clean (w : FsWorld N) (content : UInt32 → Block) : Prop :=
  ∀ k, FitsDisk k → blockOf w.outside.disk k = content k

omit [NeZero N] in
theorem Clean.toward (clean : Clean w content) (toward : Toward content w.outside w'.outside) :
    Clean w' content :=
  fun k fits => (toward k).elim (fun stayed => stayed.trans (clean k fits)) id

/-- **Writing what is there already** changes nothing, when no buffer has to be found for it. -/
theorem PouredAll.unchanged {rs : List Region} : ∀ {content content' : UInt32 → Block}
    {w w' : FsWorld N}, PouredAll rs content w content' w' → RegionsCached rs w →
      (∀ r ∈ rs, ∀ a < r.len, r.bytes a = regionByte content r.start a) → Clean w content →
      content' = content ∧ Clean w' content := by
  induction rs with
  | nil =>
    rintro content content' w w' ⟨rfl, rfl⟩ _ _ clean
    exact ⟨rfl, clean⟩
  | cons s rs ih =>
    rintro content content' w w' ⟨content₁, w₁, poured, rest⟩ cached bytes clean
    obtain ⟨cached₁, inside⟩ := poured.kept (cached s List.mem_cons_self)
    obtain rfl : content₁ = content := by
      funext k m
      rcases inside k m with same | ⟨a, within, rfl, rfl⟩
      · exact same
      · exact (poured.poured a within).trans (bytes s List.mem_cons_self a within)
    refine ih rest (fun r member q touched => ?_)
      (fun r member => bytes r (List.mem_cons_of_mem s member)) fun k fits => ?_
    · exact cached₁ _ (cached r (List.mem_cons_of_mem s member) q touched)
    · by_cases touched : ∃ q, Touched s.len q ∧ k = s.start + UInt32.ofNat q
      · obtain ⟨q, isTouched, rfl⟩ := touched
        exact poured.settled q isTouched
      · obtain ⟨_, disk⟩ := poured.others k fun q isTouched same => touched ⟨q, isTouched, same⟩
        exact disk.elim (fun stayed => stayed.trans (clean k fits)) id

end Regions

/-! ### Saving and loading -/

theorem records_packed (mem : Memory) (base size a : Nat) :
    records mem base size size a = mem (base + a) := by
  rw [records, Nat.add_assoc, Nat.div_add_mod']

/-- The regions for the bitmaps are as large as the counts ask for. -/
def RegionsFit (sb : Memory) : Prop :=
  num_inodes sb / 8 ≤ 1024 * num_imap_blocks sb ∧ num_zones sb / 8 ≤ 1024 * num_zmap_blocks sb

/-- What a reboot reproduces: the fields of both super blocks, the bytes of the bitmaps that the
counts cover, and what the disk has of the inodes. -/
structure Reproduced (g g' : Globals) : Prop where
  super : ∀ a < 18, g'.g_super_block.bytes a = g.g_super_block.bytes a
  imap : ∀ a < num_inodes g.g_super_block.bytes / 8,
    Area.bytes g'.g_imap.data_ a = Area.bytes g.g_imap.data_ a
  zmap : ∀ a < num_zones g.g_super_block.bytes / 8,
    Area.bytes g'.g_zmap.data_ a = Area.bytes g.g_zmap.data_ a
  inodes : ∀ i, 1 ≤ i → i ≤ num_inodes g.g_super_block.bytes → ∀ j < sizeofDInode,
    g'.g_inode_table.bytes (sizeofMInode * i + j) = g.g_inode_table.bytes (sizeofMInode * i + j)

/-- A region ends before the block that the other one begins with. -/
theorem Region.apart_of_before {r s : Region}
    (before : ∀ a < r.len, r.start.toNat + a / 1024 < s.start.toNat)
    (near : s.start.toNat + s.len / 1024 < 2 ^ 26) : r.Apart s := by
  intro a inside q touched same
  have numbers := congrArg UInt32.toNat same
  have less := before a inside
  have within : q ≤ s.len / 1024 := by
    rcases touched with rfl | early
    · exact Nat.zero_le _
    · omega
  rw [toNat_block (by omega), toNat_block (by omega)] at numbers
  omega

theorem syncRegions_apart (g : Globals) (fit : CountsFit g.g_super_block.bytes)
    (large : RegionsFit g.g_super_block.bytes) : (syncRegions g).Pairwise Region.Apart := by
  obtain ⟨imap, zmap⟩ := large
  have near := syncRegions_near g fit
  have isOne : kSuperBlockBNO.toNat = 1 := rfl
  have isTwo : imapStart.toNat = 2 := rfl
  simp only [syncRegions, List.tail_cons, List.mem_cons, List.not_mem_nil, or_false, forall_eq_or_imp,
    forall_eq] at near
  obtain ⟨imapNear, zmapNear, inodeNear⟩ := near
  have apart : ∀ {r s : Region}, (2 ≤ s.start.toNat ∧ s.start.toNat + s.len / 1024 < 2 ^ 26) →
      (∀ a < r.len, r.start.toNat + a / 1024 < s.start.toNat) → r.Apart s :=
    fun near before => Region.apart_of_before before near.2
  simp only [syncRegions, List.pairwise_cons, List.mem_cons, List.not_mem_nil, or_false,
    forall_eq_or_imp, forall_eq, false_imp_iff, implies_true, List.Pairwise.nil, and_true]
  refine ⟨⟨apart imapNear ?_, apart zmapNear ?_, apart inodeNear ?_⟩,
    ⟨apart zmapNear ?_, apart inodeNear ?_⟩, apart inodeNear ?_⟩
  all_goals
    simp only [isOne, isTwo, zmapStart_toNat, inodeStart_toNat, sizeofDSuperBlock]
    omega

/-- **The metadata round trip**: whatever is cached and on the disk, `sync_all` and `init_fs` over an
empty cache and the disk that results reproduce the super block, the bitmaps and the inodes. -/
theorem metadata_round_trip (two : 2 ≤ N) {w : FsWorld N} {content : UInt32 → Block}
    (coherent : Coherent w content) (g : Globals) (inodes : num_inodes g.g_super_block.bytes ≤ 127)
    (zones : num_zones g.g_super_block.bytes ≤ 10240) (large : RegionsFit g.g_super_block.bytes)
    (g₀ : Globals) (links : Ptr → Option Ptr) (key : Ptr → Key) (value : Ptr → BlockBuffer) :
    ∃ w' g' w'', syncAll g w = .ok w' ∧
      initFs g₀ ⟨LRUCache.fresh N links key value, w'.outside⟩ = .ok (g', w'') ∧
      Reproduced g g' := by
  have fit : CountsFit g.g_super_block.bytes := ⟨inodes, by omega⟩
  obtain ⟨content', w', ran, pouredAll⟩ := syncAll_spec coherent two g fit
  have coherent' := pouredAll.coherent coherent
  have saved := pouredAll.saved (syncRegions_apart g fit large)
  have onDisk : ∀ r ∈ syncRegions g, ∀ a < r.len,
      regionByte (blockOf w'.outside.disk) r.start a = r.bytes a := by
    intro r member a inside
    obtain ⟨isByte, disk⟩ := saved r member a inside
    rw [← isByte, regionByte, disk]
    rfl
  simp only [syncRegions, List.mem_cons, List.not_mem_nil, or_false, forall_eq_or_imp, forall_eq]
    at onDisk
  obtain ⟨superDisk, imapDisk, zmapDisk, inodesDisk⟩ := onDisk
  have super : ∀ a < 18, blockBytes (blockOf w'.outside.disk kSuperBlockBNO) a
      = g.g_super_block.bytes a := by
    intro a inside
    have isByte := superDisk a (Nat.lt_trans inside (by decide))
    rw [records_packed, Nat.zero_add, regionByte, Nat.div_eq_of_lt (by omega), first_block] at isByte
    exact isByte
  obtain ⟨sameInodes, sameZones, sameZmap, sameStart⟩ := fields_eq super
  have spec := initFs_spec (fresh_coherent links key value coherent'.valid coherent'.quiet) two
    (Nat.pos_of_neZero N) g₀
  rw [if_pos (by rw [CountsFit, sameInodes, sameZones]; exact fit)] at spec
  obtain ⟨g', w'', loaded, _, _, isLoaded⟩ := spec
  have super' : ∀ a < 18, g'.g_super_block.bytes a = g.g_super_block.bytes a := fun a inside =>
    (isLoaded.super a (Nat.lt_trans inside (by decide))).trans (super a inside)
  obtain ⟨sameInodes', sameZones', sameZmap', sameStart'⟩ := fields_eq super'
  refine ⟨w', g', w'', ran, loaded, super', fun a inside => ?_, fun a inside => ?_,
    fun i first last j within => ?_⟩
  · have isByte := isLoaded.imap a (by rwa [sameInodes'])
    rw [imapDisk a (by rwa [Nat.one_mul])] at isByte
    rwa [records_packed, records_packed, Nat.zero_add] at isByte
  · have isByte := isLoaded.zmap a (by rwa [sameZones'])
    rw [sameZmap', zmapDisk a (by rwa [Nat.one_mul])] at isByte
    rwa [records_packed, records_packed, Nat.zero_add] at isByte
  · have size : sizeofDInode = 32 := rfl
    obtain ⟨i, rfl⟩ : ∃ k, i = k + 1 := ⟨i - 1, by omega⟩
    have inside : sizeofDInode * i + j < sizeofDInode * num_inodes g.g_super_block.bytes := by
      rw [size]
      omega
    have isByte := isLoaded.inodes (sizeofDInode * i + j) (by rwa [sameInodes'])
    rw [sameStart', inodesDisk _ inside, records, records, Nat.mul_add_div (by decide),
      Nat.div_eq_of_lt within, Nat.add_zero, Nat.mul_add_mod, Nat.mod_eq_of_lt within] at isByte
    have place : sizeofMInode + i * sizeofMInode + j = sizeofMInode * (i + 1) + j := by
      rw [Nat.mul_succ, Nat.mul_comm i, Nat.add_comm sizeofMInode]
    rwa [place] at isByte

/-- Arrays of 32 inodes and 100 zones, full of numbers. -/
def numberedGlobals : Globals where
  g_super_block := fun i => [32, 0, 100, 0, 1, 0, 1, 0].getD i 0
  g_inode_table := fun i => UInt8.ofNat i
  g_imap := ⟨fun i => UInt8.ofNat i⟩
  g_zmap := ⟨fun i => UInt8.ofNat i⟩

/-- The round trip over a numbered disk. -/
theorem numbered_round_trip :
    ∃ w' g' w'', syncAll numberedGlobals ⟨LRUCache.fresh 307 (fun _ => none) (fun _ => 0)
        fun _ => ⟨fun _ => 0, 0, 0⟩, numbered⟩ = .ok w' ∧
      initFs noGlobals ⟨LRUCache.fresh 307 (fun _ => none) (fun _ => 0)
        fun _ => ⟨fun _ => 0, 0, 0⟩, w'.outside⟩ = .ok (g', w'') ∧
      Reproduced numberedGlobals g' :=
  metadata_round_trip (by decide) (fresh_coherent _ _ _ rfl numbered_quiet) numberedGlobals
    (by decide) (by decide) (by constructor <;> decide) _ _ _ _

/-! ### Loading, reading and saving -/

/-- Calls of `read_block`. -/
def readAll (w : FsWorld N) (reads : List UInt32) : Option (FsWorld N) :=
  reads.foldlM (fun w bno => (readBlock (some uncache) bno w).map Prod.snd) w

theorem readAll_append (w : FsWorld N) (reads reads' : List UInt32) :
    readAll w (reads ++ reads') = (readAll w reads).bind fun w => readAll w reads' := by
  unfold readAll
  rw [List.foldlM_append]
  rfl

theorem readAll_cons (w : FsWorld N) (bno : UInt32) (reads : List UInt32) :
    readAll w (bno :: reads)
      = (readBlock (some uncache) bno w).bind fun r => readAll r.2 reads := by
  unfold readAll
  rw [List.foldlM_cons]
  cases readBlock (some uncache) bno w <;> rfl

section Unchanged

variable {content : UInt32 → Block}

/-- Reading changes no content, and brings no byte to the disk that is not there. -/
theorem readAll_spec (two : 2 ≤ N) : ∀ (reads : List UInt32) (w : FsWorld N), Coherent w content →
    Clean w content → (∀ bno ∈ reads, FitsDisk bno) →
    ∃ w', readAll w reads = some w' ∧ Coherent w' content ∧ Clean w' content := by
  intro reads
  induction reads with
  | nil => exact fun w coherent clean _ => ⟨w, rfl, coherent, clean⟩
  | cons bno reads ih =>
    intro w coherent clean onDisk
    obtain ⟨node, w₁, ran, _, _, coherent₁, toward⟩ :=
      coherent.read two (onDisk bno List.mem_cons_self) (.inl rfl)
    obtain ⟨w', rest, coherent', clean'⟩ := ih w₁ coherent₁ (clean.toward toward)
      fun bno' member => onDisk bno' (List.mem_cons_of_mem bno member)
    refine ⟨w', ?_, coherent', clean'⟩
    rw [readAll, List.foldlM_cons, ran]
    exact rest

/-- The arrays loaded are what saving would write. -/
theorem Loaded.regions {g : Globals} (loaded : Loaded content g) :
    ∀ r ∈ syncRegions g, ∀ a < r.len, r.bytes a = regionByte content r.start a := by
  simp only [syncRegions, List.mem_cons, List.not_mem_nil, or_false, forall_eq_or_imp, forall_eq]
  refine ⟨fun a inside => ?_, fun a inside => loaded.imap a (by rwa [Nat.one_mul] at inside),
    fun a inside => loaded.zmap a (by rwa [Nat.one_mul] at inside), loaded.inodes⟩
  have few : a < 20 := inside
  rw [records_packed, Nat.zero_add, loaded.super a (Nat.lt_trans few (by decide)), regionByte,
    Nat.div_eq_of_lt (by omega), first_block]
  rfl

/-- **Saving what has just been loaded leaves the disk as it was**, whatever has been read in between,
when every block that `sync_all` asks for is still cached. -/
theorem sync_unchanged (two : 2 ≤ N) (links : Ptr → Option Ptr) (key : Ptr → Key)
    (value : Ptr → BlockBuffer) {d : Device} (valid : d.valid = 1) (quiet : d.Quiet)
    (fit : CountsFit (blockBytes (blockOf d.disk kSuperBlockBNO))) (g₀ : Globals)
    (reads : List UInt32) (onDisk : ∀ bno ∈ reads, FitsDisk bno) :
    ∃ g w₁ w₂, initFs g₀ ⟨LRUCache.fresh N links key value, d⟩ = .ok (g, w₁) ∧
      readAll w₁ reads = some w₂ ∧
      (RegionsCached (syncRegions g) w₂ → ∃ w₃, syncAll g w₂ = .ok w₃ ∧
        ∀ bno, FitsDisk bno → blockOf w₃.outside.disk bno = blockOf d.disk bno) := by
  have spec := initFs_spec (fresh_coherent links key value valid quiet) two (Nat.pos_of_neZero N) g₀
  rw [if_pos fit] at spec
  obtain ⟨g, w₁, loaded, coherent₁, toward, isLoaded⟩ := spec
  have clean : Clean ⟨LRUCache.fresh N links key value, d⟩ (blockOf d.disk) := fun _ _ => rfl
  obtain ⟨w₂, ran, coherent₂, clean₂⟩ :=
    readAll_spec two reads w₁ coherent₁ (clean.toward toward) onDisk
  have sameSuper : ∀ a < 18, g.g_super_block.bytes a
      = blockBytes (blockOf d.disk kSuperBlockBNO) a :=
    fun a inside => isLoaded.super a (Nat.lt_trans inside (by decide))
  have fit' : CountsFit g.g_super_block.bytes := by
    obtain ⟨inodes, zones, _, _⟩ := fields_eq sameSuper
    rw [CountsFit, inodes, zones]
    exact fit
  refine ⟨g, w₁, w₂, loaded, ran, fun cached => ?_⟩
  obtain ⟨content', w₃, saved, pouredAll⟩ := syncAll_spec coherent₂ two g fit'
  exact ⟨w₃, saved, (pouredAll.unchanged cached isLoaded.regions clean₂).2⟩

end Unchanged

end Sprite.Fs

/-
**Saving a volume.**

* `Pouring` — the invariant of the loop of `write_blocks`: the items before the current one are in
  their buffers, and the blocks before the current one have been written.
* `Poured`, `writeBlocks_spec` — what the loop leaves: the items on the disk, and whatever else was in
  the buffers that `get_block` has handed out.
* `syncAll_spec` — the four regions one after the other.
-/
import Sprite.Fs.Loading

namespace Sprite.Fs

open Cache Ide

variable {N : Nat} [NeZero N]

/-! ### A buffer for a block -/

section Target

variable {content : UInt32 → Block} {w : FsWorld N} {bno : UInt32}

/-- **`get_block` hands out a buffer**: that of the block, or one with anything in it. -/
theorem Coherent.target (coherent : Coherent w content) (two : 2 ≤ N) (fits : FitsDisk bno) :
    ∃ node w' content', getBlock (some uncache) bno w = some (node, w') ∧
      w'.cache.Holds bno node ∧ Coherent w' content' ∧ Toward content w.outside w'.outside ∧
      (∀ k, k ≠ bno → content' k = content k) ∧
      (Cached w bno → content' = content ∧ ∀ k, Cached w k → Cached w' k) ∧
      (¬ Cached w bno → N ≤ w.cache.count → ∃ k, Cached w k ∧ content' bno = content k) := by
  by_cases present : Cached w bno
  · obtain ⟨c, d⟩ := w
    obtain ⟨node, holds⟩ := present
    obtain ⟨q, got, consistent⟩ := coherent.consistent.get_hit holds
    refine ⟨node, ⟨{ c with toQueue := q }, d⟩, content, ?_, holds, consistent.coherent coherent.quiet,
      toward_refl rfl, fun _ _ => rfl, fun _ => ⟨rfl, fun _ => id⟩,
      fun absent => absurd ⟨node, holds⟩ absent⟩
    simp only [getBlock, got, Option.bind_eq_bind, Option.bind_some, Option.pure_def]
  · obtain ⟨node, c', d', ran, holds, toward, stale, coherent'⟩ := coherent.get two fits
    refine ⟨node, ⟨c', d'⟩, Function.update content bno (c'.value node).data, ran, holds, ?_, toward,
      fun k other => Function.update_of_ne other _ _, fun cached => absurd cached present,
      fun absent full => ?_⟩
    · have same := coherent' (c'.value node)
      rwa [Function.update_eq_self] at same
    · obtain ⟨k, cached, data⟩ := stale (fun node holds => absent ⟨node, holds⟩) full
      exact ⟨k, cached, (Function.update_self _ _ _).trans data⟩

/-- `write_block` of a block whose buffer has been handed out. -/
theorem Coherent.written (coherent : Coherent w content) {node : Ptr}
    (holds : w.cache.Holds bno node) :
    ∃ w', writeBlock bno w = some (true, w') ∧ Coherent w' content ∧
      Toward content w.outside w'.outside ∧ blockOf w'.outside.disk bno = content bno ∧
      ∀ k node, w.cache.Holds k node → w'.cache.Holds k node := by
  obtain ⟨c, d⟩ := w
  obtain ⟨q, d', ran, coherent', toward, onDisk⟩ := coherent.write_cached holds
  exact ⟨_, ran, coherent', toward, onDisk, fun _ _ => id⟩

end Target

/-! ### The loop of `write_blocks` -/

/-- The blocks that `write_blocks` asks for, when `len` bytes are to be written: the first one in any
case. They are counted from the first one. -/
def Touched (len q : Nat) : Prop := q = 0 ∨ 1024 * q < len

/-- The difference that writing a region makes to the contents is inside the region. -/
def Inside (start : UInt32) (len : Nat) (content content' : UInt32 → Block) : Prop :=
  ∀ k m, content' k m = content k m ∨
    ∃ a < len, k = start + UInt32.ofNat (a / 1024) ∧ m = Fin.ofNat 1024 a

/-- **What writing a region leaves behind**, from the world `w` with its contents. -/
structure Poured (bytes : Memory) (start : UInt32) (len : Nat) (content : UInt32 → Block)
    (w : FsWorld N) (content' : UInt32 → Block) (w' : FsWorld N) : Prop where
  coherent : Coherent w' content'
  poured : ∀ a < len, regionByte content' start a = bytes a
  settled : ∀ q, Touched len q → blockOf w'.outside.disk (start + UInt32.ofNat q)
    = content' (start + UInt32.ofNat q)
  others : ∀ k, (∀ q, Touched len q → k ≠ start + UInt32.ofNat q) → content' k = content k ∧
    (blockOf w'.outside.disk k = blockOf w.outside.disk k ∨ blockOf w'.outside.disk k = content k)
  kept : (∀ q, Touched len q → Cached w (start + UInt32.ofNat q)) →
    (∀ k, Cached w k → Cached w' k) ∧ Inside start len content content'

/-- **The invariant of the loop**, before item `i` of those that make up `len` bytes. The block being
written is the one number `q`. -/
structure Pouring (bytes : Memory) (start : UInt32) (len size : Nat) (content₀ : UInt32 → Block)
    (w₀ : FsWorld N) (i q : Nat) (block : Ptr) (dst : Nat) (content : UInt32 → Block)
    (w : FsWorld N) : Prop where
  coherent : Coherent w content
  place : 1024 * q + dst = size * i
  within : dst ≤ 1024
  touched : Touched len q
  holds : w.cache.Holds (start + UInt32.ofNat q) block
  poured : ∀ a < size * i, regionByte content start a = bytes a
  settled : ∀ k < q, blockOf w.outside.disk (start + UInt32.ofNat k)
    = content (start + UInt32.ofNat k)
  others : ∀ k, (∀ j ≤ q, k ≠ start + UInt32.ofNat j) → content k = content₀ k ∧
    (blockOf w.outside.disk k = blockOf w₀.outside.disk k
      ∨ blockOf w.outside.disk k = content₀ k)
  kept : (∀ j, Touched len j → Cached w₀ (start + UInt32.ofNat j)) →
    (∀ k, Cached w₀ k → Cached w k) ∧ Inside start (size * i) content₀ content

section Pouring

variable {bytes : Memory} {start : UInt32} {len size i q dst n base input : Nat}
  {content₀ content : UInt32 → Block} {w₀ w : FsWorld N} {block : Ptr} {area : Area n}

theorem block_ne {j : Nat} (near : start.toNat + q < 2 ^ 27) (less : j < q) :
    start + UInt32.ofNat j ≠ start + UInt32.ofNat q := by
  intro same
  have numbers := congrArg UInt32.toNat same
  rw [toNat_block (by omega), toNat_block near] at numbers
  omega

/-- Nothing has been copied yet. -/
theorem Pouring.begin (bytes : Memory) (len size : Nat) (coherent : Coherent w content)
    (holds : w.cache.Holds start block) :
    Pouring bytes start len size content w 0 0 block 0 content w := by
  refine ⟨coherent, rfl, Nat.zero_le _, .inl rfl, by rwa [first_block], ?_, ?_, ?_, ?_⟩
  · exact fun a impossible => absurd impossible (Nat.not_lt_zero a)
  · exact fun k impossible => absurd impossible (Nat.not_lt_zero k)
  · exact fun _ _ => ⟨rfl, .inl rfl⟩
  · exact fun _ => ⟨fun _ => id, fun _ _ => .inl rfl⟩

/-- The first buffer. -/
theorem Pouring.first (bytes : Memory) (len size : Nat) (coherent : Coherent w₀ content₀)
    (two : 2 ≤ N) (near : start.toNat < 2 ^ 27) :
    ∃ node w content, getBlock (some uncache) start w₀ = some (node, w) ∧
      Pouring bytes start len size content₀ w₀ 0 0 node 0 content w := by
  have fits : FitsDisk start := first_block start ▸ fitsDisk_block (by omega)
  obtain ⟨node, w, content, ran, holds, coherent', toward, others, kept, _⟩ :=
    coherent.target two fits
  refine ⟨node, w, content, ran, coherent', rfl, Nat.zero_le _, .inl rfl, ?_, ?_, ?_, ?_, ?_⟩
  · rwa [first_block]
  · exact fun a impossible => absurd impossible (Nat.not_lt_zero a)
  · exact fun k impossible => absurd impossible (Nat.not_lt_zero k)
  · intro k other
    exact ⟨others k (first_block start ▸ other 0 (Nat.le_refl 0)), toward k⟩
  · intro cached
    obtain ⟨same, cached'⟩ := kept (first_block start ▸ cached 0 (.inl rfl))
    exact ⟨cached', fun k m => .inl (by rw [same])⟩

/-- The target moves on to the block of the current item. -/
theorem Pouring.advance
    (pouring : Pouring bytes start len size content₀ w₀ i q block dst content w) (two : 2 ≤ N)
    (divides : size ∣ 1024) (more : size * i < len) (fit : BlocksFit start len) :
    ∃ q' block' dst' w' content',
      nextTarget (start + UInt32.ofNat q) block dst w
        = .ok (start + UInt32.ofNat q', block', dst', w') ∧
      Pouring bytes start len size content₀ w₀ i q' block' dst' content' w' ∧
      dst' + size ≤ 1024 := by
  by_cases ended : kBlockSize ≤ dst
  · have all : dst = 1024 := Nat.le_antisymm pouring.within ended
    have place : 1024 * (q + 1) + 0 = size * i := by
      have place := pouring.place
      omega
    have touched : Touched len (q + 1) := .inr (by omega)
    have near' : start.toNat + (q + 1) < 2 ^ 27 := fit _ touched
    obtain ⟨w₁, wrote, coherent₁, toward₁, onDisk, same₁⟩ := pouring.coherent.written pouring.holds
    obtain ⟨node, w₂, content₂, got, holds₂, coherent₂, toward₂, others₂, kept₂, _⟩ :=
      coherent₁.target two (fitsDisk_block near')
    have unchanged : ∀ j ≤ q, content₂ (start + UInt32.ofNat j) = content (start + UInt32.ofNat j) :=
      fun j before => others₂ _ (block_ne near' (Nat.lt_succ_of_le before))
    have toward := toward₁.trans toward₂
    refine ⟨q + 1, node, 0, w₂, content₂, ?_, ⟨coherent₂, place, Nat.zero_le _, touched, holds₂,
      fun a inside => ?_, fun k before => ?_, fun k other => ?_, fun cached => ?_⟩,
      item_within divides place (by decide)⟩
    · simp only [nextTarget, if_pos ended, wrote, called_some, ok_bind, next_block, got]
      rfl
    · have before : a / 1024 ≤ q := by omega
      rw [← pouring.poured a inside, regionByte, regionByte, unchanged _ before]
    · have before : k ≤ q := Nat.le_of_lt_succ before
      rw [unchanged k before]
      rcases toward₂ (start + UInt32.ofNat k) with stayed | moved
      · rw [stayed]
        rcases Nat.lt_or_ge k q with earlier | last
        · rcases toward₁ (start + UInt32.ofNat k) with stayed₁ | moved₁
          · rw [stayed₁]
            exact pouring.settled k earlier
          · exact moved₁
        · rw [Nat.le_antisymm before last]
          exact onDisk
      · exact moved
    · obtain ⟨same, disk⟩ := pouring.others k fun j before => other j (Nat.le_succ_of_le before)
      rw [others₂ k (other (q + 1) (Nat.le_refl _))]
      refine ⟨same, ?_⟩
      rcases toward k with stayed | moved
      · rw [stayed]
        exact disk
      · exact .inr (moved.trans same)
    · obtain ⟨cached', inside⟩ := pouring.kept cached
      have cached₁ : ∀ k, Cached w₀ k → Cached w₁ k := fun k present =>
        (cached' k present).imp (same₁ k)
      obtain ⟨same₂, cached₂⟩ := kept₂ (cached₁ _ (cached (q + 1) touched))
      rw [same₂]
      exact ⟨fun k present => cached₂ k (cached₁ k present), inside⟩
  · refine ⟨q, block, dst, w, content, ?_, pouring,
      item_within divides pouring.place (Nat.not_le.mp ended)⟩
    rw [nextTarget, if_neg ended]
    rfl

/-- The current item is copied. -/
theorem Pouring.copy
    (pouring : Pouring (records area.bytes base input size) start len size content₀ w₀ i q block dst
      content w) (within : dst + size ≤ 1024) (near : start.toNat + q < 2 ^ 27)
    (fits : base + i * input + size ≤ n) :
    ∃ mem content', area.copyOut (base + i * input) (w.cache.value block).bytes dst size = .ok mem ∧
      Pouring (records area.bytes base input size) start len size content₀ w₀ (i + 1) q block
        (dst + size) content' (setBytes w block mem) := by
  obtain ⟨c, d⟩ := w
  have place := pouring.place
  have data := (pouring.coherent.cached _ block pouring.holds).2
  have put : ∀ m : Fin 1024, (BlockBuffer.ofBytes (memcpy (c.value block).bytes dst area.bytes
      (base + i * input) size)).data m
      = if dst ≤ m.val ∧ m.val < dst + size then area.bytes (base + i * input + (m.val - dst))
        else content (start + UInt32.ofNat q) m := by
    intro m
    refine (memcpy_apply _ _ _ _ _ _).trans (if_congr Iff.rfl rfl ?_)
    rw [BlockBuffer.bytes, dif_pos m.isLt, ← data]
  refine ⟨_, Function.update content (start + UInt32.ofNat q) _, if_pos fits,
    pouring.coherent.modify pouring.holds _, ?_, within, pouring.touched, pouring.holds,
    fun a inside => ?_, fun k before => ?_, fun k other => ?_, fun cached => ?_⟩
  · rw [← Nat.add_assoc, place, Nat.mul_succ]
  · rw [Nat.mul_succ] at inside
    unfold regionByte
    by_cases here : a / 1024 = q
    · rw [here, Function.update_self, put]
      have byte : (Fin.ofNat 1024 a).val = a - 1024 * q := by
        rw [Fin.val_ofNat]
        omega
      rw [byte]
      rcases Nat.lt_or_ge a (size * i) with old | new
      · rw [if_neg (by omega), ← pouring.poured a old, regionByte, here]
      · have index : a / size = i := by
          refine Nat.div_eq_of_lt_le ?_ ?_
          · rwa [Nat.mul_comm]
          · rwa [Nat.mul_comm, Nat.mul_succ]
        have split := Nat.div_add_mod a size
        rw [index] at split
        rw [if_pos (by omega), records, index]
        exact congrArg area.bytes (by omega)
    · have earlier : a / 1024 < q := by omega
      have old : a < size * i := by omega
      rw [Function.update_of_ne (block_ne near earlier), ← pouring.poured a old, regionByte]
  · rw [Function.update_of_ne (block_ne near before)]
    exact pouring.settled k before
  · rw [Function.update_of_ne (other q (Nat.le_refl q))]
    exact pouring.others k other
  · obtain ⟨cached', inside⟩ := pouring.kept cached
    refine ⟨cached', fun k m => ?_⟩
    have old : content k m = content₀ k m ∨
        ∃ a < size * (i + 1), k = start + UInt32.ofNat (a / 1024) ∧ m = Fin.ofNat 1024 a := by
      rcases inside k m with same | ⟨a, less, isByte⟩
      · exact .inl same
      · exact .inr ⟨a, Nat.lt_of_lt_of_le less (Nat.mul_le_mul_left size (Nat.le_succ i)), isByte⟩
    by_cases here : k = start + UInt32.ofNat q
    · subst here
      rw [Function.update_self, put]
      split_ifs with new
      · have small := m.isLt
        refine .inr ⟨1024 * q + m.val, ?_, ?_, ?_⟩
        · rw [Nat.mul_succ]
          omega
        · rw [show (1024 * q + m.val) / 1024 = q by omega]
        · ext
          simp only [Fin.val_ofNat]
          omega
      · exact old
    · rw [Function.update_of_ne here]
      exact old

/-- **The loop.** -/
theorem writeItems_spec (two : 2 ≤ N) (divides : size ∣ 1024) (positive : 0 < size) (count : Nat) :
    ∀ {i q block dst content} {w : FsWorld N},
    Pouring (records area.bytes base input size) start len size content₀ w₀ i q block dst content w →
    size * (i + count) = len → BlocksFit start len →
    (∀ j < i + count, base + j * input + size ≤ n) →
    ∃ q' block' dst' w' content', writeItems input size size area count (base + i * input)
        (start + UInt32.ofNat q) block dst w = .ok (start + UInt32.ofNat q', w') ∧
      Pouring (records area.bytes base input size) start len size content₀ w₀ (i + count) q' block'
        dst' content' w' := by
  induction count with
  | zero => exact fun pouring _ _ _ => ⟨_, _, _, _, _, rfl, pouring⟩
  | succ count ih =>
    intro i q block dst content w pouring all fit fits
    have more : size * i < len := by
      rw [← all]
      exact Nat.mul_lt_mul_of_pos_left (Nat.lt_add_of_pos_right (Nat.succ_pos count)) positive
    obtain ⟨q₁, block₁, dst₁, w₁, content₁, advanced, pouring₁, within⟩ :=
      pouring.advance two divides more fit
    obtain ⟨mem, content₂, copied, pouring₂⟩ := pouring₁.copy within (fit q₁ pouring₁.touched)
      (fits i (Nat.lt_add_of_pos_right (Nat.succ_pos count)))
    have count' : i + 1 + count = i + (count + 1) := by omega
    rw [← count'] at all fits ⊢
    obtain ⟨q', block', dst', w', content', ran, pouring'⟩ := ih pouring₂ all fit fits
    refine ⟨q', block', dst', w', content', ?_, pouring'⟩
    simp only [writeItems, advanced, ok_bind, copied]
    rw [← ran, Nat.succ_mul, Nat.add_assoc]

/-- The block that is left in its buffer is written. -/
theorem Pouring.finish
    (pouring : Pouring bytes start len size content₀ w₀ i q block dst content w)
    (all : size * i = len) :
    ∃ w', writeBlock (start + UInt32.ofNat q) w = some (true, w') ∧
      Poured bytes start len content₀ w₀ content w' := by
  obtain ⟨w', wrote, coherent, toward, onDisk, same⟩ := pouring.coherent.written pouring.holds
  have place := pouring.place
  have within := pouring.within
  refine ⟨w', wrote, coherent, all ▸ pouring.poured, fun j touched => ?_, fun k other => ?_,
    fun cached => ?_⟩
  · have before : j ≤ q := by
      rcases touched with rfl | inside
      · exact Nat.zero_le q
      · omega
    rcases toward (start + UInt32.ofNat j) with stayed | moved
    · rcases Nat.lt_or_ge j q with earlier | last
      · rw [stayed]
        exact pouring.settled j earlier
      · rw [Nat.le_antisymm before last]
        exact onDisk
    · exact moved
  · obtain ⟨same', disk⟩ := pouring.others k fun j before => other j (by
      rcases pouring.touched with rfl | inside
      · exact .inl (Nat.le_zero.mp before)
      · exact .inr (by omega))
    refine ⟨same', ?_⟩
    rcases toward k with stayed | moved
    · rw [stayed]
      exact disk
    · exact .inr (moved.trans same')
  · obtain ⟨cached', inside⟩ := pouring.kept cached
    exact ⟨fun k present => (cached' k present).imp (same k), all ▸ inside⟩

/-- **`write_blocks`** writes its items, and the blocks around them. -/
theorem writeBlocks_spec (area : Area n) (base input : Nat) (coherent : Coherent w content)
    (two : 2 ≤ N) (divides : size ∣ 1024) (positive : 0 < size) {count : Nat}
    (fit : BlocksFit start (size * count))
    (fits : ∀ j < count, base + j * input + size ≤ n) :
    ∃ content' w', writeBlocks input size area base start count size w = .ok w' ∧
      Poured (records area.bytes base input size) start (size * count) content w content' w' := by
  obtain ⟨node, w₁, content₁, ran, pouring⟩ :=
    Pouring.first (records area.bytes base input size) (size * count) size coherent two fit.first
  have count' : 0 + count = count := Nat.zero_add count
  obtain ⟨q, block, dst, w₂, content₂, looped, pouring₂⟩ := writeItems_spec two divides positive
    count pouring (by rw [count']) fit (by rwa [count'])
  rw [count'] at pouring₂
  rw [Nat.zero_mul, Nat.add_zero, first_block start] at looped
  obtain ⟨w₃, wrote, poured⟩ := pouring₂.finish rfl
  refine ⟨content₂, w₃, ?_, poured⟩
  unfold writeBlocks
  rw [ran, called_some, ok_bind]
  dsimp only
  rw [looped, ok_bind]
  dsimp only
  rw [wrote]
  rfl

end Pouring

/-! ### The four regions -/

/-- Bytes to be written to the disk from a block on. -/
structure Region where
  start : UInt32
  len : Nat
  bytes : Memory

/-- What `sync_all` writes, in this order. -/
def syncRegions (g : Globals) : List Region :=
  [⟨kSuperBlockBNO, sizeofDSuperBlock,
      records g.g_super_block.bytes 0 sizeofDSuperBlock sizeofDSuperBlock⟩,
    ⟨imapStart, 1 * (num_inodes g.g_super_block.bytes / 8), records (Area.bytes g.g_imap.data_) 0 1 1⟩,
    ⟨zmapStart g.g_super_block.bytes, 1 * (num_zones g.g_super_block.bytes / 8),
      records (Area.bytes g.g_zmap.data_) 0 1 1⟩,
    ⟨inodeStart g.g_super_block.bytes, sizeofDInode * num_inodes g.g_super_block.bytes,
      records g.g_inode_table.bytes sizeofMInode sizeofMInode sizeofDInode⟩]

/-- The tables are near the beginning of the disk, behind the super block. -/
theorem syncRegions_near (g : Globals) (fit : CountsFit g.g_super_block.bytes) :
    ∀ s ∈ (syncRegions g).tail, 2 ≤ s.start.toNat ∧ s.start.toNat + s.len / 1024 < 2 ^ 26 := by
  have imaps : num_imap_blocks g.g_super_block.bytes < 65536 := load16_lt _ 4
  have zmaps : num_zmap_blocks g.g_super_block.bytes < 65536 := load16_lt _ 6
  obtain ⟨few, small⟩ := fit
  have isTwo : imapStart.toNat = 2 := rfl
  simp only [syncRegions, List.tail_cons, List.mem_cons, List.not_mem_nil, or_false, forall_eq_or_imp,
    forall_eq, isTwo, zmapStart_toNat, inodeStart_toNat, sizeofDInode]
  omega

/-- Regions written one after the other. -/
def PouredAll : List Region → (UInt32 → Block) → FsWorld N → (UInt32 → Block) → FsWorld N → Prop
  | [], content, w, content', w' => content' = content ∧ w' = w
  | r :: rs, content, w, content', w' => ∃ content₁ w₁,
      Poured r.bytes r.start r.len content w content₁ w₁ ∧ PouredAll rs content₁ w₁ content' w'

section Sync

variable {content : UInt32 → Block} {w : FsWorld N}

theorem syncSuperBlock_spec (coherent : Coherent w content) (two : 2 ≤ N) (g : Globals) :
    ∃ content' w', syncSuperBlock g w = .ok w' ∧
      Poured (records g.g_super_block.bytes 0 sizeofDSuperBlock sizeofDSuperBlock) kSuperBlockBNO
        sizeofDSuperBlock content w content' w' := by
  obtain ⟨node, w₁, content₁, ran, pouring⟩ := Pouring.first
    (records g.g_super_block.bytes 0 sizeofDSuperBlock sizeofDSuperBlock) sizeofDSuperBlock
    sizeofDSuperBlock coherent two (by decide : kSuperBlockBNO.toNat < 2 ^ 27)
  obtain ⟨mem, content₂, copied, pouring₂⟩ := pouring.copy (by decide) (by decide) (by decide)
  obtain ⟨w₃, wrote, poured⟩ := pouring₂.finish (Nat.mul_one _)
  rw [first_block] at wrote
  refine ⟨content₂, w₃, ?_, poured⟩
  simp only [Nat.zero_mul, Nat.add_zero] at copied
  simp only [syncSuperBlock, ran, called_some, ok_bind, copied, wrote]
  rfl

/-- The three regions behind the super block. -/
theorem syncTables_spec (coherent : Coherent w content) (two : 2 ≤ N) (g : Globals)
    (fit : CountsFit g.g_super_block.bytes) :
    ∃ content' w', (do let w ← syncImap g w; let w ← syncZmap g w; syncInodes g w) = .ok w' ∧
      PouredAll (syncRegions g).tail content w content' w' := by
  obtain ⟨few, small⟩ := id fit
  have near := syncRegions_near g fit
  simp only [syncRegions, List.tail_cons, List.mem_cons, List.not_mem_nil, or_false, forall_eq_or_imp,
    forall_eq] at near
  obtain ⟨imapNear, zmapNear, inodeNear⟩ := near
  obtain ⟨content₂, w₂, ran₂, poured₂⟩ := writeBlocks_spec g.g_imap.data_ 0 1 coherent two
    (by decide) (by decide) (blocksFit_of_near imapNear.2) fun j (below : j < num_inodes g.g_super_block.bytes / 8) => by
      have length : length_ 128 = 16 := rfl
      omega
  obtain ⟨content₃, w₃, ran₃, poured₃⟩ := writeBlocks_spec g.g_zmap.data_ 0 1 poured₂.coherent two
    (by decide) (by decide) (blocksFit_of_near zmapNear.2) fun j (below : j < num_zones g.g_super_block.bytes / 8) => by
      have length : length_ 10240 = 1280 := rfl
      omega
  obtain ⟨content₄, w₄, ran₄, poured₄⟩ := writeBlocks_spec g.g_inode_table sizeofMInode
    sizeofMInode poured₃.coherent two (by decide) (by decide) (blocksFit_of_near inodeNear.2)
    fun j (below : j < num_inodes g.g_super_block.bytes) => by
      simp only [sizeofDInode, sizeofMInode, kNumInodes]
      omega
  refine ⟨content₄, w₄, ?_, content₂, w₂, poured₂, content₃, w₃, poured₃, content₄, w₄, poured₄, rfl,
    rfl⟩
  rw [syncImap, ran₂, ok_bind, syncZmap, ran₃, ok_bind, syncInodes, ran₄]

/-- **`sync_all` writes the four regions**, when the counts fit the arrays. -/
theorem syncAll_spec (coherent : Coherent w content) (two : 2 ≤ N) (g : Globals)
    (fit : CountsFit g.g_super_block.bytes) :
    ∃ content' w', syncAll g w = .ok w' ∧ PouredAll (syncRegions g) content w content' w' := by
  obtain ⟨content₁, w₁, ran₁, poured₁⟩ := syncSuperBlock_spec coherent two g
  obtain ⟨content', w', ran', poured'⟩ := syncTables_spec poured₁.coherent two g fit
  refine ⟨content', w', ?_, content₁, w₁, poured₁, poured'⟩
  rw [syncAll, ran₁, ok_bind, ran']

end Sync

end Sprite.Fs

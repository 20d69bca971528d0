/-
**Loading a volume.**

* `Reading` — the invariant of the loop of `read_blocks`: the items before the current one have been
  copied, and the source is in the block that holds the current one, or at the end of the one before.
* `readBlocks_spec`, `readBlocks_outside` — the loop copies all items when they fit in the array, and
  leaves the array at the first one that does not.
* `initFs_spec` — what `init_fs` loads.
* `load_in_bounds_iff` — **exactly which volumes are loaded in bounds**.
* `one_inode_too_many` — a volume of 128 inodes is not.
-/
import Sprite.Fs.Metadata
import Sprite.Fs.Transparent

namespace Sprite.Fs

open Cache Ide

/-! ### Regions and records -/

/-- Byte `a` of the region that begins with a block. -/
def regionByte (content : UInt32 → Block) (start : UInt32) (a : Nat) : UInt8 :=
  content (start + UInt32.ofNat (a / 1024)) (Fin.ofNat 1024 a)

/-- The bytes of items of `size` bytes that lie `stride` bytes apart, one item behind the other. -/
def records (mem : Memory) (base stride size : Nat) : Memory := fun a =>
  mem (base + a / size * stride + a % size)

section Regions

variable {start : UInt32} {q : Nat}

theorem toNat_block (near : start.toNat + q < 2 ^ 27) :
    (start + UInt32.ofNat q).toNat = start.toNat + q := by
  rw [UInt32.toNat_add, UInt32.toNat_ofNat_of_lt' (by simp only [UInt32.size]; omega),
    Nat.mod_eq_of_lt (by omega)]

theorem fitsDisk_block (near : start.toNat + q < 2 ^ 27) : FitsDisk (start + UInt32.ofNat q) := by
  have bound : MAX_DISK_NSECS.toNat = 2 ^ 28 := rfl
  unfold FitsDisk
  rw [toNat_block near]
  omega

theorem next_block : start + UInt32.ofNat q + 1 = start + UInt32.ofNat (q + 1) := by
  rw [UInt32.add_assoc, UInt32.ofNat_add]
  rfl

theorem first_block (start : UInt32) : start + UInt32.ofNat 0 = start := UInt32.add_zero start

/-- The blocks that hold `len` bytes from a block on are blocks of the disk, the first one in any case. -/
def BlocksFit (start : UInt32) (len : Nat) : Prop :=
  ∀ q, q = 0 ∨ 1024 * q < len → start.toNat + q < 2 ^ 27

theorem BlocksFit.first {len : Nat} (fit : BlocksFit start len) : start.toNat < 2 ^ 27 := fit 0 (.inl rfl)

theorem BlocksFit.item {len a : Nat} (fit : BlocksFit start len) (inside : a < len) :
    start.toNat + a / 1024 < 2 ^ 27 := by
  refine fit (a / 1024) ?_
  omega

theorem blocksFit_of_near {len : Nat} (near : start.toNat + len / 1024 < 2 ^ 26) : BlocksFit start len := by
  intro q touched
  omega

/-- A byte of an item that lies inside one block. -/
theorem regionByte_item {content : UInt32 → Block} {src i size j : Nat}
    (place : 1024 * q + src = size * i) (inside : j < size) (within : src + size ≤ 1024) :
    regionByte content start (size * i + j)
      = content (start + UInt32.ofNat q) (Fin.ofNat 1024 (src + j)) := by
  have number : (size * i + j) / 1024 = q := by omega
  have byte : Fin.ofNat 1024 (size * i + j) = Fin.ofNat 1024 (src + j) := by
    ext
    simp only [Fin.val_ofNat]
    omega
  rw [regionByte, number, byte]

/-- An item ends where its block ends, or before. -/
theorem item_within {size i src : Nat} (divides : size ∣ 1024) (place : 1024 * q + src = size * i)
    (before : src < 1024) : src + size ≤ 1024 := by
  obtain ⟨m, whole⟩ := divides
  have multiple : size ∣ src := by
    refine (Nat.dvd_add_right (Dvd.dvd.mul_right ⟨m, whole⟩ q)).mp ?_
    rw [place]
    exact Nat.dvd_mul_right size i
  obtain ⟨k, rfl⟩ := multiple
  rw [whole] at before ⊢
  have less : k < m := Nat.lt_of_mul_lt_mul_left before
  calc size * k + size = size * (k + 1) := (Nat.mul_succ size k).symm
    _ ≤ size * m := Nat.mul_le_mul_left size less

end Regions

/-! ### The loop of `read_blocks` -/

section Reading

variable {N : Nat} [NeZero N] {n : Nat}

/-- **The invariant of the loop**, before item `i`. -/
structure Reading (content : UInt32 → Block) (start : UInt32) (output size base : Nat) (d₀ : Device)
    (i : Nat) (startBno : UInt32) (block : Ptr) (src : Nat) (area : Area n) (w : FsWorld N) :
    Prop where
  coherent : Coherent w content
  place : ∃ q, startBno = start + UInt32.ofNat q ∧ 1024 * q + src = size * i
  within : src ≤ 1024
  holds : w.cache.Holds startBno block
  toward : Toward content d₀ w.outside
  copied : ∀ a < size * i, records area.bytes base output size a = regionByte content start a

variable {content : UInt32 → Block} {start startBno : UInt32} {output size base i src : Nat}
  {d₀ : Device} {block : Ptr} {area : Area n} {w : FsWorld N}

/-- The source moves on to the block of the current item. -/
theorem Reading.advance (reading : Reading content start output size base d₀ i startBno block src area w)
    (two : 2 ≤ N) (divides : size ∣ 1024) (near : start.toNat + size * i / 1024 < 2 ^ 27) :
    ∃ startBno' block' src' w', nextSource startBno block src w = .ok (startBno', block', src', w') ∧
      Reading content start output size base d₀ i startBno' block' src' area w' ∧
      src' + size ≤ 1024 := by
  obtain ⟨q, isBlock, place⟩ := reading.place
  by_cases ended : kBlockSize ≤ src
  · have all : src = 1024 := Nat.le_antisymm reading.within ended
    have fits : FitsDisk (startBno + 1) := by
      rw [isBlock, next_block]
      exact fitsDisk_block (by omega)
    obtain ⟨node, w', ran, holds, _, coherent, toward⟩ :=
      reading.coherent.read two fits (.inl rfl)
    have place' : 1024 * (q + 1) + 0 = size * i := by omega
    refine ⟨startBno + 1, node, 0, w', ?_, ⟨coherent, ⟨q + 1, ?_, place'⟩, Nat.zero_le _, holds,
      reading.toward.trans toward, reading.copied⟩, item_within divides place' (by decide)⟩
    · rw [nextSource, if_pos ended, ran]
      rfl
    · rw [isBlock, next_block]
  · refine ⟨startBno, block, src, w, ?_, reading, item_within divides place (Nat.not_le.mp ended)⟩
    rw [nextSource, if_neg ended]
    rfl

/-- The current item is copied. -/
theorem Reading.copy (reading : Reading content start output size base d₀ i startBno block src area w)
    (within : src + size ≤ 1024) (positive : 0 < size) (spread : size ≤ output)
    (fits : base + i * output + size ≤ n) :
    ∃ area', area.copyIn (base + i * output) (w.cache.value block).bytes src size = .ok area' ∧
      Reading content start output size base d₀ (i + 1) startBno block (src + size) area' w := by
  refine ⟨_, if_pos fits, reading.coherent, ?_, within, reading.holds, reading.toward, fun a inside => ?_⟩
  · obtain ⟨q, isBlock, place⟩ := reading.place
    refine ⟨q, isBlock, ?_⟩
    rw [← Nat.add_assoc, place, Nat.mul_succ]
  have split := Nat.div_add_mod a size
  have small := Nat.mod_lt a positive
  have isByte : ∀ b, b < n → Area.bytes (fun i' : Fin n => memcpy area.bytes (base + i * output)
      (w.cache.value block).bytes src size i') b
      = memcpy area.bytes (base + i * output) (w.cache.value block).bytes src size b :=
    fun b less => dif_pos less
  rcases Nat.lt_or_ge a (size * i) with old | new
  · have earlier : a / size < i := Nat.div_lt_of_lt_mul old
    have spaced : (a / size + 1) * output ≤ i * output := Nat.mul_le_mul_right output earlier
    rw [Nat.succ_mul] at spaced
    rw [records, isByte _ (by omega), memcpy_apply, if_neg (by omega)]
    exact reading.copied a old
  · have index : a / size = i := by
      refine Nat.div_eq_of_lt_le ?_ ?_
      · rwa [Nat.mul_comm]
      · rwa [Nat.mul_comm]
    obtain ⟨q, isBlock, place⟩ := reading.place
    rw [index] at split
    have data := (reading.coherent.cached startBno block reading.holds).2
    rw [records, index, isByte _ (by omega), memcpy_apply, if_pos (by omega), ← split,
      regionByte_item place small within, ← isBlock, ← data, Nat.add_sub_cancel_left]
    have inBlock : src + (size * i + a % size) % size < 1024 := by
      rw [Nat.mul_add_mod, Nat.mod_mod]
      omega
    rw [Nat.mul_add_mod, Nat.mod_mod] at inBlock ⊢
    rw [BlockBuffer.bytes, dif_pos inBlock]
    exact congrArg _ (Fin.ext (Nat.mod_eq_of_lt inBlock).symm)

/-- Before the first item the first block is read. -/
theorem reading_begins (area : Area n) (output size base : Nat) (coherent : Coherent w content)
    (two : 2 ≤ N) (near : start.toNat < 2 ^ 27) :
    ∃ node w₁, (∀ count, readBlocks size output start area base count size w
        = readItems size output size count start node 0 area (base + 0 * output) w₁) ∧
      Reading content start output size base w.outside 0 start node 0 area w₁ := by
  have place : FitsDisk start := first_block start ▸ fitsDisk_block (by omega)
  obtain ⟨node, w₁, ran, holds, _, coherent₁, toward⟩ := coherent.read two place (.inl rfl)
  refine ⟨node, w₁, fun count => ?_, coherent₁, ⟨0, (first_block start).symm, rfl⟩, Nat.zero_le _,
    holds, toward, fun a impossible => absurd impossible (by omega)⟩
  rw [readBlocks, ran, called_some, ok_bind, Nat.zero_mul, Nat.add_zero]

/-- The block of an item that is still to be copied is on the disk. -/
theorem nearer {count : Nat} (positive : 0 < size) (fit : BlocksFit start (size * (i + (count + 1)))) :
    start.toNat + size * i / 1024 < 2 ^ 27 :=
  fit.item (Nat.mul_lt_mul_of_pos_left (Nat.lt_add_of_pos_right (Nat.succ_pos count)) positive)

/-- **The loop**, when the items still to be copied fit in the array. -/
theorem readItems_spec (two : 2 ≤ N) (divides : size ∣ 1024) (positive : 0 < size)
    (spread : size ≤ output) (count : Nat) : ∀ {i startBno block src} {area : Area n} {w : FsWorld N},
    Reading content start output size base d₀ i startBno block src area w →
    BlocksFit start (size * (i + count)) →
    (∀ j < i + count, base + j * output + size ≤ n) →
    ∃ startBno' block' src' area' w',
      readItems size output size count startBno block src area (base + i * output) w
        = .ok (area', w') ∧
      Reading content start output size base d₀ (i + count) startBno' block' src' area' w' := by
  induction count with
  | zero => exact fun reading _ _ => ⟨_, _, _, _, _, rfl, reading⟩
  | succ count ih =>
    intro i startBno block src area w reading near fits
    obtain ⟨bno₁, block₁, src₁, w₁, advanced, reading₁, within⟩ :=
      reading.advance two divides (nearer positive near)
    obtain ⟨area₂, copied, reading₂⟩ :=
      reading₁.copy within positive spread (fits i (Nat.lt_add_of_pos_right (Nat.succ_pos count)))
    have count' : i + 1 + count = i + (count + 1) := by omega
    rw [← count'] at near fits ⊢
    obtain ⟨bno', block', src', area', w', ran, reading'⟩ := ih reading₂ near fits
    refine ⟨bno', block', src', area', w', ?_, reading'⟩
    simp only [readItems, advanced, ok_bind, copied]
    rw [← ran, Nat.succ_mul, Nat.add_assoc]

/-- **The loop**, when one of the items does not fit. -/
theorem readItems_outside (two : 2 ≤ N) (divides : size ∣ 1024) (positive : 0 < size)
    (spread : size ≤ output) (count : Nat) : ∀ {i startBno block src} {area : Area n} {w : FsWorld N},
    Reading content start output size base d₀ i startBno block src area w →
    BlocksFit start (size * (i + count)) →
    (∃ j, i ≤ j ∧ j < i + count ∧ n < base + j * output + size) →
    readItems size output size count startBno block src area (base + i * output) w
      = .error .outside := by
  induction count with
  | zero =>
    rintro i _ _ _ _ _ _ _ ⟨j, from_, below, _⟩
    omega
  | succ count ih =>
    rintro i startBno block src area w reading near ⟨j, from_, below, far⟩
    obtain ⟨bno₁, block₁, src₁, w₁, advanced, reading₁, within⟩ :=
      reading.advance two divides (nearer positive near)
    simp only [readItems, advanced, ok_bind]
    by_cases fits : base + i * output + size ≤ n
    · obtain ⟨area₂, copied, reading₂⟩ := reading₁.copy within positive spread fits
      have later : i + 1 ≤ j := by
        refine Nat.lt_of_le_of_ne from_ ?_
        rintro rfl
        omega
      have count' : i + 1 + count = i + (count + 1) := by omega
      rw [← count'] at near below
      have rest := ih reading₂ near ⟨j, later, below, far⟩
      rw [copied, ok_bind, ← rest, Nat.succ_mul, Nat.add_assoc]
    · rw [Area.copyIn, if_neg fits, error_bind]

/-- **`read_blocks` copies every item**, when the last one fits in the array. -/
theorem readBlocks_spec (area : Area n) (base : Nat) (coherent : Coherent w content) (two : 2 ≤ N)
    (divides : size ∣ 1024) (positive : 0 < size) (spread : size ≤ output) {count : Nat}
    (near : BlocksFit start (size * count))
    (fits : ∀ j < count, base + j * output + size ≤ n) :
    ∃ area' w', readBlocks size output start area base count size w = .ok (area', w') ∧
      Coherent w' content ∧ Toward content w.outside w'.outside ∧
      ∀ a < size * count, records area'.bytes base output size a = regionByte content start a := by
  obtain ⟨node, w₁, begins, reading⟩ :=
    reading_begins area output size base coherent two near.first
  have count' : 0 + count = count := Nat.zero_add count
  obtain ⟨_, _, _, area', w', looped, reading'⟩ :=
    readItems_spec two divides positive spread count reading (by rwa [count']) (by rwa [count'])
  rw [count'] at reading'
  exact ⟨area', w', (begins count).trans looped, reading'.coherent, reading'.toward, reading'.copied⟩

/-- **`read_blocks` leaves the array**, when some item does not fit. -/
theorem readBlocks_outside (area : Area n) (base : Nat) (coherent : Coherent w content)
    (two : 2 ≤ N) (divides : size ∣ 1024) (positive : 0 < size) (spread : size ≤ output)
    {count : Nat} (near : BlocksFit start (size * count))
    (far : ∃ j < count, n < base + j * output + size) :
    readBlocks size output start area base count size w = .error .outside := by
  obtain ⟨node, w₁, begins, reading⟩ :=
    reading_begins area output size base coherent two near.first
  have count' : 0 + count = count := Nat.zero_add count
  obtain ⟨j, below, far⟩ := far
  rw [begins count]
  exact readItems_outside two divides positive spread count reading (by rwa [count'])
    ⟨j, Nat.zero_le j, by rwa [count'], far⟩

end Reading

/-! ### `init_fs` -/

/-- The bytes of a block. -/
def blockBytes (data : Block) : Memory := fun a => data (Fin.ofNat 1024 a)

/-- The counts of a super block fit the arrays: inode 0 is not on the disk, and a bitmap is loaded in
whole bytes. -/
def CountsFit (sb : Memory) : Prop := num_inodes sb ≤ 127 ∧ num_zones sb / 8 ≤ 1280

instance (sb : Memory) : Decidable (CountsFit sb) := inferInstanceAs (Decidable (_ ∧ _))

/-- The global arrays hold what the disk has. -/
structure Loaded (content : UInt32 → Block) (g : Globals) : Prop where
  super : ∀ a < sizeofSuperBlock, g.g_super_block.bytes a = blockBytes (content kSuperBlockBNO) a
  inodes : ∀ a < sizeofDInode * num_inodes g.g_super_block.bytes,
    records g.g_inode_table.bytes sizeofMInode sizeofMInode sizeofDInode a
      = regionByte content (inodeStart g.g_super_block.bytes) a
  imap : ∀ a < num_inodes g.g_super_block.bytes / 8,
    records (Area.bytes g.g_imap.data_) 0 1 1 a = regionByte content imapStart a
  zmap : ∀ a < num_zones g.g_super_block.bytes / 8,
    records (Area.bytes g.g_zmap.data_) 0 1 1 a
      = regionByte content (zmapStart g.g_super_block.bytes) a

theorem load16_lt (mem : Memory) (a : Nat) : load16 mem a < 65536 := by
  have low := (mem a).toNat_lt
  have high := (mem (a + 1)).toNat_lt
  unfold load16
  omega

theorem zmapStart_toNat (sb : Memory) : (zmapStart sb).toNat = 2 + num_imap_blocks sb := by
  have small : num_imap_blocks sb < 65536 := load16_lt sb 4
  exact UInt32.toNat_ofNat_of_lt' (by simp only [UInt32.size]; omega)

theorem inodeStart_toNat (sb : Memory) :
    (inodeStart sb).toNat = 2 + num_imap_blocks sb + num_zmap_blocks sb := by
  have small : num_imap_blocks sb < 65536 := load16_lt sb 4
  have small' : num_zmap_blocks sb < 65536 := load16_lt sb 6
  exact UInt32.toNat_ofNat_of_lt' (by simp only [UInt32.size]; omega)

/-- Both records of a super block have the same fields at the same places. -/
theorem fields_eq {sb sb' : Memory} (same : ∀ a < 18, sb a = sb' a) :
    num_inodes sb = num_inodes sb' ∧ num_zones sb = num_zones sb' ∧ zmapStart sb = zmapStart sb' ∧
      inodeStart sb = inodeStart sb' := by
  have field : ∀ a, a + 1 < 18 → load16 sb a = load16 sb' a := by
    intro a inside
    rw [load16, load16, same a (by omega), same (a + 1) inside]
  have imap : num_imap_blocks sb = num_imap_blocks sb' := field 4 (by decide)
  have zmap : num_zmap_blocks sb = num_zmap_blocks sb' := field 6 (by decide)
  refine ⟨field 0 (by decide), field 2 (by decide), ?_, ?_⟩
  · rw [zmapStart, zmapStart, imap]
  · rw [inodeStart, inodeStart, imap, zmap]

/-- What `memcpy` loads of a block into the super block. -/
theorem super_loaded (area : Area sizeofSuperBlock) {block : BlockBuffer} {data : Block}
    (holds : block.data = data) :
    ∃ super, area.copyIn 0 block.bytes 0 sizeofSuperBlock = .ok super ∧
      ∀ a < sizeofSuperBlock, super.bytes a = blockBytes data a := by
  refine ⟨_, if_pos (Nat.le_of_eq (Nat.zero_add _)), fun a inside => ?_⟩
  have inBlock : 0 + (a - 0) < 1024 := by
    simp only [sizeofSuperBlock] at inside
    omega
  rw [Area.bytes, dif_pos inside]
  refine (memcpy_apply _ _ _ _ _ _).trans ?_
  rw [if_pos ⟨Nat.zero_le _, by rwa [Nat.zero_add]⟩, BlockBuffer.bytes, dif_pos inBlock, holds, blockBytes]
  refine congrArg _ (Fin.ext ?_)
  simp only [Fin.val_ofNat]
  omega

/-- Whatever the counts are, the tables end in front of the blocks that have no sector. -/
theorem tables_near (sb : Memory) :
    BlocksFit (inodeStart sb) (sizeofDInode * num_inodes sb) ∧
      BlocksFit imapStart (1 * (num_inodes sb / 8)) ∧ BlocksFit (zmapStart sb) (1 * (num_zones sb / 8)) := by
  have inodes : num_inodes sb < 65536 := load16_lt _ 0
  have zones : num_zones sb < 65536 := load16_lt _ 2
  have imaps : num_imap_blocks sb < 65536 := load16_lt _ 4
  have zmaps : num_zmap_blocks sb < 65536 := load16_lt _ 6
  have imapStart_toNat : imapStart.toNat = 2 := rfl
  unfold sizeofDInode
  refine ⟨blocksFit_of_near ?_, blocksFit_of_near ?_, blocksFit_of_near ?_⟩
  · rw [inodeStart_toNat]
    omega
  · rw [imapStart_toNat]
    omega
  · rw [zmapStart_toNat]
    omega

section Init

variable {N : Nat} [NeZero N] {w : FsWorld N} {content : UInt32 → Block}

/-- **What `init_fs` loads**, and when it leaves an array. -/
theorem initFs_spec (coherent : Coherent w content) (two : 2 ≤ N) (room : w.cache.count_ < N)
    (g : Globals) :
    if CountsFit (blockBytes (content kSuperBlockBNO)) then
      ∃ g' w', initFs g w = .ok (g', w') ∧ Coherent w' content ∧
        Toward content w.outside w'.outside ∧ Loaded content g'
    else initFs g w = .error .outside := by
  have uninstalled : (none : Option (UncacheCallback BlockBuffer N Device)) = some uncache ∨
      w.cache.count_ < N := .inr room
  obtain ⟨node, w₁, ran, holds, data, coherent₁, toward₁⟩ :=
    coherent.read two (by decide : FitsDisk kSuperBlockBNO) uninstalled
  obtain ⟨super, copied, isSuper⟩ := super_loaded g.g_super_block data
  have fields := fields_eq fun a (inside : a < 18) =>
    isSuper a (Nat.lt_trans inside (by decide : 18 < sizeofSuperBlock))
  obtain ⟨inodeNear, imapNear, zmapNear⟩ := tables_near super.bytes
  have fit : CountsFit (blockBytes (content kSuperBlockBNO)) ↔
      num_inodes super.bytes ≤ 127 ∧ num_zones super.bytes / 8 ≤ 1280 := by
    unfold CountsFit
    rw [fields.1, fields.2.1]
  by_cases few : num_inodes super.bytes ≤ 127
  · obtain ⟨area₂, w₂, ran₂, coherent₂, toward₂, inodes₂⟩ := readBlocks_spec g.g_inode_table
      sizeofMInode coherent₁ two (by decide) (by decide) (by decide : sizeofDInode ≤ sizeofMInode)
      inodeNear fun j below => by
        simp only [sizeofDInode, sizeofMInode, kNumInodes]
        omega
    obtain ⟨area₃, w₃, ran₃, coherent₃, toward₃, imap₃⟩ := readBlocks_spec g.g_imap.data_ 0
      coherent₂ two (by decide) (by decide) (Nat.le_refl 1) imapNear fun j below => by
        have length : length_ 128 = 16 := rfl
        omega
    by_cases small : num_zones super.bytes / 8 ≤ 1280
    · obtain ⟨area₄, w₄, ran₄, coherent₄, toward₄, zmap₄⟩ := readBlocks_spec g.g_zmap.data_ 0
        coherent₃ two (by decide) (by decide) (Nat.le_refl 1) zmapNear fun j below => by
          have length : length_ 10240 = 1280 := rfl
          omega
      rw [if_pos (fit.mpr ⟨few, small⟩)]
      refine ⟨⟨super, area₂, ⟨area₃⟩, ⟨area₄⟩⟩, w₄, ?_, coherent₄,
        ((toward₁.trans toward₂).trans toward₃).trans toward₄, isSuper, inodes₂, fun a inside => ?_,
        fun a inside => ?_⟩
      · simp only [initFs, ran, called_some, ok_bind, copied, ran₂, ran₃, ran₄, pure, Except.pure]
      · exact imap₃ a (by rwa [Nat.one_mul])
      · exact zmap₄ a (by rwa [Nat.one_mul])
    · have outside := readBlocks_outside g.g_zmap.data_ 0 coherent₃ two (by decide) (by decide)
        (Nat.le_refl 1) zmapNear ⟨1280, by omega, by decide⟩
      rw [if_neg (fun both => small (fit.mp both).2)]
      simp only [initFs, ran, called_some, ok_bind, copied, ran₂, ran₃, outside, error_bind]
  · have outside := readBlocks_outside g.g_inode_table sizeofMInode coherent₁ two (by decide)
      (by decide) (by decide : sizeofDInode ≤ sizeofMInode) inodeNear ⟨127, by omega, by decide⟩
    rw [if_neg (fun both => few (fit.mp both).1)]
    simp only [initFs, ran, called_some, ok_bind, copied, outside, error_bind]

/-- **Exactly which volumes are loaded in bounds**: every volume is loaded or leaves an array, and it
does not leave one if and only if its counts fit. -/
theorem load_in_bounds_iff (two : 2 ≤ N) (links : Ptr → Option Ptr) (key : Ptr → Key)
    (value : Ptr → BlockBuffer) {d : Device} (valid : d.valid = 1) (quiet : d.Quiet) (g : Globals) :
    initFs g ⟨LRUCache.fresh N links key value, d⟩ ≠ .error .outside ↔
      CountsFit (blockBytes (blockOf d.disk kSuperBlockBNO)) := by
  have spec := initFs_spec (fresh_coherent links key value valid quiet) two (Nat.pos_of_neZero N) g
  by_cases fit : CountsFit (blockBytes (blockOf d.disk kSuperBlockBNO))
  · rw [if_pos fit] at spec
    obtain ⟨g', w', ran, _⟩ := spec
    rw [ran]
    exact iff_of_true (fun impossible => by cases impossible) fit
  · rw [if_neg fit] at spec
    exact iff_of_false (not_not_intro spec) fit

end Init

/-! ### Volumes -/

/-- A disk of zeroes but for the first bytes of the super block. -/
def volume (sb : List UInt8) : Device :=
  { numbered with disk := fun s i => if s = 2 then sb.getD i 0 else 0 }

/-- The empty cache of the kernel over a volume. -/
def volumeWorld (sb : List UInt8) : FsWorld 307 :=
  ⟨LRUCache.fresh 307 (fun _ => none) (fun _ => 0) fun _ => ⟨fun _ => 0, 0, 0⟩, volume sb⟩

/-- The global arrays before anything has been loaded. -/
def noGlobals : Globals := ⟨fun _ => 0, fun _ => 0, ⟨fun _ => 0⟩, ⟨fun _ => 0⟩⟩

theorem volume_quiet (sb : List UInt8) : (volume sb).Quiet := fun _ =>
  (by decide : (0x50 : UInt8) &&& (STAT_DF ||| STAT_ERR) = 0)

/-- A volume of 32 inodes and 100 zones. -/
theorem small_volume_in_bounds :
    initFs noGlobals (volumeWorld [32, 0, 100, 0, 1, 0, 1, 0]) ≠ .error .outside ↔
      CountsFit (blockBytes (blockOf (volume [32, 0, 100, 0, 1, 0, 1, 0]).disk kSuperBlockBNO)) :=
  load_in_bounds_iff (by decide) _ _ _ rfl (volume_quiet _) _

/-- **One inode too many**, and one byte of zones too many. -/
theorem one_inode_too_many :
    initFs noGlobals (volumeWorld [128, 0, 100, 0, 1, 0, 1, 0]) = .error .outside ∧
      initFs noGlobals (volumeWorld [32, 0, 8, 40, 1, 0, 2, 0]) = .error .outside := by
  have outside : ∀ sb, ¬ CountsFit (blockBytes (blockOf (volume sb).disk kSuperBlockBNO)) →
      initFs noGlobals (volumeWorld sb) = .error .outside := by
    intro sb excess
    have spec := initFs_spec (fresh_coherent (N := 307) (fun _ => none) (fun _ => 0)
      (fun _ => ⟨fun _ => 0, 0, 0⟩) (d := volume sb) rfl (volume_quiet sb)) (by decide)
      (Nat.pos_of_neZero 307) noGlobals
    rwa [if_neg excess] at spec
  exact ⟨outside _ (by decide), outside _ (by decide)⟩

end Sprite.Fs

/-
**The bits of the two bitmaps**, in memory and on the disk.

The counts of a super block are bits, and `init_fs`, `sync_imap` and `sync_zmap` divide them by eight
for the copy loops.

* `readBlocks_beyond` — what lies behind the items of `read_blocks` keeps its bytes.
* `writeBlocks_congr` — `write_blocks` does not look at what lies behind its items.
* `LoadsBits`, `SavesBits` — every bit that a super block counts is loaded, and saved.
* `bits_round_trip_iff` — **every bit is loaded, and every bit is saved**, exactly when both counts are
  multiples of eight.
-/
import Sprite.Fs.Persistence
import Sprite.Fs.Walk

namespace Sprite.Fs

open Cache Ide

variable {N : Nat} [NeZero N]

/-! ### Behind the items -/

section Beyond

variable {n input output size : Nat}

theorem copyIn_beyond {area area' : Area n} {dst src b : Nat} {mem : Memory}
    (copied : area.copyIn dst mem src size = .ok area') (beyond : dst + size ≤ b) :
    area'.bytes b = area.bytes b := by
  unfold Area.copyIn at copied
  split at copied
  · cases copied
    by_cases inside : b < n
    · have isByte : Area.bytes (fun i : Fin n => memcpy area.bytes dst mem src size i) b
          = memcpy area.bytes dst mem src size b := dif_pos inside
      rw [isByte, memcpy_apply, if_neg (by omega)]
    · rw [Area.bytes, Area.bytes, dif_neg inside, dif_neg inside]
  · cases copied

/-- The loop keeps the bytes behind the last item. -/
theorem readItems_beyond (spread : size ≤ output) {b : Nat} (count : Nat) :
    ∀ {startBno block src dst} {area area' : Area n} {w w' : FsWorld N},
    readItems input output size count startBno block src area dst w = .ok (area', w') →
    dst + count * output ≤ b → area'.bytes b = area.bytes b := by
  induction count with
  | zero =>
    intro startBno block src dst area area' w w' ran _
    cases ran
    rfl
  | succ count ih =>
    intro startBno block src dst area area' w w' ran beyond
    rw [Nat.succ_mul] at beyond
    obtain ⟨⟨bno₁, block₁, src₁, w₁⟩, _, ran⟩ := bind_eq_ok ran
    obtain ⟨area₁, copied, ran⟩ := bind_eq_ok ran
    rw [ih ran (by omega), copyIn_beyond copied (by omega)]

/-- **`read_blocks` keeps the bytes behind its items.** -/
theorem readBlocks_beyond (spread : size ≤ output) {startBno : UInt32} {dst count b : Nat}
    {area area' : Area n} {w w' : FsWorld N}
    (ran : readBlocks input output startBno area dst count size w = .ok (area', w'))
    (beyond : dst + count * output ≤ b) : area'.bytes b = area.bytes b := by
  obtain ⟨⟨block, w₁⟩, _, ran⟩ := bind_eq_ok ran
  exact readItems_beyond spread count ran beyond

/-- The loop does not look behind the last item. -/
theorem writeItems_congr (spread : size ≤ input) {area area' : Area n} (count : Nat) :
    ∀ {src outputBno block dst} {w : FsWorld N},
    (∀ b < src + count * input, area.bytes b = area'.bytes b) →
    writeItems input output size area count src outputBno block dst w
      = writeItems input output size area' count src outputBno block dst w := by
  induction count with
  | zero => exact fun _ => rfl
  | succ count ih =>
    intro src outputBno block dst w same
    rw [Nat.succ_mul] at same
    have item : ∀ (mem : Memory) dst, area.copyOut src mem dst size = area'.copyOut src mem dst size := by
      intro mem dst
      have copied : memcpy mem dst area.bytes src size = memcpy mem dst area'.bytes src size := by
        funext a
        rw [memcpy_apply, memcpy_apply]
        split_ifs with inside
        · exact same _ (by omega)
        · rfl
      rw [Area.copyOut, Area.copyOut, copied]
    have rest : ∀ outputBno block dst (w : FsWorld N),
        writeItems input output size area count (src + input) outputBno block dst w
          = writeItems input output size area' count (src + input) outputBno block dst w :=
      fun _ _ _ _ => ih fun b below => same b (by omega)
    simp only [writeItems, item, rest]

/-- **`write_blocks` does not look behind its items.** -/
theorem writeBlocks_congr (spread : size ≤ input) {area area' : Area n} {src count : Nat}
    (same : ∀ b < src + count * input, area.bytes b = area'.bytes b) (outputBno : UInt32) (w : FsWorld N) :
    writeBlocks input output area src outputBno count size w
      = writeBlocks input output area' src outputBno count size w := by
  unfold writeBlocks
  simp only [writeItems_congr spread count same]

end Beyond

/-- `init_fs` keeps the bytes of both bitmaps that are behind the counts. -/
theorem initFs_beyond {g g' : Globals} {w w' : FsWorld N} (ran : initFs g w = .ok (g', w')) :
    (∀ b, num_inodes g'.g_super_block.bytes / 8 ≤ b →
      Area.bytes g'.g_imap.data_ b = Area.bytes g.g_imap.data_ b) ∧
    ∀ b, num_zones g'.g_super_block.bytes / 8 ≤ b →
      Area.bytes g'.g_zmap.data_ b = Area.bytes g.g_zmap.data_ b := by
  obtain ⟨⟨block, w₁⟩, _, ran⟩ := bind_eq_ok ran
  obtain ⟨super, _, ran⟩ := bind_eq_ok ran
  obtain ⟨⟨inodes, w₂⟩, _, ran⟩ := bind_eq_ok ran
  obtain ⟨⟨imap, w₃⟩, ran₃, ran⟩ := bind_eq_ok ran
  obtain ⟨⟨zmap, w₄⟩, ran₄, ran⟩ := bind_eq_ok ran
  cases ran
  refine ⟨fun b beyond => readBlocks_beyond (Nat.le_refl 1) ran₃ ?_,
    fun b beyond => readBlocks_beyond (Nat.le_refl 1) ran₄ ?_⟩
  · rwa [Nat.zero_add, Nat.mul_one]
  · rwa [Nat.zero_add, Nat.mul_one]

/-! ### The bits that a super block counts -/

/-- Bit `k` of a bitmap, when the bits of a byte are numbered in this order. -/
def bitOf (order : Nat → Fin 8) (mem : Memory) (k : Nat) : Bool := Bits.bit (mem (k / 8)) (order (k % 8))

/-- **Every bit that the super block counts** is the same in the arrays and in the blocks. -/
structure SameBits (order : Nat → Fin 8) (sb : Area sizeofSuperBlock) (g : Globals)
    (content : UInt32 → Block) : Prop where
  imap : ∀ k < num_inodes sb.bytes,
    bitOf order (Area.bytes g.g_imap.data_) k = bitOf order (regionByte content imapStart) k
  zmap : ∀ k < num_zones sb.bytes,
    bitOf order (Area.bytes g.g_zmap.data_) k = bitOf order (regionByte content (zmapStart sb.bytes)) k

/-- The super block of a disk. -/
def HasSuper (d : Device) (sb : Area sizeofSuperBlock) : Prop :=
  ∀ a < sizeofSuperBlock, blockBytes (blockOf d.disk kSuperBlockBNO) a = sb.bytes a

/-- **Every bit is loaded** by `init_fs`, whatever the disk has and the arrays had. -/
def LoadsBits (N : Nat) [NeZero N] (order : Nat → Fin 8) (sb : Area sizeofSuperBlock) : Prop :=
  ∀ (d : Device) (g₀ : Globals) (links : Ptr → Option Ptr) (key : Ptr → Key) (value : Ptr → BlockBuffer),
    d.valid = 1 → d.Quiet → HasSuper d sb →
    ∃ g w, initFs g₀ ⟨LRUCache.fresh N links key value, d⟩ = .ok (g, w) ∧
      SameBits order sb g (blockOf d.disk)

/-- **Every bit is saved** by `sync_imap` and `sync_zmap`, whatever the arrays have and the disk had. -/
def SavesBits (N : Nat) [NeZero N] (order : Nat → Fin 8) (sb : Area sizeofSuperBlock) : Prop :=
  ∀ (w : FsWorld N) (content : UInt32 → Block) (g : Globals), Coherent w content → g.g_super_block = sb →
    ∃ w₁ w₂, syncImap g w = .ok w₁ ∧ syncZmap g w₁ = .ok w₂ ∧
      SameBits order sb g (blockOf w₂.outside.disk)

/-- Both counts are whole bytes. -/
def WholeBytes (sb : Memory) : Prop := 8 ∣ num_inodes sb ∧ 8 ∣ num_zones sb

section Bits

variable {order : Nat → Fin 8} {sb : Area sizeofSuperBlock}

theorem bitOf_congr {mem mem' : Memory} {len k : Nat} (same : ∀ a < len / 8, mem a = mem' a)
    (whole : 8 ∣ len) (inside : k < len) : bitOf order mem k = bitOf order mem' k := by
  rw [bitOf, bitOf, same (k / 8) (by omega)]

/-- The first bit of the byte that a count ends in, when it does not end with a byte. -/
theorem cut_bit (order : Nat → Fin 8) {len : Nat} (cut : ¬ 8 ∣ len) :
    8 * (len / 8) < len ∧ ∀ mem, bitOf order mem (8 * (len / 8)) = Bits.bit (mem (len / 8)) (order 0) := by
  refine ⟨by omega, fun mem => ?_⟩
  rw [bitOf, Nat.mul_div_cancel_left _ (by decide), Nat.mul_mod_right]

/-- An array that is full of a byte from a place on. -/
def behind {n : Nat} (cut : Nat) (x : UInt8) : Area n := fun i => if i.val < cut then 0 else x

theorem behind_at {n cut : Nat} (inside : cut < n) (x : UInt8) : (behind cut x : Area n).bytes cut = x := by
  rw [Area.bytes, dif_pos inside, behind, if_neg (Nat.lt_irrefl cut)]

theorem behind_before {n cut b : Nat} (before : b < cut) (x : UInt8) :
    (behind cut x : Area n).bytes b = 0 := by
  unfold Area.bytes behind
  split_ifs
  · rfl
  · rfl

/-- Arrays that are full of a byte behind the counts of the super block. -/
def tails (sb : Area sizeofSuperBlock) (x : UInt8) : Globals :=
  ⟨sb, fun _ => 0, ⟨behind (num_inodes sb.bytes / 8) x⟩, ⟨behind (num_zones sb.bytes / 8) x⟩⟩

/-- No byte has a bit that is the same as this bit of every byte. -/
theorem differs {stored : UInt8} {k : Fin 8} (same : ∀ x : UInt8, Bits.bit x k = Bits.bit stored k) :
    False := by
  have equal := (same 0).trans (same 255).symm
  rw [Bits.bit_zero, Bits.bit_ones] at equal
  cases equal

/-- A count is whole bytes when its bits stay the same for every byte that it could end in. -/
theorem whole_of_any (order : Nat → Fin 8) {len : Nat} (stored : Memory)
    (same : ¬ 8 ∣ len → ∀ x : UInt8, ∃ mem : Memory, mem (len / 8) = x ∧
      ∀ k < len, bitOf order mem k = bitOf order stored k) : 8 ∣ len := by
  by_contra cut
  obtain ⟨below, first⟩ := cut_bit order cut
  have never : ∀ x, Bits.bit x (order 0) = Bits.bit (stored (len / 8)) (order 0) := by
    intro x
    obtain ⟨mem, isByte, bits⟩ := same cut x
    have isBit := bits _ below
    rwa [first, first, isByte] at isBit
  exact differs never

/-- **The counts are whole bytes** when every bit is the same as in the same blocks for every way in which
the bytes behind the counts are filled. -/
theorem whole_of_tails (order : Nat → Fin 8) (content : UInt32 → Block)
    (inodes : num_inodes sb.bytes ≤ 127) (zones : num_zones sb.bytes ≤ 10240)
    (same : ∀ x, ∃ g, SameBits order sb g content ∧
      Area.bytes g.g_imap.data_ (num_inodes sb.bytes / 8)
        = Area.bytes (tails sb x).g_imap.data_ (num_inodes sb.bytes / 8) ∧
      Area.bytes g.g_zmap.data_ (num_zones sb.bytes / 8)
        = Area.bytes (tails sb x).g_zmap.data_ (num_zones sb.bytes / 8)) : WholeBytes sb.bytes := by
  constructor
  · refine whole_of_any order (regionByte content imapStart) fun cut x => ?_
    have length : length_ 128 = 16 := rfl
    obtain ⟨g, bits, imap, _⟩ := same x
    exact ⟨_, imap.trans (behind_at (by omega) x), bits.imap⟩
  · refine whole_of_any order (regionByte content (zmapStart sb.bytes)) fun cut x => ?_
    have length : length_ 10240 = 1280 := rfl
    obtain ⟨g, bits, _, zmap⟩ := same x
    exact ⟨_, zmap.trans (behind_at (by omega) x), bits.zmap⟩

theorem Area.eq_of_bytes {n : Nat} {area area' : Area n} (same : ∀ a < n, area.bytes a = area'.bytes a) :
    area = area' := by
  funext i
  have isByte := same i.val i.isLt
  rwa [Area.bytes, Area.bytes, dif_pos i.isLt, dif_pos i.isLt] at isByte

/-! ### Loading -/

/-- What `init_fs` leaves in the arrays. -/
theorem loads (two : 2 ≤ N) (inodes : num_inodes sb.bytes ≤ 127) (zones : num_zones sb.bytes ≤ 10240)
    {d : Device} (valid : d.valid = 1) (quiet : d.Quiet) (super : HasSuper d sb) (g₀ : Globals)
    (links : Ptr → Option Ptr) (key : Ptr → Key) (value : Ptr → BlockBuffer) :
    ∃ g w, initFs g₀ ⟨LRUCache.fresh N links key value, d⟩ = .ok (g, w) ∧
      Loaded (blockOf d.disk) g ∧ g.g_super_block = sb := by
  obtain ⟨sameInodes, sameZones, _, _⟩ := fields_eq fun a (inside : a < 18) =>
    super a (Nat.lt_trans inside (by decide))
  have spec := initFs_spec (fresh_coherent links key value valid quiet) two (Nat.pos_of_neZero N) g₀
  rw [if_pos (by rw [CountsFit, sameInodes, sameZones]; omega)] at spec
  obtain ⟨g, w, ran, _, _, loaded⟩ := spec
  exact ⟨g, w, ran, loaded, Area.eq_of_bytes fun a inside => (loaded.super a inside).trans (super a inside)⟩

theorem loads_whole (two : 2 ≤ N) (inodes : num_inodes sb.bytes ≤ 127)
    (zones : num_zones sb.bytes ≤ 10240) (whole : WholeBytes sb.bytes) : LoadsBits N order sb := by
  intro d g₀ links key value valid quiet super
  obtain ⟨g, w, ran, loaded, rfl⟩ := loads two inodes zones valid quiet super g₀ links key value
  refine ⟨g, w, ran, fun k inside => bitOf_congr (fun a within => ?_) whole.1 inside,
    fun k inside => bitOf_congr (fun a within => ?_) whole.2 inside⟩
  · have isByte := loaded.imap a within
    rwa [records_packed, Nat.zero_add] at isByte
  · have isByte := loaded.zmap a within
    rwa [records_packed, Nat.zero_add] at isByte

/-- A disk with a super block. -/
def carrying (sb : Area sizeofSuperBlock) : Device := image fun _ => List.ofFn sb

theorem carrying_super (sb : Area sizeofSuperBlock) : HasSuper (carrying sb) sb := by
  intro a inside
  have small : a % 1024 = a := Nat.mod_eq_of_lt (Nat.lt_trans inside (by decide))
  rw [blockBytes, carrying, blockOf_image, Fin.val_ofNat, small, Area.bytes, dif_pos inside,
    List.getD_eq_getElem?_getD, List.getElem?_ofFn, dif_pos inside, Option.getD_some]

theorem whole_of_loads (two : 2 ≤ N) (inodes : num_inodes sb.bytes ≤ 127)
    (zones : num_zones sb.bytes ≤ 10240) (all : LoadsBits N order sb) : WholeBytes sb.bytes := by
  have valid : (carrying sb).valid = 1 := rfl
  have quiet : (carrying sb).Quiet := image_quiet _
  have super := carrying_super sb
  refine whole_of_tails order (blockOf (carrying sb).disk) inodes zones fun x => ?_
  obtain ⟨g, w, ran, same⟩ := all (carrying sb) (tails sb x) (fun _ => none) (fun _ => 0)
    (fun _ => ⟨fun _ => 0, 0, 0⟩) valid quiet super
  obtain ⟨g', w', ran', _, isSuper⟩ := loads two inodes zones valid quiet super (tails sb x)
    (fun _ => none) (fun _ => 0) (fun _ => ⟨fun _ => 0, 0, 0⟩)
  cases ran.symm.trans ran'
  obtain ⟨imap, zmap⟩ := initFs_beyond ran
  rw [isSuper] at imap zmap
  exact ⟨g, same, imap _ (Nat.le_refl _), zmap _ (Nat.le_refl _)⟩

/-! ### Saving -/

/-- What `sync_imap` writes. -/
def imapRegion (g : Globals) : Region :=
  ⟨imapStart, 1 * (num_inodes g.g_super_block.bytes / 8), records (Area.bytes g.g_imap.data_) 0 1 1⟩

/-- What `sync_zmap` writes. -/
def zmapRegion (g : Globals) : Region :=
  ⟨zmapStart g.g_super_block.bytes, 1 * (num_zones g.g_super_block.bytes / 8),
    records (Area.bytes g.g_zmap.data_) 0 1 1⟩

theorem imapRegion_apart {g : Globals} (large : RegionsFit g.g_super_block.bytes)
    (zones : num_zones g.g_super_block.bytes ≤ 10240) : (imapRegion g).Apart (zmapRegion g) := by
  have isTwo : imapStart.toNat = 2 := rfl
  have imaps : num_imap_blocks g.g_super_block.bytes < 65536 := load16_lt _ 4
  obtain ⟨imapLarge, _⟩ := large
  refine Region.apart_of_before (fun a inside => ?_) ?_
  · simp only [imapRegion, zmapRegion, isTwo, zmapStart_toNat] at inside ⊢
    omega
  · simp only [zmapRegion, zmapStart_toNat]
    omega

/-- Both bitmaps are written, and the zone bitmap does not write over the inode bitmap. -/
theorem saves (two : 2 ≤ N) (inodes : num_inodes sb.bytes ≤ 127) (zones : num_zones sb.bytes ≤ 10240)
    (large : RegionsFit sb.bytes) {w : FsWorld N} {content : UInt32 → Block} (coherent : Coherent w content)
    {g : Globals} (super : g.g_super_block = sb) :
    ∃ w₁ w₂, syncImap g w = .ok w₁ ∧ syncZmap g w₁ = .ok w₂ ∧
      (∀ a < num_inodes sb.bytes / 8,
        regionByte (blockOf w₂.outside.disk) imapStart a = Area.bytes g.g_imap.data_ a) ∧
      ∀ a < num_zones sb.bytes / 8,
        regionByte (blockOf w₂.outside.disk) (zmapStart sb.bytes) a = Area.bytes g.g_zmap.data_ a := by
  subst super
  obtain ⟨_, imapNear, zmapNear⟩ := tables_near g.g_super_block.bytes
  obtain ⟨content₁, w₁, ran₁, poured₁⟩ := writeBlocks_spec g.g_imap.data_ 0 1 coherent two
    (by decide) (by decide) imapNear fun j below => by
      have length : length_ 128 = 16 := rfl
      omega
  obtain ⟨content₂, w₂, ran₂, poured₂⟩ := writeBlocks_spec g.g_zmap.data_ 0 1 poured₁.coherent two
    (by decide) (by decide) zmapNear fun j below => by
      have length : length_ 10240 = 1280 := rfl
      omega
  have imapWritten : (imapRegion g).Saved content₁ w₁ := Poured.saved poured₁
  have imapSaved := imapWritten.after (imapRegion_apart large zones) poured₂
  have zmapSaved : (zmapRegion g).Saved content₂ w₂ := Poured.saved poured₂
  refine ⟨w₁, w₂, ran₁, ran₂, fun a inside => ?_, fun a inside => ?_⟩
  · obtain ⟨isByte, onDisk⟩ := imapSaved a (by rwa [imapRegion, Nat.one_mul])
    have written := congrFun onDisk (Fin.ofNat 1024 a)
    have isData := records_packed (Area.bytes g.g_imap.data_) 0 1 a
    rw [Nat.zero_add] at isData
    exact (written.trans isByte).trans isData
  · obtain ⟨isByte, onDisk⟩ := zmapSaved a (by rwa [zmapRegion, Nat.one_mul])
    have written := congrFun onDisk (Fin.ofNat 1024 a)
    have isData := records_packed (Area.bytes g.g_zmap.data_) 0 1 a
    rw [Nat.zero_add] at isData
    exact (written.trans isByte).trans isData

theorem saves_whole (two : 2 ≤ N) (inodes : num_inodes sb.bytes ≤ 127)
    (zones : num_zones sb.bytes ≤ 10240) (large : RegionsFit sb.bytes) (whole : WholeBytes sb.bytes) :
    SavesBits N order sb := by
  intro w content g coherent super
  obtain ⟨w₁, w₂, ran₁, ran₂, imap, zmap⟩ := saves two inodes zones large coherent super
  exact ⟨w₁, w₂, ran₁, ran₂,
    fun k inside => (bitOf_congr imap whole.1 inside).symm,
    fun k inside => (bitOf_congr zmap whole.2 inside).symm⟩

/-- What the disk has afterwards does not depend on the bytes behind the counts. -/
theorem syncs_congr {g g' : Globals} (super : g.g_super_block = sb) (super' : g'.g_super_block = sb)
    (imap : ∀ b < num_inodes sb.bytes / 8, Area.bytes g.g_imap.data_ b = Area.bytes g'.g_imap.data_ b)
    (zmap : ∀ b < num_zones sb.bytes / 8, Area.bytes g.g_zmap.data_ b = Area.bytes g'.g_zmap.data_ b)
    (w : FsWorld N) : syncImap g w = syncImap g' w ∧ syncZmap g w = syncZmap g' w := by
  unfold syncImap syncZmap
  rw [super, super']
  constructor
  · exact writeBlocks_congr (Nat.le_refl 1) (fun b below => imap b (by omega)) _ w
  · exact writeBlocks_congr (Nat.le_refl 1) (fun b below => zmap b (by omega)) _ w

theorem whole_of_saves (inodes : num_inodes sb.bytes ≤ 127) (zones : num_zones sb.bytes ≤ 10240)
    (all : SavesBits N order sb) : WholeBytes sb.bytes := by
  have coherent := fresh_coherent (N := N) (fun _ => none) (fun _ => 0) (fun _ => ⟨fun _ => 0, 0, 0⟩)
    (d := carrying sb) rfl (image_quiet _)
  obtain ⟨w₁, w₂, ran₁, ran₂, _⟩ := all _ _ (tails sb 0) coherent rfl
  refine whole_of_tails order (blockOf w₂.outside.disk) inodes zones fun x => ?_
  obtain ⟨w₁', w₂', ran₁', ran₂', same⟩ := all _ _ (tails sb x) coherent rfl
  have equal : ∀ w : FsWorld N, syncImap (tails sb x) w = syncImap (tails sb 0) w ∧
      syncZmap (tails sb x) w = syncZmap (tails sb 0) w :=
    syncs_congr rfl rfl (fun b below => (behind_before below x).trans (behind_before below 0).symm)
      fun b below => (behind_before below x).trans (behind_before below 0).symm
  rw [(equal _).1] at ran₁'
  cases ran₁.symm.trans ran₁'
  rw [(equal _).2] at ran₂'
  cases ran₂.symm.trans ran₂'
  exact ⟨tails sb x, same, rfl, rfl⟩

/-- **Every bit that a super block counts is loaded**, and every one is saved, exactly when both counts
are multiples of eight. -/
theorem every_bit_iff (two : 2 ≤ N) (order : Nat → Fin 8) {sb : Area sizeofSuperBlock}
    (inodes : num_inodes sb.bytes ≤ 127) (zones : num_zones sb.bytes ≤ 10240)
    (large : RegionsFit sb.bytes) :
    (LoadsBits N order sb ↔ 8 ∣ num_inodes sb.bytes ∧ 8 ∣ num_zones sb.bytes) ∧
      (SavesBits N order sb ↔ 8 ∣ num_inodes sb.bytes ∧ 8 ∣ num_zones sb.bytes) :=
  ⟨⟨whole_of_loads two inodes zones, loads_whole two inodes zones⟩,
    whole_of_saves inodes zones, saves_whole two inodes zones large⟩

end Bits

/-- Bits are numbered from the lowest one of a byte on. -/
def lowestFirst (k : Nat) : Fin 8 := Fin.ofNat 8 k

/-- The super block of a volume with 16 inodes and 104 zones. -/
def wholeSuper : Area sizeofSuperBlock := fun i => [16, 0, 104, 0, 1, 0, 1, 0].getD i 0

/-- Such a volume keeps every bit. -/
theorem whole_bits_kept : LoadsBits 307 lowestFirst wholeSuper ∧ SavesBits 307 lowestFirst wholeSuper := by
  have large : RegionsFit wholeSuper.bytes := by constructor <;> decide
  obtain ⟨loaded, saved⟩ := every_bit_iff (N := 307) (by decide) lowestFirst (by decide) (by decide) large
  exact ⟨loaded.mpr (by decide), saved.mpr (by decide)⟩

/-- The super block of a volume with 12 inodes and 100 zones. -/
def twelveSuper : Area sizeofSuperBlock := fun i => [12, 0, 100, 0, 1, 0, 1, 0].getD i 0

/-- The volume, with all inodes in use. -/
def twelveInodes : Nat → List UInt8
  | 1 => [12, 0, 100, 0, 1, 0, 1, 0]
  | 2 => [0xFF, 0x0F]
  | _ => []

/-- **The last four of twelve bits are not loaded.** -/
theorem last_bits_lost :
    HasSuper (image twelveInodes) twelveSuper ∧
    ∃ g w, initFs noGlobals (freshWorld twelveInodes) = .ok (g, w) ∧ 8 < num_inodes twelveSuper.bytes ∧
      bitOf lowestFirst (Area.bytes g.g_imap.data_) 8 = false ∧
      bitOf lowestFirst (regionByte (blockOf (image twelveInodes).disk) imapStart) 8 = true := by
  have super : HasSuper (image twelveInodes) twelveSuper := by
    unfold HasSuper
    decide
  obtain ⟨g, w, ran, _, isSuper⟩ := loads (N := 307) (by decide) (by decide) (by decide) rfl
    (image_quiet twelveInodes) super noGlobals (fun _ => none) (fun _ => 0) fun _ => ⟨fun _ => 0, 0, 0⟩
  refine ⟨super, g, w, ran, by decide, ?_, by decide⟩
  obtain ⟨imap, _⟩ := initFs_beyond ran
  rw [isSuper] at imap
  have stays : Area.bytes g.g_imap.data_ 1 = Area.bytes noGlobals.g_imap.data_ 1 := imap 1 (by decide)
  rw [bitOf, stays]
  decide

end Sprite.Fs

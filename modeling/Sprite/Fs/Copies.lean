/-
**Arrays copied to blocks and back.**

`write_blocks` and `read_blocks` test whether a block has ended before they copy an item, by pointers into
a buffer. The items on the disk lie one behind the other, those in memory as far apart as their type is
large.

* `readBlocksAsking`, `writeBlocksAsking` — the two functions with what they return and the numbers of the
  blocks that they hand to the block layer, one for each call.
* `readBlocks_asks`, `writeBlocks_asks` — these are the blocks that the items lie in, and no others.
* `block_copy_round_trip` — **what has been written is read back**.
-/
import Sprite.Fs.Saving

namespace Sprite.Fs

open Cache Ide

variable {N : Nat} [NeZero N] {n : Nat}

/-! ### What the functions ask for and return

The buffers that the block layer answers are nodes of the cache, so that neither test for null ever
succeeds. -/

/-- The loop of `read_blocks`, with the blocks asked for. -/
def readItemsAsking (input output size : Nat) : Nat → UInt32 → Ptr → Nat → Area n → Nat →
    List UInt32 → FsWorld N → Except Halt (List UInt32 × Area n × FsWorld N)
  | 0, _, _, _, area, _, asked, w => return (asked, area, w)
  | count + 1, startBno, block, src, area, dst, asked, w => do
    let (nextBno, block, nextSrc, w) ← nextSource startBno block src w
    let area ← area.copyIn dst (w.cache.value block).bytes nextSrc size
    readItemsAsking input output size count nextBno block (nextSrc + input) area (dst + output)
      (if kBlockSize ≤ src then asked ++ [nextBno] else asked) w

/-- `read_blocks<Input, Output>`, with what it returns and the blocks it asks for. -/
def readBlocksAsking (input output : Nat) (startBno : UInt32) (area : Area n) (dst : Nat)
    (count size : Nat) (w : FsWorld N) : Except Halt (Bool × List UInt32 × Area n × FsWorld N) := do
  let (block, w) ← called (readBlock (some uncache) startBno w)
  let r ← readItemsAsking input output size count startBno block 0 area dst [startBno] w
  return (true, r)

/-- The loop of `write_blocks`, with the blocks asked for. -/
def writeItemsAsking (input output size : Nat) (area : Area n) : Nat → Nat → UInt32 → Ptr → Nat →
    List UInt32 → FsWorld N → Except Halt (List UInt32 × UInt32 × FsWorld N)
  | 0, _, outputBno, _, _, asked, w => return (asked, outputBno, w)
  | count + 1, src, outputBno, block, dst, asked, w => do
    let (nextBno, block, nextDst, w) ← nextTarget outputBno block dst w
    let mem ← area.copyOut src (w.cache.value block).bytes nextDst size
    writeItemsAsking input output size area count (src + input) nextBno block (nextDst + output)
      (if kBlockSize ≤ dst then asked ++ [outputBno, nextBno] else asked) (setBytes w block mem)

/-- `write_blocks<Input, Output>`, with what it returns and the blocks it asks for. -/
def writeBlocksAsking (input output : Nat) (area : Area n) (src : Nat) (outputBno : UInt32)
    (count size : Nat) (w : FsWorld N) : Except Halt (Bool × List UInt32 × FsWorld N) := do
  let (block, w) ← called (getBlock (some uncache) outputBno w)
  let (asked, lastBno, w) ←
    writeItemsAsking input output size area count src outputBno block 0 [outputBno] w
  let (_, w) ← called (writeBlock lastBno w)
  return (true, asked ++ [lastBno], w)

/-! ### Which blocks are asked for -/

/-- How many blocks `len` bytes take up. -/
def blockCount (len : Nat) : Nat := (len + 1023) / 1024

/-- The blocks from `q` on that come up for the remaining ones of `len` bytes. -/
def later (q len : Nat) : List Nat := List.range' (q + 1) (blockCount len - (q + 1))

section Asked

variable {start : UInt32} {size i q src len : Nat}

/-- When the items before lie in blocks up to `q`, no more blocks come up for them. -/
theorem later_nil (place : 1024 * q + src = len) (within : src ≤ 1024) : later q len = [] := by
  have none : blockCount len - (q + 1) = 0 := by
    unfold blockCount
    omega
  rw [later, none]
  rfl

/-- The next block comes up. -/
theorem later_cons (more : 1024 * (q + 1) < len) : later q len = (q + 1) :: later (q + 1) len := by
  have some : blockCount len - (q + 1) = blockCount len - (q + 1 + 1) + 1 := by
    unfold blockCount
    omega
  rw [later, some, List.range'_succ]
  rfl

/-- All of them are blocks that the bytes take up. -/
theorem mem_later {j : Nat} (member : j ∈ later q len) : j - 1 < blockCount len ∧ j < blockCount len := by
  obtain ⟨from_, below⟩ := List.mem_range'_1.mp member
  omega

/-- Where the current item is after the source or the target has moved on. -/
theorem moved_on (divides : size ∣ 1024) (place : 1024 * q + src = size * i) (before : src < 1024) :
    1024 * q + (src + size) = size * (i + 1) ∧ src + size ≤ 1024 := by
  refine ⟨?_, item_within divides place before⟩
  rw [← Nat.add_assoc, place, Nat.mul_succ]

theorem readItems_asks {output : Nat} (divides : size ∣ 1024) (positive : 0 < size) (count : Nat) :
    ∀ {i q src} (block : Ptr) (area : Area n) (dst : Nat) (asked : List UInt32) (w : FsWorld N),
    1024 * q + src = size * i → src ≤ 1024 →
    readItemsAsking size output size count (start + UInt32.ofNat q) block src area dst asked w
      = (fun r => (asked ++ (later q (size * (i + count))).map (start + UInt32.ofNat ·), r))
        <$> readItems size output size count (start + UInt32.ofNat q) block src area dst w := by
  induction count with
  | zero =>
    intro i q src block area dst asked w place within
    rw [Nat.add_zero, later_nil place within, List.map_nil, List.append_nil]
    rfl
  | succ count ih =>
    intro i q src block area dst asked w place within
    have more : size * i < size * (i + (count + 1)) :=
      Nat.mul_lt_mul_of_pos_left (Nat.lt_add_of_pos_right (Nat.succ_pos count)) positive
    have shift : i + 1 + count = i + (count + 1) := by omega
    unfold readItemsAsking readItems nextSource
    by_cases ended : kBlockSize ≤ src
    · obtain rfl : src = 1024 := Nat.le_antisymm within ended
      have place' : 1024 * (q + 1) + 0 = size * i := by omega
      obtain ⟨onward, within'⟩ := moved_on divides place' (by decide)
      simp only [if_pos ended, next_block]
      cases readBlock (some uncache) (start + UInt32.ofNat (q + 1)) w with
      | none => rfl
      | some r =>
        obtain ⟨block', w'⟩ := r
        simp only [called_some, ok_bind, pure, Except.pure]
        cases area.copyIn dst (w'.cache.value block').bytes 0 size with
        | error halt => rfl
        | ok area' =>
          rw [ok_bind, ok_bind, ih _ _ _ _ _ onward within', shift,
            later_cons (q := q) (by omega), List.map_cons, List.append_assoc]
          rfl
    · obtain ⟨onward, within'⟩ := moved_on divides place (Nat.not_le.mp ended)
      simp only [if_neg ended, pure, Except.pure, ok_bind]
      cases area.copyIn dst (w.cache.value block).bytes src size with
      | error halt => rfl
      | ok area' => rw [ok_bind, ok_bind, ih _ _ _ _ _ onward within', shift]

/-- The blocks asked for when the target moves on: the one that is written and the one that comes next. -/
def turns (start : UInt32) (blocks : List Nat) : List UInt32 :=
  blocks.flatMap fun j => [start + UInt32.ofNat (j - 1), start + UInt32.ofNat j]

theorem writeItems_asks {input : Nat} (area : Area n) (divides : size ∣ 1024) (positive : 0 < size)
    (count : Nat) : ∀ {i q dst} (src : Nat) (block : Ptr) (asked : List UInt32) (w : FsWorld N),
    1024 * q + dst = size * i → dst ≤ 1024 →
    writeItemsAsking input size size area count src (start + UInt32.ofNat q) block dst asked w
      = (fun r => (asked ++ turns start (later q (size * (i + count))), r))
        <$> writeItems input size size area count src (start + UInt32.ofNat q) block dst w := by
  induction count with
  | zero =>
    intro i q dst src block asked w place within
    rw [Nat.add_zero, later_nil place within, turns, List.flatMap_nil, List.append_nil]
    rfl
  | succ count ih =>
    intro i q dst src block asked w place within
    have more : size * i < size * (i + (count + 1)) :=
      Nat.mul_lt_mul_of_pos_left (Nat.lt_add_of_pos_right (Nat.succ_pos count)) positive
    have shift : i + 1 + count = i + (count + 1) := by omega
    unfold writeItemsAsking writeItems nextTarget
    by_cases ended : kBlockSize ≤ dst
    · obtain rfl : dst = 1024 := Nat.le_antisymm within ended
      have place' : 1024 * (q + 1) + 0 = size * i := by omega
      obtain ⟨onward, within'⟩ := moved_on divides place' (by decide)
      simp only [if_pos ended, next_block]
      cases writeBlock (start + UInt32.ofNat q) w with
      | none => rfl
      | some r =>
        obtain ⟨_, w₁⟩ := r
        simp only [called_some, ok_bind]
        cases getBlock (some uncache) (start + UInt32.ofNat (q + 1)) w₁ with
        | none => rfl
        | some r =>
          obtain ⟨block', w₂⟩ := r
          simp only [called_some, ok_bind, pure, Except.pure]
          cases area.copyOut src (w₂.cache.value block').bytes 0 size with
          | error halt => rfl
          | ok mem =>
            rw [ok_bind, ok_bind, ih _ _ _ _ onward within', shift, later_cons (q := q) (by omega), turns,
              turns, List.flatMap_cons, List.append_assoc]
            rfl
    · obtain ⟨onward, within'⟩ := moved_on divides place (Nat.not_le.mp ended)
      simp only [if_neg ended, pure, Except.pure, ok_bind]
      cases area.copyOut src (w.cache.value block).bytes dst size with
      | error halt => rfl
      | ok mem => rw [ok_bind, ok_bind, ih _ _ _ _ onward within', shift]

/-- A block of the range that `len` bytes take up from a block on. -/
def InRange (start : UInt32) (len : Nat) (bno : UInt32) : Prop :=
  ∃ q < blockCount len, bno = start + UInt32.ofNat q

/-- **`read_blocks` asks for the blocks of its items**, one after the other, and returns true. -/
theorem readBlocks_asks {output count : Nat} (divides : size ∣ 1024) (positive : 0 < size)
    (more : 1 ≤ count) (area : Area n) (dst : Nat) (w : FsWorld N) :
    readBlocksAsking size output start area dst count size w
      = (fun r => (true, (List.range (blockCount (size * count))).map (start + UInt32.ofNat ·), r))
        <$> readBlocks size output start area dst count size w := by
  have bytes : 0 < size * count := Nat.mul_pos positive more
  have all : List.range (blockCount (size * count)) = 0 :: later 0 (size * count) := by
    have first : blockCount (size * count) = blockCount (size * count) - (0 + 1) + 1 := by
      unfold blockCount
      omega
    rw [List.range_eq_range', first, List.range'_succ]
    rfl
  unfold readBlocksAsking readBlocks
  cases readBlock (some uncache) start w with
  | none => rfl
  | some r =>
    obtain ⟨block, w'⟩ := r
    have items : readItemsAsking size output size count (start + UInt32.ofNat 0) block 0 area dst [start] w'
        = _ := readItems_asks (i := 0) divides positive count block area dst [start] w'
          (Nat.mul_zero size).symm (Nat.zero_le _)
    rw [first_block, Nat.zero_add] at items
    simp only [called_some, ok_bind]
    rw [items, all, List.map_cons, first_block]
    cases readItems size output size count start block 0 area dst w' with
    | error halt => rfl
    | ok r => rfl

/-- `write_blocks`, without what it returns and the blocks it asks for. -/
theorem writeBlocks_asks {input count : Nat} (divides : size ∣ 1024) (positive : 0 < size)
    (area : Area n) (src : Nat) (w : FsWorld N) :
    writeBlocks input size area src start count size w
      = (fun r => r.2.2) <$> writeBlocksAsking input size area src start count size w := by
  unfold writeBlocksAsking writeBlocks
  cases getBlock (some uncache) start w with
  | none => rfl
  | some r =>
    obtain ⟨block, w'⟩ := r
    have items : writeItemsAsking input size size area count src (start + UInt32.ofNat 0) block 0 [start] w'
        = _ := writeItems_asks (i := 0) area divides positive count src block [start] w'
          (Nat.mul_zero size).symm (Nat.zero_le _)
    rw [first_block, Nat.zero_add] at items
    simp only [called_some, ok_bind]
    rw [items]
    cases writeItems input size size area count src start block 0 w' with
    | error halt => rfl
    | ok r =>
      obtain ⟨lastBno, w''⟩ := r
      simp only [Functor.map, Except.map, ok_bind]
      cases writeBlock lastBno w'' with
      | none => rfl
      | some r => rfl

theorem blockCount_pos (more : 0 < len) : 0 < blockCount len := by
  unfold blockCount
  omega

/-- The blocks that `write_blocks` asks for are those that the bytes take up. -/
theorem touched_lt (more : 0 < len) (touched : Touched len q) : q < blockCount len := by
  unfold blockCount
  rcases touched with rfl | inside
  · omega
  · omega

theorem blocksFit_of_count (more : 0 < len) (fit : start.toNat + blockCount len ≤ 2 ^ 27) :
    BlocksFit start len := by
  intro q touched
  have less := touched_lt more touched
  omega

theorem mem_turns {q : Nat} {bno : UInt32} (member : bno ∈ turns start (later q len)) :
    InRange start len bno := by
  obtain ⟨j, isLater, here⟩ := List.mem_flatMap.mp member
  obtain ⟨before, less⟩ := mem_later isLater
  rcases List.mem_pair.mp here with rfl | rfl
  · exact ⟨j - 1, before, rfl⟩
  · exact ⟨j, less, rfl⟩

/-- **`write_blocks` pours its items**, asks for the blocks of its range only, and returns true. -/
theorem writeBlocks_returns {w : FsWorld N} {content : UInt32 → Block} {input count : Nat} (area : Area n)
    (base : Nat) (coherent : Coherent w content) (two : 2 ≤ N) (divides : size ∣ 1024)
    (positive : 0 < size) (more : 1 ≤ count) (fit : start.toNat + blockCount (size * count) ≤ 2 ^ 27)
    (fits : ∀ j < count, base + j * input + size ≤ n) :
    ∃ asked content' w', writeBlocksAsking input size area base start count size w = .ok (true, asked, w') ∧
      (∀ bno ∈ asked, InRange start (size * count) bno) ∧
      Poured (records area.bytes base input size) start (size * count) content w content' w' := by
  have bytes : 0 < size * count := Nat.mul_pos positive more
  have fit := blocksFit_of_count bytes fit
  obtain ⟨node, w₁, content₁, ran, pouring⟩ :=
    Pouring.first (records area.bytes base input size) (size * count) size coherent two fit.first
  have count' : 0 + count = count := Nat.zero_add count
  obtain ⟨q, block, dst, w₂, content₂, looped, pouring₂⟩ := writeItems_spec two divides positive
    count pouring (by rw [count']) fit (by rwa [count'])
  have items : writeItemsAsking input size size area count base (start + UInt32.ofNat 0) node 0 [start] w₁
      = _ := writeItems_asks (i := 0) area divides positive count base node [start] w₁
        (Nat.mul_zero size).symm (Nat.zero_le _)
  rw [count'] at pouring₂ items
  rw [Nat.zero_mul, Nat.add_zero] at looped
  rw [looped, first_block] at items
  obtain ⟨w₃, wrote, poured⟩ := pouring₂.finish rfl
  refine ⟨[start] ++ turns start (later 0 (size * count)) ++ [start + UInt32.ofNat q], content₂, w₃, ?_,
    fun bno member => ?_, poured⟩
  · unfold writeBlocksAsking
    rw [ran, called_some, ok_bind]
    dsimp only
    rw [items]
    simp only [Functor.map, Except.map, ok_bind, wrote, called_some]
    rfl
  · rcases List.mem_append.mp member with front | last
    · rcases List.mem_append.mp front with first | turned
      · exact ⟨0, blockCount_pos bytes, (List.mem_singleton.mp first).trans (first_block start).symm⟩
      · exact mem_turns turned
    · exact ⟨q, touched_lt bytes pouring₂.touched, List.mem_singleton.mp last⟩

end Asked

/-- Byte `j` of item `i` in memory. -/
def itemByte (area : Area n) (base stride i j : Nat) : UInt8 := area.bytes (base + i * stride + j)

/-- The items in memory, as the bytes that lie behind one another on the disk. -/
theorem records_item (area : Area n) (base stride : Nat) {size i j : Nat} (inside : j < size) :
    records area.bytes base stride size (size * i + j) = itemByte area base stride i j := by
  have index : (size * i + j) / size = i := by
    rw [Nat.mul_add_div (Nat.lt_of_le_of_lt (Nat.zero_le j) inside), Nat.div_eq_of_lt inside, Nat.add_zero]
  rw [records, index, Nat.mul_add_mod, Nat.mod_eq_of_lt inside, itemByte]

theorem item_lt {size count i j : Nat} (item : i < count) (inside : j < size) :
    size * i + j < size * count := by
  calc size * i + j < size * i + size := Nat.add_lt_add_left inside _
    _ = size * (i + 1) := (Nat.mul_succ size i).symm
    _ ≤ size * count := Nat.mul_le_mul_left size item

/-- **What has been written is read back**, for every size that divides a block, every number of items, any
distance between the items in memory and every place of the disk. After `write_blocks` item `i` is on the
disk from byte `size * i` of the range on, and `read_blocks` brings its bytes back. Both return true and
ask for blocks of the range only. Of other blocks at most what had been changed in their buffers before
has come to the disk. -/
theorem block_copy_round_trip {n' : Nat} {w : FsWorld N} {content : UInt32 → Block}
    {start : UInt32} {size input output count base base' : Nat} (two : 2 ≤ N) (coherent : Coherent w content)
    (divides : size ∣ 1024) (wide : size ≤ input) (wide' : size ≤ output) (more : 1 ≤ count)
    (fit : start.toNat + blockCount (size * count) ≤ 2 ^ 27) (src : Area n) (fits : base + count * input ≤ n)
    (dst : Area n') (fits' : base' + count * output ≤ n') :
    ∃ asked content' w₁, writeBlocksAsking input size src base start count size w = .ok (true, asked, w₁) ∧
      Coherent w₁ content' ∧ (∀ bno ∈ asked, InRange start (size * count) bno) ∧
      (∀ i < count, ∀ j < size, regionByte (blockOf w₁.outside.disk) start (size * i + j)
        = itemByte src base input i j) ∧
      (∀ bno, ¬ InRange start (size * count) bno → content' bno = content bno ∧
        (blockOf w₁.outside.disk bno = blockOf w.outside.disk bno ∨
          blockOf w₁.outside.disk bno = content bno)) ∧
      ∃ asked' dst' w₂,
        readBlocksAsking size output start dst base' count size w₁ = .ok (true, asked', dst', w₂) ∧
        Coherent w₂ content' ∧ (∀ bno ∈ asked', InRange start (size * count) bno) ∧
        ∀ i < count, ∀ j < size, itemByte dst' base' output i j = itemByte src base input i j := by
  have positive : 0 < size := Nat.pos_of_ne_zero fun zero => by
    rw [zero] at divides
    exact absurd (Nat.eq_zero_of_zero_dvd divides) (by decide)
  have bytes : 0 < size * count := Nat.mul_pos positive more
  have inside : ∀ {base stride n : Nat}, size ≤ stride → base + count * stride ≤ n →
      ∀ j < count, base + j * stride + size ≤ n := fun {base stride n} wide fits j below => by
    have step : (j + 1) * stride ≤ count * stride := Nat.mul_le_mul_right stride below
    rw [Nat.succ_mul] at step
    omega
  obtain ⟨asked, content', w₁, wrote, asks, poured⟩ := writeBlocks_returns src base coherent two divides
    positive more fit (inside wide fits)
  obtain ⟨dst', w₂, read, coherent₂, _, loaded⟩ := readBlocks_spec dst base' poured.coherent two divides
    positive wide' (blocksFit_of_count bytes fit) (inside wide' fits')
  have answered : readBlocksAsking size output start dst base' count size w₁
      = .ok (true, (List.range (blockCount (size * count))).map (start + UInt32.ofNat ·), dst', w₂) := by
    rw [readBlocks_asks divides positive more, read]
    rfl
  refine ⟨asked, content', w₁, wrote, poured.coherent, asks, fun i item j within => ?_,
    fun bno other => poured.others bno fun q touched same => other ⟨q, touched_lt bytes touched, same⟩,
    _, dst', w₂, answered, coherent₂, fun bno member => ?_, fun i item j within => ?_⟩
  · have less := item_lt item within
    have touched : Touched (size * count) ((size * i + j) / 1024) := by
      unfold Touched
      omega
    rw [← records_item src base input within, ← poured.poured _ less, regionByte, regionByte,
      poured.settled _ touched]
  · obtain ⟨q, below, rfl⟩ := List.mem_map.mp member
    exact ⟨q, List.mem_range.mp below, rfl⟩
  · have less := item_lt item within
    rw [← records_item dst' base' output within, ← records_item src base input within, loaded _ less,
      poured.poured _ less]

/-- Forty records, as far apart as inodes in memory. -/
def fortyRecords : Area (40 * sizeofMInode) := fun a => UInt8.ofNat a.val

/-- They take up two blocks. A cache with two buffers is enough. -/
theorem forty_records_read_back : ∃ asked w₁ asked' dst' w₂,
    writeBlocksAsking sizeofMInode 32 fortyRecords 0 5 40 32
      (⟨LRUCache.fresh 2 (fun _ => none) (fun _ => 0) fun _ => ⟨fun _ => 0, 0, 0⟩, numbered⟩ : FsWorld 2)
        = .ok (true, asked, w₁) ∧
      readBlocksAsking 32 64 5 (fun _ => 0 : Area (40 * 64)) 0 40 32 w₁ = .ok (true, asked', dst', w₂) ∧
      ∀ i < 40, ∀ j < 32, itemByte dst' 0 64 i j = itemByte fortyRecords 0 sizeofMInode i j := by
  have coherent := fresh_coherent (N := 2) (fun _ => none) (fun _ => 0) (fun _ => ⟨fun _ => 0, 0, 0⟩)
    (d := numbered) rfl numbered_quiet
  obtain ⟨asked, _, w₁, wrote, _, _, _, _, asked', dst', w₂, read, _, _, same⟩ :=
    @block_copy_round_trip 2 _ (40 * sizeofMInode) (40 * 64) _ _ 5 32 sizeofMInode 64 40 0 0 (by decide)
      coherent (by decide) (by decide) (by decide) (by decide) (by decide) fortyRecords (by decide)
      (fun _ => 0) (by decide)
  exact ⟨asked, w₁, asked', dst', w₂, wrote, read, same⟩

end Sprite.Fs

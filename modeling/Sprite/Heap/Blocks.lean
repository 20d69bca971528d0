/-
**The blocks of the kernel heap.**

What the headers in memory stand for: a list of blocks laid end to end over the heap (`Tiled`). The
functions of the allocator are described once, as what they do to that list.

* `findBlock_none`, `findBlock_firstFit` — the search of `alloc` ends, at the lowest free block
  large enough or at the end of the heap.
* `takeBlock_tiled` — taking a block that leaves at least 4 bytes cuts it in two (or hands it out
  whole when exactly 4 bytes would remain).
* `takeBlock_exact_last` — an exact fit writes a header behind the block; behind the last block of
  the heap that header lies outside.
* `free_tiled_joined`, `free_tiled_alone` — `free` joins the block behind when it is free.
-/
import Sprite.Heap.ILAllocator
import Sprite.Lib.Tiling

namespace Sprite.Heap

open Words Tiling ImplicitListAllocator

/-- A block: its size without the header, which is even, and whether it is allocated. -/
structure Block where
  size : Nat
  used : Bool
  even : size % 2 = 0

namespace Block

/-- The header of a block. -/
def word (block : Block) : Nat := block.size + block.used.toNat

/-- The addresses a block takes, header included. -/
def width (block : Block) : Nat := block.size + 4

/-- A block `alloc` can take for a request of `size` bytes. -/
def Fits (block : Block) (size : Nat) : Prop := size ≤ block.size ∧ block.used = false

instance (block : Block) (size : Nat) : Decidable (block.Fits size) :=
  inferInstanceAs (Decidable (_ ∧ _))

/-- The block with the allocated bit set to `used`. -/
def mark (block : Block) (used : Bool) : Block := { block with used }

@[simp] theorem mark_size (block : Block) (used : Bool) : (block.mark used).size = block.size := rfl

@[simp] theorem mark_used (block : Block) (used : Bool) : (block.mark used).used = used := rfl

theorem width_pos (block : Block) : 4 ≤ block.width := Nat.le_add_left 4 block.size

end Block

/-- The address of a block's header, as the code holds it. -/
abbrev address (spot : Nat) : UInt32 := UInt32.ofNat spot

theorem toNat_address {spot : Nat} (small : spot < 2 ^ 32) : (address spot).toNat = spot := by
  rw [UInt32.toNat_ofNat']
  omega

/-- The headers of the blocks, laid end to end from `base`, are in memory. -/
def Headers (memory : Memory) (base : Nat) (blocks : List Block) : Prop :=
  ∀ spot block, (spot, block) ∈ place Block.width base blocks →
    (load32 memory (address spot)).toNat = block.word

/-- **The blocks tile the heap**: each header is in memory where the block stands, and the blocks
reach exactly from `mstart_` to `mend_`. -/
structure Tiled (heap : ImplicitListAllocator) (blocks : List Block) : Prop where
  headers : Headers heap.memory heap.mstart_.toNat blocks
  covers : heap.mstart_.toNat + span Block.width blocks = heap.mend_.toNat

theorem Headers.head {memory : Memory} {base : Nat} {block : Block} {blocks : List Block}
    (headers : Headers memory base (block :: blocks)) :
    (load32 memory (address base)).toNat = block.word :=
  headers base block List.mem_cons_self

theorem Headers.tail {memory : Memory} {base : Nat} {block : Block} {blocks : List Block}
    (headers : Headers memory base (block :: blocks)) :
    Headers memory (base + block.width) blocks :=
  fun spot block member => headers spot block (List.mem_cons_of_mem _ member)

/-! ### Reading a header -/

section Reading

variable {memory : Memory} {block : UInt32} {b : Block}

theorem toNat_sizeOfBlock (header : (load32 memory block).toNat = b.word) :
    (sizeOfBlock memory block).toNat = b.size := by
  have even := b.even
  rw [sizeOfBlock, toNat_clearLow, header, Block.word]
  cases b.used <;> simp only [Bool.toNat_false, Bool.toNat_true] <;> omega

theorem isAllocated_eq (header : (load32 memory block).toNat = b.word) :
    isAllocated memory block = b.used := by
  have even := b.even
  have low : (load32 memory block &&& 1).toNat = b.used.toNat := by
    rw [toNat_low, header, Block.word]
    cases b.used <;> simp only [Bool.toNat_false, Bool.toNat_true] <;> omega
  rw [isAllocated]
  cases used : b.used with
  | false =>
    rw [used] at low
    simpa using UInt32.toNat_inj.mp low
  | true =>
    rw [used] at low
    have one : load32 memory block &&& 1 = 1 := UInt32.toNat_inj.mp low
    rw [one]
    rfl

theorem toNat_nextBlock (header : (load32 memory block).toNat = b.word)
    (fits : block.toNat + b.width < 2 ^ 32) :
    (nextBlock memory block).toNat = block.toNat + b.width := by
  have size := toNat_sizeOfBlock header
  unfold Block.width at fits ⊢
  rw [nextBlock, UInt32.toNat_add, UInt32.toNat_add, size, show (4 : UInt32).toNat = 4 from rfl]
  omega

end Reading

/-! ### Writing a header -/

section Writing

variable {memory : Memory} {block size : UInt32}

theorem load32_record_free : load32 (record memory block size kFree) block = size := by
  rw [record, load32_store32, show kFree &&& 1 = 0 from rfl, UInt32.or_zero]

theorem toNat_load32_record_allocated (even : size.toNat % 2 = 0) :
    (load32 (record memory block size kAllocated) block).toNat = size.toNat + 1 := by
  rw [record, load32_store32, show kAllocated &&& 1 = 1 from rfl, toNat_setLow even]

/-- Writing one header leaves the bytes of the rest of the heap alone. -/
theorem record_frame {state place : UInt32}
    (outside : block.toNat + 4 ≤ place.toNat
      ∨ place.toNat < block.toNat ∧ block.toNat + 4 ≤ place.toNat + 2 ^ 32) :
    record memory block size state place = memory place :=
  store32_frame outside

/-- A header elsewhere is not affected by writing one. -/
theorem load32_record_other {state other : UInt32} (fits : other.toNat + 4 ≤ 2 ^ 32)
    (apart : block.toNat + 4 ≤ other.toNat
      ∨ other.toNat + 4 ≤ block.toNat ∧ block.toNat + 4 ≤ other.toNat + 2 ^ 32) :
    load32 (record memory block size state) other = load32 memory other := by
  refine load32_congr fits fun place above below => record_frame ?_
  omega

end Writing

/-! ### The search of `alloc` -/

section Search

variable {memory : Memory} {stop size : UInt32}

/-- One header of the walk: the block taken, or the walk from the next header. -/
theorem findBlock_cons {base fuel : Nat} {b : Block} (small : base + b.width ≤ stop.toNat)
    (header : (load32 memory (address base)).toNat = b.word) :
    findBlock memory stop size (fuel + 1) (address base) =
      if b.Fits size.toNat then some (some (address base))
      else findBlock memory stop size fuel (address (base + b.width)) := by
  have stop_small := stop.toNat_lt
  have wide := b.width_pos
  have here : (address base).toNat = base := toNat_address (by omega)
  have inside : address base ≠ stop := by
    intro same
    rw [same] at here
    omega
  have fitting : (sizeOfBlock memory (address base) ≥ size
      ∧ isAllocated memory (address base) = false) ↔ b.Fits size.toNat := by
    rw [isAllocated_eq header, ge_iff_le, UInt32.le_iff_toNat_le, toNat_sizeOfBlock header,
      Block.Fits]
  rw [findBlock, if_neg inside]
  by_cases fits : b.Fits size.toNat
  · rw [if_pos (fitting.mpr fits), if_pos fits]
  · rw [if_neg (fun both => fits (fitting.mp both)), if_neg fits]
    by_cases more : base + b.width < 2 ^ 32
    · congr 1
      apply UInt32.toNat_inj.mp
      rw [toNat_nextBlock header (by omega), here, toNat_address more]
    · omega

/-- A heap none of whose blocks fits is walked to its end. -/
theorem findBlock_none (blocks : List Block) : ∀ (base fuel : Nat),
    Headers memory base blocks → base + span Block.width blocks = stop.toNat → blocks.length < fuel →
    (∀ block ∈ blocks, ¬ block.Fits size.toNat) →
    findBlock memory stop size fuel (address base) = some none := by
  induction blocks with
  | nil =>
    intro base fuel _ covers enough _
    obtain ⟨fuel, rfl⟩ := Nat.exists_eq_succ_of_ne_zero (Nat.ne_of_gt (Nat.zero_lt_of_lt enough))
    have same : address base = stop := by
      rw [span_nil, Nat.add_zero] at covers
      rw [address, covers, UInt32.ofNat_toNat]
    rw [findBlock, if_pos same]
  | cons b blocks ih =>
    intro base fuel headers covers enough unfit
    obtain ⟨fuel, rfl⟩ := Nat.exists_eq_succ_of_ne_zero (Nat.ne_of_gt (Nat.zero_lt_of_lt enough))
    rw [span_cons] at covers
    rw [findBlock_cons (by omega) headers.head,
      if_neg (unfit b List.mem_cons_self)]
    exact ih _ fuel headers.tail
      (by omega) (by simpa using enough) fun block member =>
        unfit block (List.mem_cons_of_mem _ member)

/-- **The search ends at the lowest block that fits.** -/
theorem findBlock_firstFit (before : List Block) {b : Block} {after : List Block} :
    ∀ (base fuel : Nat),
    Headers memory base (before ++ b :: after) →
    base + span Block.width (before ++ b :: after) = stop.toNat → before.length < fuel →
    (∀ block ∈ before, ¬ block.Fits size.toNat) → b.Fits size.toNat →
    findBlock memory stop size fuel (address base)
      = some (some (address (base + span Block.width before))) := by
  induction before with
  | nil =>
    intro base fuel headers covers enough _ fits
    obtain ⟨fuel, rfl⟩ := Nat.exists_eq_succ_of_ne_zero (Nat.ne_of_gt (Nat.zero_lt_of_lt enough))
    rw [List.nil_append, span_cons] at covers
    rw [findBlock_cons (by omega) headers.head, if_pos fits, span_nil,
      Nat.add_zero]
  | cons c before ih =>
    intro base fuel headers covers enough unfit fits
    obtain ⟨fuel, rfl⟩ := Nat.exists_eq_succ_of_ne_zero (Nat.ne_of_gt (Nat.zero_lt_of_lt enough))
    rw [List.cons_append, span_cons] at covers
    rw [findBlock_cons (by omega) headers.head,
      if_neg (unfit c List.mem_cons_self), span_cons, ← Nat.add_assoc]
    exact ih _ fuel headers.tail
      (by omega) (by simpa using enough)
      (fun block member => unfit block (List.mem_cons_of_mem _ member)) fits

end Search

/-! ### Replacing a stretch of blocks -/

variable {heap : ImplicitListAllocator} {before old new after : List Block} {b c : Block}

theorem Tiled.stop_le (tiled : Tiled heap (before ++ old ++ after)) :
    heap.mstart_.toNat + span Block.width before + span Block.width old ≤ heap.mend_.toNat := by
  have covers := tiled.covers
  rw [span_append, span_append] at covers
  omega

/-- The header of a block in the middle of the list. -/
theorem Tiled.header (tiled : Tiled heap (before ++ b :: after)) :
    (load32 heap.memory (address (heap.mstart_.toNat + span Block.width before))).toNat = b.word :=
  tiled.headers _ _ (mem_place_middle Block.width before after b _)

/-- **A stretch of blocks rewritten in place.** New headers over the same addresses, and no byte of
the heap changed outside them: the blocks around keep their headers. -/
theorem Tiled.replace {memory' : Memory} (tiled : Tiled heap (before ++ old ++ after))
    (same : span Block.width new = span Block.width old)
    (fresh : Headers memory' (heap.mstart_.toNat + span Block.width before) new)
    (frame : ∀ spot : UInt32, heap.mstart_.toNat ≤ spot.toNat → spot.toNat < heap.mend_.toNat →
      spot.toNat < heap.mstart_.toNat + span Block.width before ∨
        heap.mstart_.toNat + span Block.width before + span Block.width old ≤ spot.toNat →
      memory' spot = heap.memory spot) :
    Tiled { heap with memory := memory' } (before ++ new ++ after) := by
  have small := heap.mend_.toNat_lt
  have covers := tiled.covers
  have kept : ∀ spot block, (spot, block) ∈ place Block.width heap.mstart_.toNat (before ++ old ++ after) →
      spot + block.width ≤ heap.mstart_.toNat + span Block.width before ∨
        heap.mstart_.toNat + span Block.width before + span Block.width old ≤ spot →
      (load32 memory' (address spot)).toNat = block.word := by
    intro spot block member apart
    have bounds := mem_place_bounds Block.width member
    have wide := block.width_pos
    have here : (address spot).toNat = spot := toNat_address (by omega)
    rw [← tiled.headers spot block member]
    congr 1
    exact load32_congr (by omega) fun place above below => frame place (by omega) (by omega) (by omega)
  refine ⟨fun spot block member => ?_, ?_⟩
  · rcases (mem_place_replace same).mp member with inBefore | inNew | inAfter
    · have bounds := mem_place_bounds Block.width inBefore
      exact kept spot block ((mem_place_replace rfl).mpr (Or.inl inBefore)) (Or.inl bounds.2)
    · exact fresh spot block inNew
    · have bounds := mem_place_bounds Block.width inAfter
      exact kept spot block ((mem_place_replace rfl).mpr (Or.inr (Or.inr inAfter)))
        (Or.inr bounds.1)
  · rw [span_append, span_append] at covers ⊢
    rw [same]
    exact covers

/-! ### Taking a block -/

/-- The blocks `alloc` leaves of a block it takes with at least 4 bytes to spare. -/
def Block.cut (block : Block) (size : Nat) (even : size % 2 = 0) : List Block :=
  if block.size - 4 - size = 0 then [block.mark true]
  else [⟨size, true, even⟩, ⟨block.size - 4 - size, false, by have := block.even; omega⟩]

theorem Block.span_cut {size : Nat} (even : size % 2 = 0) (room : size + 4 ≤ b.size) :
    span Block.width (b.cut size even) = b.width := by
  unfold Block.cut
  split
  · simp [Block.width]
  · simp only [span_cons, span_nil, Block.width]
    omega

section Take

variable {size : UInt32}

theorem toNat_remainSize {memory : Memory} {cur : UInt32}
    (header : (load32 memory cur).toNat = b.word) (room : size.toNat + 4 ≤ b.size) :
    (sizeOfBlock memory cur - 4 - size).toNat = b.size - 4 - size.toNat := by
  have value := toNat_sizeOfBlock header
  have small := (sizeOfBlock memory cur).toNat_lt
  rw [UInt32.toNat_sub, UInt32.toNat_sub, value, show (4 : UInt32).toNat = 4 from rfl]
  omega

/-- **Taking a block with room to spare** cuts it in two, or hands it out whole when exactly the 4
bytes of a header would remain. -/
theorem takeBlock_tiled (tiled : Tiled heap (before ++ b :: after))
    (even : size.toNat % 2 = 0) (room : size.toNat + 4 ≤ b.size) :
    Tiled { heap with
        memory := takeBlock heap.memory (address (heap.mstart_.toNat + span Block.width before)) size }
      (before ++ b.cut size.toNat even ++ after) := by
  have old : before ++ b :: after = before ++ [b] ++ after := by simp
  have header := tiled.header
  rw [old] at tiled
  have bound := tiled.stop_le
  have small := heap.mend_.toNat_lt
  simp only [span_cons, span_nil, Nat.add_zero] at bound
  set cur := heap.mstart_.toNat + span Block.width before with curDef
  have wide : b.width = b.size + 4 := rfl
  have here : (address cur).toNat = cur := toNat_address (by omega)
  have remain := toNat_remainSize header room
  have sizeValue := toNat_sizeOfBlock header
  have sliceValue : (sliceBlock (address cur) size).toNat = cur + size.toNat + 4 := by
    rw [sliceBlock, UInt32.toNat_add, UInt32.toNat_add, here, show (4 : UInt32).toNat = 4 from rfl]
    omega
  have bEven := b.even
  refine tiled.replace (by rw [Block.span_cut even room]; simp) ?_ fun spot above below outside => ?_
  · intro spot block member
    rw [← curDef] at member
    unfold Block.cut at member
    unfold takeBlock
    by_cases whole : b.size - 4 - size.toNat = 0
    · have zero : ¬ sizeOfBlock heap.memory (address cur) - 4 - size > 0 := by
        rw [gt_iff_lt, UInt32.lt_iff_toNat_lt, remain, whole]
        decide
      rw [if_pos whole] at member
      simp only [place_cons, place_nil, List.mem_singleton, Prod.mk.injEq] at member
      obtain ⟨rfl, rfl⟩ := member
      rw [if_neg zero, toNat_load32_record_allocated (by rw [sizeValue]; exact bEven), sizeValue]
      rfl
    · have positive : sizeOfBlock heap.memory (address cur) - 4 - size > 0 := by
        rw [gt_iff_lt, UInt32.lt_iff_toNat_lt, remain]
        exact Nat.pos_of_ne_zero whole
      rw [if_neg whole] at member
      simp only [place_cons, place_nil, List.mem_cons, List.not_mem_nil, or_false, Prod.mk.injEq,
        Block.width] at member
      rw [if_pos positive]
      rcases member with ⟨rfl, rfl⟩ | ⟨rfl, rfl⟩
      · rw [load32_record_other (by omega) (Or.inr (by omega)),
          toNat_load32_record_allocated even]
        rfl
      · have second : sliceBlock (address cur) size = address (cur + (size.toNat + 4)) := by
          apply UInt32.toNat_inj.mp
          rw [sliceValue, toNat_address (by omega)]
          omega
        rw [second, load32_record_free, remain]
        rfl
  · simp only [span_cons, span_nil, Nat.add_zero, ← curDef] at outside
    have apart : (address cur).toNat + 4 ≤ spot.toNat
        ∨ spot.toNat < (address cur).toNat ∧ (address cur).toNat + 4 ≤ spot.toNat + 2 ^ 32 := by
      omega
    unfold takeBlock
    split
    · rw [record_frame (by omega), record_frame apart]
    · exact record_frame apart

/-- An exact fit leaves a block of size `-4`, which is not 0. -/
theorem exact_remains {memory : Memory} {spot size : UInt32}
    (header : (load32 memory spot).toNat = b.word) (exact : size.toNat = b.size) :
    (sizeOfBlock memory spot - 4 - size).toNat = 0xFFFFFFFC ∧ sizeOfBlock memory spot - 4 - size > 0 := by
  have remain : (sizeOfBlock memory spot - 4 - size).toNat = 0xFFFFFFFC := by
    have small := size.toNat_lt
    rw [UInt32.toNat_sub, UInt32.toNat_sub, toNat_sizeOfBlock header, ← exact,
      show (4 : UInt32).toNat = 4 from rfl]
    omega
  refine ⟨remain, ?_⟩
  rw [gt_iff_lt, UInt32.lt_iff_toNat_lt, remain]
  decide

/-- **An exact fit at the end of the heap** marks the block and writes a header of size `-4` behind
it, at `mend_`. -/
theorem takeBlock_exact_last (tiled : Tiled heap (before ++ [b])) (exact : size.toNat = b.size)
    (apart : heap.mend_.toNat + 4 ≤ heap.mstart_.toNat + 2 ^ 32) :
    Tiled { heap with
        memory := takeBlock heap.memory (address (heap.mstart_.toNat + span Block.width before)) size }
      (before ++ [b.mark true]) := by
  have header := tiled.header
  have covers := tiled.covers
  have small := heap.mend_.toNat_lt
  simp only [span_append, span_cons, span_nil, Nat.add_zero] at covers
  set cur := heap.mstart_.toNat + span Block.width before with curDef
  have wide : b.width = b.size + 4 := rfl
  have here : (address cur).toNat = cur := toNat_address (by omega)
  obtain ⟨remain, positive⟩ := exact_remains header exact
  have sliceValue : (sliceBlock (address cur) size).toNat = heap.mend_.toNat := by
    rw [sliceBlock, UInt32.toNat_add, UInt32.toNat_add, here, show (4 : UInt32).toNat = 4 from rfl]
    omega
  have bEven := b.even
  unfold takeBlock
  rw [if_pos positive]
  rw [← List.append_nil (before ++ [b])] at tiled
  rw [← List.append_nil (before ++ [b.mark true])]
  refine tiled.replace (by simp [Block.width]) ?_ fun spot above below outside => ?_
  · intro spot block member
    simp only [← curDef, place_cons, place_nil, List.mem_singleton, Prod.mk.injEq] at member
    obtain ⟨rfl, rfl⟩ := member
    rw [load32_record_other (by omega) (Or.inr (by omega)),
      toNat_load32_record_allocated (by omega), exact]
    rfl
  · simp only [span_cons, span_nil, Nat.add_zero, ← curDef] at outside
    rw [record_frame (Or.inr (by omega)), record_frame (by omega)]

end Take

/-! ### Freeing a block -/

section Free

variable (before old after) in
/-- One free header written over a stretch of blocks of the same span. -/
theorem record_free_tiled (size : UInt32) (tiled : Tiled heap (before ++ old ++ after))
    (even : size.toNat % 2 = 0) (covers : span Block.width old = size.toNat + 4) :
    Tiled { heap with
        memory := record heap.memory (address (heap.mstart_.toNat + span Block.width before)) size kFree }
      (before ++ [⟨size.toNat, false, even⟩] ++ after) := by
  have bound := tiled.stop_le
  have small := heap.mend_.toNat_lt
  set cur := heap.mstart_.toNat + span Block.width before with curDef
  have here : (address cur).toNat = cur := toNat_address (by omega)
  refine tiled.replace (by simp [Block.width, covers]) ?_ fun spot above below outside => ?_
  · intro spot block member
    simp only [← curDef, place_cons, place_nil, List.mem_singleton, Prod.mk.injEq] at member
    obtain ⟨rfl, rfl⟩ := member
    rw [load32_record_free]
    rfl
  · rw [← curDef] at outside
    exact record_frame (by omega)

/-- Where `free` looks for the block behind. -/
theorem Tiled.nextBlock_eq (tiled : Tiled heap (before ++ b :: after)) :
    nextBlock heap.memory (address (heap.mstart_.toNat + span Block.width before))
      = address (heap.mstart_.toNat + span Block.width (before ++ [b])) := by
  have header := tiled.header
  have covers := tiled.covers
  have small := heap.mend_.toNat_lt
  simp only [span_append, span_cons, span_nil, Nat.add_zero] at covers ⊢
  have here : (address (heap.mstart_.toNat + span Block.width before)).toNat
      = heap.mstart_.toNat + span Block.width before := toNat_address (by omega)
  apply UInt32.toNat_inj.mp
  rw [toNat_nextBlock header (by omega), here, toNat_address (by omega), Nat.add_assoc]

variable {pos : UInt32}

/-- **`free` with a free block behind** joins the two. -/
theorem free_tiled_joined (tiled : Tiled heap (before ++ b :: c :: after))
    (here : pos - 4 = address (heap.mstart_.toNat + span Block.width before))
    (unused : c.used = false) :
    Tiled (heap.free pos) (before ++ [⟨b.size + 4 + c.size, false, by
      have := b.even; have := c.even; omega⟩] ++ after) := by
  have header := tiled.header
  have next := tiled.nextBlock_eq
  have regroup : before ++ b :: c :: after = (before ++ [b]) ++ c :: after := by simp
  have headerNext := (regroup ▸ tiled).header
  have covers := tiled.covers
  have small := heap.mend_.toNat_lt
  simp only [span_append, span_cons, Block.width] at covers
  have value : (sizeOfBlock heap.memory (address (heap.mstart_.toNat + span Block.width before)) + 4
      + sizeOfBlock heap.memory (address (heap.mstart_.toNat + span Block.width (before ++ [b])))).toNat
      = b.size + 4 + c.size := by
    rw [UInt32.toNat_add, UInt32.toNat_add, toNat_sizeOfBlock header, toNat_sizeOfBlock headerNext,
      show (4 : UInt32).toNat = 4 from rfl]
    omega
  unfold ImplicitListAllocator.free
  simp only [here, next, isAllocated_eq headerNext, unused, if_true]
  have joined := record_free_tiled before [b, c] after
    (sizeOfBlock heap.memory (address (heap.mstart_.toNat + span Block.width before)) + 4
      + sizeOfBlock heap.memory (address (heap.mstart_.toNat + span Block.width (before ++ [b]))))
    (by simpa using tiled) (by rw [value]; have := b.even; have := c.even; omega)
    (by rw [value]; simp only [span_cons, span_nil, Block.width]; omega)
  simpa only [value] using joined

variable (after) in
/-- Marking a block free in place. -/
theorem record_mark_tiled (size : UInt32) (tiled : Tiled heap (before ++ b :: after))
    (value : size.toNat = b.size) :
    Tiled { heap with
        memory := record heap.memory (address (heap.mstart_.toNat + span Block.width before)) size kFree }
      (before ++ [b.mark false] ++ after) := by
  have marked := record_free_tiled before [b] after size
    (by simpa using tiled) (by rw [value]; exact b.even) (by simp [Block.width, value])
  have same : ∀ even, (⟨size.toNat, false, even⟩ : Block) = b.mark false :=
    fun _ => by simp only [Block.mark, value]
  rwa [same] at marked

/-- **`free` with an allocated word behind** marks the block free and changes nothing else. -/
theorem free_tiled_alone (tiled : Tiled heap (before ++ b :: after))
    (here : pos - 4 = address (heap.mstart_.toNat + span Block.width before))
    (taken : isAllocated heap.memory (address (heap.mstart_.toNat + span Block.width (before ++ [b])))
      = true) :
    Tiled (heap.free pos) (before ++ [b.mark false] ++ after) := by
  unfold ImplicitListAllocator.free
  simp only [here, tiled.nextBlock_eq, taken, Bool.true_eq_false, if_false]
  exact record_mark_tiled after _ tiled (toNat_sizeOfBlock tiled.header)

/-- `free` of the last block when the word behind the heap is the header an exact fit leaves there:
adding its size `-4` and the 4 bytes of its header changes nothing. -/
theorem free_tiled_last (tiled : Tiled heap (before ++ [b]))
    (here : pos - 4 = address (heap.mstart_.toNat + span Block.width before))
    (word : load32 heap.memory heap.mend_ = 0xFFFFFFFC) :
    Tiled (heap.free pos) (before ++ [b.mark false]) := by
  have covers := tiled.covers
  have last : address (heap.mstart_.toNat + span Block.width (before ++ [b])) = heap.mend_ := by
    rw [covers, address, UInt32.ofNat_toNat]
  have small := (sizeOfBlock heap.memory
    (address (heap.mstart_.toNat + span Block.width before))).toNat_lt
  have unused : isAllocated heap.memory heap.mend_ = false := by rw [isAllocated, word]; rfl
  have size : sizeOfBlock heap.memory heap.mend_ = 0xFFFFFFFC := by rw [sizeOfBlock, word]; rfl
  unfold ImplicitListAllocator.free
  simp only [here, tiled.nextBlock_eq, last, unused, size, if_true]
  have marked := record_mark_tiled []
    (sizeOfBlock heap.memory (address (heap.mstart_.toNat + span Block.width before)) + 4
      + 0xFFFFFFFC) tiled (by
      rw [UInt32.toNat_add, UInt32.toNat_add, toNat_sizeOfBlock tiled.header,
        show (4 : UInt32).toNat = 4 from rfl, show (0xFFFFFFFC : UInt32).toNat = 4294967292 from rfl]
      rw [toNat_sizeOfBlock tiled.header] at small
      omega)
  simpa using marked

end Free

end Sprite.Heap

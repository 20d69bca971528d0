/-
**The header words the allocator touches.**

The functions of the allocator once more, with every access to memory recorded. `Twins` runs the same
calls over two memories that are the same inside the heap, and keeps the words touched.

Two calls reach behind the heap. A block at its end that fits a request exactly, or up to 2 bytes,
gets the header of a remainder that does not exist; and a block at its end that is freed gets a look
at the header of a block behind it. `KeepsInside` excludes both.

* `alloc_records`, `free_records` — the recorded functions do what the functions do.
* `accesses_inside_along_calls` — **every run**.
* `last_block_reaches_outside` — the two calls.
-/
import Sprite.Heap.FirstFit
import Sprite.Heap.Isolation
import Sprite.Lib.Accesses

namespace Sprite.Heap

open Words Tiling Runs ImplicitListAllocator

/-! ### The functions, recorded -/

namespace Accesses

def sizeOfBlock (block : UInt32) : Access UInt32 := do
  return (← Access.load block) &&& 0xFFFFFFFE

def isAllocated (block : UInt32) : Access Bool := do
  return (← Access.load block) &&& 1 != 0

def nextBlock (block : UInt32) : Access UInt32 := do
  return block + ((← sizeOfBlock block) + 4)

def record (block size allocated : UInt32) : Access Unit :=
  Access.store block (size ||| (allocated &&& 1))

/-- The condition in the loop of `alloc`: the allocated bit is looked at only when the size fits. -/
def takes (cur blockSize size : UInt32) : Access Bool :=
  if blockSize ≥ size then do return !(← isAllocated cur) else return false

/-- The loop of `alloc` up to the block it takes, with the size it has read there. -/
def findBlock (mend_ size : UInt32) : Nat → UInt32 → Access (Option (UInt32 × UInt32))
  | 0, _ => fun _ => none
  | fuel + 1, cur =>
      if cur = mend_ then return none
      else do
        let blockSize ← sizeOfBlock cur
        if ← takes cur blockSize size then return some (cur, blockSize)
        else findBlock mend_ size fuel (← nextBlock cur)

def takeBlock (cur blockSize size : UInt32) : Access Unit :=
  let remain := sliceBlock cur size
  let remainSize := blockSize - 4 - size
  if remainSize > 0 then do
    record cur size kAllocated
    record remain remainSize kFree
  else
    record cur blockSize kAllocated

def alloc (mstart_ mend_ size : UInt32) : Access (Option UInt32) := do
  let size := align2 size
  match ← findBlock mend_ size (2 ^ 32) mstart_ with
  | none => return none
  | some (cur, blockSize) => do
      takeBlock cur blockSize size
      return some (cur + 4)

def free (pos : UInt32) : Access Unit := do
  let block := pos - 4
  let next ← nextBlock block
  if (← isAllocated next) = false then
    let size ← sizeOfBlock block
    let next ← nextBlock block
    let nextSize ← sizeOfBlock next
    record block (size + 4 + nextSize) kFree
  else
    let size ← sizeOfBlock block
    record block size kFree

end Accesses

section Adequacy

variable (memory : Memory) (block : UInt32) {size : UInt32}

theorem sizeOfBlock_records :
    Records (Accesses.sizeOfBlock block) memory (sizeOfBlock memory block) memory [block] :=
  (Records.load block).map _

theorem isAllocated_records :
    Records (Accesses.isAllocated block) memory (isAllocated memory block) memory [block] :=
  (Records.load block).map _

theorem nextBlock_records :
    Records (Accesses.nextBlock block) memory (nextBlock memory block) memory [block] :=
  (sizeOfBlock_records memory block).map _

theorem record_records (allocated : UInt32) :
    Records (Accesses.record block size allocated) memory () (record memory block size allocated)
      [block] :=
  Records.store block _

variable {memory} {block}

theorem takes_records (memory : Memory) (cur size : UInt32) : ∃ touched,
    Records (Accesses.takes cur (sizeOfBlock memory cur) size) memory
        (decide (sizeOfBlock memory cur ≥ size ∧ isAllocated memory cur = false)) memory touched ∧
      ∀ word ∈ touched, word = cur := by
  unfold Accesses.takes
  by_cases large : sizeOfBlock memory cur ≥ size
  · rw [if_pos large]
    have looked := (isAllocated_records memory cur).map (! ·)
    have same : (!isAllocated memory cur)
        = decide (sizeOfBlock memory cur ≥ size ∧ isAllocated memory cur = false) := by
      rw [Bool.eq_iff_iff]
      simp [large]
    rw [same] at looked
    exact ⟨_, looked, fun word member => List.mem_singleton.mp member⟩
  · rw [if_neg large, decide_eq_false fun both => large both.1]
    exact ⟨[], Records.pure false, fun word member => (List.not_mem_nil member).elim⟩

/-- Taking a block touches its header and, if something remains, the header of that. -/
theorem takeBlock_records (memory : Memory) (cur size : UInt32) : ∃ touched,
    Records (Accesses.takeBlock cur (sizeOfBlock memory cur) size) memory ()
        (takeBlock memory cur size) touched ∧
      ∀ word ∈ touched, word = cur ∨
        word = sliceBlock cur size ∧ sizeOfBlock memory cur - 4 - size > 0 := by
  unfold Accesses.takeBlock takeBlock
  by_cases remains : sizeOfBlock memory cur - 4 - size > 0
  · simp only [if_pos remains]
    refine ⟨_, (record_records _ _ _).bind (record_records _ _ _), fun word member => ?_⟩
    simp only [List.singleton_append, List.mem_cons, List.not_mem_nil, or_false] at member
    rcases member with rfl | rfl
    · exact Or.inr ⟨rfl, remains⟩
    · exact Or.inl rfl
  · simp only [if_neg remains]
    exact ⟨_, record_records _ _ _, fun word member => Or.inl (List.mem_singleton.mp member)⟩

/-- The search reads only headers that the walk from the start of the heap reaches. -/
theorem findBlock_records {heap : ImplicitListAllocator} {found : Option UInt32} (fuel : Nat) :
    ∀ cur, (cur ≠ heap.mend_ → Reaches heap cur) →
      findBlock heap.memory heap.mend_ size fuel cur = some found → ∃ touched,
        Records (Accesses.findBlock heap.mend_ size fuel cur) heap.memory
            (found.map fun cur => (cur, sizeOfBlock heap.memory cur)) heap.memory touched ∧
          (∀ word ∈ touched, Reaches heap word) ∧ ∀ cur ∈ found, Reaches heap cur := by
  induction fuel with
  | zero => exact fun _ _ search => absurd search.symm (Option.some_ne_none found)
  | succ fuel ih =>
    intro cur reached search
    rw [findBlock] at search
    rw [Accesses.findBlock]
    by_cases stop : cur = heap.mend_
    · rw [if_pos stop] at search ⊢
      cases search
      exact ⟨[], Records.pure none, by simp, by simp⟩
    · rw [if_neg stop] at search ⊢
      have here := reached stop
      have size_read := sizeOfBlock_records heap.memory cur
      obtain ⟨looked, decided, only⟩ := takes_records heap.memory cur size
      by_cases fits : sizeOfBlock heap.memory cur ≥ size ∧ isAllocated heap.memory cur = false
      · rw [if_pos fits] at search
        cases search
        rw [decide_eq_true fits] at decided
        refine ⟨_, size_read.bind (decided.bind (Records.pure _)), fun word member => ?_, ?_⟩
        · simp only [List.nil_append, List.mem_append, List.mem_singleton] at member
          rcases member with member | rfl
          · rw [only word member]
            exact here
          · exact here
        · simpa using here
      · rw [if_neg fits] at search
        rw [decide_eq_false fits] at decided
        obtain ⟨later, records, reach, reach_found⟩ :=
          ih (nextBlock heap.memory cur) (fun more => here.next more) search
        refine ⟨_, size_read.bind (decided.bind ((nextBlock_records heap.memory cur).bind records)),
          fun word member => ?_, reach_found⟩
        simp only [List.mem_append, List.mem_singleton] at member
        rcases member with ((member | rfl) | member) | rfl
        · exact reach word member
        · exact here
        · rw [only word member]
          exact here
        · exact here

/-- **The recorded `alloc` does what `alloc` does**, on every heap, and touches the headers walked
over and that of a remainder. -/
theorem alloc_records {heap heap' : ImplicitListAllocator} {result : Option UInt32}
    (returned : heap.alloc size = some (result, heap')) : ∃ touched,
      Records (Accesses.alloc heap.mstart_ heap.mend_ size) heap.memory result heap'.memory touched ∧
        ∀ word ∈ touched, Reaches heap word ∨ ∃ cur, result = some (cur + 4)
          ∧ word = sliceBlock cur (align2 size) ∧ sizeOfBlock heap.memory cur - 4 - align2 size > 0 := by
  unfold ImplicitListAllocator.alloc at returned
  cases search : findBlock heap.memory heap.mend_ (align2 size) (2 ^ 32) heap.mstart_ with
  | none =>
    simp only [search] at returned
    cases returned
  | some found =>
    obtain ⟨walked, records, reach, reach_found⟩ :=
      findBlock_records (2 ^ 32) heap.mstart_ Reaches.first search
    simp only [search] at returned
    unfold Accesses.alloc
    cases found with
    | none =>
      cases returned
      exact ⟨_, records.bind (Records.pure none), fun word member => Or.inl (reach word member)⟩
    | some cur =>
      cases returned
      obtain ⟨taken, took, only⟩ := takeBlock_records heap.memory cur (align2 size)
      refine ⟨_, records.bind (took.bind (Records.pure _)), fun word member => ?_⟩
      simp only [List.nil_append, List.mem_append] at member
      rcases member with member | member
      · rcases only word member with rfl | ⟨rfl, remains⟩
        · exact Or.inl (reach_found _ rfl)
        · exact Or.inr ⟨cur, rfl, rfl, remains⟩
      · exact Or.inl (reach word member)

/-- **The recorded `free` does what `free` does**, and touches the header of the block and the one
behind it. -/
theorem free_records (heap : ImplicitListAllocator) (pos : UInt32) : ∃ touched,
    Records (Accesses.free pos) heap.memory () (heap.free pos).memory touched ∧
      ∀ word ∈ touched, word = pos - 4 ∨ word = nextBlock heap.memory (pos - 4) := by
  have next := nextBlock_records heap.memory (pos - 4)
  have looked := isAllocated_records heap.memory (nextBlock heap.memory (pos - 4))
  have size := sizeOfBlock_records heap.memory (pos - 4)
  have next_size := sizeOfBlock_records heap.memory (nextBlock heap.memory (pos - 4))
  unfold Accesses.free
  cases joins : isAllocated heap.memory (nextBlock heap.memory (pos - 4)) with
  | false =>
    rw [joins] at looked
    simp only [ImplicitListAllocator.free, joins, if_true]
    refine ⟨_, next.bind (looked.bind (size.bind (next.bind (next_size.bind
      (record_records _ _ kFree))))), ?_⟩
    simp
  | true =>
    rw [joins] at looked
    simp only [ImplicitListAllocator.free, joins, Bool.true_eq_false, if_false]
    refine ⟨_, next.bind (looked.bind (size.bind (record_records _ _ kFree))), ?_⟩
    simp

end Adequacy

/-! ### Two memories at once -/

/-- The words a call touches. -/
def accessed (heap : ImplicitListAllocator) : Call → List UInt32
  | .alloc size => (Accesses.alloc heap.mstart_ heap.mend_ size).words heap.memory
  | .free pos => (Accesses.free pos).words heap.memory
  | .write _ _ => []

/-- The same calls over two memories, and the header words they have touched. -/
structure Twins where
  here : Clients
  there : Clients
  words : List UInt32

namespace Twins

def start (memory memory' : Memory) (start stop : UInt32) : Twins where
  here := Clients.start memory start stop
  there := Clients.start memory' start stop
  words := []

def step (twins : Twins) (call : Call) : Option Twins := do
  let here ← twins.here.step call
  let there ← twins.there.step call
  return { here, there, words := accessed twins.here.heap call ++ twins.words }

theorem step_eq {twins : Twins} {call : Call} {here there : Clients}
    (first : twins.here.step call = some here) (second : twins.there.step call = some there) :
    twins.step call = some ⟨here, there, accessed twins.here.heap call ++ twins.words⟩ := by
  rw [step, first, second]
  rfl

/-- **The allocator stays inside its heap**: so does each word it has touched, and what lies outside
makes no difference to what was handed out and to what is in the heap. -/
structure StaysInside (start stop : UInt32) (twins : Twins) : Prop where
  words : ∀ word ∈ twins.words, start.toNat ≤ word.toNat ∧ word.toNat + 4 ≤ stop.toNat
  live : twins.there.live = twins.here.live
  same : SameOn (between start.toNat stop.toNat) twins.here.heap.memory twins.there.heap.memory

end Twins

/-- The calls that do not reach for a block behind the last one: an `alloc` whose first-fit block is
at least 4 bytes larger than the rounded request, or that finds no block, and a `free` of a block
that is not the last one. -/
def KeepsInside (heap : ImplicitListAllocator) : Call → Prop
  | .alloc size =>
      ∀ before block after, Tiled heap (before ++ block :: after) →
        (∀ other ∈ before, ¬ other.Fits (align2 size).toNat) → block.Fits (align2 size).toNat →
        (align2 size).toNat + 4 ≤ block.size
  | .free pos => nextBlock heap.memory (pos - 4) ≠ heap.mend_
  | .write _ _ => True

/-- Such calls are safe. -/
theorem KeepsInside.safeCall {clients : Clients} : ∀ {call : Call},
    KeepsInside clients.heap call → SafeCall clients call
  | .alloc _, keeps => fun before block after tiled unfit fits =>
      Or.inl (keeps before block after tiled unfit fits)
  | .free _, keeps => fun last => absurd last keeps
  | .write _ _, _ => trivial

section Call

variable {heap heap' : ImplicitListAllocator} {blocks : List Block} {memory memory' : Memory}
  {size pos word : UInt32}

/-- The header words of the blocks lie inside the heap. -/
theorem Tiled.header_inside (tiled : Tiled heap blocks)
    (header : ∃ block, (word.toNat, block) ∈ place Block.width heap.mstart_.toNat blocks) :
    heap.mstart_.toNat ≤ word.toNat ∧ word.toNat + 4 ≤ heap.mend_.toNat := by
  obtain ⟨block, placed⟩ := header
  have bounds := mem_place_bounds Block.width placed
  have wide := block.width_pos
  have covers := tiled.covers
  omega

/-- The blocks are those of every memory that is the same inside the heap. -/
theorem Tiled.of_sameOn (tiled : Tiled heap blocks)
    (same : SameOn (between heap.mstart_.toNat heap.mend_.toNat) heap.memory memory') :
    Tiled { heap with memory := memory' } blocks := by
  have covers := tiled.covers
  have small := heap.mend_.toNat_lt
  refine ⟨fun spot block placed => ?_, covers⟩
  have bounds := mem_place_bounds Block.width placed
  have wide := block.width_pos
  dsimp only at bounds
  have here : (address spot).toNat = spot := toNat_address (by omega)
  rw [← tiled.headers spot block placed]
  exact congrArg _ (same.load32_eq (by omega) (by omega) (by omega))

theorem takeBlock_sameOn {area : Set UInt32} {cur : UInt32} (same : SameOn area memory memory')
    (header : load32 memory' cur = load32 memory cur) :
    SameOn area (takeBlock memory cur size) (takeBlock memory' cur size) := by
  have sizes : sizeOfBlock memory' cur = sizeOfBlock memory cur := by
    rw [sizeOfBlock, header, sizeOfBlock]
  simp only [takeBlock, sizes]
  split
  · exact (same.store32 _ _).store32 _ _
  · exact same.store32 _ _

/-- **One `alloc` over two memories.** -/
theorem alloc_twins (size : UInt32) (tiled : Tiled heap blocks)
    (same : SameOn (between heap.mstart_.toNat heap.mend_.toNat) heap.memory memory') :
    ∃ result memory₁ memory₁', heap.alloc size = some (result, { heap with memory := memory₁ }) ∧
      ImplicitListAllocator.alloc { heap with memory := memory' } size
        = some (result, { heap with memory := memory₁' }) ∧
      SameOn (between heap.mstart_.toNat heap.mend_.toNat) memory₁ memory₁' := by
  have twin := tiled.of_sameOn same
  rcases firstFit_cases blocks (align2 size).toNat with unfit | ⟨before, block, after, rfl, unfit, fits⟩
  · exact ⟨none, heap.memory, memory', alloc_none tiled unfit, alloc_none twin unfit, same⟩
  · refine ⟨_, _, _, alloc_firstFit tiled unfit fits, alloc_firstFit twin unfit fits, ?_⟩
    refine takeBlock_sameOn same ?_
    apply UInt32.toNat_inj.mp
    rw [tiled.header]
    exact twin.header

/-- The words `alloc` touches. -/
theorem alloc_inside (tiled : Tiled heap blocks) (keeps : KeepsInside heap (.alloc size))
    (touches : word ∈ accessed heap (.alloc size)) :
    heap.mstart_.toNat ≤ word.toNat ∧ word.toNat + 4 ≤ heap.mend_.toNat := by
  have covers := tiled.covers
  have small := heap.mend_.toNat_lt
  rcases firstFit_cases blocks (align2 size).toNat with unfit | ⟨before, block, after, rfl, unfit, fits⟩
  · obtain ⟨touched, records, only⟩ := alloc_records (alloc_none tiled unfit)
    rw [accessed, records.words_eq] at touches
    rcases only word touches with reached | ⟨cur, absent, _⟩
    · exact tiled.header_inside (tiled.reaches reached)
    · exact absurd absent.symm (Option.some_ne_none _)
  · obtain ⟨touched, records, only⟩ := alloc_records (alloc_firstFit tiled unfit fits)
    rw [accessed, records.words_eq] at touches
    rcases only word touches with reached | ⟨cur, here, rfl, remains⟩
    · exact tiled.header_inside (tiled.reaches reached)
    · -- A remainder is at least 2 bytes and its header: 6 bytes of the block are left for it.
      have room := keeps before block after tiled unfit fits
      have same : cur = address (heap.mstart_.toNat + span Block.width before) :=
        (UInt32.add_left_inj 4).mp (Option.some.inj here).symm
      subst same
      have remain := toNat_remainSize tiled.header room
      have width : block.width = block.size + 4 := rfl
      have even := toNat_align2_even size
      have blockEven := block.even
      rw [span_append, span_cons] at covers
      rw [gt_iff_lt, UInt32.lt_iff_toNat_lt, remain] at remains
      have spot := toNat_address (by omega : heap.mstart_.toNat + span Block.width before < 2 ^ 32)
      rw [toNat_sliceBlock (by omega), spot]
      have zero : (0 : UInt32).toNat = 0 := rfl
      omega

/-- **One `free` over two memories**, which hold the same header of the block and behind it. -/
theorem free_sameOn {area : Set UInt32} (same : SameOn area heap.memory memory')
    (header : load32 memory' (pos - 4) = load32 heap.memory (pos - 4))
    (behind : load32 memory' (nextBlock heap.memory (pos - 4))
      = load32 heap.memory (nextBlock heap.memory (pos - 4))) :
    SameOn area (heap.free pos).memory
      (ImplicitListAllocator.free { heap with memory := memory' } pos).memory := by
  have size : sizeOfBlock memory' (pos - 4) = sizeOfBlock heap.memory (pos - 4) := by
    rw [sizeOfBlock, header, sizeOfBlock]
  have next : nextBlock memory' (pos - 4) = nextBlock heap.memory (pos - 4) := by
    rw [nextBlock, size, nextBlock]
  have used : isAllocated memory' (nextBlock heap.memory (pos - 4))
      = isAllocated heap.memory (nextBlock heap.memory (pos - 4)) := by
    rw [isAllocated, behind, isAllocated]
  have next_size : sizeOfBlock memory' (nextBlock heap.memory (pos - 4))
      = sizeOfBlock heap.memory (nextBlock heap.memory (pos - 4)) := by
    rw [sizeOfBlock, behind, sizeOfBlock]
  simp only [ImplicitListAllocator.free, size, next, used, next_size]
  split
  · exact same.store32 _ _
  · exact same.store32 _ _

/-- The two headers `free` looks at, when the block is not the last one. -/
theorem free_headers {before after : List Block} {block : Block}
    (tiled : Tiled heap (before ++ block :: after))
    (here : pos - 4 = address (heap.mstart_.toNat + span Block.width before))
    (more : nextBlock heap.memory (pos - 4) ≠ heap.mend_)
    (looks : word = pos - 4 ∨ word = nextBlock heap.memory (pos - 4)) :
    heap.mstart_.toNat ≤ word.toNat ∧ word.toNat + 4 ≤ heap.mend_.toNat := by
  have covers := tiled.covers
  have small := heap.mend_.toNat_lt
  have wide := block.width_pos
  rw [here, tiled.nextBlock_eq] at looks more
  simp only [span_append, span_cons, span_nil, Nat.add_zero] at covers looks more
  have first : (address (heap.mstart_.toNat + span Block.width before)).toNat
      = heap.mstart_.toNat + span Block.width before := toNat_address (by omega)
  cases after with
  | nil =>
    refine absurd (UInt32.toNat_inj.mp ?_) more
    rw [toNat_address (by rw [span_nil] at covers; omega), ← covers, span_nil]
    omega
  | cons next after =>
    have wide' := next.width_pos
    rw [span_cons] at covers
    have second : (address (heap.mstart_.toNat + (span Block.width before + block.width))).toNat
        = heap.mstart_.toNat + (span Block.width before + block.width) := toNat_address (by omega)
    rcases looks with rfl | rfl
    · rw [first]
      omega
    · rw [second]
      omega

end Call

/-! ### Every run -/

section Along

variable {start stop : UInt32}

/-- The invariant: what is claimed, heaps of the same bounds, and blocks that tile them. -/
structure Paired (start stop : UInt32) (twins : Twins) : Prop where
  inside : twins.StaysInside start stop
  first : twins.here.heap.mstart_ = start
  last : twins.here.heap.mend_ = stop
  twin : twins.there.heap = { twins.here.heap with memory := twins.there.heap.memory }
  sound : Inv (fun _ => 0) twins.here

theorem Paired.alloc {twins : Twins} {size : UInt32} (paired : Paired start stop twins)
    (keeps : KeepsInside twins.here.heap (.alloc size)) :
    ∃ next, twins.step (.alloc size) = some next ∧ Paired start stop next := by
  obtain ⟨⟨words, live, same⟩, rfl, rfl, twin, blocks, granted⟩ := paired
  obtain ⟨result, memory₁, memory₂, here, there, same₁⟩ := alloc_twins size granted.tiled same
  obtain ⟨next, stepped, sound⟩ := alloc_keeps granted keeps.safeCall (Or.inl (Nat.zero_le _))
  rw [← twin] at there
  have inside : ∀ word ∈ accessed twins.here.heap (.alloc size) ++ twins.words,
      twins.here.heap.mstart_.toNat ≤ word.toNat ∧ word.toNat + 4 ≤ twins.here.heap.mend_.toNat := by
    intro word member
    rcases List.mem_append.mp member with now | earlier
    · exact alloc_inside granted.tiled keeps now
    · exact words word earlier
  cases result with
  | none =>
    have first : twins.here.step (.alloc size)
        = some ⟨{ twins.here.heap with memory := memory₁ }, twins.here.live⟩ := by
      rw [Clients.step, here]
      rfl
    have second : twins.there.step (.alloc size)
        = some ⟨{ twins.here.heap with memory := memory₂ }, twins.there.live⟩ := by
      rw [Clients.step, there]
      rfl
    cases Option.some.inj (first.symm.trans stepped)
    exact ⟨_, Twins.step_eq first second, ⟨inside, live, same₁⟩, rfl, rfl, rfl, sound⟩
  | some pos =>
    have first : twins.here.step (.alloc size)
        = some ⟨{ twins.here.heap with memory := memory₁ }, ⟨pos, size⟩ :: twins.here.live⟩ := by
      rw [Clients.step, here]
      rfl
    have second : twins.there.step (.alloc size)
        = some ⟨{ twins.here.heap with memory := memory₂ }, ⟨pos, size⟩ :: twins.there.live⟩ := by
      rw [Clients.step, there]
      rfl
    cases Option.some.inj (first.symm.trans stepped)
    refine ⟨_, Twins.step_eq first second, ⟨inside, ?_, same₁⟩, rfl, rfl, rfl, sound⟩
    rw [live]

theorem Paired.free {twins : Twins} {pos : UInt32} (paired : Paired start stop twins)
    (may : twins.here.MayCall (.free pos)) (keeps : KeepsInside twins.here.heap (.free pos)) :
    ∃ next, twins.step (.free pos) = some next ∧ Paired start stop next := by
  obtain ⟨⟨words, live, same⟩, rfl, rfl, twin, blocks, granted⟩ := paired
  obtain ⟨next, stepped, sound⟩ := free_keeps granted may keeps.safeCall
  obtain ⟨grant, member, rfl⟩ := may
  obtain ⟨before, block, after, rfl, _, _, here⟩ := granted.block_of member
  have small := twins.here.heap.mend_.toNat_lt
  have headers : ∀ word, word = grant.pos - 4 ∨ word = nextBlock twins.here.heap.memory (grant.pos - 4) →
      twins.here.heap.mstart_.toNat ≤ word.toNat ∧ word.toNat + 4 ≤ twins.here.heap.mend_.toNat :=
    fun word => free_headers granted.tiled here keeps
  have same_word : ∀ word, word = grant.pos - 4 ∨ word = nextBlock twins.here.heap.memory (grant.pos - 4) →
      load32 twins.there.heap.memory word = load32 twins.here.heap.memory word := by
    intro word looks
    have bounds := headers word looks
    exact same.load32_eq (by omega) bounds.1 bounds.2
  have same₁ := free_sameOn same (same_word _ (Or.inl rfl)) (same_word _ (Or.inr rfl))
  have inside : ∀ word ∈ accessed twins.here.heap (.free grant.pos) ++ twins.words,
      twins.here.heap.mstart_.toNat ≤ word.toNat ∧ word.toNat + 4 ≤ twins.here.heap.mend_.toNat := by
    intro word member
    rcases List.mem_append.mp member with now | earlier
    · obtain ⟨touched, records, only⟩ := free_records twins.here.heap grant.pos
      rw [accessed, records.words_eq] at now
      exact headers word (only word now)
    · exact words word earlier
  have bounds := free_bounds twins.here.heap grant.pos
  have bounds' := free_bounds twins.there.heap grant.pos
  rw [← twin] at same₁
  cases Option.some.inj ((rfl : twins.here.step (.free grant.pos) = some _).symm.trans stepped)
  refine ⟨_, Twins.step_eq stepped rfl, ⟨inside, ?_, same₁⟩, ?_, ?_, ?_, sound⟩
  · rw [live]
  · rw [bounds]
  · rw [bounds]
  · rw [bounds, bounds', twin]

/-- **The allocator stays inside its heap in every run** whose calls do not reach for a block behind
the last one, and every call comes back. -/
theorem accesses_inside_along_calls {memory memory' : Memory} (evenStart : start.toNat % 2 = 0)
    (evenStop : stop.toNat % 2 = 0) (room : start.toNat + 8 ≤ stop.toNat)
    (same : SameOn (between start.toNat stop.toNat) memory memory') (calls : List Call) :
    Along Twins.step
      (fun twins call => twins.here.MayCall call ∧ KeepsInside twins.here.heap call)
      (Twins.StaysInside start stop) (Twins.start memory memory' start stop) calls := by
  refine along_of_invariant (Paired start stop) (fun twins call paired allowed => ?_)
    (fun twins paired => paired.inside) calls _ ?_
  · obtain ⟨may, keeps⟩ := allowed
    cases call with
    | alloc size => exact paired.alloc keeps
    | free pos => exact paired.free may keeps
    | write spot value => exact may.elim
  · exact ⟨⟨fun _ none => (List.not_mem_nil none).elim, rfl, same.store32 _ _⟩, rfl, rfl, rfl,
      inv_start _ evenStart evenStop room⟩

/-- Zeroed memory, with a word behind the kernel's heap. -/
def wordBehind (word : UInt32) : Memory := store32 (fun _ => 0) kHeapEnd word

theorem wordBehind_same (word : UInt32) :
    SameOn (between kHeapStart.toNat kHeapEnd.toNat) (fun _ => 0) (wordBehind word) := by
  intro place inside
  have above : 0xD0000000 ≤ place.toNat := inside.1
  have below : place.toNat < 0xD1000000 := inside.2
  have stop : kHeapEnd.toNat = 0xD1000000 := rfl
  exact store32_frame (Or.inr (by omega))

theorem accesses_inside_along_kernel_calls :
    Along Twins.step
      (fun twins call => twins.here.MayCall call ∧ KeepsInside twins.here.heap call)
      (Twins.StaysInside kHeapStart kHeapEnd)
      (Twins.start (fun _ => 0) (wordBehind 1) kHeapStart kHeapEnd)
      [.alloc 50, .alloc 500, .free 0xD0000004] :=
  accesses_inside_along_calls (by decide) (by decide) (by decide) (wordBehind_same 1) _

/-- **The last block reaches outside.** A request that fits it exactly writes a header at `mend_`.
When the last block is freed, the word at `mend_` is read, and if it looks like the header of a free
block its size is added: what stands there decides about the size of the block. -/
theorem last_block_reaches_outside :
    ¬ Along Twins.step (fun twins call => twins.here.MayCall call)
      (Twins.StaysInside kHeapStart kHeapEnd)
      (Twins.start (fun _ => 0) (wordBehind 16) kHeapStart kHeapEnd) [.alloc 0xFFFFFC] ∧
    ¬ Along Twins.step (fun twins call => twins.here.MayCall call)
      (Twins.StaysInside kHeapStart kHeapEnd)
      (Twins.start (fun _ => 0) (wordBehind 16) kHeapStart kHeapEnd)
      [.alloc 0xFFFFF8, .free 0xD0000004] := by
  constructor
  · intro along
    have run : ([Call.alloc 0xFFFFFC].foldlM Twins.step
        (Twins.start (fun _ => 0) (wordBehind 16) kHeapStart kHeapEnd)).map
        (fun twins => decide (0xD1000000 ∈ twins.words)) = some true := by decide +kernel
    obtain ⟨last, ran, touched⟩ := Option.map_eq_some_iff.mp run
    have inside := (along.at_end (by decide +kernel) ran).words _ (of_decide_eq_true touched)
    exact absurd inside.2 (by decide)
  · intro along
    have run : ([Call.alloc 0xFFFFF8, .free 0xD0000004].foldlM Twins.step
        (Twins.start (fun _ => 0) (wordBehind 16) kHeapStart kHeapEnd)).map (fun twins =>
          (twins.here.heap.memory 0xD0000000, twins.there.heap.memory 0xD0000000))
        = some (0, 16) := by decide +kernel
    obtain ⟨last, ran, values⟩ := Option.map_eq_some_iff.mp run
    obtain ⟨here, there⟩ := Prod.mk.inj values
    have same := (along.at_end (by decide +kernel) ran).same 0xD0000000 (by constructor <;> decide)
    rw [here, there] at same
    exact absurd same (by decide)

end Along

end Sprite.Heap

/-
**Memory accesses, recorded.**

Programs over byte memory that record each word they read or write, in a form in which every access
goes through `load` or `store`. What such a program does is said by one judgment, with a rule for
each way of putting programs together.

* `Access` — the programs.
* `Records` — what a program answers, the memory it leaves, and the words it touches.
* `SameOn` — memories that cannot be told apart on an area, before and after a store.
-/
import Sprite.Lib.Areas
import Mathlib.Control.Monad.Basic

namespace Words

/-- Memory, and the words read or written so far, the last one first. -/
structure Recorded where
  memory : Memory
  words : List UInt32

/-- A program that reads and writes words; it may also not come back. -/
abbrev Access := StateT Recorded Option

namespace Access

def load (address : UInt32) : Access UInt32 := fun state =>
  some (load32 state.memory address, { state with words := address :: state.words })

def store (address value : UInt32) : Access Unit := fun state =>
  some ((), { memory := store32 state.memory address value, words := address :: state.words })

/-- The words a program touches when it is run over a memory. -/
def words {α : Type} (program : Access α) (memory : Memory) : List UInt32 :=
  (program ⟨memory, []⟩).elim [] fun answer => answer.2.words

end Access

/-- **What a program does**: over `memory` it answers `result` and leaves `memory'`, and touches the
words of the list. -/
def Records {α : Type} (program : Access α) (memory : Memory) (result : α) (memory' : Memory)
    (touched : List UInt32) : Prop :=
  ∀ before, program ⟨memory, before⟩ = some (result, ⟨memory', touched ++ before⟩)

namespace Records

variable {α β : Type} {memory memory' memory'' : Memory} {touched touched' : List UInt32}

theorem pure (result : α) : Records (Pure.pure result) memory result memory [] := fun _ => rfl

theorem load (address : UInt32) :
    Records (Access.load address) memory (load32 memory address) memory [address] := fun _ => rfl

theorem store (address value : UInt32) :
    Records (Access.store address value) memory () (store32 memory address value) [address] :=
  fun _ => rfl

/-- One program behind another. -/
theorem bind {program : Access α} {next : α → Access β} {middle : α} {result : β}
    (first : Records program memory middle memory' touched)
    (second : Records (next middle) memory' result memory'' touched') :
    Records (program >>= next) memory result memory'' (touched' ++ touched) := by
  intro before
  have run := second (touched ++ before)
  rw [← List.append_assoc] at run
  refine Eq.trans ?_ run
  show (program ⟨memory, before⟩).bind _ = _
  rw [first before]
  rfl

/-- What is computed from an answer touches nothing. -/
theorem map {program : Access α} {middle : α} (answer : α → β)
    (first : Records program memory middle memory' touched) :
    Records (program >>= fun middle => Pure.pure (answer middle)) memory (answer middle) memory'
      touched := by
  have both : Records (program >>= fun middle => Pure.pure (answer middle)) memory (answer middle)
      memory' ([] ++ touched) := first.bind (Records.pure (answer middle))
  rwa [List.nil_append] at both

theorem words_eq {program : Access α} {result : α}
    (records : Records program memory result memory' touched) : program.words memory = touched := by
  rw [Access.words, records [], Option.elim_some, List.append_nil]

end Records

/-! ### Two memories -/

/-- Two memories that hold the same bytes on an area. -/
def SameOn (area : Set UInt32) (memory memory' : Memory) : Prop :=
  ∀ place ∈ area, memory' place = memory place

namespace SameOn

variable {memory memory' : Memory} {low high : Nat}

theorem refl (area : Set UInt32) (memory : Memory) : SameOn area memory memory := fun _ _ => rfl

/-- A word inside the area is the same in both. -/
theorem load32_eq {address : UInt32} (same : SameOn (between low high) memory memory')
    (fits : address.toNat + 4 ≤ 2 ^ 32) (above : low ≤ address.toNat)
    (below : address.toNat + 4 ≤ high) : load32 memory' address = load32 memory address :=
  load32_congr fits fun place low' high' => same place ⟨above.trans low', high'.trans_le below⟩

/-- Storing the same word keeps them the same, wherever it is stored. -/
theorem store32 {area : Set UInt32} (same : SameOn area memory memory') (address value : UInt32) :
    SameOn area (store32 memory address value) (store32 memory' address value) := by
  intro place inside
  unfold Words.store32
  split
  · rfl
  · exact same place inside

end SameOn

end Words

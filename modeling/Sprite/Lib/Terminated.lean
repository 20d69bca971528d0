/-
**Terminated strings in memory.**

A string lies in memory from an address upwards, one byte behind the other, and a zero byte ends it.
The addresses are of any kind, and `next` is the one behind an address; when the addresses wrap
round, a string that ends has not come back to where it begins (`StringAt.iterate_ne`).

* `StringAt.unique` — one string begins at an address.
* `StringAt.congr` — it depends on its own bytes and the terminating one only.
* `stringAt_put` — bytes stored one behind the other are a string when a zero is behind them.
* `extents_fit` — two strings that are apart, in the memory of a 32-bit machine.
-/
import Mathlib.Algebra.Group.Nat.Defs
import Mathlib.Data.Set.Lattice
import Mathlib.Order.CompletePartialOrder

namespace Terminated

open Function

variable {Address : Type*} {next : Address → Address}

/-- A string begins at an address, and a zero byte ends it. -/
def StringAt (next : Address → Address) (memory : Address → UInt8) : Address → List UInt8 → Prop
  | address, [] => memory address = 0
  | address, ch :: str => memory address = ch ∧ ch ≠ 0 ∧ StringAt next memory (next address) str

instance decidableStringAt (next : Address → Address) (memory : Address → UInt8) :
    ∀ address str, Decidable (StringAt next memory address str)
  | address, [] => inferInstanceAs (Decidable (memory address = 0))
  | address, ch :: str =>
    haveI := decidableStringAt next memory (next address) str
    inferInstanceAs (Decidable (memory address = ch ∧ ch ≠ 0 ∧ StringAt next memory (next address) str))

/-- The places of a string of some length and of its terminating byte. -/
def extent (next : Address → Address) (address : Address) (length : Nat) : Set Address :=
  {place | ∃ index ≤ length, place = next^[index] address}

theorem extent_succ (address : Address) (length : Nat) :
    extent next (next address) length ⊆ extent next address (length + 1) := by
  rintro place ⟨index, inside, rfl⟩
  exact ⟨index + 1, Nat.succ_le_succ inside, rfl⟩

namespace StringAt

variable {memory memory' : Address → UInt8} {address : Address} {str str' : List UInt8}

theorem zero_not_mem (string : StringAt next memory address str) : (0 : UInt8) ∉ str := by
  induction str generalizing address with
  | nil => exact List.not_mem_nil
  | cons ch str ih => exact List.not_mem_cons_of_ne_of_not_mem string.2.1.symm (ih string.2.2)

/-- **One string begins at an address.** -/
theorem unique (first : StringAt next memory address str) (second : StringAt next memory address str') :
    str = str' := by
  induction str generalizing address str' with
  | nil =>
    cases str' with
    | nil => rfl
    | cons ch' str' => exact absurd (second.1.symm.trans first) second.2.1
  | cons ch str ih =>
    cases str' with
    | nil => exact absurd (first.1.symm.trans second) first.2.1
    | cons ch' str' => rw [first.1.symm.trans second.1, ih first.2.2 second.2.2]

/-- **A string depends on its own bytes** and the terminating one only. -/
theorem congr (string : StringAt next memory address str)
    (same : ∀ place ∈ extent next address str.length, memory' place = memory place) :
    StringAt next memory' address str := by
  induction str generalizing address with
  | nil => exact (same address ⟨0, le_rfl, rfl⟩).trans string
  | cons ch str ih =>
    refine ⟨(same address ⟨0, Nat.zero_le _, rfl⟩).trans string.1, string.2.1, ih string.2.2 ?_⟩
    exact fun place inside => same place (extent_succ address str.length inside)

/-- What is left of a string from one of its places on. -/
theorem drop (string : StringAt next memory address str) {index : Nat} (inside : index ≤ str.length) :
    StringAt next memory (next^[index] address) (str.drop index) := by
  induction str generalizing address index with
  | nil =>
    cases Nat.le_zero.mp inside
    exact string
  | cons ch str ih =>
    cases index with
    | zero => exact string
    | succ index => exact ih string.2.2 (Nat.le_of_succ_le_succ inside)

/-- **A string does not come back** to where it begins: what is left of it there is shorter. -/
theorem iterate_ne (string : StringAt next memory address str) {index : Nat} (positive : 0 < index)
    (inside : index ≤ str.length) : next^[index] address ≠ address := by
  intro back
  have rest := string.drop inside
  rw [back] at rest
  have short := congrArg List.length (string.unique rest)
  rw [List.length_drop] at short
  omega

end StringAt

/-! ### Storing bytes -/

variable [DecidableEq Address] {memory : Address → UInt8} {address place : Address} {str : List UInt8}

/-- The memory after bytes are stored one behind the other. -/
def put (next : Address → Address) (memory : Address → UInt8) : Address → List UInt8 → Address → UInt8
  | _, [] => memory
  | address, ch :: str => put next (update memory address ch) (next address) str

theorem put_outside (outside : ∀ index < str.length, place ≠ next^[index] address) :
    put next memory address str place = memory place := by
  induction str generalizing memory address with
  | nil => rfl
  | cons ch str ih =>
    have later : put next (update memory address ch) (next address) str place
        = update memory address ch place :=
      ih fun index inside => outside (index + 1) (Nat.succ_lt_succ inside)
    exact later.trans (update_of_ne (outside 0 (Nat.succ_pos _)) _ _)

/-- **Stored bytes are a string when a zero is behind them**, in addresses that do not come back. -/
theorem stringAt_put (injective : Injective next) (nonzero : (0 : UInt8) ∉ str)
    (apart : ∀ index, 0 < index → index ≤ str.length → next^[index] address ≠ address) :
    StringAt next (put next memory address str) address str ↔ memory (next^[str.length] address) = 0 := by
  induction str generalizing memory address with
  | nil => exact Iff.rfl
  | cons ch str ih =>
    obtain ⟨nonzeroHead, nonzeroTail⟩ := List.ne_and_not_mem_of_not_mem_cons nonzero
    have head : put next (update memory address ch) (next address) str address = ch := by
      rw [put_outside fun index inside => (apart (index + 1) (Nat.succ_pos index)
        (Nat.succ_le_succ inside.le)).symm, update_self]
    have behind : next^[str.length] (next address) ≠ address :=
      apart (str.length + 1) (Nat.succ_pos _) le_rfl
    have tail : StringAt next (put next (update memory address ch) (next address) str) (next address) str
        ↔ memory (next^[str.length] (next address)) = 0 := by
      rw [ih nonzeroTail, update_of_ne behind]
      intro index positive inside back
      exact apart index positive (Nat.le_succ_of_le inside)
        (injective ((iterate_succ_apply' next index address).symm.trans back))
    constructor
    · exact fun string => tail.mp string.2.2
    · exact fun zero => ⟨head, nonzeroHead.symm, tail.mpr zero⟩

/-! ### Addresses of 32 bits -/

theorem iterate_add_one (address : UInt32) (index : Nat) :
    (· + 1)^[index] address = address + UInt32.ofNat index := by
  induction index with
  | zero => exact (UInt32.add_zero address).symm
  | succ index ih =>
    rw [iterate_succ_apply', ih, UInt32.ofNat_add, ← UInt32.add_assoc]
    rfl

theorem add_one_injective : Injective fun address : UInt32 => address + 1 :=
  fun _ _ same => (UInt32.add_left_inj 1).mp same

/-- Two places of one round of the addresses. -/
theorem iterate_add_one_inj {address : UInt32} {index index' : Nat} (small : index < 2 ^ 32)
    (small' : index' < 2 ^ 32) (same : (· + 1)^[index] address = (· + 1)^[index'] address) :
    index = index' := by
  rw [iterate_add_one, iterate_add_one, UInt32.add_right_inj, ← UInt32.toNat_inj,
    UInt32.toNat_ofNat_of_lt' small, UInt32.toNat_ofNat_of_lt' small'] at same
  exact same

/-- A string is shorter than the memory. -/
theorem StringAt.length_lt {memory : UInt32 → UInt8} {address : UInt32} {str : List UInt8}
    (string : StringAt (· + 1) memory address str) : str.length < 2 ^ 32 := by
  by_contra long
  refine string.iterate_ne (Nat.two_pow_pos 32) (Nat.not_lt.mp long) ?_
  rw [iterate_add_one]
  exact UInt32.add_zero address

theorem mem_extent {address place : UInt32} {length : Nat} (small : length < 2 ^ 32) :
    place ∈ extent (· + 1) address length ↔ (place - address).toNat ≤ length := by
  constructor
  · rintro ⟨index, inside, rfl⟩
    rw [iterate_add_one, UInt32.add_comm, UInt32.add_sub_cancel, UInt32.toNat_ofNat_of_lt' (by
      simp only [UInt32.size]; omega)]
    exact inside
  · intro inside
    refine ⟨_, inside, ?_⟩
    rw [iterate_add_one, UInt32.ofNat_toNat, UInt32.add_comm, UInt32.sub_add_cancel]

/-- Each of two strings that are apart ends before the other one begins. -/
theorem disjoint_extent_iff {address address' : UInt32} {length length' : Nat} (small : length < 2 ^ 32)
    (small' : length' < 2 ^ 32) :
    Disjoint (extent (· + 1) address length) (extent (· + 1) address' length') ↔
      length < (address' - address).toNat ∧ length' < (address - address').toNat := by
  constructor
  · intro apart
    have first : address ∉ extent (· + 1) address' length' :=
      Set.disjoint_left.mp apart ⟨0, Nat.zero_le _, rfl⟩
    have second : address' ∉ extent (· + 1) address length :=
      Set.disjoint_right.mp apart ⟨0, Nat.zero_le _, rfl⟩
    rw [mem_extent small'] at first
    rw [mem_extent small] at second
    exact ⟨Nat.not_le.mp second, Nat.not_le.mp first⟩
  · rintro ⟨before, before'⟩
    refine Set.disjoint_left.mpr fun place inside inside' => ?_
    rw [mem_extent small, UInt32.toNat_sub] at inside
    rw [mem_extent small', UInt32.toNat_sub] at inside'
    rw [UInt32.toNat_sub] at before before'
    have below := address.toNat_lt
    have below' := address'.toNat_lt
    have belowPlace := place.toNat_lt
    omega

/-- **Two strings that are apart** find room for their bytes and the two terminating ones. -/
theorem extents_fit {address address' : UInt32} {length length' : Nat} (small : length < 2 ^ 32)
    (small' : length' < 2 ^ 32)
    (apart : Disjoint (extent (· + 1) address length) (extent (· + 1) address' length')) :
    length + length' + 2 ≤ 2 ^ 32 := by
  obtain ⟨before, before'⟩ := (disjoint_extent_iff small small').mp apart
  rw [UInt32.toNat_sub] at before before'
  have below := address.toNat_lt
  have below' := address'.toNat_lt
  omega

end Terminated

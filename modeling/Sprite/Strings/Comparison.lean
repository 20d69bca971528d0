/-
**String comparison**, after `strcmp` of `src/lib/string.cc`.

The loop has three ends: two characters that differ, the end of the first string and that of the
second one. The end of the first string answers 0, whatever the second one goes on with.

* `strcmp_eq` — the answer depends on the two strings only.
* `difference_neg_iff` — strings neither of which begins with the other are answered by their
  lexicographic order, a `char` having a sign.
* `strcmp_comparison_iff` — the strings that `strcmp` compares.
-/
import Sprite.Fs.Strings
import Sprite.Lib.Terminated
import Mathlib.Data.List.Lex

namespace Sprite.Strings

open Fs Ide Terminated

/-! ### Three-way comparisons -/

section Ranked

variable {α β : Type*}

/-- **A comparison** of what is told apart by `key`: 0 for what is the same, opposite answers for the
two orders of the arguments, and an order. -/
structure Comparison (key : α → β) (compare : α → α → Int) (domain : Set α) : Prop where
  zero_iff : ∀ a ∈ domain, ∀ b ∈ domain, compare a b = 0 ↔ key a = key b
  swap : ∀ a ∈ domain, ∀ b ∈ domain, (compare a b).sign = -(compare b a).sign
  trans : ∀ a ∈ domain, ∀ b ∈ domain, ∀ c ∈ domain,
    compare a b ≤ 0 → compare b c ≤ 0 → compare a c ≤ 0

variable {γ : Type*} [LinearOrder γ] {key : α → β} {compare : α → α → Int} {domain : Set α}

/-- A function that answers by a linear order of the keys is a comparison. -/
theorem Comparison.of_rank (rank : β → γ) (injective : Function.Injective rank)
    (swap : ∀ a ∈ domain, ∀ b ∈ domain, compare a b = -compare b a)
    (neg_iff : ∀ a ∈ domain, ∀ b ∈ domain, compare a b < 0 ↔ rank (key a) < rank (key b)) :
    Comparison key compare domain := by
  have le_iff : ∀ a ∈ domain, ∀ b ∈ domain, compare a b ≤ 0 ↔ rank (key a) ≤ rank (key b) := by
    intro a ha b hb
    rw [← not_iff_not, not_le, not_le, ← neg_iff b hb a ha, swap b hb a ha]
    omega
  refine ⟨fun a ha b hb => ?_, fun a ha b hb => ?_, fun a ha b hb c hc first second => ?_⟩
  · have same : key a = key b ↔ compare a b ≤ 0 ∧ compare b a ≤ 0 := by
      rw [le_iff a ha b hb, le_iff b hb a ha, ← le_antisymm_iff, injective.eq_iff]
    rw [same, swap b hb a ha]
    omega
  · rw [swap a ha b hb, Int.sign_neg]
  · exact (le_iff a ha c hc).mpr
      (((le_iff a ha b hb).mp first).trans ((le_iff b hb c hc).mp second))

end Ranked

/-! ### What `strcmp` answers -/

/-- The answer of `strcmp`, by its three ends. -/
def difference : List UInt8 → List UInt8 → Int
  | [], _ => 0
  | ch :: _, [] => charValue ch
  | ch :: str1, ch' :: str2 =>
    if ch = ch' then difference str1 str2 else charValue ch - charValue ch'

theorem strcmp_eq {memory : Memory} {p : Nat} {str1 : List UInt8} (str2 : List UInt8)
    (string : StringAt (· + 1) memory p str1) : strcmp memory p str2 = difference str1 str2 := by
  induction str1 generalizing p str2 with
  | nil =>
    have ended : memory p = 0 := string
    cases str2 with
    | nil => exact if_pos ended
    | cons ch' str2 => exact if_pos ended
  | cons ch str1 ih =>
    obtain ⟨first, nonzero, rest⟩ := string
    cases str2 with
    | nil => rw [strcmp, first, if_neg nonzero, difference]
    | cons ch' str2 =>
      rw [strcmp, first, if_neg nonzero, difference]
      by_cases same : ch = ch'
      · rw [if_neg (not_not_intro same), if_pos same]
        exact ih str2 rest
      · rw [if_pos same, if_neg same]

section Differences

variable {str1 str2 : List UInt8}

theorem difference_eq_zero_iff (nonzero : (0 : UInt8) ∉ str1) :
    difference str1 str2 = 0 ↔ str1 <+: str2 := by
  induction str1 generalizing str2 with
  | nil => exact iff_of_true rfl List.nil_prefix
  | cons ch str1 ih =>
    obtain ⟨nonzeroHead, nonzeroTail⟩ := List.ne_and_not_mem_of_not_mem_cons nonzero
    cases str2 with
    | nil =>
      rw [List.prefix_nil]
      refine iff_of_false (fun zero => nonzeroHead ?_) (List.cons_ne_nil ch str1)
      exact charValue_injective (Eq.symm zero)
    | cons ch' str2 =>
      rw [difference, List.cons_prefix_cons]
      by_cases same : ch = ch'
      · rw [if_pos same, ih nonzeroTail, and_iff_right same]
      · rw [if_neg same, Int.sub_eq_zero, charValue_injective.eq_iff]
        exact iff_of_false same fun both => same both.1

/-- Neither string is the beginning of the other one, unless they are the same. -/
def Apart (str1 str2 : List UInt8) : Prop :=
  (str1 <+: str2 → str1 = str2) ∧ (str2 <+: str1 → str2 = str1)

theorem Apart.of_cons {ch : UInt8} (apart : Apart (ch :: str1) (ch :: str2)) : Apart str1 str2 := by
  have behind : ∀ {str str' : List UInt8}, (ch :: str <+: ch :: str' → ch :: str = ch :: str') →
      str <+: str' → str = str' := fun same beginning =>
    (List.cons.inj (same (List.cons_prefix_cons.mpr ⟨rfl, beginning⟩))).2
  exact ⟨behind apart.1, behind apart.2⟩

theorem difference_swap (apart : Apart str1 str2) : difference str1 str2 = -difference str2 str1 := by
  induction str1 generalizing str2 with
  | nil =>
    cases apart.1 List.nil_prefix
    rfl
  | cons ch str1 ih =>
    cases str2 with
    | nil => cases apart.2 List.nil_prefix
    | cons ch' str2 =>
      rw [difference, difference]
      by_cases same : ch = ch'
      · subst same
        rw [if_pos rfl, if_pos rfl]
        exact ih apart.of_cons
      · rw [if_neg same, if_neg (Ne.symm same), Int.neg_sub]

/-- **Strings that are apart are answered by their lexicographic order.** -/
theorem difference_neg_iff (apart : Apart str1 str2) :
    difference str1 str2 < 0 ↔ str1.map charValue < str2.map charValue := by
  induction str1 generalizing str2 with
  | nil =>
    cases apart.1 List.nil_prefix
    exact iff_of_false (lt_irrefl 0) (lt_irrefl _)
  | cons ch str1 ih =>
    cases str2 with
    | nil => cases apart.2 List.nil_prefix
    | cons ch' str2 =>
      rw [difference, List.map_cons, List.map_cons, List.cons_lt_cons_iff]
      by_cases same : ch = ch'
      · subst same
        rw [if_pos rfl, ih apart.of_cons, or_iff_right (lt_irrefl _), and_iff_right rfl]
      · have different : charValue ch ≠ charValue ch' := charValue_injective.ne same
        rw [if_neg same, or_iff_left fun equal => different equal.1]
        omega

end Differences

/-! ### The strings that are compared -/

/-- A terminated string somewhere in memory. -/
structure CString where
  memory : Memory
  address : Nat
  characters : List UInt8
  terminated : StringAt (· + 1) memory address characters

/-- `strcmp` of two strings. -/
def CString.compare (a b : CString) : Int := strcmp a.memory a.address b.characters

theorem CString.compare_eq (a b : CString) :
    a.compare b = difference a.characters b.characters := strcmp_eq b.characters a.terminated

theorem CString.compare_eq_zero_iff (a b : CString) :
    a.compare b = 0 ↔ a.characters <+: b.characters := by
  rw [compare_eq, difference_eq_zero_iff a.terminated.zero_not_mem]

/-- **The strings that `strcmp` compares**: of which none is the beginning of another one. -/
theorem strcmp_comparison_iff (strings : Set CString) :
    Comparison CString.characters CString.compare strings ↔
      ∀ a ∈ strings, ∀ b ∈ strings, a.characters <+: b.characters → a.characters = b.characters := by
  constructor
  · intro comparison a ha b hb beginning
    exact (comparison.zero_iff a ha b hb).mp ((a.compare_eq_zero_iff b).mpr beginning)
  · intro free
    have apart : ∀ a ∈ strings, ∀ b ∈ strings, Apart a.characters b.characters :=
      fun a ha b hb => ⟨free a ha b hb, free b hb a ha⟩
    refine Comparison.of_rank (List.map charValue) charValue_injective.list_map ?_ ?_
    · intro a ha b hb
      rw [CString.compare_eq, CString.compare_eq]
      exact difference_swap (apart a ha b hb)
    · intro a ha b hb
      rw [CString.compare_eq]
      exact difference_neg_iff (apart a ha b hb)

/-- A string at the beginning of a memory of zeros. -/
def cstring (str : List UInt8) (nonzero : (0 : UInt8) ∉ str) : CString where
  memory := put (· + 1) (fun _ => 0) 0 str
  address := 0
  characters := str
  terminated := by
    refine (stringAt_put (add_left_injective 1) nonzero fun index positive _ back => ?_).mpr rfl
    obtain ⟨before, rfl⟩ := Nat.exists_eq_add_one_of_ne_zero positive.ne'
    rw [Function.iterate_succ_apply'] at back
    exact Nat.succ_ne_zero _ back

/-- **A beginning is taken for the whole**: `a` is answered as the same as `ab`, the other way round it
is not, and with a first character that is negative the answers are no order. -/
theorem beginnings_mistaken :
    (cstring [97] (by decide)).compare (cstring [97, 98] (by decide)) = 0 ∧
      (cstring [97, 98] (by decide)).compare (cstring [97] (by decide)) = 98 ∧
      (cstring [200, 98] (by decide)).compare (cstring [] (by decide)) = -56 ∧
      (cstring [] (by decide)).compare (cstring [200, 97] (by decide)) = 0 ∧
      (cstring [200, 98] (by decide)).compare (cstring [200, 97] (by decide)) = 1 ∧
      ¬ Comparison CString.characters CString.compare Set.univ := by
  refine ⟨by decide, by decide, by decide, by decide, by decide, fun comparison => ?_⟩
  have same := (comparison.zero_iff (cstring [97] (by decide)) (Set.mem_univ _)
    (cstring [97, 98] (by decide)) (Set.mem_univ _)).mp (by decide)
  exact absurd same (by decide)

end Sprite.Strings

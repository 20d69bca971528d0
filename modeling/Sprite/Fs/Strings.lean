/-
**Memory and string functions**, after `src/lib/string.cc`.

A string given by the caller is its characters before the terminating one; the first string of
`strcmp` is memory, which may go on behind the array that it is meant to lie in.

* `memcpy_apply` — what is copied, and that nothing else changes.
* `strcmp_eq_zero` — a first string that ends first compares as equal.
* `strcmp_name` — for a name with a terminating character: it is a prefix of the second string.
-/
import Sprite.Ide.Driver

namespace Sprite.Fs

open Ide

/-- The loop `p[i] = q[i]`, between two different pieces of memory. -/
def memcpy (dst : Memory) (p : Nat) (src : Memory) (q : Nat) : Nat → Memory
  | 0 => dst
  | size + 1 => Function.update (memcpy dst p src q size) (p + size) (src (q + size))

theorem memcpy_apply (dst : Memory) (p : Nat) (src : Memory) (q size a : Nat) :
    memcpy dst p src q size a = if p ≤ a ∧ a < p + size then src (q + (a - p)) else dst a := by
  induction size with
  | zero =>
    rw [if_neg (by omega)]
    rfl
  | succ size ih =>
    unfold memcpy
    by_cases last : a = p + size
    · subst last
      rw [Function.update_self, if_pos (by omega), Nat.add_sub_cancel_left]
    · rw [Function.update_of_ne last, ih]
      exact if_congr (by omega) rfl rfl

/-! ### Strings -/

/-- The value of a `char`, which has a sign. -/
def charValue (ch : UInt8) : Int := ch.toInt8.toInt

def strcmp (str1 : Memory) : Nat → List UInt8 → Int
  | p, [] => if str1 p = 0 then 0 else charValue (str1 p)
  | p, ch :: str2 =>
    if str1 p = 0 then 0
    else if str1 p ≠ ch then charValue (str1 p) - charValue ch
    else strcmp str1 (p + 1) str2

/-- From the first `ch` on, and empty when there is none. -/
def strfind : List UInt8 → UInt8 → List UInt8
  | [], _ => []
  | c :: str, ch => if c = ch then c :: str else strfind str ch

theorem length_strfind (str : List UInt8) (ch : UInt8) : (strfind str ch).length ≤ str.length := by
  induction str with
  | nil => exact Nat.le_refl 0
  | cons c str ih =>
    unfold strfind
    split
    · exact Nat.le_refl _
    · exact Nat.le_succ_of_le ih

theorem charValue_injective : Function.Injective charValue := by
  intro x y same
  have same := congrArg Int8.toUInt8 (Int8.toInt_inj.mp same)
  rwa [UInt8.toUInt8_toInt8, UInt8.toUInt8_toInt8] at same

/-- **When `strcmp` answers 0**: the first string is found at the beginning of the second one. -/
theorem strcmp_eq_zero {str1 : Memory} {str2 : List UInt8} {p : Nat} :
    strcmp str1 p str2 = 0 ↔
      ∃ n, str1 (p + n) = 0 ∧ ∀ i < n, str1 (p + i) ≠ 0 ∧ str2[i]? = some (str1 (p + i)) := by
  induction str2 generalizing p with
  | nil =>
    unfold strcmp
    by_cases ended : str1 p = 0
    · exact iff_of_true (if_pos ended) ⟨0, ended, fun i none => absurd none (Nat.not_lt_zero i)⟩
    · rw [if_neg ended]
      refine iff_of_false (fun zero => ended (charValue_injective zero)) ?_
      rintro ⟨_ | n, zero, found⟩
      · exact ended zero
      · cases (found 0 (Nat.succ_pos n)).2
  | cons ch str2 ih =>
    unfold strcmp
    by_cases ended : str1 p = 0
    · rw [if_pos ended]
      exact iff_of_true rfl ⟨0, ended, fun i none => absurd none (Nat.not_lt_zero i)⟩
    rw [if_neg ended]
    by_cases same : str1 p = ch
    · rw [if_neg (not_not_intro same), ih]
      constructor
      · rintro ⟨n, zero, found⟩
        refine ⟨n + 1, by rwa [Nat.add_comm n, ← Nat.add_assoc], ?_⟩
        rintro (_ | i) less
        · exact ⟨ended, congrArg some same.symm⟩
        · have found := found i (Nat.lt_of_succ_lt_succ less)
          rw [Nat.add_assoc, Nat.add_comm 1] at found
          exact found
      · rintro ⟨_ | n, zero, found⟩
        · exact absurd zero ended
        · refine ⟨n, by rwa [Nat.add_assoc, Nat.add_comm 1], fun i less => ?_⟩
          rw [Nat.add_assoc, Nat.add_comm 1]
          exact found (i + 1) (Nat.succ_lt_succ less)
    · rw [if_pos same]
      refine iff_of_false (fun zero => same (charValue_injective (Int.sub_eq_zero.mp zero))) ?_
      rintro ⟨_ | n, zero, found⟩
      · exact ended zero
      · exact same (Option.some.inj (found 0 (Nat.succ_pos n)).2).symm

/-- **A name is found at the beginning of a string** when it is terminated and a prefix of it. -/
theorem strcmp_name {str1 : Memory} {str2 name : List UInt8} {p : Nat} (nonzero : (0 : UInt8) ∉ name)
    (spelled : ∀ i (inside : i < name.length), str1 (p + i) = name[i])
    (ended : str1 (p + name.length) = 0) : strcmp str1 p str2 = 0 ↔ name <+: str2 := by
  have atName : ∀ i (inside : i < name.length), str1 (p + i) ≠ 0 := fun i inside zero =>
    nonzero (zero ▸ spelled i inside ▸ List.getElem_mem inside)
  rw [strcmp_eq_zero, List.prefix_iff_getElem?]
  constructor
  · rintro ⟨n, zero, found⟩ i inside
    have reach : name.length ≤ n := by
      by_contra short
      exact atName n (Nat.not_le.mp short) zero
    rw [(found i (Nat.lt_of_lt_of_le inside reach)).2, spelled i inside]
  · intro found
    refine ⟨name.length, ended, fun i inside => ⟨atName i inside, ?_⟩⟩
    rw [found i inside, spelled i inside]

/-- What a string is found at the beginning of begins with every name it begins with. -/
theorem prefix_of_strcmp {str1 : Memory} {str2 name : List UInt8} {p : Nat}
    (nonzero : (0 : UInt8) ∉ name) (spelled : ∀ i (inside : i < name.length), str1 (p + i) = name[i])
    (found : strcmp str1 p str2 = 0) : name <+: str2 := by
  obtain ⟨n, zero, found⟩ := strcmp_eq_zero.mp found
  refine List.prefix_iff_getElem?.mpr fun i inside => ?_
  have reach : name.length ≤ n := by
    by_contra short
    refine nonzero ?_
    rw [← zero, spelled n (Nat.not_le.mp short)]
    exact List.getElem_mem _
  rw [(found i (Nat.lt_of_lt_of_le inside reach)).2, spelled i inside]

end Sprite.Fs

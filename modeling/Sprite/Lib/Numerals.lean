/-
**Numerals.**

A number is written in a base with its digits, the most significant one first and without a zero in front.
The digits from ten on are capital letters.

* `digits`, `numeral` — the digits of a number, and their characters; `digits_append` adds one digit.
* `readNumeral` — reading characters as a numeral.
* `readNumeral_numeral` — **what is written is read back**; `eq_zero_of_head` — no zero stands in front.
-/
import Mathlib.Data.Nat.Digits.Lemmas

namespace Numerals

/-- The character of a digit. -/
def digitChar (d : Nat) : UInt8 := UInt8.ofNat (if d < 10 then 0x30 + d else 0x41 + (d - 10))

/-- The digits of a number, the most significant one first. -/
def digits (base n : Nat) : List Nat := if n = 0 then [0] else (Nat.digits base n).reverse

def numeral (base n : Nat) : List UInt8 := (digits base n).map digitChar

/-- The digit of a character. -/
def readDigit (c : UInt8) : Option Nat :=
  if 0x30 ≤ c.toNat ∧ c.toNat < 0x3A then some (c.toNat - 0x30)
  else if 0x41 ≤ c.toNat ∧ c.toNat < 0x5B then some (c.toNat - 0x41 + 10)
  else none

/-- The number read so far, and one more digit of the base. -/
def readNext (base value : Nat) (c : UInt8) : Option Nat := do
  let d ← readDigit c
  if d < base then some (base * value + d) else none

/-- The number that characters are a numeral of. -/
def readNumeral (base : Nat) (cs : List UInt8) : Option Nat :=
  if cs = [] then none else cs.foldlM (readNext base) 0

/-! ### Digits -/

section Digits

variable {base n d : Nat}

theorem digits_small (small : n < base) : digits base n = [n] := by
  unfold digits
  split_ifs with zero
  · rw [zero]
  · rw [Nat.digits_of_lt base n zero small, List.reverse_singleton]

/-- **One more digit** at the end. -/
theorem digits_append (two : 1 < base) (more : n ≠ 0) (small : d < base) :
    digits base (base * n + d) = digits base n ++ [d] := by
  have positive : base * n + d ≠ 0 := by
    have := Nat.mul_pos (Nat.zero_lt_of_lt two) (Nat.pos_of_ne_zero more)
    omega
  rw [digits, if_neg positive, digits, if_neg more, Nat.add_comm,
    Nat.digits_add base two d n small (.inr more), List.reverse_cons]

theorem digits_ne_nil (base n : Nat) : digits base n ≠ [] := by
  unfold digits
  split_ifs with zero
  · exact List.cons_ne_nil 0 []
  · rw [ne_eq, List.reverse_eq_nil_iff]
    exact Nat.digits_ne_nil_iff_ne_zero.mpr zero

theorem digits_lt (two : 1 < base) (member : d ∈ digits base n) : d < base := by
  unfold digits at member
  split_ifs at member with zero
  · rw [List.mem_singleton.mp member]
    exact Nat.zero_lt_of_lt two
  · exact Nat.digits_lt_base two (List.mem_reverse.mp member)

/-- The value of the digits. -/
theorem foldl_digits (base n : Nat) : (digits base n).foldl (fun value d => base * value + d) 0 = n := by
  unfold digits
  split_ifs with zero
  · rw [zero]
    rfl
  · have value := Nat.ofDigits_digits base n
    rw [Nat.ofDigits_eq_foldr] at value
    simp only [List.foldl_reverse, Nat.add_comm]
    exact value

/-- **No zero stands in front.** -/
theorem head_digits (head : (digits base n).head? = some 0) : n = 0 := by
  by_contra more
  rw [digits, if_neg more, List.head?_reverse] at head
  have notNil : Nat.digits base n ≠ [] := Nat.digits_ne_nil_iff_ne_zero.mpr more
  rw [List.getLast?_eq_getLast_of_ne_nil notNil] at head
  exact Nat.getLast_digit_ne_zero base more (Option.some.inj head)

end Digits

/-! ### Characters -/

section Characters

variable {base n : Nat}

theorem toNat_digitChar {d : Nat} (small : d < 36) :
    (digitChar d).toNat = if d < 10 then 0x30 + d else 0x41 + (d - 10) := by
  unfold digitChar
  split_ifs with decimal
  · exact UInt8.toNat_ofNat_of_lt' (by show 0x30 + d < 256; omega)
  · exact UInt8.toNat_ofNat_of_lt' (by show 0x41 + (d - 10) < 256; omega)

theorem readDigit_digitChar {d : Nat} (small : d < 36) : readDigit (digitChar d) = some d := by
  unfold readDigit
  rw [toNat_digitChar small]
  by_cases decimal : d < 10
  · rw [if_pos decimal, if_pos (by omega), Nat.add_sub_cancel_left]
  · have back : 0x41 + (d - 10) - 0x41 + 10 = d := by omega
    rw [if_neg decimal, if_neg (by omega), if_pos (by omega), back]

/-- Reading digits, from some value on. -/
theorem foldlM_readNext (few : base ≤ 36) (ds : List Nat) : ∀ value : Nat, (∀ d ∈ ds, d < base) →
    (ds.map digitChar).foldlM (readNext base) value
      = some (ds.foldl (fun value d => base * value + d) value) := by
  induction ds with
  | nil => exact fun _ _ => rfl
  | cons d ds ih =>
    intro value small
    have first : d < base := small d List.mem_cons_self
    have next : readNext base value (digitChar d) = some (base * value + d) := by
      rw [readNext, readDigit_digitChar (Nat.lt_of_lt_of_le first few), Option.bind_eq_bind,
        Option.bind_some, if_pos first]
    rw [List.map_cons, List.foldlM_cons, next, Option.bind_eq_bind, Option.bind_some,
      ih _ fun other member => small other (List.mem_cons_of_mem _ member), List.foldl_cons]

theorem numeral_ne_nil (base n : Nat) : numeral base n ≠ [] :=
  fun nil => digits_ne_nil base n (List.map_eq_nil_iff.mp nil)

/-- **What is written is read back.** -/
theorem readNumeral_numeral (two : 1 < base) (few : base ≤ 36) (n : Nat) :
    readNumeral base (numeral base n) = some n := by
  rw [readNumeral, if_neg (numeral_ne_nil base n), numeral,
    foldlM_readNext few _ _ fun _ member => digits_lt two member, foldl_digits]

/-- No sign is among the characters. -/
theorem minus_not_mem (two : 1 < base) (few : base ≤ 36) : 0x2D ∉ numeral base n := by
  intro member
  obtain ⟨d, inside, isMinus⟩ := List.mem_map.mp member
  have code := congrArg UInt8.toNat isMinus
  rw [toNat_digitChar (Nat.lt_of_lt_of_le (digits_lt two inside) few),
    show (0x2D : UInt8).toNat = 0x2D from rfl] at code
  split_ifs at code <;> omega

theorem eq_zero_of_head (two : 1 < base) (few : base ≤ 36) (head : (numeral base n).head? = some 0x30) :
    n = 0 := by
  rw [numeral, List.head?_map] at head
  obtain ⟨d, isHead, isZero⟩ := Option.map_eq_some_iff.mp head
  have small : d < 36 := Nat.lt_of_lt_of_le (digits_lt two (List.mem_of_head? isHead)) few
  have code := congrArg UInt8.toNat isZero
  rw [toNat_digitChar small, show (0x30 : UInt8).toNat = 0x30 from rfl] at code
  have zero : d = 0 := by
    split_ifs at code <;> omega
  rw [zero] at isHead
  exact head_digits isHead

theorem numeral_small (small : n < base) : numeral base n = [digitChar n] := by
  rw [numeral, digits_small small, List.map_singleton]

theorem numeral_append {d : Nat} (two : 1 < base) (more : n ≠ 0) (small : d < base) :
    numeral base (base * n + d) = numeral base n ++ [digitChar d] := by
  rw [numeral, digits_append two more small, List.map_append, List.map_singleton, numeral]

end Characters

end Numerals

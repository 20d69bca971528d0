/-
**Printing numbers**, after `src/lib/console.cc`.

The two printers hand characters to `console_putc`, all of them in the colours that they are given. They
are modelled by these characters, in order.

* `consoleWriteHex`, `consoleWriteDec` — the loop over the nibbles, and the recursion by division.
* `consoleWriteHex_eq`, `consoleWriteDec_eq` — they write the numeral of the number.
* `numbers_read_back` — **what is printed is the number**, without a zero in front.
-/
import Mathlib.Tactic.SplitIfs
import Sprite.Lib.Numerals

namespace Sprite.Console

open Numerals

/-! ### The printers -/

def consoleWriteHexSingle (n : UInt32) : List UInt8 :=
  if n < 10 then [(0x30 + n).toUInt8] else [(0x41 + n - 10).toUInt8]

/-- `slice`: the mask is an `int` when it is shifted, and unsigned again in the conjunction. -/
def slice (n i : UInt32) : UInt8 := ((n &&& (0xF <<< i)) >>> i).toUInt8

/-- One pass of the loop: `started`, and what has been written. -/
def hexPass (n i : UInt32) (s : Bool × List UInt8) : Bool × List UInt8 :=
  if !s.1 ∧ slice n i ≠ 0 then (true, s.2 ++ consoleWriteHexSingle (slice n i).toUInt32)
  else if s.1 then (s.1, s.2 ++ consoleWriteHexSingle (slice n i).toUInt32)
  else s

/-- The last passes of the loop, with `i` from `4 * (k - 1)` down to 0. -/
def hexLoop (n : UInt32) : Nat → Bool × List UInt8 → Bool × List UInt8
  | 0, s => s
  | k + 1, s => hexLoop n k (hexPass n (UInt32.ofNat (4 * k)) s)

def consoleWriteHex (n : UInt32) : List UInt8 :=
  let s := hexLoop n 8 (false, [])
  if !s.1 then s.2 ++ consoleWriteHexSingle 0 else s.2

def consoleWriteDec (n : UInt32) : List UInt8 :=
  if n < 10 then [(0x30 + n).toUInt8]
  else consoleWriteDec (n / 10) ++ [(0x30 + n % 10).toUInt8]
termination_by n.toNat
decreasing_by
  rename_i many
  have ten : 10 ≤ n.toNat := UInt32.le_iff_toNat_le.mp (UInt32.not_lt.mp many)
  rw [UInt32.toNat_div]
  exact Nat.div_lt_self (by omega) (by decide)

/-! ### Hexadecimal -/

theorem consoleWriteHexSingle_eq : ∀ d : Fin 16,
    consoleWriteHexSingle (UInt32.ofNat d) = [digitChar d] := by decide

/-- The slice is a digit. -/
theorem toNat_slice (n : UInt32) {k : Nat} (inside : k < 8) :
    (slice n (UInt32.ofNat (4 * k))).toNat = n.toNat / 16 ^ k % 16 := by
  have small : 4 * k < 32 := by omega
  have shift : (UInt32.ofNat (4 * k)).toNat % 32 = 4 * k := by
    rw [UInt32.toNat_ofNat_of_lt' (Nat.lt_trans small (by decide)), Nat.mod_eq_of_lt small]
  have mask : ((0xF : UInt32) <<< UInt32.ofNat (4 * k)).toNat = 15 <<< (4 * k) := by
    rw [UInt32.toNat_shiftLeft, shift, show (0xF : UInt32).toNat = 15 from rfl]
    refine Nat.mod_eq_of_lt ?_
    rw [Nat.shiftLeft_eq]
    have below : 2 ^ (4 * k) ≤ 2 ^ 28 := Nat.pow_le_pow_right (by decide) (by omega)
    omega
  have power : 2 ^ (4 * k) = 16 ^ k := Nat.pow_mul 2 4 k
  have digit : (15 : Nat) = 2 ^ 4 - 1 := rfl
  rw [slice, UInt32.toNat_toUInt8, UInt32.toNat_shiftRight, shift, UInt32.toNat_and, mask,
    Nat.shiftRight_and_distrib, Nat.shiftLeft_shiftRight, digit, Nat.and_two_pow_sub_one_eq_mod,
    Nat.shiftRight_eq_div_pow, power]
  omega

/-- What has been written when the number is `m` so far: nothing for zero. -/
def writtenHex (m : Nat) : Bool × List UInt8 := (decide (m ≠ 0), if m = 0 then [] else numeral 16 m)

/-- **One pass** appends one digit to the number so far. -/
theorem hexPass_eq (n : UInt32) {k : Nat} (inside : k < 8) :
    hexPass n (UInt32.ofNat (4 * k)) (writtenHex (n.toNat / 16 ^ (k + 1))) = writtenHex (n.toNat / 16 ^ k) := by
  have digit := toNat_slice n inside
  have small : n.toNat / 16 ^ k % 16 < 16 := Nat.mod_lt _ (by decide)
  have single : consoleWriteHexSingle (slice n (UInt32.ofNat (4 * k))).toUInt32
      = [digitChar (n.toNat / 16 ^ k % 16)] := by
    have same : (slice n (UInt32.ofNat (4 * k))).toUInt32 = UInt32.ofNat (n.toNat / 16 ^ k % 16) := by
      rw [← UInt32.toNat_inj, UInt8.toNat_toUInt32, digit, UInt32.toNat_ofNat_of_lt' (by
        exact Nat.lt_trans small (by decide))]
    rw [same]
    exact consoleWriteHexSingle_eq ⟨_, small⟩
  have before : n.toNat / 16 ^ (k + 1) = n.toNat / 16 ^ k / 16 := by
    rw [Nat.pow_succ, Nat.div_div_eq_div_mul]
  have zero : slice n (UInt32.ofNat (4 * k)) ≠ 0 ↔ n.toNat / 16 ^ k % 16 ≠ 0 := by
    rw [ne_eq, ← UInt8.toNat_inj, digit]
    rfl
  rw [before]
  unfold hexPass writtenHex
  rw [single]
  generalize n.toNat / 16 ^ k = m at *
  generalize slice n (UInt32.ofNat (4 * k)) = nibble at *
  by_cases started : m / 16 = 0
  · have value : m % 16 = m := by omega
    rw [value] at zero
    by_cases first : m = 0
    · have skipped : nibble = 0 := not_not.mp (mt zero.mp (not_not_intro first))
      simp [first, skipped]
    · have digits := numeral_small (by omega : m < 16)
      simp [started, value, first, zero.mpr first, digits]
  · have more : m ≠ 0 := by omega
    have appended := numeral_append (by decide : 1 < 16) started small
    rw [Nat.div_add_mod] at appended
    simp [started, more, appended]

theorem hexLoop_eq (n : UInt32) (k : Nat) : k ≤ 8 →
    hexLoop n k (writtenHex (n.toNat / 16 ^ k)) = writtenHex n.toNat := by
  induction k with
  | zero =>
    intro _
    rw [Nat.pow_zero, Nat.div_one]
    rfl
  | succ k ih =>
    intro inside
    rw [hexLoop, hexPass_eq n inside, ih (Nat.le_of_succ_le inside)]

/-- **`console_write_hex`** writes the hexadecimal numeral. -/
theorem consoleWriteHex_eq (n : UInt32) : consoleWriteHex n = numeral 16 n.toNat := by
  have start : writtenHex (n.toNat / 16 ^ 8) = (false, []) := by
    have small : n.toNat < 16 ^ 8 := n.toNat_lt
    rw [Nat.div_eq_of_lt small]
    rfl
  have loop := hexLoop_eq n 8 (Nat.le_refl 8)
  rw [start] at loop
  unfold consoleWriteHex
  rw [loop]
  by_cases zero : n.toNat = 0
  · rw [zero, numeral_small (by decide)]
    rfl
  · simp [writtenHex, zero]

/-! ### Decimal -/

theorem decimal_eq {n : UInt32} {d : Nat} (value : n.toNat = d) (small : d < 10) :
    (0x30 + n).toUInt8 = digitChar d := by
  rw [← UInt8.toNat_inj, toNat_digitChar (by omega), if_pos small, UInt32.toNat_toUInt8, UInt32.toNat_add,
    value, show (0x30 : UInt32).toNat = 0x30 from rfl]
  omega

/-- **`console_write_dec`** writes the decimal numeral. -/
theorem consoleWriteDec_eq (n : UInt32) : consoleWriteDec n = numeral 10 n.toNat := by
  induction n using consoleWriteDec.induct with
  | case1 n few =>
    have small : n.toNat < 10 := UInt32.lt_iff_toNat_lt.mp few
    rw [consoleWriteDec, if_pos few, numeral_small small, decimal_eq rfl small]
  | case2 n many ih =>
    have ten : 10 ≤ n.toNat := UInt32.le_iff_toNat_le.mp (UInt32.not_lt.mp many)
    have more : n.toNat / 10 ≠ 0 := by omega
    have appended := numeral_append (by decide : 1 < 10) more (Nat.mod_lt n.toNat (by decide : 0 < 10))
    rw [Nat.div_add_mod] at appended
    have last : (0x30 + n % 10).toUInt8 = digitChar (n.toNat % 10) :=
      decimal_eq (UInt32.toNat_mod n 10) (Nat.mod_lt _ (by decide))
    rw [consoleWriteDec, if_neg many, ih, UInt32.toNat_div, last, appended]
    rfl

/-! ### Reading -/

/-- **What is printed is read back**, for every number; there are characters, and the first one is '0' only
for zero. -/
theorem numbers_read_back (n : UInt32) :
    readNumeral 10 (consoleWriteDec n) = some n.toNat ∧ readNumeral 16 (consoleWriteHex n) = some n.toNat ∧
      consoleWriteDec n ≠ [] ∧ consoleWriteHex n ≠ [] ∧
      ((consoleWriteDec n).head? = some 0x30 → n = 0) ∧ ((consoleWriteHex n).head? = some 0x30 → n = 0) := by
  rw [consoleWriteDec_eq, consoleWriteHex_eq]
  refine ⟨readNumeral_numeral (by decide) (by decide) _, readNumeral_numeral (by decide) (by decide) _,
    numeral_ne_nil _ _, numeral_ne_nil _ _, fun head => ?_, fun head => ?_⟩
  · exact UInt32.toNat_inj.mp (eq_zero_of_head (by decide) (by decide) head)
  · exact UInt32.toNat_inj.mp (eq_zero_of_head (by decide) (by decide) head)

end Sprite.Console

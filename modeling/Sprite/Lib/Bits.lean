/-
**Single bits of a byte.**

* `mask_and_ne_zero` — testing with a one-bit mask reads the bit.
* `bit_or_mask`, `bit_and_not_mask`, `bit_not` — setting, clearing and complementing, bit for bit.
* `ext` — a byte is its bits.
* `bitsOf` — the bits of several bytes, the highest of each byte first: `length_bitsOf`,
  `getElem?_bitsOf`, `bitsOf_not`.
-/
import Mathlib.Data.Nat.Bitwise

namespace Bits

/-- Bit `k` of a byte, the least significant one first. -/
def bit (x : UInt8) (k : Nat) : Bool := x.toNat.testBit k

/-- The byte whose bit `k` is set. -/
def mask (k : Nat) : UInt8 := UInt8.ofNat (1 <<< k)

theorem toNat_mask {k : Nat} (inside : k < 8) : (mask k).toNat = 2 ^ k := by
  rw [mask, Nat.one_shiftLeft]
  exact UInt8.toNat_ofNat_of_lt' (Nat.pow_lt_pow_right (by decide) inside)

theorem mask_and_ne_zero (x : UInt8) {k : Nat} (inside : k < 8) :
    mask k &&& x ≠ 0 ↔ bit x k = true := by
  rw [ne_eq, ← UInt8.toNat_inj, UInt8.toNat_and, toNat_mask inside, Nat.and_comm, Nat.and_two_pow,
    bit]
  cases x.toNat.testBit k with
  | true => simp
  | false => simp

theorem bit_or_mask (x : UInt8) {k : Nat} (inside : k < 8) (i : Nat) :
    bit (x ||| mask k) i = (bit x i || decide (k = i)) := by
  rw [bit, UInt8.toNat_or, Nat.testBit_or, toNat_mask inside, Nat.testBit_two_pow]
  rfl

theorem bit_not (x : UInt8) {i : Nat} (inside : i < 8) : bit (~~~x) i = !bit x i := by
  have below : x.toNat < 2 ^ 8 := x.toNat_lt
  have value : (~~~x).toNat = 2 ^ 8 - (x.toNat + 1) := by
    rw [UInt8.toNat_not, show UInt8.size = 2 ^ 8 from rfl]
    omega
  rw [bit, value, Nat.testBit_two_pow_sub_succ below, decide_eq_true inside, Bool.true_and]
  rfl

theorem bit_and_not_mask (x : UInt8) {k i : Nat} (inside : k < 8) (inside' : i < 8) :
    bit (x &&& ~~~mask k) i = (bit x i && !decide (k = i)) := by
  have split : bit (x &&& ~~~mask k) i = (bit x i && bit (~~~mask k) i) := by
    rw [bit, UInt8.toNat_and, Nat.testBit_and]
    rfl
  rw [split, bit_not _ inside']
  show (bit x i && !(mask k).toNat.testBit i) = _
  rw [toNat_mask inside, Nat.testBit_two_pow]

theorem bit_zero (i : Nat) : bit 0 i = false := Nat.zero_testBit i

theorem bit_ones (i : Fin 8) : bit 0xFF i = true := by
  revert i
  decide

theorem bit_shift (x : UInt8) (i : Nat) : bit (x >>> 1) i = bit x (i + 1) := by
  have half : (x >>> 1).toNat = x.toNat >>> 1 := UInt8.toNat_shiftRight x 1
  rw [bit, half, Nat.testBit_shiftRight, Nat.add_comm, bit]

theorem ext {x y : UInt8} (same : ∀ i < 8, bit x i = bit y i) : x = y := by
  rw [← UInt8.toNat_inj]
  refine Nat.eq_of_testBit_eq fun i => ?_
  rcases Nat.lt_or_ge i 8 with inside | outside
  · exact same i inside
  · have large : 2 ^ 8 ≤ 2 ^ i := Nat.pow_le_pow_right (by decide) outside
    rw [Nat.testBit_lt_two_pow (Nat.lt_of_lt_of_le x.toNat_lt large),
      Nat.testBit_lt_two_pow (Nat.lt_of_lt_of_le y.toNat_lt large)]

/-! ### Several bytes -/

/-- The bits of a byte, the highest one first. -/
def byteBits (x : UInt8) : List Bool := (List.range 8).map fun k => bit x (7 - k)

/-- The bits of several bytes. -/
def bitsOf (bytes : List UInt8) : List Bool := bytes.flatMap byteBits

theorem length_byteBits (x : UInt8) : (byteBits x).length = 8 := rfl

theorem bitsOf_cons (x : UInt8) (bytes : List UInt8) : bitsOf (x :: bytes) = byteBits x ++ bitsOf bytes := rfl

theorem length_bitsOf (bytes : List UInt8) : (bitsOf bytes).length = 8 * bytes.length := by
  induction bytes with
  | nil => rfl
  | cons x bytes ih => rw [bitsOf_cons, List.length_append, ih, length_byteBits, List.length_cons]; omega

theorem getElem?_bitsOf (bytes : List UInt8) : ∀ p : Nat,
    (bitsOf bytes)[p]? = bytes[p / 8]?.map fun x => bit x (7 - p % 8) := by
  induction bytes with
  | nil => exact fun _ => rfl
  | cons x bytes ih =>
    intro p
    rw [bitsOf_cons]
    rcases Nat.lt_or_ge p 8 with inside | further
    · rw [List.getElem?_append_left (by rwa [length_byteBits]), byteBits, List.getElem?_map,
        List.getElem?_range inside, Nat.div_eq_of_lt inside, Nat.mod_eq_of_lt inside]
      rfl
    · have index : p / 8 = (p - 8) / 8 + 1 := by omega
      have place : p % 8 = (p - 8) % 8 := by omega
      rw [List.getElem?_append_right (by rwa [length_byteBits]), length_byteBits, ih, index, place,
        List.getElem?_cons_succ]

theorem mem_byteBits {x : UInt8} {value : Bool} : value ∈ byteBits x ↔ ∃ i < 8, bit x i = value := by
  simp only [byteBits, List.mem_map, List.mem_range]
  constructor
  · rintro ⟨k, _, isBit⟩
    exact ⟨7 - k, by omega, isBit⟩
  · rintro ⟨i, inside, isBit⟩
    exact ⟨7 - i, by omega, by rwa [Nat.sub_sub_self (Nat.le_of_lt_succ inside)]⟩

theorem mem_bitsOf {bytes : List UInt8} {value : Bool} :
    value ∈ bitsOf bytes ↔ ∃ x ∈ bytes, ∃ i < 8, bit x i = value := by
  simp only [bitsOf, List.mem_flatMap, mem_byteBits]

theorem byteBits_not (x : UInt8) : byteBits (~~~x) = (byteBits x).map not := by
  simp only [byteBits, List.map_map]
  refine List.map_congr_left fun k _ => ?_
  exact bit_not x (by omega)

theorem bitsOf_not (bytes : List UInt8) : bitsOf (bytes.map fun x => ~~~x) = (bitsOf bytes).map not := by
  induction bytes with
  | nil => rfl
  | cons x bytes ih => rw [List.map_cons, bitsOf_cons, bitsOf_cons, List.map_append, ih, byteBits_not]

end Bits

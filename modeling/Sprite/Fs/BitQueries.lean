/-
**The queries of the bitmap**, after `src/include/bitmap.hpp`.

`find_first` and `count` go through the bits of each byte with a mask or a shift. Loops over a byte are
given as many steps as there are bytes; one that has not ended by then goes round for ever.

* `bits` — the content of the bitmap, the highest bit of each byte first.
* `findFirst_spec`, `count_spec` — what the two loops answer.
* `find_first_iff` — **when `find_first` answers a position**: its index inside a byte never moves.
* `summaries_iff` — **which of the five summaries are right** for which content.
-/
import Mathlib.Data.Bool.Count
import Mathlib.Data.List.Count
import Sprite.Fs.Bitmap

namespace Sprite.Fs

/-- A loop over a byte that has not ended after as many steps as there are bytes does not end. -/
def kBytes : Nat := 2 ^ 8

namespace Bitmap

variable {N : Nat}

/-- `data_`, in the order of a loop over it. -/
def stores (b : Bitmap N) : List UInt8 := List.ofFn b.data_

def size (_ : Bitmap N) : Nat := N

/-- `while (mask)`, which leaves `find_first` with a position or goes on to the next byte. -/
def maskLoop (x : UInt8) (value : Bool) (j i : Nat) : Nat → UInt8 → Option (Option Nat)
  | 0, _ => none
  | fuel + 1, mask =>
    if mask ≠ 0 then
      if decide (x &&& mask ≠ 0) = value then some (some (j * sizeofBitStore + i))
      else maskLoop x value j i fuel (mask >>> 1)
    else some none

/-- The loop of `find_first`, from byte `j` on. -/
def findFrom (b : Bitmap N) (value : Bool) : Nat → List UInt8 → Option Nat
  | _, [] => some b.size
  | j, x :: rest => do
    match ← maskLoop x value j 0 kBytes 0x80 with
    | some pos => return pos
    | none => findFrom b value (j + 1) rest

def findFirst (b : Bitmap N) (value : Bool) : Option Nat := b.findFrom value 0 b.stores

def all (b : Bitmap N) : Bool := b.stores.all fun x => x = 0xFF

def any (b : Bitmap N) : Bool := b.stores.any fun x => x ≠ 0

def none (b : Bitmap N) : Bool := !b.all

/-- `while (x)`. -/
def countLoop : Nat → UInt8 → Nat → Option Nat
  | 0, _, _ => .none
  | fuel + 1, x, cnt =>
    if x ≠ 0 then countLoop fuel (x >>> 1) (if x &&& 1 ≠ 0 then cnt + 1 else cnt) else some cnt

/-- The number counted is answered as a `bool`. -/
def count (b : Bitmap N) : Option Bool := do
  let cnt ← b.stores.foldlM (fun cnt x => countLoop kBytes x cnt) 0
  return decide (cnt ≠ 0)

/-- **The content**: bit by bit, from the highest bit of `data_[0]` on. -/
def bits (b : Bitmap N) : List Bool := Bits.bitsOf b.stores

/-- The number of bits that are set. -/
def ones (b : Bitmap N) : Nat := b.bits.count true

end Bitmap

open Bitmap

variable {N : Nat} {b : Bitmap N}

/-! ### The content -/

theorem length_bits (positive : 0 < N) (multiple : 32 ∣ N) (b : Bitmap N) : b.bits.length = N := by
  rw [bits, Bits.length_bitsOf, stores, List.length_ofFn, length_eq positive multiple]
  omega

/-- The bit at a position is in the byte with an eighth of the number. -/
theorem getElem?_bits (b : Bitmap N) (p : Nat) (inside : p / 8 < length_ N) :
    b.bits[p]? = some (Bits.bit (b.data_ ⟨p / 8, inside⟩) (7 - p % 8)) := by
  rw [bits, Bits.getElem?_bitsOf, stores, List.getElem?_ofFn, dif_pos inside, Option.map_some]

theorem bits_flipAll (b : Bitmap N) : b.flipAll.bits = b.bits.map not := by
  rw [bits, bits, ← Bits.bitsOf_not, stores, stores, List.map_ofFn]
  rfl

/-! ### `find_first` -/

theorem mask_pos : ∀ k < 8, Bits.mask k ≠ 0 := by decide

theorem mask_shift : ∀ k < 7, Bits.mask (k + 1) >>> 1 = Bits.mask k := by decide

/-- One step of the loop looks at the bit of the mask. -/
theorem maskLoop_step (x : UInt8) (value : Bool) (j fuel : Nat) {k : Nat} (inside : k < 8) :
    maskLoop x value j 0 (fuel + 1) (Bits.mask k)
      = if Bits.bit x k = value then some (some j) else maskLoop x value j 0 fuel (Bits.mask k >>> 1) := by
  have isBit : decide (x &&& Bits.mask k ≠ 0) = Bits.bit x k := by
    rw [UInt8.and_comm, Bool.eq_iff_iff, decide_eq_true_iff]
    exact Bits.mask_and_ne_zero x inside
  have position : j * sizeofBitStore + 0 = j := Nat.mul_one j
  rw [maskLoop, if_pos (mask_pos k inside), isBit, position]

/-- **The loop over a byte** answers the number of the byte when any of its bits has the value. -/
theorem maskLoop_spec (x : UInt8) (value : Bool) (j k : Nat) : ∀ fuel, k < 8 → k + 1 < fuel →
    maskLoop x value j 0 fuel (Bits.mask k)
      = some (if ∃ i ≤ k, Bits.bit x i = value then some j else .none) := by
  induction k with
  | zero =>
    intro fuel inside enough
    obtain ⟨fuel, rfl⟩ : ∃ n, fuel = n + 2 := ⟨fuel - 2, by omega⟩
    have ended : maskLoop x value j 0 (fuel + 1) (Bits.mask 0 >>> 1) = some .none := by
      have zero : Bits.mask 0 >>> 1 = 0 := by decide
      rw [zero, maskLoop, if_neg (not_not_intro rfl)]
    simp only [maskLoop_step x value j _ inside, ended, Nat.le_zero_eq, exists_eq_left]
    split_ifs
    · rfl
    · rfl
  | succ k ih =>
    intro fuel inside enough
    obtain ⟨fuel, rfl⟩ : ∃ n, fuel = n + 1 := ⟨fuel - 1, by omega⟩
    rw [maskLoop_step x value j _ inside, mask_shift k (by omega),
      ih fuel (by omega) (by omega)]
    by_cases here : Bits.bit x (k + 1) = value
    · rw [if_pos here, if_pos ⟨k + 1, Nat.le_refl _, here⟩]
    · have same : (∃ i ≤ k + 1, Bits.bit x i = value) ↔ ∃ i ≤ k, Bits.bit x i = value := by
        constructor
        · rintro ⟨i, below, isBit⟩
          refine ⟨i, Nat.le_of_lt_succ (Nat.lt_of_le_of_ne below ?_), isBit⟩
          rintro rfl
          exact here isBit
        · rintro ⟨i, below, isBit⟩
          exact ⟨i, Nat.le_succ_of_le below, isBit⟩
      rw [if_neg here, if_congr same rfl rfl]

theorem maskLoop_byte (x : UInt8) (value : Bool) (j : Nat) : maskLoop x value j 0 kBytes 0x80
    = some (if value ∈ Bits.byteBits x then some j else .none) := by
  have whole := maskLoop_spec x value j 7 kBytes (by decide) (by decide)
  have same : (∃ i ≤ 7, Bits.bit x i = value) ↔ value ∈ Bits.byteBits x := by
    rw [Bits.mem_byteBits]
    simp only [Nat.lt_succ_iff]
  rw [if_congr same rfl rfl] at whole
  exact whole

/-- **The loop of `find_first`** answers the number of the first byte with a bit of the value. -/
theorem findFrom_spec (b : Bitmap N) (value : Bool) (bytes : List UInt8) : ∀ j,
    b.findFrom value j bytes = some (if value ∈ Bits.bitsOf bytes
      then j + (Bits.bitsOf bytes).idxOf value / 8 else N) := by
  induction bytes with
  | nil => exact fun j => rfl
  | cons x bytes ih =>
    intro j
    rw [findFrom, maskLoop_byte, Bits.bitsOf_cons, List.idxOf_append]
    by_cases here : value ∈ Bits.byteBits x
    · have inside := List.idxOf_lt_length_of_mem here
      rw [Bits.length_byteBits] at inside
      rw [if_pos here, if_pos here, if_pos (List.mem_append_left _ here), Nat.div_eq_of_lt inside]
      rfl
    · rw [if_neg here, if_neg here, Option.bind_eq_bind, Option.bind_some, ih, Bits.length_byteBits]
      have same : value ∈ Bits.byteBits x ++ Bits.bitsOf bytes ↔ value ∈ Bits.bitsOf bytes := by
        rw [List.mem_append, or_iff_right here]
      rw [if_congr same rfl rfl, Nat.add_div_right _ (by decide)]
      split_ifs
      · rw [Nat.add_assoc, Nat.add_comm 1]
      · rfl

/-- **`find_first`** answers an eighth of the position that it should. -/
theorem findFirst_spec (b : Bitmap N) (value : Bool) :
    b.findFirst value = some (if value ∈ b.bits then b.bits.idxOf value / 8 else N) := by
  rw [findFirst, findFrom_spec, Nat.zero_add]
  rfl

/-- The smallest position with a value, and the size when there is none. -/
def FirstAt (b : Bitmap N) (value : Bool) (p : Nat) : Prop :=
  (b.bits[p]? = some value ∧ ∀ q < p, b.bits[q]? ≠ some value) ∨ (p = N ∧ ∀ q < N, b.bits[q]? ≠ some value)

/-- No position with a value is before the first one. -/
theorem idxOf_le {bits : List Bool} {value : Bool} {p : Nat} (isBit : bits[p]? = some value) :
    bits.idxOf value ≤ p := by
  have early : (bits.take (p + 1))[p]? = some value := by
    rw [List.getElem?_take_of_lt (Nat.lt_succ_self p), isBit]
  exact Nat.le_of_lt_succ
    ((List.mem_take_iff_idxOf_lt (List.mem_of_getElem? isBit)).mp (List.mem_of_getElem? early))

/-- **`find_first` answers the smallest position** of a value exactly when this is the first of all, or the
value is not there. -/
theorem find_first_iff (positive : 0 < N) (multiple : 32 ∣ N) (b : Bitmap N) (value : Bool) :
    (∃ p, b.findFirst value = some p ∧ FirstAt b value p) ↔
      b.bits[0]? = some value ∨ ∀ q < N, b.bits[q]? ≠ some value := by
  have length := length_bits positive multiple b
  have absent : (∀ q < N, b.bits[q]? ≠ some value) ↔ value ∉ b.bits := by
    rw [List.mem_iff_getElem?, not_exists]
    refine ⟨fun none q isBit => none q ?_ isBit, fun none q _ => none q⟩
    exact length ▸ (List.getElem?_eq_some_iff.mp isBit).1
  rw [findFirst_spec]
  unfold FirstAt
  rw [absent]
  by_cases member : value ∈ b.bits
  · rw [if_pos member, or_iff_left (not_not_intro member)]
    constructor
    · rintro ⟨p, same, ⟨isBit, _⟩ | ⟨_, none⟩⟩
      · cases same
        have minimal := idxOf_le isBit
        have zero : b.bits.idxOf value / 8 = 0 := by omega
        rwa [zero] at isBit
      · exact absurd member none
    · intro isBit
      have zero : b.bits.idxOf value = 0 := Nat.le_zero.mp (idxOf_le isBit)
      refine ⟨0, by rw [zero], .inl ⟨isBit, fun q impossible => absurd impossible (Nat.not_lt_zero q)⟩⟩
  · rw [if_neg member]
    exact iff_of_true ⟨N, rfl, .inr ⟨rfl, member⟩⟩ (.inr member)

/-- A bitmap of 32 bits with one byte that is not zero. -/
def oneByte (i : Nat) (x : UInt8) : Bitmap 32 := ⟨fun j => if j.val = i then x else 0⟩

/-- The first bit of all is found. -/
theorem first_bit_found : ∃ p, (oneByte 0 0x80).findFirst true = some p ∧ FirstAt (oneByte 0 0x80) true p :=
  (find_first_iff (by decide) (by decide) (oneByte 0 0x80) true).mpr (.inl (by decide))

/-- **A byte further** the answer is 1, where bit 8 is the first that is set. -/
theorem later_bit_not_found : (oneByte 1 0x80).findFirst true = some 1 ∧
    (oneByte 1 0x80).bits[8]? = some true ∧ ∀ q < 8, (oneByte 1 0x80).bits[q]? = some false := by
  decide

/-! ### The summaries -/

/-- **The loop over a byte** adds the bits that are set. -/
theorem countLoop_spec (k : Nat) : ∀ fuel (x : UInt8) (cnt : Nat), x.toNat < 2 ^ k → k < fuel →
    countLoop fuel x cnt = some (cnt + (List.range k).countP (Bits.bit x)) := by
  induction k with
  | zero =>
    intro fuel x cnt small enough
    obtain ⟨fuel, rfl⟩ : ∃ n, fuel = n + 1 := ⟨fuel - 1, by omega⟩
    have zero : x = 0 := UInt8.toNat_inj.mp (Nat.lt_one_iff.mp small)
    rw [countLoop, if_neg (not_not_intro zero)]
    rfl
  | succ k ih =>
    intro fuel x cnt small enough
    obtain ⟨fuel, rfl⟩ : ∃ n, fuel = n + 1 := ⟨fuel - 1, by omega⟩
    have shifted : (List.range (k + 1)).countP (Bits.bit x)
        = (if Bits.bit x 0 then 1 else 0) + (List.range k).countP (Bits.bit (x >>> 1)) := by
      rw [List.range_succ_eq_map, List.countP_cons, List.countP_map, Nat.add_comm]
      refine congrArg₂ _ rfl (List.countP_congr fun i _ => ?_)
      rw [Function.comp_apply, Bits.bit_shift]
    by_cases zero : x = 0
    · have none : (List.range (k + 1)).countP (Bits.bit x) = 0 := by
        rw [List.countP_eq_zero]
        intro i _
        rw [zero, Bits.bit_zero]
        exact Bool.false_ne_true
      rw [countLoop, if_neg (not_not_intro zero), none, Nat.add_zero]
    · have half : (x >>> 1).toNat < 2 ^ k := by
        have value : (x >>> 1).toNat = x.toNat >>> 1 := UInt8.toNat_shiftRight x 1
        rw [value, Nat.shiftRight_eq_div_pow, Nat.div_lt_iff_lt_mul (by decide), ← Nat.pow_succ]
        exact small
      have lowest : x &&& 1 ≠ 0 ↔ Bits.bit x 0 = true := by
        rw [UInt8.and_comm]
        exact Bits.mask_and_ne_zero x (by decide : 0 < 8)
      rw [countLoop, if_pos zero, ih fuel _ _ half (by omega), shifted, ← Nat.add_assoc, if_congr lowest rfl rfl]
      split_ifs
      · rfl
      · rfl

theorem count_byteBits (x : UInt8) : (Bits.byteBits x).count true = (List.range 8).countP (Bits.bit x) := by
  have reversed : Bits.byteBits x = ((List.range 8).map (Bits.bit x)).reverse := rfl
  rw [reversed, List.count_reverse, List.count, List.countP_map]
  exact List.countP_congr fun i _ => by simp

theorem countStores_spec (bytes : List UInt8) : ∀ cnt, bytes.foldlM (fun cnt x => countLoop kBytes x cnt) cnt
    = some (cnt + (Bits.bitsOf bytes).count true) := by
  induction bytes with
  | nil => exact fun _ => rfl
  | cons x bytes ih =>
    intro cnt
    rw [List.foldlM_cons, countLoop_spec 8 kBytes x cnt x.toNat_lt (by decide), Option.bind_eq_bind,
      Option.bind_some, ih, Bits.bitsOf_cons, List.count_append, count_byteBits, Nat.add_assoc]

/-- **`count`** answers whether any bit is set. -/
theorem count_spec (b : Bitmap N) : b.count = some (decide (b.ones ≠ 0)) := by
  rw [Bitmap.count, countStores_spec, Nat.zero_add]
  rfl

theorem any_iff (b : Bitmap N) : b.any = true ↔ 0 < b.ones := by
  rw [Bitmap.any, List.any_eq_true, ones, List.count_pos_iff, bits, Bits.mem_bitsOf]
  refine exists_congr fun x => and_congr_right fun _ => ?_
  rw [decide_eq_true_iff]
  constructor
  · intro nonzero
    by_contra none
    push Not at none
    exact nonzero (Bits.ext fun i inside => by
      rw [Bits.bit_zero, Bool.eq_false_iff]
      exact none i inside)
  · rintro ⟨i, _, isBit⟩ rfl
    rw [Bits.bit_zero] at isBit
    cases isBit

theorem all_iff (positive : 0 < N) (multiple : 32 ∣ N) (b : Bitmap N) : b.all = true ↔ b.ones = N := by
  have length := length_bits positive multiple b
  have full : b.ones = N ↔ ∀ bit ∈ b.bits, true = bit := by
    rw [← List.count_eq_length, length]
    rfl
  rw [full, Bitmap.all, List.all_eq_true]
  constructor
  · intro ones value member
    obtain ⟨x, inside, i, below, isBit⟩ := Bits.mem_bitsOf.mp member
    have isFull : x = 0xFF := of_decide_eq_true (ones x inside)
    rw [← isBit, isFull, Bits.bit_ones ⟨i, below⟩]
  · intro ones x member
    refine decide_eq_true (Bits.ext fun i below => ?_)
    rw [Bits.bit_ones ⟨i, below⟩]
    exact (ones _ (Bits.mem_bitsOf.mpr ⟨x, member, i, below, rfl⟩)).symm

/-- After `flip` the other bits are set. -/
theorem ones_flipAll (positive : 0 < N) (multiple : 32 ∣ N) (b : Bitmap N) :
    b.ones + b.flipAll.ones = N := by
  have others : b.flipAll.ones = b.bits.count false := by
    rw [ones, bits_flipAll]
    exact List.count_map_of_injective b.bits not (fun _ _ => Bool.not_inj) false
  rw [others, ones, List.count_true_add_count_false, length_bits positive multiple b]

theorem none_iff (positive : 0 < N) (multiple : 32 ∣ N) (b : Bitmap N) : b.none = true ↔ b.ones ≠ N := by
  rw [Bitmap.none, Bool.not_eq_true', ← Bool.not_eq_true, all_iff positive multiple b]

theorem toNat_decide (n : Nat) : (decide (n ≠ 0)).toNat = if n = 0 then 0 else 1 := by
  by_cases zero : n = 0
  · rw [if_pos zero, decide_eq_false (not_not_intro zero)]
    rfl
  · rw [if_neg zero, decide_eq_true zero]
    rfl

/-- **The summaries agree** with the content and with one another: `count()` is `c`, and `c'` after
`flip()`. -/
structure SummariesAgree (b : Bitmap N) (c c' : Nat) : Prop where
  count : c = b.ones
  any : b.any = true ↔ 0 < c
  none : b.none = true ↔ c = 0
  opposite : b.none = !b.any
  all : b.all = true ↔ c = N
  flip : c' = N - c

/-- **The summaries agree for no content.** `count` is right for one bit at most, `any` always, `none` for no
bit and for all, `all` unless it is true, and the bits after `flip` are never counted. -/
theorem summaries_iff (positive : 0 < N) (multiple : 32 ∣ N) (b : Bitmap N) :
    ∃ c c' : Bool, b.count = some c ∧ b.flipAll.count = some c' ∧
      ¬ SummariesAgree b c.toNat c'.toNat ∧ (c.toNat = b.ones ↔ b.ones ≤ 1) ∧
      (b.any = true ↔ 0 < c.toNat) ∧ ((b.none = true ↔ c.toNat = 0) ↔ b.ones = 0 ∨ b.ones = N) ∧
      ((b.none = !b.any) ↔ b.ones = 0 ∨ b.ones = N) ∧ ((b.all = true ↔ c.toNat = N) ↔ b.ones ≠ N) ∧
      c'.toNat ≠ N - c.toNat := by
  have all := all_iff positive multiple b
  have none := none_iff positive multiple b
  have any := any_iff b
  have total := ones_flipAll positive multiple b
  have large : 32 ≤ N := Nat.le_of_dvd positive multiple
  have opposite : (b.none = !b.any) ↔ (b.ones ≠ N ↔ ¬ 0 < b.ones) := by
    rw [← none, ← any, Bool.not_eq_true, Bool.eq_iff_iff, Bool.not_eq_true']
  refine ⟨_, _, count_spec b, count_spec b.flipAll, fun agree => ?_, ?_⟩
  · have flipped := agree.flip
    rw [toNat_decide, toNat_decide] at flipped
    split_ifs at flipped <;> omega
  · rw [all, none, any, opposite, toNat_decide, toNat_decide]
    grind

/-- Four bits of 32 are set. -/
theorem four_bits_disagree : ∃ c c' : Bool, (oneByte 0 0x0F).count = some c ∧
    (oneByte 0 0x0F).flipAll.count = some c' ∧ ¬ SummariesAgree (oneByte 0 0x0F) c.toNat c'.toNat := by
  obtain ⟨c, c', counted, counted', disagree, _⟩ := summaries_iff (by decide) (by decide) (oneByte 0 0x0F)
  exact ⟨c, c', counted, counted', disagree⟩

/-- **Four bits are counted as one**, there are some and there are none, and the other 28 are counted as
one, too. -/
theorem four_bits_count_one : (oneByte 0 0x0F).ones = 4 ∧ (oneByte 0 0x0F).count = some true ∧
    (oneByte 0 0x0F).any = true ∧ (oneByte 0 0x0F).none = true ∧
    (oneByte 0 0x0F).flipAll.count = some true ∧ (true : Bool).toNat ≠ 32 - (true : Bool).toNat := by
  decide

end Sprite.Fs

/-
**32-bit words in byte memory.**

A 32-bit machine's memory maps every address to a byte; a word occupies four consecutive addresses,
least significant byte first, and addresses wrap round at `2 ^ 32`.

* `load32_store32` — a stored word is read back.
* `store32_frame` — storing leaves every byte outside the four alone.
* `toNat_load32_store32_below` — a store that overlaps the lower half of a word.
* `toNat_clearLow`, `toNat_low`, `toNat_setLow` — the low-bit masks as arithmetic on `Nat`, the
  form `omega` works with.
* `toNat_pageBase`, `pageBase_or` — the base of the page of an address, and of one with flags.
-/
import Mathlib.Data.Nat.Bitwise
import Mathlib.Tactic.IntervalCases

namespace Words

/-- The memory of a 32-bit machine. -/
abbrev Memory := UInt32 → UInt8

/-- Byte `index` of a word, the least significant one first. -/
def byteOf (value : UInt32) (index : Nat) : UInt8 := UInt8.ofNat (value.toNat / 256 ^ index)

/-- The word at an address. -/
def load32 (memory : Memory) (address : UInt32) : UInt32 :=
  UInt32.ofNat ((memory address).toNat + 256 * (memory (address + 1)).toNat
    + 65536 * (memory (address + 2)).toNat + 16777216 * (memory (address + 3)).toNat)

/-- Memory after a word is stored at an address. -/
def store32 (memory : Memory) (address value : UInt32) : Memory := fun place =>
  if (place - address).toNat < 4 then byteOf value (place - address).toNat else memory place

/-- The bytes of a word recompose it. -/
theorem bytes_recompose (value : UInt32) :
    (byteOf value 0).toNat + 256 * (byteOf value 1).toNat + 65536 * (byteOf value 2).toNat
      + 16777216 * (byteOf value 3).toNat = value.toNat := by
  have small : value.toNat < 2 ^ 32 := value.toNat_lt
  simp only [byteOf, UInt8.toNat_ofNat']
  omega

theorem store32_at (memory : Memory) (address value offset : UInt32) (inside : offset.toNat < 4) :
    store32 memory address value (address + offset) = byteOf value offset.toNat := by
  have same : address + offset - address = offset := by
    rw [UInt32.add_comm, UInt32.add_sub_cancel]
  simp only [store32, same, if_pos inside]

/-- **A stored word is read back.** -/
theorem load32_store32 (memory : Memory) (address value : UInt32) :
    load32 (store32 memory address value) address = value := by
  have first : store32 memory address value address = byteOf value 0 := by
    have at_zero := store32_at memory address value 0 (by decide)
    rwa [UInt32.add_zero] at at_zero
  rw [load32, first, store32_at _ _ _ 1 (by decide), store32_at _ _ _ 2 (by decide),
    store32_at _ _ _ 3 (by decide)]
  refine (congrArg UInt32.ofNat (bytes_recompose value)).trans ?_
  exact UInt32.ofNat_toNat

/-- A byte outside the four a store touches. The second way to be outside is for a store whose last
bytes wrap round to the bottom of the address space. -/
theorem store32_frame {memory : Memory} {address value place : UInt32}
    (outside : address.toNat + 4 ≤ place.toNat
      ∨ place.toNat < address.toNat ∧ address.toNat + 4 ≤ place.toNat + 2 ^ 32) :
    store32 memory address value place = memory place := by
  have small := place.toNat_lt
  have small' := address.toNat_lt
  have far : ¬ (place - address).toNat < 4 := by
    rw [UInt32.toNat_sub]
    omega
  simp only [store32, if_neg far]

/-- A word depends on its four bytes only. -/
theorem load32_congr {memory memory' : Memory} {address : UInt32}
    (fits : address.toNat + 4 ≤ 2 ^ 32)
    (same : ∀ place : UInt32, address.toNat ≤ place.toNat → place.toNat < address.toNat + 4 →
      memory' place = memory place) : load32 memory' address = load32 memory address := by
  have each : ∀ offset : UInt32, offset.toNat < 4 →
      memory' (address + offset) = memory (address + offset) := by
    intro offset inside
    have value : (address + offset).toNat = address.toNat + offset.toNat := by
      rw [UInt32.toNat_add]
      omega
    exact same _ (by omega) (by omega)
  have first := same address le_rfl (by omega)
  simp only [load32, first, each 1 (by decide), each 2 (by decide), each 3 (by decide)]

/-- A word is recomposed from its bytes without a carry. -/
theorem toNat_load32 (memory : Memory) (address : UInt32) :
    (load32 memory address).toNat = (memory address).toNat + 256 * (memory (address + 1)).toNat
      + 65536 * (memory (address + 2)).toNat + 16777216 * (memory (address + 3)).toNat := by
  have first := (memory address).toNat_lt
  have second := (memory (address + 1)).toNat_lt
  have third := (memory (address + 2)).toNat_lt
  have fourth := (memory (address + 3)).toNat_lt
  exact UInt32.toNat_ofNat_of_lt' (by simp only [UInt32.size]; omega)

/-- **A store two bytes below a word** leaves its own upper half in the lower half of the word. -/
theorem toNat_load32_store32_below (memory : Memory) (address value : UInt32) :
    (load32 (store32 memory address value) (address + 2)).toNat
      = value.toNat / 65536 + 65536 * ((load32 memory (address + 2)).toNat / 65536) := by
  have small := value.toNat_lt
  have offset : ∀ n m : UInt32, address + n + m - address = n + m := fun n m => by
    rw [UInt32.add_assoc, UInt32.add_comm, UInt32.add_sub_cancel]
  have third : store32 memory address value (address + 2) = byteOf value 2 :=
    store32_at _ _ _ 2 (by decide)
  have fourth : store32 memory address value (address + 2 + 1) = byteOf value 3 := by
    rw [store32, offset, if_pos (by decide)]
    rfl
  have fifth : store32 memory address value (address + 2 + 2) = memory (address + 2 + 2) := by
    rw [store32, offset, if_neg (by decide)]
  have sixth : store32 memory address value (address + 2 + 3) = memory (address + 2 + 3) := by
    rw [store32, offset, if_neg (by decide)]
  have low := (memory (address + 2)).toNat_lt
  have high := (memory (address + 2 + 1)).toNat_lt
  rw [toNat_load32, toNat_load32, third, fourth, fifth, sixth]
  simp only [byteOf, UInt8.toNat_ofNat']
  omega

/-! ### Low-bit masks -/

theorem toNat_low (value : UInt32) : (value &&& 1).toNat = value.toNat % 2 := by
  rw [UInt32.toNat_and, show (1 : UInt32).toNat = 1 from rfl, Nat.and_one_is_mod]

theorem toNat_clearLow (value : UInt32) :
    (value &&& 0xFFFFFFFE).toNat = value.toNat - value.toNat % 2 := by
  have small := value.toNat_lt
  have even : (value.toNat &&& 0xFFFFFFFE) % 2 = 0 := by
    rw [← Nat.and_one_is_mod, Nat.and_assoc]
    exact Nat.and_zero _
  have half : (value.toNat &&& 0xFFFFFFFE) / 2 = value.toNat / 2 := by
    rw [Nat.and_div_two, show (0xFFFFFFFE : Nat) / 2 = 2 ^ 31 - 1 by norm_num,
      Nat.and_two_pow_sub_one_eq_mod]
    omega
  rw [UInt32.toNat_and, show (0xFFFFFFFE : UInt32).toNat = 0xFFFFFFFE from rfl]
  omega

theorem toNat_setLow {value : UInt32} (even : value.toNat % 2 = 0) :
    (value ||| 1).toNat = value.toNat + 1 := by
  rw [UInt32.toNat_or, show (1 : UInt32).toNat = 1 from rfl]
  have half : (value.toNat ||| 1) / 2 = value.toNat / 2 := by
    rw [Nat.or_div_two]
    exact Nat.or_zero _
  have odd : (value.toNat ||| 1) % 2 = 1 := Nat.or_mod_two_eq_one.mpr (Or.inr rfl)
  omega

/-! ### Page addresses -/

theorem toNat_pageBase (value : UInt32) :
    (value &&& 0xFFFFF000).toNat = value.toNat / 4096 * 4096 := by
  have small := value.toNat_lt
  have low : (value.toNat &&& 0xFFFFF000) % 2 ^ 12 = 0 := by
    rw [Nat.and_mod_two_pow]
    exact Nat.and_zero _
  have high : (value.toNat &&& 0xFFFFF000) / 2 ^ 12 = value.toNat / 4096 := by
    rw [Nat.and_div_two_pow, show (0xFFFFF000 : Nat) / 2 ^ 12 = 2 ^ 20 - 1 by norm_num,
      Nat.and_two_pow_sub_one_eq_mod]
    omega
  rw [UInt32.toNat_and, show (0xFFFFF000 : UInt32).toNat = 0xFFFFF000 from rfl]
  omega

theorem pageBase_eq_iff {value : UInt32} : value &&& 0xFFFFF000 = value ↔ value.toNat % 4096 = 0 := by
  rw [← UInt32.toNat_inj, toNat_pageBase]
  omega

/-- Flags below the page base do not show in it. -/
theorem pageBase_or (value : UInt32) {flags : UInt32} (low : flags &&& 0xFFFFF000 = 0) :
    (value ||| flags) &&& 0xFFFFF000 = value &&& 0xFFFFF000 := by
  rw [← UInt32.toNat_inj] at low ⊢
  simp only [UInt32.toNat_and, UInt32.toNat_or] at low ⊢
  rw [Nat.and_or_distrib_right, low]
  exact Nat.or_zero _

/-- A flag that has been set is set. -/
theorem or_and_self (value flag : UInt32) : (value ||| flag) &&& flag = flag := by
  rw [← UInt32.toNat_inj]
  simp only [UInt32.toNat_and, UInt32.toNat_or]
  refine Nat.eq_of_testBit_eq fun bit => ?_
  rw [Nat.testBit_and, Nat.testBit_or]
  cases flag.toNat.testBit bit with
  | true => rw [Bool.or_true, Bool.true_and]
  | false => rw [Bool.and_false]

end Words

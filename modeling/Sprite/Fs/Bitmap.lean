/-
**The bitmap**, after `src/include/bitmap.hpp`, against an array of booleans.

An index outside `data_` is `none`.

* `set`, `test`, `flip`, `flipAll`, `clear`, and `BitRef` for `operator[]`.
* `cell_eq` — which positions have their byte inside `data_`.
* `set_spec`, `test_spec`, `flip_spec` — the operations, bit for bit.
* `bitmap_right_iff` — **when the bitmap is an array of `N` booleans**: an operation does what it does
  on the array if and only if its position is below `N / 8`.
-/
import Mathlib.Logic.Function.Basic
import Sprite.Lib.Bits

namespace Sprite.Fs

/-- `sizeof(bit_store)`. -/
def sizeofBitStore : Nat := 1

/-- How many `bit_store` there are. -/
def length_ (N : Nat) : Nat := (N - 1) / 8 / sizeofBitStore + 1

structure Bitmap (N : Nat) where
  data_ : Fin (length_ N) → UInt8

/-- `operator[](idx)`: the bit that is referred to. -/
structure BitRef where
  pos_ : UInt32

namespace Bitmap

variable {N : Nat}

/-- The constructor. -/
def zero (N : Nat) : Bitmap N := ⟨fun _ => 0⟩

/-- `int i = pos / sizeof(bit_store)`. -/
def storeIndex (pos : UInt32) : Int := (pos / UInt32.ofNat sizeofBitStore).toInt32.toInt

/-- `int j = pos % sizeof(bit_store)`. -/
def bitIndex (pos : UInt32) : Nat := (pos % UInt32.ofNat sizeofBitStore).toNat

/-- `bit_store mask = 1 << (sizeof(bit_store) * 8 - 1 - j)`. -/
def mask (pos : UInt32) : UInt8 := UInt8.ofNat (1 <<< (sizeofBitStore * 8 - 1 - bitIndex pos))

/-- The element of `data_` an index leads to. -/
def cell (N : Nat) (i : Int) : Option (Fin (length_ N)) :=
  if inside : 0 ≤ i ∧ i.toNat < length_ N then some ⟨i.toNat, inside.2⟩ else none

def set (b : Bitmap N) (pos : UInt32) (x : Bool) : Option (Bitmap N) := do
  let i ← cell N (storeIndex pos)
  let target := b.data_ i
  let target := if x then target ||| mask pos else target &&& ~~~mask pos
  return ⟨Function.update b.data_ i target⟩

def test (b : Bitmap N) (pos : UInt32) : Option Bool := do
  let i ← cell N (storeIndex pos)
  return decide (mask pos &&& b.data_ i ≠ 0)

/-- `flip(pos)`. -/
def flip (b : Bitmap N) (pos : UInt32) : Option (Bitmap N) := do
  let x ← b.test pos
  if x then b.set pos false else b.set pos true

/-- `flip()`. -/
def flipAll (b : Bitmap N) : Bitmap N := ⟨fun i => ~~~b.data_ i⟩

def clear (_ : Bitmap N) : Bitmap N := ⟨fun _ => 0⟩

/-- `operator[](idx)`. -/
def operatorIndex (idx : UInt32) : BitRef := ⟨idx⟩

/-- `bit_ref::operator=(x)`. -/
def assign (b : Bitmap N) (ref : BitRef) (x : Bool) : Option (Bitmap N) := b.set ref.pos_ x

end Bitmap

open Bitmap

/-! ### Layout -/

section Layout

variable {N : Nat}

theorem length_eq (positive : 0 < N) (multiple : 32 ∣ N) : length_ N = N / 8 := by
  show (N - 1) / 8 / 1 + 1 = N / 8
  omega

theorem mask_eq (pos : UInt32) : mask pos = Bits.mask 7 := by
  have whole : bitIndex pos = 0 := by
    show (pos % 1).toNat = 0
    rw [UInt32.toNat_mod, show (1 : UInt32).toNat = 1 from rfl, Nat.mod_one]
  rw [mask, whole]
  rfl

/-- **Every position takes a byte of its own**, so that only the first `length_` of them are inside
`data_`. -/
theorem cell_eq (fits : length_ N < 2 ^ 31) (pos : UInt32) :
    cell N (storeIndex pos)
      = if inside : pos.toNat < length_ N then some ⟨pos.toNat, inside⟩ else none := by
  have whole : pos / UInt32.ofNat sizeofBitStore = pos := by
    rw [← UInt32.toNat_inj, UInt32.toNat_div]
    exact Nat.div_one _
  have value : storeIndex pos = pos.toBitVec.toInt := by
    rw [storeIndex, whole]
    rfl
  have small := pos.toNat_lt
  have signed := BitVec.toInt_eq_toNat_cond pos.toBitVec
  have same : pos.toBitVec.toNat = pos.toNat := rfl
  rw [value, cell]
  by_cases inside : pos.toNat < length_ N
  · have nonneg : pos.toBitVec.toInt = pos.toNat := by
      rw [signed, same, if_pos (by omega)]
    have both : 0 ≤ pos.toBitVec.toInt ∧ pos.toBitVec.toInt.toNat < length_ N := by
      rw [nonneg]
      exact ⟨Int.natCast_nonneg _, inside⟩
    rw [dif_pos both, dif_pos inside]
    simp only [nonneg, Int.toNat_natCast]
  · have outside : ¬ (0 ≤ pos.toBitVec.toInt ∧ pos.toBitVec.toInt.toNat < length_ N) := by
      rw [signed, same]
      split_ifs <;> omega
    rw [dif_neg outside, dif_neg inside]

end Layout

/-! ### The operations, bit for bit -/

section Operations

variable {N : Nat} {b : Bitmap N} {pos : UInt32}

/-- The bit at a position whose byte is inside. -/
def Bitmap.at_ (b : Bitmap N) (q : Fin (length_ N)) : Bool := Bits.bit (b.data_ q) 7

theorem outside_spec (fits : length_ N < 2 ^ 31) (outside : ¬ pos.toNat < length_ N) :
    b.test pos = none ∧ (∀ x, b.set pos x = none) ∧ b.flip pos = none := by
  have none : cell N (storeIndex pos) = none := (cell_eq fits pos).trans (dif_neg outside)
  have untested : b.test pos = .none := by
    rw [Bitmap.test, none]
    rfl
  refine ⟨untested, fun x => ?_, ?_⟩
  · rw [Bitmap.set, none]
    rfl
  · rw [Bitmap.flip, untested]
    rfl

theorem test_spec (fits : length_ N < 2 ^ 31) (inside : pos.toNat < length_ N) :
    b.test pos = some (b.at_ ⟨pos.toNat, inside⟩) := by
  rw [Bitmap.test, cell_eq fits, dif_pos inside, Option.bind_eq_bind, Option.bind_some, mask_eq]
  refine congrArg some (Bool.eq_iff_iff.mpr ?_)
  rw [decide_eq_true_iff]
  exact Bits.mask_and_ne_zero _ (by decide)

theorem set_spec (fits : length_ N < 2 ^ 31) (inside : pos.toNat < length_ N) (x : Bool) :
    ∃ b', b.set pos x = some b' ∧
      ∀ q, b'.at_ q = if q.val = pos.toNat then x else b.at_ q := by
  rw [Bitmap.set, cell_eq fits, dif_pos inside, Option.bind_eq_bind, Option.bind_some, mask_eq]
  refine ⟨_, rfl, fun q => ?_⟩
  show Bits.bit (Function.update b.data_ ⟨pos.toNat, inside⟩ _ q) 7 = _
  by_cases same : q.val = pos.toNat
  · rw [if_pos same, show q = ⟨pos.toNat, inside⟩ from Fin.ext same, Function.update_self]
    cases x with
    | true => exact (Bits.bit_or_mask _ (by decide) 7).trans (by rw [decide_eq_true rfl, Bool.or_true])
    | false =>
      refine (Bits.bit_and_not_mask _ (by decide) (by decide)).trans ?_
      rw [decide_eq_true rfl, Bool.not_true, Bool.and_false]
  · rw [if_neg same, Function.update_of_ne fun equal => same (congrArg Fin.val equal)]
    rfl

theorem flip_spec (fits : length_ N < 2 ^ 31) (inside : pos.toNat < length_ N) :
    ∃ b', b.flip pos = some b' ∧
      ∀ q, b'.at_ q = if q.val = pos.toNat then !b.at_ q else b.at_ q := by
  rw [Bitmap.flip, test_spec fits inside, Option.bind_eq_bind, Option.bind_some]
  have toggled : ∃ b', b.set pos (!b.at_ ⟨pos.toNat, inside⟩) = some b' ∧
      ∀ q, b'.at_ q = if q.val = pos.toNat then !b.at_ q else b.at_ q := by
    obtain ⟨b', ran, bits⟩ := set_spec fits inside (!b.at_ ⟨pos.toNat, inside⟩) (b := b)
    refine ⟨b', ran, fun q => ?_⟩
    rw [bits]
    split_ifs with same
    · rw [show q = ⟨pos.toNat, inside⟩ from Fin.ext same]
    · rfl
  cases known : b.at_ ⟨pos.toNat, inside⟩ with
  | true => rwa [known] at toggled
  | false => rwa [known] at toggled

theorem flipAll_spec (q : Fin (length_ N)) : b.flipAll.at_ q = !b.at_ q :=
  Bits.bit_not _ (by decide)

theorem clear_spec (q : Fin (length_ N)) : b.clear.at_ q = false := Bits.bit_zero _

end Operations

/-! ### The array of booleans -/

inductive BitOp (N : Nat) where
  | set (pos : Fin N) (x : Bool)
  /-- `bm[pos] = x`. -/
  | assign (pos : Fin N) (x : Bool)
  | flip (pos : Fin N)
  | flipAll
  | clear
  | test (pos : Fin N)

namespace BitOp

variable {N : Nat}

/-- The array after an operation. -/
def after (a : Fin N → Bool) : BitOp N → Fin N → Bool
  | .set pos x | .assign pos x => Function.update a pos x
  | .flip pos => Function.update a pos (!a pos)
  | .flipAll => fun q => !a q
  | .clear => fun _ => false
  | .test _ => a

/-- What is answered: a value by `test`, and nothing by the others. -/
def answer (a : Fin N → Bool) : BitOp N → Option Bool
  | .test pos => some (a pos)
  | _ => none

/-- The operation on the bitmap. -/
def run (b : Bitmap N) : BitOp N → Option (Option Bool × Bitmap N)
  | .set pos x => (b.set (UInt32.ofNat pos) x).map fun b' => (none, b')
  | .assign pos x => (b.assign (operatorIndex (UInt32.ofNat pos)) x).map fun b' => (none, b')
  | .flip pos => (b.flip (UInt32.ofNat pos)).map fun b' => (none, b')
  | .flipAll => some (none, b.flipAll)
  | .clear => some (none, b.clear)
  | .test pos => (b.test (UInt32.ofNat pos)).map fun x => (some x, b)

/-- The operation on both. -/
def step (s : Bitmap N × (Fin N → Bool)) (op : BitOp N) : Option (Bitmap N × (Fin N → Bool)) :=
  (op.run s.1).map fun (_, b') => (b', op.after s.2)

/-- The operation uses no position from `N / 8` on. -/
def Low : BitOp N → Prop
  | .set pos _ | .assign pos _ | .flip pos | .test pos => pos.val < N / 8
  | .flipAll | .clear => True

end BitOp

/-- The bitmap shows the array, at the positions whose bytes are inside. -/
def Shows {N : Nat} (b : Bitmap N) (a : Fin N → Bool) : Prop :=
  ∀ q : Fin N, q.val < N / 8 → b.test (UInt32.ofNat q) = some (a q)

/-- The operation comes back, and answers and leaves what it does on the array. -/
def DoneRight {N : Nat} (s : Bitmap N × (Fin N → Bool)) (op : BitOp N) : Prop :=
  ∃ b', op.run s.1 = some (op.answer s.2, b') ∧ Shows b' (op.after s.2)

section Refinement

variable {N : Nat} (positive : 0 < N) (multiple : 32 ∣ N) (small : N < 2 ^ 32)

include positive multiple small

theorem fits_int : length_ N < 2 ^ 31 := by
  rw [length_eq positive multiple]
  omega

theorem shows_iff {b : Bitmap N} {a : Fin N → Bool} :
    Shows b a ↔ ∀ (q : Fin N) (q' : Fin (length_ N)), q.val = q'.val → b.at_ q' = a q := by
  have fits := fits_int positive multiple small
  have length := length_eq positive multiple
  have value : ∀ q : Fin N, (UInt32.ofNat q).toNat = q :=
    fun q => UInt32.toNat_ofNat_of_lt' (Nat.lt_trans q.isLt small)
  constructor
  · intro shows q q' same
    have inside : (UInt32.ofNat q).toNat < length_ N := by rw [value, same]; exact q'.isLt
    have tested := shows q (by rw [← length, same]; exact q'.isLt)
    rw [test_spec fits inside, Option.some.injEq] at tested
    rw [← tested]
    exact congrArg b.at_ (Fin.ext (by rw [← same]; exact (value q).symm))
  · intro bits q below
    have inside : (UInt32.ofNat q).toNat < length_ N := by rw [value, length]; exact below
    rw [test_spec fits inside, bits q ⟨_, inside⟩ (value q).symm]

/-- A position is inside when it is below `N / 8`. -/
theorem inside_iff (pos : Fin N) : (UInt32.ofNat pos).toNat < length_ N ↔ pos.val < N / 8 := by
  rw [UInt32.toNat_ofNat_of_lt' (Nat.lt_trans pos.isLt small), length_eq positive multiple]

/-- At a position from `N / 8` on every operation stops. -/
theorem run_eq_none (b : Bitmap N) {op : BitOp N} (high : ¬ op.Low) : op.run b = none := by
  have fits := fits_int positive multiple small
  have beyond : ∀ {pos : Fin N}, ¬ pos.val < N / 8 → ¬ (UInt32.ofNat pos).toNat < length_ N :=
    fun high inside => high ((inside_iff positive multiple small _).mp inside)
  cases op with
  | set pos x => exact Option.map_eq_none_iff.mpr ((outside_spec fits (beyond high)).2.1 x)
  | assign pos x => exact Option.map_eq_none_iff.mpr ((outside_spec fits (beyond high)).2.1 x)
  | flip pos => exact Option.map_eq_none_iff.mpr (outside_spec fits (beyond high)).2.2
  | test pos => exact Option.map_eq_none_iff.mpr (outside_spec fits (beyond high)).1
  | flipAll => exact absurd trivial high
  | clear => exact absurd trivial high

/-- `set` and the assignment write one position of the array. -/
theorem set_shows {b : Bitmap N} {a : Fin N → Bool} (shows : Shows b a) {pos : Fin N}
    (low : pos.val < N / 8) (x : Bool) :
    ∃ b', b.set (UInt32.ofNat pos) x = some b' ∧ Shows b' (Function.update a pos x) := by
  have bits := (shows_iff positive multiple small).mp shows
  obtain ⟨b', ran, written⟩ := set_spec (fits_int positive multiple small)
    ((inside_iff positive multiple small pos).mpr low) x (b := b)
  refine ⟨b', ran, (shows_iff positive multiple small).mpr fun q q' same => ?_⟩
  rw [written, UInt32.toNat_ofNat_of_lt' (Nat.lt_trans pos.isLt small), ← same,
    Function.update_apply, bits q q' same]
  exact if_congr Fin.ext_iff.symm rfl rfl

theorem flip_shows {b : Bitmap N} {a : Fin N → Bool} (shows : Shows b a) {pos : Fin N}
    (low : pos.val < N / 8) :
    ∃ b', b.flip (UInt32.ofNat pos) = some b' ∧ Shows b' (Function.update a pos (!a pos)) := by
  have bits := (shows_iff positive multiple small).mp shows
  obtain ⟨b', ran, written⟩ := flip_spec (fits_int positive multiple small)
    ((inside_iff positive multiple small pos).mpr low) (b := b)
  refine ⟨b', ran, (shows_iff positive multiple small).mpr fun q q' same => ?_⟩
  rw [written, UInt32.toNat_ofNat_of_lt' (Nat.lt_trans pos.isLt small), ← same,
    Function.update_apply, bits q q' same]
  split_ifs with sameNat samePos samePos
  · rw [samePos]
  · exact absurd (Fin.ext sameNat) samePos
  · exact absurd (congrArg Fin.val samePos) sameNat
  · rfl

/-- **One operation.** -/
theorem right_iff_low {b : Bitmap N} {a : Fin N → Bool} (shows : Shows b a) (op : BitOp N) :
    DoneRight (b, a) op ↔ op.Low := by
  have bits := (shows_iff positive multiple small).mp shows
  constructor
  · rintro ⟨b', ran, _⟩
    by_contra high
    rw [run_eq_none positive multiple small b high] at ran
    cases ran
  · intro low
    cases op with
    | set pos x =>
      obtain ⟨b', ran, shows'⟩ := set_shows positive multiple small shows low x
      exact ⟨b', Option.map_eq_some_iff.mpr ⟨b', ran, rfl⟩, shows'⟩
    | assign pos x =>
      obtain ⟨b', ran, shows'⟩ := set_shows positive multiple small shows low x
      exact ⟨b', Option.map_eq_some_iff.mpr ⟨b', ran, rfl⟩, shows'⟩
    | flip pos =>
      obtain ⟨b', ran, shows'⟩ := flip_shows positive multiple small shows low
      exact ⟨b', Option.map_eq_some_iff.mpr ⟨b', ran, rfl⟩, shows'⟩
    | flipAll =>
      refine ⟨b.flipAll, rfl, (shows_iff positive multiple small).mpr fun q q' same => ?_⟩
      rw [flipAll_spec, bits q q' same]
      rfl
    | clear =>
      exact ⟨b.clear, rfl, (shows_iff positive multiple small).mpr fun q q' _ => clear_spec q'⟩
    | test pos => exact ⟨b, Option.map_eq_some_iff.mpr ⟨_, shows pos low, rfl⟩, shows⟩

/-- An operation that comes back uses a position below `N / 8`. -/
theorem low_of_step {s t : Bitmap N × (Fin N → Bool)} {op : BitOp N} (ran : op.step s = some t) :
    op.Low := by
  obtain ⟨⟨out, b'⟩, ran', _⟩ := Option.map_eq_some_iff.mp ran
  by_contra high
  rw [run_eq_none positive multiple small s.1 high] at ran'
  cases ran'

theorem step_shows {s t : Bitmap N × (Fin N → Bool)} {op : BitOp N} (shows : Shows s.1 s.2)
    (stepped : op.step s = some t) : Shows t.1 t.2 := by
  obtain ⟨b', done, shows'⟩ :=
    (right_iff_low positive multiple small shows op).mpr (low_of_step positive multiple small stepped)
  rw [BitOp.step, done, Option.map_some, Option.some.injEq] at stepped
  subst stepped
  exact shows'

/-- **Operations that come back** keep the bitmap and the array the same. -/
theorem run_shows (ops : List (BitOp N)) : ∀ (s t : Bitmap N × (Fin N → Bool)), Shows s.1 s.2 →
    ops.foldlM BitOp.step s = some t → Shows t.1 t.2 := by
  induction ops with
  | nil =>
    intro s t shows ran
    cases ran
    exact shows
  | cons op ops ih =>
    intro s t shows ran
    rw [List.foldlM_cons] at ran
    obtain ⟨next, stepped, rest⟩ := Option.bind_eq_some_iff.mp ran
    have shows' : Shows next.1 next.2 := step_shows positive multiple small shows stepped
    exact ih next t shows' rest

/-- **When the bitmap is an array of `N` booleans.** In every state reached from the constructor, an
operation at a position below `N / 8`, or at none, is done as on the array. At any other position the
index is outside `data_`. -/
theorem bitmap_right_iff (ops : List (BitOp N)) {s : Bitmap N × (Fin N → Bool)}
    (ran : ops.foldlM BitOp.step (Bitmap.zero N, fun _ => false) = some s) (op : BitOp N) :
    DoneRight s op ↔ op.Low := by
  have start : Shows (Bitmap.zero N) (fun _ => false) :=
    (shows_iff positive multiple small).mpr fun q q' _ => Bits.bit_zero 7
  have shows : Shows s.1 s.2 :=
    run_shows positive multiple small ops (Bitmap.zero N, fun _ => false) s start ran
  exact right_iff_low positive multiple small shows op

end Refinement

/-- The run of `test_bitmap` up to its first test. -/
theorem small_bitmap_right :
    ∃ s, [.assign 0 true].foldlM (BitOp.step (N := 32)) (Bitmap.zero 32, fun _ => false) = some s ∧
      (DoneRight s (.test 0) ↔ (BitOp.test (0 : Fin 32)).Low) :=
  ⟨_, rfl, bitmap_right_iff (by decide) (by decide) (by decide) [.assign 0 true] rfl (.test 0)⟩

/-- **The bitmap of 32 bits has bytes for four positions.** -/
theorem high_positions_outside :
    (Bitmap.zero 32).test 31 = none ∧ (Bitmap.zero 32).set 4 true = none ∧
      ¬ DoneRight (Bitmap.zero 32, fun _ => false) (.test 31) := by
  refine ⟨by decide, rfl, fun ⟨b', ran, _⟩ => ?_⟩
  rw [BitOp.run, show (Bitmap.zero 32).test (UInt32.ofNat ((31 : Fin 32) : Nat)) = none by decide] at ran
  cases ran

end Sprite.Fs

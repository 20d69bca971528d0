/-
**The keyboard**, after `src/lib/keyboard.cc`.

A scan code below 128 is the press of a key, and its release is the same code with 128 added.

* `typeIn` — one scan code: the character it yields, and the state of the modifier keys.
* `typeIn_character` — the character of a key, from the entry of the table.
* `shifting_iff`, `capslock_iff` — the state after a sequence of scan codes.
* `keyboard_right_iff` — **when the modifier keys do what they should** after a sequence.
* `modifiers_mistaken` — a shift key that is let go while the other one is held, and caps lock with a digit.
-/
import Mathlib.Algebra.Group.Nat.Even
import Sprite.Console.Printk

namespace Sprite.Console

/-- `keyboard`. The places from 58 up to 127 are zero. -/
def keyboard : List UInt8 :=
  [0, 27, 0x31, 0x32, 0x33, 0x34, 0x35, 0x36, 0x37, 0x38, 0x39, 0x30,
   0x2D, 0x3D, 0x08, 0x09,
   0x71, 0x77, 0x65, 0x72, 0x74, 0x79, 0x75, 0x69, 0x6F, 0x70, 0x5B, 0x5D, 0x0A,
   0, 0x61, 0x73, 0x64, 0x66, 0x67, 0x68, 0x6A, 0x6B, 0x6C, 0x3B, 0x27,
   0x60, 0,
   0x5C, 0x7A, 0x78, 0x63, 0x76, 0x62, 0x6E, 0x6D, 0x2C, 0x2E, 0x2F, 0, 0x2A,
   0,
   0x20]

/-- `keyboard[k]`. -/
def entry (k : UInt8) : UInt8 := keyboard.getD k.toNat 0

structure KeyBoard where
  is_shifting : Bool
  is_ctrling : Bool
  is_capslock : Bool

namespace KeyBoard

def new : KeyBoard := ⟨false, false, false⟩

def isRelease (k : UInt8) : Bool := k &&& 0x80 ≠ 0

def isPress (k : UInt8) : Bool := !isRelease k

def isShift (k : UInt8) : Bool :=
  let k := k &&& 0x7F
  k = 42 || k = 54

def isCtrl (k : UInt8) : Bool :=
  let k := k &&& 0x7F
  k = 29

def isCapslock (k : UInt8) : Bool :=
  let k := k &&& 0x7F
  k = 58

/-- `res`, from the entry of the table: the comparisons are of a `char` with a sign. -/
def character (kb : KeyBoard) (res : UInt8) : UInt8 :=
  let res := if kb.is_capslock then res + (0x41 - 0x61) else res
  if kb.is_shifting then
    if 0x61 ≤ res.toInt8 ∧ res.toInt8 ≤ 0x7A then res + (0x41 - 0x61) else res - (0x41 - 0x61)
  else res

/-- `TypeIn`, with the scan code that `inb` reads. -/
def typeIn (kb : KeyBoard) (k : UInt8) : UInt8 × KeyBoard :=
  if isShift k then (0, { kb with is_shifting := if isRelease k then false else true })
  else if isCtrl k then (0, { kb with is_ctrling := if isRelease k then false else true })
  else if isCapslock k then
    (0, if isPress k then { kb with is_capslock := if kb.is_capslock then false else true } else kb)
  else if isRelease k then (0, kb)
  else (kb.character (entry k), kb)

end KeyBoard

/-- The static `KeyBoard` of `keyboard_isr`, and the characters that are printed: "%c". -/
def keyboardIsr (k : UInt8) (kb : KeyBoard) : List UInt8 × KeyBoard :=
  let (ch, kb) := kb.typeIn k
  (if ch ≠ 0 then printk [0x25, 0x63] [.char ch] else [], kb)

open KeyBoard

/-- The state after a sequence of scan codes. -/
def delivered (codes : List UInt8) : KeyBoard := codes.foldl (fun kb k => (kb.typeIn k).2) new

/-! ### What should be -/

/-- The last code of a kind. -/
def lastOf (kind : UInt8 → Bool) (codes : List UInt8) : Option UInt8 := (codes.filter kind).getLast?

/-- **The key is held**: its last code is a press. -/
def Held (key : UInt8) (codes : List UInt8) : Prop := lastOf (fun k => k &&& 0x7F = key) codes = some key

instance (key : UInt8) (codes : List UInt8) : Decidable (Held key codes) :=
  inferInstanceAs (Decidable (_ = _))

/-- The last code of a shift key is a press. -/
def ShiftPressed (codes : List UInt8) : Prop := ∃ k, lastOf isShift codes = some k ∧ isPress k = true

def IsLetter (ch : UInt8) : Prop := 0x61 ≤ ch ∧ ch ≤ 0x7A

instance (ch : UInt8) : Decidable (IsLetter ch) := inferInstanceAs (Decidable (_ ∧ _))

/-- The upper-case letter of a lower-case one. -/
def upper (ch : UInt8) : UInt8 := ch - 0x20

/-- The keys that yield no character. -/
def IsModifier (k : UInt8) : Prop := k = 29 ∨ k = 42 ∨ k = 54 ∨ k = 58

instance (k : UInt8) : Decidable (IsModifier k) := inferInstanceAs (Decidable (_ ∨ _))

/-- **The modifier keys do what they should** after a sequence of scan codes, when a key is pressed next. -/
structure TypesRight (codes : List UInt8) (k : UInt8) : Prop where
  shift : (delivered codes).is_shifting = true ↔ Held 42 codes ∨ Held 54 codes
  caps : (delivered codes).is_capslock = true ↔ Odd (codes.count 58)
  letter : IsLetter (entry k) → ((delivered codes).typeIn k).1
    = if (delivered codes).is_shifting ≠ (delivered codes).is_capslock then upper (entry k) else entry k
  other : ¬ IsLetter (entry k) → ((delivered codes).typeIn k).1
    = (({ delivered codes with is_capslock := false } : KeyBoard).typeIn k).1
  zero : entry k = 0 → ((delivered codes).typeIn k).1 = 0

/-! ### One key -/

section Key

variable {kb : KeyBoard} {k e : UInt8}

/-- A fact about every byte. -/
theorem forall_bytes {P : UInt8 → Prop} (all : ∀ n : Fin 256, P (UInt8.ofNat n)) : ∀ e, P e := by
  intro e
  have fact := all ⟨e.toNat, e.toNat_lt⟩
  rwa [UInt8.ofNat_toNat] at fact

theorem character_letter (isLetter : IsLetter e) :
    kb.character e = if kb.is_shifting ≠ kb.is_capslock then upper e else e := by
  have table : ∀ e : UInt8, IsLetter e → ∀ shift caps : Bool,
      (⟨shift, false, caps⟩ : KeyBoard).character e = if shift ≠ caps then upper e else e :=
    forall_bytes (by decide +kernel)
  exact table e isLetter kb.is_shifting kb.is_capslock

/-- **Caps lock changes every character** that is no letter. -/
theorem character_other (other : ¬ IsLetter e) :
    kb.character e = ({ kb with is_capslock := false } : KeyBoard).character e ↔ kb.is_capslock = false := by
  have table : ∀ e : UInt8, ¬ IsLetter e → ∀ shift caps : Bool,
      (⟨shift, false, caps⟩ : KeyBoard).character e = (⟨shift, false, false⟩ : KeyBoard).character e ↔
        caps = false := forall_bytes (by decide +kernel)
  exact table e other kb.is_shifting kb.is_capslock

/-- Shift and caps lock make a character of an entry that is zero, but not both of them. -/
theorem character_zero : kb.character 0 = 0 ↔ kb.is_shifting = kb.is_capslock := by
  have table : ∀ shift caps : Bool,
      (⟨shift, false, caps⟩ : KeyBoard).character 0 = 0 ↔ shift = caps := by decide
  exact table kb.is_shifting kb.is_capslock

/-- Which presses are of modifier keys. -/
theorem press_kinds : ∀ k : UInt8, k < 128 → isRelease k = false ∧
    (IsModifier k ↔ isShift k = true ∨ isCtrl k = true ∨ isCapslock k = true) := forall_bytes (by decide +kernel)

/-- **The press of a key** yields nothing for a modifier key, and the character of its entry for others. -/
theorem typeIn_character (press : k < 128) :
    (kb.typeIn k).1 = if IsModifier k then 0 else kb.character (entry k) := by
  obtain ⟨notRelease, modifier⟩ := press_kinds k press
  unfold typeIn
  by_cases shift : isShift k = true
  · rw [if_pos shift, if_pos (modifier.mpr (.inl shift))]
  by_cases ctrl : isCtrl k = true
  · rw [if_neg shift, if_pos ctrl, if_pos (modifier.mpr (.inr (.inl ctrl)))]
  by_cases caps : isCapslock k = true
  · rw [if_neg shift, if_neg ctrl, if_pos caps, if_pos (modifier.mpr (.inr (.inr caps)))]
  have others : ¬ IsModifier k := by
    rw [modifier]
    exact not_or.mpr ⟨shift, not_or.mpr ⟨ctrl, caps⟩⟩
  rw [if_neg shift, if_neg ctrl, if_neg caps, if_neg others, notRelease]
  rfl

/-- What is typed is printed. -/
theorem keyboardIsr_eq (k : UInt8) (kb : KeyBoard) : keyboardIsr k kb
    = (if (kb.typeIn k).1 = 0 then [] else [(kb.typeIn k).1], (kb.typeIn k).2) := by
  unfold keyboardIsr
  by_cases nothing : (kb.typeIn k).1 = 0
  · simp only [nothing, ne_eq, not_true_eq_false, if_false, if_true]
  · have typed : printk [0x25, 0x63] [.char (kb.typeIn k).1] = [(kb.typeIn k).1] := rfl
    simp only [nothing, ne_eq, not_false_eq_true, if_true, if_false, typed]

/-- The shift state changes with the codes of the shift keys. -/
theorem typeIn_shifting (kb : KeyBoard) (k : UInt8) :
    (kb.typeIn k).2.is_shifting = if isShift k then isPress k else kb.is_shifting := by
  unfold typeIn
  by_cases shift : isShift k = true
  · rw [if_pos shift, if_pos shift, isPress]
    cases isRelease k with
    | true => rfl
    | false => rfl
  · rw [if_neg shift, if_neg shift]
    split_ifs <;> rfl

/-- Only the press of caps lock is both of its kind and a press. -/
theorem capslock_codes : ∀ k : UInt8, (isShift k = true → k ≠ 58) ∧ (isCtrl k = true → k ≠ 58) ∧
    (isCapslock k = true → (isPress k = true ↔ k = 58)) ∧ (k = 58 → isCapslock k = true) :=
  forall_bytes (by decide +kernel)

/-- Caps lock is switched by its press. -/
theorem typeIn_capslock (kb : KeyBoard) (k : UInt8) :
    (kb.typeIn k).2.is_capslock = if k = 58 then !kb.is_capslock else kb.is_capslock := by
  obtain ⟨notShift, notCtrl, press, isCaps⟩ := capslock_codes k
  unfold typeIn
  by_cases shift : isShift k = true
  · rw [if_pos shift, if_neg (notShift shift)]
  by_cases ctrl : isCtrl k = true
  · rw [if_neg shift, if_pos ctrl, if_neg (notCtrl ctrl)]
  rw [if_neg shift, if_neg ctrl]
  by_cases caps : isCapslock k = true
  · rw [if_pos caps]
    by_cases isKey : k = 58
    · rw [if_pos ((press caps).mpr isKey), if_pos isKey]
      cases kb.is_capslock with
      | true => rfl
      | false => rfl
    · rw [if_neg (mt (press caps).mp isKey), if_neg isKey]
  · rw [if_neg caps, if_neg (mt isCaps caps)]
    split_ifs <;> rfl

end Key

/-! ### Sequences of scan codes -/

section Codes

variable {codes : List UInt8} {k : UInt8}

theorem lastOf_concat (kind : UInt8 → Bool) (codes : List UInt8) (k : UInt8) :
    lastOf kind (codes ++ [k]) = if kind k then some k else lastOf kind codes := by
  unfold lastOf
  rw [List.filter_append]
  split_ifs with isKind
  · rw [List.filter_singleton, isKind, cond_true, List.getLast?_concat]
  · rw [List.filter_singleton, Bool.eq_false_iff.mpr isKind, cond_false, List.append_nil]

theorem delivered_concat (codes : List UInt8) (k : UInt8) :
    delivered (codes ++ [k]) = ((delivered codes).typeIn k).2 := by
  rw [delivered, List.foldl_append]
  rfl

/-- **The shift state** is that of the last code of a shift key. -/
theorem shifting_iff (codes : List UInt8) :
    (delivered codes).is_shifting = true ↔ ShiftPressed codes := by
  unfold ShiftPressed
  induction codes using List.reverseRecOn with
  | nil => exact iff_of_false Bool.false_ne_true nofun
  | append_singleton codes k ih =>
    rw [delivered_concat, typeIn_shifting, lastOf_concat]
    by_cases shift : isShift k = true
    · simp only [shift, if_true, Option.some.injEq, exists_eq_left']
    · simp only [shift, Bool.false_eq_true, if_false, ih]

/-- **Caps lock** is on when it has been pressed an odd number of times. -/
theorem capslock_iff (codes : List UInt8) :
    (delivered codes).is_capslock = true ↔ Odd (codes.count 58) := by
  induction codes using List.reverseRecOn with
  | nil => exact iff_of_false Bool.false_ne_true (by decide)
  | append_singleton codes k ih =>
    rw [delivered_concat, typeIn_capslock, List.count_append, List.count_singleton]
    by_cases isKey : k = 58
    · simp only [isKey, if_true, Bool.not_eq_true', beq_self_eq_true, Nat.odd_add_one, ← ih,
        Bool.not_eq_true]
    · simp only [isKey, if_false, beq_iff_eq, Nat.add_zero, ih]

theorem shift_codes : ∀ k : UInt8, (isShift k = true → isPress k = true → k = 42 ∨ k = 54) ∧
    (isShift k = false → k &&& 0x7F ≠ 42 ∧ k &&& 0x7F ≠ 54) := forall_bytes (by decide +kernel)

/-- A shift key whose press is the last code of the two is held. -/
theorem held_of_pressed (codes : List UInt8) : ShiftPressed codes → Held 42 codes ∨ Held 54 codes := by
  unfold ShiftPressed Held
  induction codes using List.reverseRecOn with
  | nil => exact fun pressed => absurd pressed nofun
  | append_singleton codes k ih =>
    rintro ⟨last, isLast, press⟩
    obtain ⟨presses, others⟩ := shift_codes k
    rw [lastOf_concat] at isLast
    rw [lastOf_concat, lastOf_concat]
    by_cases shift : isShift k = true
    · rw [if_pos shift] at isLast
      cases isLast
      rcases presses shift press with rfl | rfl
      · exact .inl (if_pos (by decide))
      · exact .inr (if_pos (by decide))
    · rw [if_neg shift] at isLast
      obtain ⟨no42, no54⟩ := others (Bool.eq_false_iff.mpr shift)
      rw [if_neg (by simpa using no42), if_neg (by simpa using no54)]
      exact ih ⟨last, isLast, press⟩

theorem modifier_entry : ∀ k : UInt8, IsModifier k → entry k = 0 := by
  rintro k (rfl | rfl | rfl | rfl) <;> rfl

/-- **When the modifier keys do what they should**: no shift key is held when the last code of one is a
release, and the key pressed next is a letter, a modifier key, or one that caps lock is not on for; where the
table has zero, shift is not on without caps lock either. -/
theorem keyboard_right_iff (codes : List UInt8) (press : k < 128) : TypesRight codes k ↔
    (Held 42 codes ∨ Held 54 codes → ShiftPressed codes) ∧
    (¬ IsLetter (entry k) → IsModifier k ∨ Even (codes.count 58)) ∧
    (entry k = 0 → IsModifier k ∨ (ShiftPressed codes ↔ Odd (codes.count 58))) := by
  have shift := shifting_iff codes
  have caps := capslock_iff codes
  have isOff : (delivered codes).is_capslock = false ↔ Even (codes.count 58) := by
    rw [← Bool.not_eq_true, caps, Nat.not_odd_iff_even]
  have other : ¬ IsLetter (entry k) → (((delivered codes).typeIn k).1
      = (({ delivered codes with is_capslock := false } : KeyBoard).typeIn k).1 ↔
        IsModifier k ∨ Even (codes.count 58)) := by
    intro notLetter
    rw [typeIn_character press, typeIn_character press]
    by_cases modifier : IsModifier k
    · rw [if_pos modifier, if_pos modifier]
      exact iff_of_true rfl (.inl modifier)
    · rw [if_neg modifier, if_neg modifier, or_iff_right modifier, ← isOff]
      exact character_other notLetter
  have zero : entry k = 0 → (((delivered codes).typeIn k).1 = 0 ↔
      IsModifier k ∨ (ShiftPressed codes ↔ Odd (codes.count 58))) := by
    intro isZero
    rw [typeIn_character press, isZero]
    by_cases modifier : IsModifier k
    · rw [if_pos modifier]
      exact iff_of_true rfl (.inl modifier)
    · rw [if_neg modifier, or_iff_right modifier, character_zero, ← shift, ← caps]
      exact Bool.eq_iff_iff
  constructor
  · intro right
    exact ⟨fun held => shift.mp (right.shift.mpr held), fun notLetter => (other notLetter).mp
      (right.other notLetter), fun isZero => (zero isZero).mp (right.zero isZero)⟩
  · rintro ⟨held, off, same⟩
    refine ⟨?_, caps, fun isLetter => ?_, fun notLetter => (other notLetter).mpr (off notLetter),
      fun isZero => (zero isZero).mpr (same isZero)⟩
    · rw [shift]
      exact ⟨held_of_pressed codes, held⟩
    · have noModifier : ¬ IsModifier k := by
        intro modifier
        rw [modifier_entry k modifier] at isLetter
        exact absurd isLetter (by decide)
      rw [typeIn_character press, if_neg noModifier]
      exact character_letter isLetter

end Codes

/-- The letter `a` after shift has been pressed and let go, and caps lock pressed. -/
theorem letter_typed_right : TypesRight [42, 170, 58] 30 :=
  (keyboard_right_iff [42, 170, 58] (by decide)).mpr ⟨fun held => absurd held (by decide),
    fun notLetter => absurd (by decide) notLetter, fun isZero => absurd isZero (by decide)⟩

/-- **The modifier keys are mistaken**: shift is off while one of its keys is held, caps lock makes 0x11 of the
digit 1, and shift makes a space of the key 84, for which the table has zero. -/
theorem modifiers_mistaken :
    (Held 42 [42, 54, 182] ∧ (delivered [42, 54, 182]).is_shifting = false) ∧
    (entry 2 = 0x31 ∧ ((delivered [58]).typeIn 2).1 = 0x11) ∧
    (entry 84 = 0 ∧ ((delivered [42]).typeIn 84).1 = 0x20) ∧
    ¬ TypesRight [42, 54, 182] 30 ∧ ¬ TypesRight [58] 2 ∧ ¬ TypesRight [42] 84 := by
  refine ⟨by decide, by decide, by decide, fun right => ?_, fun right => ?_, fun right => ?_⟩
  · exact absurd (right.shift.mpr (.inl (by decide))) (by decide)
  · exact absurd (right.other (by decide)) (by decide)
  · exact absurd (right.zero (by decide)) (by decide)

end Sprite.Console

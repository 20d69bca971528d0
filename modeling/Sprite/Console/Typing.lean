/-
**From the keys to the screen**, after `keyboard_isr` of `src/lib/keyboard.cc` and `printk`.

* `deliver` — scan codes are delivered one after the other, and what is typed is printed.
* `meant`, `typed` — what is printed on the keys: a letter is in upper case when one of a held shift key and
  caps lock is in force, and not both.
* `typeIn_meant_iff` — when one scan code yields what is meant.
* `strokes` — how a text is typed.
* `text_typed_shown` — **what is typed is shown, and every text can be typed**.
-/
import Sprite.Console.Keyboard

namespace Sprite.Console

open KeyBoard

/-- `keyboard_isr`, down to the screen. -/
def isrShown : KeyBoard × Screen → UInt8 → Option (KeyBoard × Screen)
  | (kb, s), k => do
    let (chars, kb) := keyboardIsr k kb
    let s ← putAll chars .rc_black .rc_white s
    return (kb, s)

/-- One interrupt for each scan code. -/
def deliver (codes : List UInt8) (state : KeyBoard × Screen) : Option (KeyBoard × Screen) :=
  codes.foldlM isrShown state

/-! ### What is meant -/

/-- Letters are in upper case: by a held shift key or by caps lock, but not by both. -/
def Upper (before : List UInt8) : Prop := ¬ ((Held 42 before ∨ Held 54 before) ↔ Odd (before.count 58))

instance (before : List UInt8) : Decidable (Upper before) := inferInstanceAs (Decidable (¬ _))

/-- What a scan code types after others: its press what is on the key, and its release zero, for nothing. -/
def meant (before : List UInt8) (k : UInt8) : UInt8 :=
  if k < 128 then if IsLetter (entry k) ∧ Upper before then upper (entry k) else entry k
  else 0

/-- What is seen of a character. -/
def printed (ch : UInt8) : List UInt8 := if ch = 0 then [] else [ch]

/-- What scan codes type after others. -/
def typed : List UInt8 → List UInt8 → List UInt8
  | _, [] => []
  | before, k :: codes => printed (meant before k) ++ typed (before ++ [k]) codes

/-- **A scan code is plain**: it is not the press of a letter while a shift key is held and the last code of
the shift keys is a release, and not the press of another key where shift and caps lock differ. -/
def Plain (before : List UInt8) (k : UInt8) : Prop :=
  k < 128 → ¬ IsModifier k →
    if IsLetter (entry k) then Held 42 before ∨ Held 54 before → ShiftPressed before
    else (ShiftPressed before ↔ Odd (before.count 58))

/-- All scan codes are plain. -/
def AllPlain : List UInt8 → List UInt8 → Prop
  | _, [] => True
  | before, k :: codes => Plain before k ∧ AllPlain (before ++ [k]) codes

/-! ### One scan code -/

section Isr

variable {kb : KeyBoard} {before : List UInt8} {k e : UInt8} {s : Screen} {t : Terminal}

/-- Releases and the modifier keys yield nothing. -/
theorem typeIn_silent (silent : ¬ k < 128 ∨ IsModifier k) : (kb.typeIn k).1 = 0 := by
  by_cases press : k < 128
  · rw [typeIn_character press, if_pos (silent.resolve_left fun not => not press)]
  · have release : ∀ k : UInt8, ¬ k < 128 → isRelease k = true := forall_bytes (by decide +kernel)
    unfold typeIn
    simp only [release k press, if_true]
    split_ifs <;> rfl

/-- The upper-case letter is another character. -/
theorem upper_ne (isLetter : IsLetter e) : upper e ≠ e := by
  have table : ∀ e : UInt8, IsLetter e → upper e ≠ e := forall_bytes (by decide +kernel)
  exact table e isLetter

theorem cases_agree_iff {p q : Prop} [Decidable p] [Decidable q] (isLetter : IsLetter e) :
    (if p then upper e else e) = (if q then upper e else e) ↔ (p ↔ q) := by
  have other := upper_ne isLetter
  by_cases isP : p
  · by_cases isQ : q
    · simp [isP, isQ]
    · simp [isP, isQ, other]
  · by_cases isQ : q
    · simp [isP, isQ, other.symm]
    · simp [isP, isQ]

/-- A character that is no letter comes out right when shift and caps lock undo one another. -/
theorem character_plain (k : UInt8) (other : ¬ IsLetter (entry k)) :
    kb.character (entry k) = entry k ↔ kb.is_shifting = kb.is_capslock := by
  have table : ∀ k : UInt8, ¬ IsLetter (entry k) → ∀ shift caps : Bool,
      (⟨shift, false, caps⟩ : KeyBoard).character (entry k) = entry k ↔ shift = caps :=
    forall_bytes (by decide +kernel)
  exact table k other kb.is_shifting kb.is_capslock

/-- **When one scan code yields what is meant.** -/
theorem typeIn_meant_iff (before : List UInt8) (k : UInt8) :
    ((delivered before).typeIn k).1 = meant before k ↔ Plain before k := by
  by_cases silent : ¬ k < 128 ∨ IsModifier k
  · have nothing : meant before k = 0 := by
      unfold meant
      rcases silent with release | modifier
      · rw [if_neg release]
      · rw [modifier_entry k modifier, if_neg (c := _ ∧ _) fun both => absurd both.1 (by decide)]
        split_ifs <;> rfl
    refine iff_of_true ?_ fun press other => absurd silent (not_or.mpr ⟨not_not.mpr press, other⟩)
    rw [typeIn_silent silent, nothing]
  rw [not_or, not_not] at silent
  obtain ⟨press, other⟩ := silent
  rw [Plain, imp_iff_right press, imp_iff_right other, typeIn_character press, if_neg other, meant, if_pos press]
  by_cases isLetter : IsLetter (entry k)
  · have held : (delivered before).is_shifting = true → Held 42 before ∨ Held 54 before :=
      fun shift => held_of_pressed before ((shifting_iff before).mp shift)
    rw [if_pos isLetter, character_letter isLetter, cases_agree_iff isLetter, and_iff_right isLetter, Upper,
      ← shifting_iff, ← capslock_iff]
    cases shift : (delivered before).is_shifting with
    | true => cases (delivered before).is_capslock <;> simp [held shift]
    | false =>
      by_cases some : Held 42 before ∨ Held 54 before
      · cases (delivered before).is_capslock <;> simp [some]
      · cases (delivered before).is_capslock <;> simp [some]
  · rw [if_neg isLetter, if_neg fun both => isLetter both.1, ← shifting_iff, ← capslock_iff, ← Bool.eq_iff_iff]
    exact character_plain k isLetter

/-- What is typed by a plain scan code is shown. -/
theorem isrShown_plain (tracks : Tracks s t) (plain : Plain before k) :
    ∃ s', isrShown (delivered before, s) k = some (delivered (before ++ [k]), s') ∧
      Tracks s' ((printed (meant before k)).foldl (Terminal.feed · .rc_black .rc_white) t) := by
  obtain ⟨s', shown, tracks'⟩ := putAll_tracks .rc_black .rc_white (printed (meant before k)) tracks
  refine ⟨s', ?_, tracks'⟩
  have chars : keyboardIsr k (delivered before) = (printed (meant before k), delivered (before ++ [k])) := by
    rw [keyboardIsr_eq, (typeIn_meant_iff before k).mpr plain, delivered_concat]
    rfl
  rw [isrShown, chars]
  simp only [shown, Option.bind_eq_bind, Option.bind_some, Option.pure_def]

/-- **What is typed is shown**, scan code after scan code. -/
theorem deliver_plain (codes : List UInt8) : ∀ {before : List UInt8} {s : Screen} {t : Terminal}, Tracks s t →
    AllPlain before codes → ∃ s', deliver codes (delivered before, s) = some (delivered (before ++ codes), s') ∧
      Tracks s' ((typed before codes).foldl (Terminal.feed · .rc_black .rc_white) t) := by
  induction codes with
  | nil =>
    intro before s t tracks _
    refine ⟨s, ?_, tracks⟩
    rw [List.append_nil]
    rfl
  | cons k codes ih =>
    rintro before s t tracks ⟨plain, others⟩
    obtain ⟨s₁, shown, tracks₁⟩ := isrShown_plain tracks plain
    obtain ⟨s₂, rest, tracks₂⟩ := ih tracks₁ others
    refine ⟨s₂, ?_, ?_⟩
    · rw [deliver, List.foldlM_cons, shown, List.append_cons before k codes]
      exact rest
    · rw [typed, List.foldl_append]
      exact tracks₂

end Isr

/-! ### How a text is typed -/

/-- The key that has a character on it. -/
def keyFor (c : UInt8) : UInt8 := UInt8.ofNat (keyboard.idxOf c)

def IsCapital (c : UInt8) : Prop := 0x41 ≤ c ∧ c ≤ 0x5A

instance (c : UInt8) : Decidable (IsCapital c) := inferInstanceAs (Decidable (_ ∧ _))

/-- The characters on the keys, and the letters in upper case. -/
def Typeable (c : UInt8) : Prop := c ≠ 0 ∧ (c ∈ keyboard ∨ IsCapital c)

instance (c : UInt8) : Decidable (Typeable c) := inferInstanceAs (Decidable (_ ∧ _))

/-- A key is pressed and let go. -/
def tap (k : UInt8) : List UInt8 := [k, k + 128]

/-- The scan codes of a character: a letter in upper case is typed with the left shift key. -/
def strokes (c : UInt8) : List UInt8 :=
  if IsCapital c then [42] ++ tap (keyFor (c + 0x20)) ++ [170] else tap (keyFor c)

section Strokes

variable {before : List UInt8} {k c : UInt8} {shift : Bool}

theorem typed_append (codes codes' : List UInt8) : ∀ before : List UInt8,
    typed before (codes ++ codes') = typed before codes ++ typed (before ++ codes) codes' := by
  induction codes with
  | nil => exact fun before => by rw [List.append_nil]; rfl
  | cons k codes ih =>
    intro before
    rw [List.cons_append, typed, typed, ih, List.append_assoc (printed _), List.append_cons before k codes]

theorem allPlain_append (codes codes' : List UInt8) : ∀ before : List UInt8,
    AllPlain before (codes ++ codes') ↔ AllPlain before codes ∧ AllPlain (before ++ codes) codes' := by
  induction codes with
  | nil =>
    intro before
    rw [List.append_nil]
    exact (and_iff_right trivial).symm
  | cons k codes ih =>
    intro before
    rw [List.cons_append, AllPlain, AllPlain, ih, and_assoc, List.append_cons before k codes]

/-- **Where the hands are**: on the left shift key or on none, and caps lock is off. -/
structure Hands (shift : Bool) (before : List UInt8) : Prop where
  left : Held 42 before ↔ shift = true
  right : ¬ Held 54 before
  state : (delivered before).is_shifting = shift
  caps : (delivered before).is_capslock = false

namespace Hands

theorem caps_off (hands : Hands shift before) (notCaps : k ≠ 58) :
    (delivered (before ++ [k])).is_capslock = false := by
  rw [delivered_concat, typeIn_capslock, if_neg notCaps]
  exact hands.caps

/-- Any other key may be pressed or let go. -/
theorem other (hands : Hands shift before) (notShift : isShift k = false) (notCaps : k ≠ 58) :
    Hands shift (before ++ [k]) := by
  obtain ⟨no42, no54⟩ := (shift_codes k).2 notShift
  refine ⟨?_, ?_, ?_, hands.caps_off notCaps⟩
  · rw [Held, lastOf_concat, if_neg (by simpa using no42)]
    exact hands.left
  · rw [Held, lastOf_concat, if_neg (by simpa using no54)]
    exact hands.right
  · rw [delivered_concat, typeIn_shifting, if_neg (by simp [notShift])]
    exact hands.state

/-- The left shift key is pressed or let go. -/
theorem shiftKey (hands : Hands shift before) (isKey : k = 42 ∨ k = 170) :
    Hands (decide (k = 42)) (before ++ [k]) := by
  rcases isKey with rfl | rfl
  · refine ⟨?_, ?_, ?_, hands.caps_off (by decide)⟩
    · rw [Held, lastOf_concat, if_pos (by decide)]
      exact iff_of_true rfl rfl
    · rw [Held, lastOf_concat, if_neg (by decide)]
      exact hands.right
    · rw [delivered_concat, typeIn_shifting]
      rfl
  · refine ⟨?_, ?_, ?_, hands.caps_off (by decide)⟩
    · rw [Held, lastOf_concat, if_pos (by decide)]
      exact iff_of_false (by decide) (by decide)
    · rw [Held, lastOf_concat, if_neg (by decide)]
      exact hands.right
    · rw [delivered_concat, typeIn_shifting]
      rfl

theorem upper_iff (hands : Hands shift before) : Upper before ↔ shift = true := by
  rw [Upper, ← capslock_iff, hands.caps, hands.left]
  simp [hands.right]

end Hands

/-- A key is no modifier key. -/
theorem key_codes : ∀ k : UInt8, k < 128 → ¬ IsModifier k → isShift k = false ∧ k ≠ 58 ∧
    isShift (k + 128) = false ∧ k + 128 ≠ 58 ∧ ¬ k + 128 < 128 := forall_bytes (by decide +kernel)

/-- **A tap** types what is on the key. -/
theorem tap_typed (hands : Hands shift before) (press : k < 128) (other : ¬ IsModifier k)
    (plain : IsLetter (entry k) ∨ shift = false) : AllPlain before (tap k) ∧
      typed before (tap k) = printed (if IsLetter (entry k) ∧ shift = true then upper (entry k) else entry k) ∧
      Hands shift (before ++ tap k) := by
  obtain ⟨notShift, notCaps, notShift', notCaps', release⟩ := key_codes k press other
  have pressed := hands.other notShift notCaps
  refine ⟨⟨fun _ _ => ?_, fun press' => absurd press' release, trivial⟩, ?_, ?_⟩
  · by_cases isLetter : IsLetter (entry k)
    · rw [if_pos isLetter, hands.left, ← shifting_iff, hands.state]
      exact fun held => held.resolve_right hands.right
    · rw [if_neg isLetter, ← shifting_iff, ← capslock_iff, hands.state, hands.caps, plain.resolve_left isLetter]
  · have nothing : meant (before ++ [k]) (k + 128) = 0 := if_neg release
    rw [tap, typed, typed, typed, nothing, meant, if_pos press]
    simp only [hands.upper_iff]
    exact List.append_nil _
  · rw [tap, List.append_cons]
    exact pressed.other notShift' notCaps'

/-- The keys of the characters. -/
theorem keyFor_codes : ∀ c : UInt8, (c ≠ 0 → c ∈ keyboard → keyFor c < 128 ∧ ¬ IsModifier (keyFor c) ∧
      entry (keyFor c) = c) ∧
    (IsCapital c → c + 0x20 ≠ 0 ∧ c + 0x20 ∈ keyboard ∧ IsLetter (c + 0x20) ∧ upper (c + 0x20) = c) :=
  forall_bytes (by decide +kernel)

/-- **A character is typed** by its strokes, and the hands are where they were. -/
theorem strokes_typed (typeable : Typeable c) (hands : Hands false before) :
    AllPlain before (strokes c) ∧ typed before (strokes c) = [c] ∧ Hands false (before ++ strokes c) := by
  obtain ⟨nonzero, onKey⟩ := typeable
  have seen : printed c = [c] := if_neg nonzero
  unfold strokes
  by_cases capital : IsCapital c
  · obtain ⟨nonzero', onKey', isLetter, isUpper⟩ := (keyFor_codes c).2 capital
    obtain ⟨press, other, isEntry⟩ := (keyFor_codes (c + 0x20)).1 nonzero' onKey'
    have down : Hands true (before ++ [42]) := hands.shiftKey (.inl rfl)
    obtain ⟨plain, types, held⟩ := tap_typed down press other (.inl (isEntry.symm ▸ isLetter))
    have up : Hands false (before ++ [42] ++ tap (keyFor (c + 0x20)) ++ [170]) := held.shiftKey (.inr rfl)
    rw [if_pos capital]
    refine ⟨?_, ?_, ?_⟩
    · rw [allPlain_append, allPlain_append]
      exact ⟨⟨⟨fun _ other => absurd (.inr (.inl rfl)) other, trivial⟩, plain⟩,
        fun press => absurd press (by decide), trivial⟩
    · have silent : typed before [42] = [] := rfl
      have silent' : ∀ after, typed after [170] = [] := fun _ => rfl
      rw [typed_append, typed_append, silent, silent', types, isEntry, if_pos ⟨isLetter, rfl⟩, isUpper, seen]
      rfl
    · rw [← List.append_assoc, ← List.append_assoc]
      exact up
  · obtain ⟨press, other, isEntry⟩ := (keyFor_codes c).1 nonzero (onKey.resolve_right capital)
    rw [if_neg capital]
    obtain ⟨plain, types, free⟩ := tap_typed hands press other (.inr rfl)
    refine ⟨plain, ?_, free⟩
    rw [types, if_neg fun both => Bool.false_ne_true both.2, isEntry, seen]

/-- **A text is typed** by the strokes of its characters. -/
theorem text_typed (text : List UInt8) : ∀ {before : List UInt8}, (∀ c ∈ text, Typeable c) → Hands false before →
    AllPlain before (text.flatMap strokes) ∧ typed before (text.flatMap strokes) = text := by
  induction text with
  | nil => exact fun _ _ => ⟨trivial, rfl⟩
  | cons c text ih =>
    intro before typeable hands
    rw [List.forall_mem_cons] at typeable
    obtain ⟨plain, types, free⟩ := strokes_typed typeable.1 hands
    obtain ⟨plains, rest⟩ := ih typeable.2 free
    rw [List.flatMap_cons, allPlain_append, typed_append, types, rest]
    exact ⟨⟨plain, plains⟩, rfl⟩

end Strokes

/-- **What is typed is shown, and every text can be typed.** -/
theorem text_typed_shown {s : Screen} {t : Terminal} (tracks : Tracks s t) :
    (∀ codes, AllPlain [] codes → ∃ s', deliver codes (KeyBoard.new, s) = some (delivered codes, s') ∧
      Shows s' ((typed [] codes).foldl (Terminal.feed · .rc_black .rc_white) t)) ∧
    ∀ text, (∀ c ∈ text, Typeable c) →
      AllPlain [] (text.flatMap strokes) ∧ typed [] (text.flatMap strokes) = text := by
  refine ⟨fun codes plain => ?_, fun text typeable => text_typed text typeable ?_⟩
  · obtain ⟨s', shown, tracks'⟩ := deliver_plain codes tracks plain
    exact ⟨s', shown, tracks'.1⟩
  · exact ⟨by decide, by decide, rfl, rfl⟩

/-- `Hi` on a cleared screen. -/
theorem greeting_typed_shown : ∃ s₀ s₁ kb,
    consoleClear ⟨fun _ => 0, 0, 0, ⟨0, fun _ => 0⟩⟩ = some s₀ ∧
      deliver ([0x48, 0x69].flatMap strokes) (KeyBoard.new, s₀) = some (kb, s₁) ∧
      Shows s₁ ([0x48, 0x69].foldl (Terminal.feed · .rc_black .rc_white) .new) := by
  obtain ⟨s₀, cleared, tracks⟩ := consoleClear_tracks ⟨fun _ => 0, 0, 0, ⟨0, fun _ => 0⟩⟩
  obtain ⟨plain, types⟩ := (text_typed_shown tracks).2 [0x48, 0x69] (by decide +kernel)
  obtain ⟨s₁, shown, shows⟩ := (text_typed_shown tracks).1 _ plain
  rw [types] at shows
  exact ⟨s₀, s₁, _, cleared, shown, shows⟩

end Sprite.Console

/-
**The console is a window on a terminal.**

* `Terminal` — a terminal of 80 columns whose rows never run out.
* `fillBlank_eq`, `shiftUp_eq` — the two loops over video memory.
* `Window` — the screen shows the rows of a terminal from one of them on.
* `Window.putChar`, `Window.scroll` — one character, and what follows it.
* `console_refines_terminal` — **what is shown are the last 25 rows**, whatever is written.
-/
import Mathlib.Tactic.SplitIfs
import Sprite.Console.Screen
import Sprite.Lib.Runs

namespace Sprite.Console

open Runs

/-! ### The terminal -/

/-- A character in its colours. -/
structure Cell where
  char : UInt8
  back : RealColor
  fore : RealColor

/-- A cell that nothing was written to. -/
def Cell.blank : Cell := ⟨0x20, .rc_black, .rc_white⟩

/-- The cell in video memory. -/
def Cell.code (cell : Cell) : UInt16 := makeChar cell.char (makeColor cell.back cell.fore)

/-- A terminal with 80 columns and as many rows as are needed. -/
structure Terminal where
  cells : Nat → Fin 80 → Cell
  row : Nat
  column : Fin 80

namespace Terminal

def new : Terminal := ⟨fun _ _ => .blank, 0, 0⟩

/-- How many rows there are: 25 at first, and then down to the cursor. -/
def height (t : Terminal) : Nat := max 25 (t.row + 1)

def lastRows (t : Terminal) (y : Fin 25) (x : Fin 80) : Cell := t.cells (t.height - 25 + y) x

/-- The cursor moves to a column, or to the start of the next row when that is column 80. -/
def moveTo (t : Terminal) (column : Nat) : Terminal :=
  if inside : column < 80 then { t with column := ⟨column, inside⟩ }
  else { t with row := t.row + 1, column := 0 }

/-- The cell under the cursor. -/
def put (t : Terminal) (cell : Cell) : Terminal :=
  { t with cells := Function.update t.cells t.row (Function.update (t.cells t.row) t.column cell) }

/-- What a character does. -/
def feed (t : Terminal) (back fore : RealColor) (c : UInt8) : Terminal :=
  if c = backspace then t.moveTo (t.column - 1)
  else if c = tab then t.moveTo (8 * (t.column / 8 + 1))
  else if c = carriageReturn then t.moveTo 0
  else if c = newline then { t with row := t.row + 1, column := 0 }
  else if Printable c then (t.put ⟨c, back, fore⟩).moveTo (t.column + 1)
  else t

/-- The characters of a string, up to the terminating one. -/
def write (t : Terminal) (back fore : RealColor) (str : List UInt8) : Terminal :=
  (str.takeWhile (· ≠ 0)).foldl (feed · back fore) t

/-- Below the cursor all cells are blank. -/
def BlankBelow (t : Terminal) : Prop := ∀ r > t.row, ∀ x, t.cells r x = .blank

theorem BlankBelow.moveTo {t : Terminal} (blank : t.BlankBelow) (column : Nat) :
    (t.moveTo column).BlankBelow := by
  unfold Terminal.moveTo
  split
  · exact blank
  · exact fun r below => blank r (Nat.lt_of_succ_lt below)

theorem BlankBelow.put {t : Terminal} (blank : t.BlankBelow) (cell : Cell) :
    (t.put cell).BlankBelow := by
  intro r below x
  have other : r ≠ t.row := Nat.ne_of_gt below
  simp only [Terminal.put, Function.update_of_ne other]
  exact blank r below x

theorem BlankBelow.feed {t : Terminal} (blank : t.BlankBelow) (back fore : RealColor) (c : UInt8) :
    (t.feed back fore c).BlankBelow := by
  unfold Terminal.feed
  split_ifs
  · exact blank.moveTo _
  · exact blank.moveTo _
  · exact blank.moveTo _
  · exact fun r below => blank r (Nat.lt_of_succ_lt below)
  · exact (blank.put _).moveTo _
  · exact blank

end Terminal

/-! ### Video memory -/

/-- The place of a cell in video memory. -/
def place (y : Fin 25) (x : Fin 80) : Fin (25 * 80) := ⟨80 * y + x, by omega⟩

theorem place_inj {y y' : Fin 25} {x x' : Fin 80} : place y x = place y' x' ↔ y = y' ∧ x = x' := by
  simp only [place, Fin.ext_iff]
  omega

/-- A loop that stores blanks. -/
theorem fillBlank_eq (s : Screen) (first count : Nat) (inside : first + count ≤ 25 * 80) :
    s.fillBlank first count = some { s with video_memory := fun i =>
      if first ≤ i.val ∧ i.val < first + count then blank else s.video_memory i } := by
  unfold Screen.fillBlank
  induction count with
  | zero =>
    have none : ∀ i : Fin (25 * 80), ¬ (first ≤ i.val ∧ i.val < first + 0) := fun i => by omega
    simp only [List.range'_zero, List.foldlM_nil, if_neg (none _), Option.pure_def]
  | succ count ih =>
    have here : first + count < 25 * 80 := by omega
    rw [List.range'_1_concat, List.foldlM_append, ih (by omega)]
    simp only [Option.bind_eq_bind, Option.bind_some, List.foldlM_cons, List.foldlM_nil, Screen.store,
      dif_pos here, Option.pure_def, Option.some.injEq, Screen.mk.injEq, and_true]
    funext i
    by_cases last : i = ⟨first + count, here⟩
    · subst last
      rw [Function.update_self, if_pos ⟨by simp only; omega, by simp only; omega⟩]
    · have other : i.val ≠ first + count := fun same => last (Fin.ext same)
      rw [Function.update_of_ne last]
      exact if_congr (by omega) rfl rfl

/-- The loop that moves the rows up. -/
theorem shiftUp_eq (s : Screen) (count : Nat) (inside : count ≤ 24 * 80) :
    s.shiftUp count = some { s with video_memory := fun i =>
      if below : i.val < count then s.video_memory ⟨i.val + 80, by omega⟩ else s.video_memory i } := by
  unfold Screen.shiftUp
  induction count with
  | zero =>
    simp only [List.range_zero, List.foldlM_nil, Nat.not_lt_zero, dite_false, Option.pure_def]
  | succ count ih =>
    have here : count < 25 * 80 := by omega
    have source : count + 80 < 25 * 80 := by omega
    have later : ¬ count + 80 < count := by omega
    rw [List.range_succ, List.foldlM_append, ih (by omega)]
    simp only [Option.bind_eq_bind, Option.bind_some, List.foldlM_cons, List.foldlM_nil, Screen.load,
      Screen.store, dif_pos here, dif_pos source, dif_neg later, Option.pure_def, Option.some.injEq,
      Screen.mk.injEq, and_true]
    funext i
    by_cases last : i = ⟨count, here⟩
    · subst last
      rw [Function.update_self, dif_pos (Nat.lt_succ_self count)]
    · have other : i.val ≠ count := fun same => last (Fin.ext same)
      rw [Function.update_of_ne last]
      by_cases before : i.val < count
      · rw [dif_pos before, dif_pos (by omega)]
      · rw [dif_neg before, dif_neg (by omega)]

/-! ### The window -/

/-- The screen shows the rows of a terminal from row `top` on. Rows are out of sight only when the
cursor is at the bottom, or about to be moved there. -/
structure Window (s : Screen) (t : Terminal) (top : Nat) : Prop where
  memory : ∀ y x, s.video_memory (place y x) = (t.cells (top + y.val) x).code
  row : top + s.cursor_y.toNat = t.row
  column : s.cursor_x.toNat = t.column.val
  bottom : top = 0 ∨ 24 ≤ s.cursor_y.toNat
  low : s.cursor_y.toNat ≤ 25
  below : t.BlankBelow
  fresh : s.cursor_y.toNat = 25 → ∀ x, t.cells t.row x = .blank

variable {s : Screen} {t : Terminal} {top : Nat} {back fore : RealColor} {c : UInt8}

theorem ge_eighty_iff (x : UInt8) : x ≥ 80 ↔ 80 ≤ x.toNat := UInt8.le_iff_toNat_le

theorem ge_twentyfive_iff (y : UInt8) : y ≥ 25 ↔ 25 ≤ y.toNat := UInt8.le_iff_toNat_le

theorem toNat_succ_row (low : s.cursor_y.toNat < 25) :
    (s.cursor_y + 1).toNat = s.cursor_y.toNat + 1 := by
  rw [UInt8.toNat_add, show (1 : UInt8).toNat = 1 from rfl]
  omega

/-- The cursor is set to the start of the next row. -/
theorem Window.nextRow (window : Window s t top) (low : s.cursor_y.toNat < 25) :
    Window { s with cursor_x := 0, cursor_y := s.cursor_y + 1 }
      { t with row := t.row + 1, column := 0 } top := by
  have next := toNat_succ_row low
  have row := window.row
  have bottom := window.bottom
  refine ⟨window.memory, ?_, rfl, ?_, ?_, fun r below => window.below r (Nat.lt_of_succ_lt below),
    fun _ => window.below (t.row + 1) (Nat.lt_succ_self _)⟩
  · show top + (s.cursor_y + 1).toNat = t.row + 1
    omega
  · show top = 0 ∨ 24 ≤ (s.cursor_y + 1).toNat
    omega
  · show (s.cursor_y + 1).toNat ≤ 25
    omega

/-- The cursor is set to a column, and then `console_putc` looks for the end of the row. -/
theorem Window.moveTo (window : Window s t top) (low : s.cursor_y.toNat < 25) (x : UInt8) :
    Window (wrap { s with cursor_x := x }) (t.moveTo x.toNat) top := by
  unfold wrap Terminal.moveTo
  by_cases ended : 80 ≤ x.toNat
  · rw [if_pos ((ge_eighty_iff x).mpr ended), dif_neg (Nat.not_lt.mpr ended)]
    exact window.nextRow low
  · rw [if_neg (mt (ge_eighty_iff x).mp ended), dif_pos (Nat.not_le.mp ended)]
    exact ⟨window.memory, window.row, rfl, window.bottom, window.low, window.below, window.fresh⟩

/-- A cell is written under the cursor. -/
theorem Window.store (window : Window s t top) (low : s.cursor_y.toNat < 25) (cell : Cell) :
    ∃ s', s.store (s.cursor_y.toNat * 80 + s.cursor_x.toNat) cell.code = some s' ∧
      s'.cursor_x = s.cursor_x ∧ s'.cursor_y = s.cursor_y ∧ Window s' (t.put cell) top := by
  have column := window.column
  have row := window.row
  have narrow := t.column.isLt
  have inside : s.cursor_y.toNat * 80 + s.cursor_x.toNat < 25 * 80 := by omega
  refine ⟨_, dif_pos inside, rfl, rfl, fun y x => ?_, row, column, window.bottom, window.low,
    window.below.put cell, fun off => absurd off (Nat.ne_of_lt low)⟩
  have here : (⟨_, inside⟩ : Fin (25 * 80)) = place ⟨s.cursor_y.toNat, low⟩ t.column := by
    refine Fin.ext ?_
    show s.cursor_y.toNat * 80 + s.cursor_x.toNat = 80 * s.cursor_y.toNat + t.column.val
    omega
  simp only [here, Terminal.put]
  by_cases sameRow : top + y.val = t.row
  · have isRow : y = ⟨s.cursor_y.toNat, low⟩ := Fin.ext (by show y.val = s.cursor_y.toNat; omega)
    rw [sameRow, Function.update_self]
    by_cases sameColumn : x = t.column
    · rw [isRow, sameColumn, Function.update_self, Function.update_self]
    · rw [Function.update_of_ne fun same => sameColumn (place_inj.mp same).2,
        Function.update_of_ne sameColumn, window.memory, sameRow]
  · have isOther : y ≠ ⟨s.cursor_y.toNat, low⟩ := by
      rintro rfl
      exact sameRow row
    rw [Function.update_of_ne fun same => isOther (place_inj.mp same).1,
      Function.update_of_ne sameRow, window.memory]

/-- The next multiple of 8. -/
theorem toNat_tab {x : UInt8} (narrow : x.toNat < 80) :
    ((x + 8) &&& ~~~0b111).toNat = 8 * (x.toNat / 8 + 1) := by
  have stops : ∀ n : Fin 80, (n.val + 8) &&& 248 = 8 * (n.val / 8 + 1) := by decide +kernel
  rw [UInt8.toNat_and, UInt8.toNat_add, show (8 : UInt8).toNat = 8 from rfl,
    show (~~~0b111 : UInt8).toNat = 248 from rfl, Nat.mod_eq_of_lt (by omega)]
  exact stops ⟨x.toNat, narrow⟩

/-- **One character**, up to the end of the row. -/
theorem Window.putChar (window : Window s t top) (low : s.cursor_y.toNat < 25) (c : UInt8)
    (back fore : RealColor) :
    ∃ s', putChar c (makeChar c (makeColor back fore)) s = some s' ∧
      Window (wrap s') (t.feed back fore c) top := by
  have column := window.column
  have narrow : s.cursor_x.toNat < 80 := column ▸ t.column.isLt
  have stays : wrap s = s := if_neg (mt (ge_eighty_iff _).mp (Nat.not_le.mpr narrow))
  unfold Console.putChar Terminal.feed
  split_ifs with isBackspace left isTab isReturn isNewline printable
  · refine ⟨_, rfl, ?_⟩
    have one : (1 : UInt8) ≤ s.cursor_x := UInt8.le_iff_toNat_le.mpr
      (Nat.pos_of_ne_zero fun zero => left (UInt8.toNat_inj.mp zero))
    have moved := window.moveTo low (s.cursor_x - 1)
    rwa [UInt8.toNat_sub_of_le _ _ one, column] at moved
  · refine ⟨_, rfl, ?_⟩
    have zero : s.cursor_x.toNat = 0 := congrArg UInt8.toNat (not_not.mp left)
    have moved := window.moveTo low s.cursor_x
    rwa [show s.cursor_x.toNat = t.column.val - 1 by omega] at moved
  · refine ⟨_, rfl, ?_⟩
    have moved := window.moveTo low ((s.cursor_x + 8) &&& ~~~0b111)
    rwa [toNat_tab narrow, column] at moved
  · exact ⟨_, rfl, window.moveTo low 0⟩
  · have start : ¬ (0 : UInt8) ≥ 80 := by decide
    refine ⟨_, rfl, ?_⟩
    rw [wrap, if_neg start]
    exact window.nextRow low
  · obtain ⟨s', stored, sameX, sameY, window'⟩ := window.store low ⟨c, back, fore⟩
    have next : (s'.cursor_x + 1).toNat = t.column.val + 1 := by
      rw [UInt8.toNat_add, show (1 : UInt8).toNat = 1 from rfl, sameX]
      omega
    have moved := window'.moveTo (sameY ▸ low) (s'.cursor_x + 1)
    rw [next] at moved
    exact ⟨_, congrArg (· >>= _) stored, moved⟩
  · exact ⟨s, rfl, stays.symm ▸ window⟩

/-- **Scrolling** when the cursor is below the screen. -/
theorem Window.scroll (window : Window s t top) :
    ∃ s', scroll s = some s' ∧ s'.cursor_y.toNat < 25 ∧ Window s' t (t.height - 25) := by
  have row := window.row
  have low := window.low
  have bottom := window.bottom
  unfold Console.scroll Terminal.height
  by_cases off : 25 ≤ s.cursor_y.toNat
  · rw [if_pos ((ge_twentyfive_iff _).mpr off), shiftUp_eq s (24 * 80) (Nat.le_refl _),
      Option.bind_eq_bind, Option.bind_some, fillBlank_eq _ (24 * 80) 80 (Nat.le_refl _),
      Option.bind_some]
    have up : max 25 (t.row + 1) - 25 = top + 1 := by omega
    rw [up]
    refine ⟨_, rfl, (by decide : 24 < 25), fun y x => ?_, ?_, window.column, .inr (Nat.le_refl 24),
      (by decide : 24 ≤ 25), window.below, fun off' => absurd off' (by decide : 24 ≠ 25)⟩
    · have narrow := x.isLt
      dsimp only [place]
      by_cases last : y.val = 24
      · have isRow : top + 1 + y.val = t.row := by omega
        rw [if_pos (by omega), isRow, window.fresh (by omega)]
        rfl
      · have next : y.val + 1 < 25 := by omega
        have shifted := window.memory ⟨y.val + 1, next⟩ x
        have source : (⟨80 * y.val + x.val + 80, by omega⟩ : Fin (25 * 80)) = place ⟨y.val + 1, next⟩ x :=
          Fin.ext (by show 80 * y.val + x.val + 80 = 80 * (y.val + 1) + x.val; omega)
        have above : 80 * y.val + x.val < 24 * 80 := by omega
        rw [if_neg (by omega), dif_pos above, source, shifted, Nat.add_assoc top, Nat.add_comm 1]
    · show top + 1 + 24 = t.row
      omega
  · rw [if_neg (mt (ge_twentyfive_iff _).mp off)]
    have same : max 25 (t.row + 1) - 25 = top := by omega
    rw [same]
    exact ⟨s, rfl, Nat.not_le.mp off, window⟩

/-! ### What is seen -/

/-- **The screen shows the terminal**: its last 25 rows, with the cursor where it is. -/
structure Shows (s : Screen) (t : Terminal) : Prop where
  rows : ∀ y x, s.video_memory (place y x) = (t.lastRows y x).code
  row : t.height - 25 + s.cursor_y.toNat = t.row
  column : s.cursor_x.toNat = t.column.val
  low : s.cursor_y.toNat < 25
  cursor : 256 * (s.controller.register 14).toNat + (s.controller.register 15).toNat
    = 80 * s.cursor_y.toNat + s.cursor_x.toNat

/-- The hardware is told where the cursor is. -/
theorem moveCursor_register (low : s.cursor_y.toNat < 25) (narrow : s.cursor_x.toNat < 80) :
    256 * (s.moveCursor.controller.register 14).toNat + (s.moveCursor.controller.register 15).toNat
      = 80 * s.cursor_y.toNat + s.cursor_x.toNat := by
  have loc : (s.cursor_y.toUInt16 * 80 + s.cursor_x.toUInt16).toNat
      = 80 * s.cursor_y.toNat + s.cursor_x.toNat := by
    rw [UInt16.toNat_add, UInt16.toNat_mul, UInt8.toNat_toUInt16, UInt8.toNat_toUInt16,
      show (80 : UInt16).toNat = 80 from rfl]
    omega
  have high : s.moveCursor.controller.register 14
      = ((s.cursor_y.toUInt16 * 80 + s.cursor_x.toUInt16) >>> 8).toUInt8 := rfl
  have lower : s.moveCursor.controller.register 15
      = (s.cursor_y.toUInt16 * 80 + s.cursor_x.toUInt16).toUInt8 := rfl
  rw [high, lower, UInt16.toNat_toUInt8, UInt16.toNat_toUInt8, UInt16.toNat_shiftRight, loc,
    show (8 : UInt16).toNat % 16 = 8 from rfl, Nat.shiftRight_eq_div_pow]
  omega

theorem Window.shows (window : Window s t (t.height - 25)) (low : s.cursor_y.toNat < 25) :
    Shows s.moveCursor t :=
  ⟨window.memory, window.row, window.column, low,
    moveCursor_register low (window.column ▸ t.column.isLt)⟩

/-- What is kept from one character to the next. -/
def Tracks (s : Screen) (t : Terminal) : Prop := Shows s t ∧ t.BlankBelow

theorem Shows.window (shows : Shows s t) (blank : t.BlankBelow) : Window s t (t.height - 25) := by
  have row := shows.row
  have low := shows.low
  refine ⟨shows.rows, row, shows.column, ?_, Nat.le_of_lt low, blank,
    fun off => absurd off (Nat.ne_of_lt low)⟩
  unfold Terminal.height at row ⊢
  omega

/-- **One character.** -/
theorem consolePutc_tracks (tracks : Tracks s t) (c : UInt8) (back fore : RealColor) :
    ∃ s', consolePutc c back fore s = some s' ∧ Tracks s' (t.feed back fore c) := by
  obtain ⟨shows, blank⟩ := tracks
  obtain ⟨s₁, put, window₁⟩ := (shows.window blank).putChar shows.low c back fore
  obtain ⟨s₂, scrolled, low, window₂⟩ := window₁.scroll
  refine ⟨s₂.moveCursor, ?_, window₂.shows low, window₂.below⟩
  rw [consolePutc, put, Option.bind_eq_bind, Option.bind_some, scrolled]
  rfl

/-- A cleared screen shows a new terminal, whatever was on it. -/
theorem consoleClear_tracks (s : Screen) :
    ∃ s', consoleClear s = some s' ∧ Tracks s' .new := by
  have window : Window { s with
      video_memory := fun i => if 0 ≤ i.val ∧ i.val < 0 + 80 * 25 then blank else s.video_memory i
      cursor_x := 0
      cursor_y := 0 } .new (Terminal.new.height - 25) :=
    ⟨fun y x => if_pos ⟨Nat.zero_le _, by have := (place y x).isLt; omega⟩, rfl, rfl, .inl rfl,
      Nat.zero_le _, fun _ _ _ => rfl, fun _ _ => rfl⟩
  refine ⟨_, ?_, window.shows (by decide : 0 < 25), window.below⟩
  rw [consoleClear, fillBlank_eq s 0 (80 * 25) (Nat.le_refl _)]
  rfl

theorem Terminal.write_cons {t : Terminal} {str : List UInt8} (more : c ≠ 0) :
    t.write back fore (c :: str) = (t.feed back fore c).write back fore str := by
  rw [Terminal.write, List.takeWhile_cons_of_pos (by simpa using more), List.foldl_cons]
  rfl

/-- **A string.** -/
theorem consoleWrite_tracks (back fore : RealColor) (str : List UInt8) :
    ∀ {s : Screen} {t : Terminal}, Tracks s t →
    ∃ s', consoleWrite str back fore s = some s' ∧ Tracks s' (t.write back fore str) := by
  induction str with
  | nil => exact fun tracks => ⟨_, rfl, tracks⟩
  | cons c str ih =>
    intro s t tracks
    unfold consoleWrite
    by_cases ended : c = 0
    · rw [if_pos ended]
      refine ⟨s, rfl, ?_⟩
      rw [Terminal.write, ended, List.takeWhile_cons_of_neg (by decide)]
      exact tracks
    · rw [if_neg ended, Terminal.write_cons ended]
      obtain ⟨s₁, put, tracks₁⟩ := consolePutc_tracks tracks c back fore
      rw [put, Option.bind_eq_bind, Option.bind_some]
      exact ih tracks₁

/-- The cursor is on the screen after every character. -/
theorem consolePutc_along (back fore : RealColor) (str : List UInt8) (tracks : Tracks s t) :
    Along (fun s c => consolePutc c back fore s) (fun _ _ => True)
      (fun s => s.cursor_x.toNat < 80 ∧ s.cursor_y.toNat < 25) s str := by
  refine along_of_invariant (fun s => ∃ t, Tracks s t) (fun s c known _ => ?_) (fun s known => ?_) str
    s ⟨t, tracks⟩
  · obtain ⟨t, tracks⟩ := known
    obtain ⟨s', put, tracks'⟩ := consolePutc_tracks tracks c back fore
    exact ⟨s', put, _, tracks'⟩
  · obtain ⟨t, shows, _⟩ := known
    exact ⟨shows.column ▸ t.column.isLt, shows.low⟩

/-- **The console refines the terminal**: what is shown after a string are the last 25 rows of a
terminal that was given the string, with the cursor in its place. No cell outside the screen is used,
and the cursor is on the screen after every character. -/
theorem console_refines_terminal (s : Screen) (str : List UInt8) (back fore : RealColor) :
    ∃ s₀ s₁, consoleClear s = some s₀ ∧ consoleWrite str back fore s₀ = some s₁ ∧
      Shows s₁ (Terminal.new.write back fore str) ∧
      Along (fun s c => consolePutc c back fore s) (fun _ _ => True)
        (fun s => s.cursor_x.toNat < 80 ∧ s.cursor_y.toNat < 25) s₀ (str.takeWhile (· ≠ 0)) := by
  obtain ⟨s₀, cleared, tracks₀⟩ := consoleClear_tracks s
  obtain ⟨s₁, wrote, tracks₁⟩ := consoleWrite_tracks back fore str tracks₀
  exact ⟨s₀, s₁, cleared, wrote, tracks₁.1, consolePutc_along back fore _ tracks₀⟩

end Sprite.Console

/-
**The text console**, after `src/lib/console.cc`.

The screen is 25 rows of 80 cells in video memory. A cell is a character and the colours it is shown
in. Functions answer `none` where they would use a cell that is not one of the screen.

* `Screen` — video memory, the cursor, and the registers that say where the hardware shows it.
* `consoleClear`, `scroll`, `consolePutc`, `consoleWrite` — the functions.
-/
import Mathlib.Logic.Function.Basic

namespace Sprite.Console

/-- `real_color_t`. -/
inductive RealColor
  | rc_black
  | rc_blue
  | rc_green
  | rc_cyan
  | rc_red
  | rc_magenta
  | rc_brown
  | rc_light_grey
  | rc_dark_grey
  | rc_light_blue
  | rc_light_green
  | rc_light_cyan
  | rc_light_red
  | rc_light_magenta
  | rc_light_brown
  | rc_white

/-- The value of the enumeration. -/
def RealColor.code : RealColor → UInt8
  | rc_black => 0
  | rc_blue => 1
  | rc_green => 2
  | rc_cyan => 3
  | rc_red => 4
  | rc_magenta => 5
  | rc_brown => 6
  | rc_light_grey => 7
  | rc_dark_grey => 8
  | rc_light_blue => 9
  | rc_light_green => 10
  | rc_light_cyan => 11
  | rc_light_red => 12
  | rc_light_magenta => 13
  | rc_light_brown => 14
  | rc_white => 15

def makeColor (back fore : RealColor) : UInt8 := (back.code <<< 4) ||| (0x0F &&& fore.code)

/-- The conversion of the `char` extends its sign. -/
def makeChar (ch : UInt8) (color : UInt8) : UInt16 :=
  (color.toUInt16 <<< 8) ||| ch.toInt8.toInt16.toUInt16

/-- A space, white on black. -/
def blank : UInt16 := makeChar 0x20 (makeColor .rc_black .rc_white)

/-- The registers of the video controller, of which one is selected at a time. -/
structure Controller where
  selected : UInt8
  register : UInt8 → UInt8

/-- Port `0x3D4` selects a register, and port `0x3D5` is the register. -/
def Controller.outb (controller : Controller) (port : UInt16) (value : UInt8) : Controller :=
  if port = 0x3D4 then { controller with selected := value }
  else if port = 0x3D5 then
    { controller with register := Function.update controller.register controller.selected value }
  else controller

structure Screen where
  video_memory : Fin (25 * 80) → UInt16
  cursor_x : UInt8
  cursor_y : UInt8
  controller : Controller

namespace Screen

/-- `video_memory[i]`. -/
def load (s : Screen) (i : Nat) : Option UInt16 :=
  if inside : i < 25 * 80 then some (s.video_memory ⟨i, inside⟩) else none

/-- `video_memory[i] = value`. -/
def store (s : Screen) (i : Nat) (value : UInt16) : Option Screen :=
  if inside : i < 25 * 80 then
    some { s with video_memory := Function.update s.video_memory ⟨i, inside⟩ value }
  else none

def moveCursor (s : Screen) : Screen :=
  let cursorLoc : UInt16 := s.cursor_y.toUInt16 * 80 + s.cursor_x.toUInt16
  let controller := s.controller.outb 0x3D4 14
  let controller := controller.outb 0x3D5 (cursorLoc >>> 8).toUInt8
  let controller := controller.outb 0x3D4 15
  { s with controller := controller.outb 0x3D5 cursorLoc.toUInt8 }

/-- The loop over the cells that are blanked, from `first` on. -/
def fillBlank (s : Screen) (first count : Nat) : Option Screen :=
  (List.range' first count).foldlM (fun s i => s.store i blank) s

/-- The loop over the cells that take the one a row below. -/
def shiftUp (s : Screen) (count : Nat) : Option Screen :=
  (List.range count).foldlM (fun s i => do
    let cell ← s.load (i + 80)
    s.store i cell) s

end Screen

def consoleClear (s : Screen) : Option Screen := do
  let s ← s.fillBlank 0 (80 * 25)
  return { s with cursor_x := 0, cursor_y := 0 }.moveCursor

def scroll (s : Screen) : Option Screen :=
  if s.cursor_y ≥ 25 then do
    let s ← s.shiftUp (24 * 80)
    let s ← s.fillBlank (24 * 80) 80
    return { s with cursor_y := 24 }
  else some s

def backspace : UInt8 := 8
def tab : UInt8 := 9
def newline : UInt8 := 10
def carriageReturn : UInt8 := 13

/-- `c >= ' '`, for a `char` with a sign. -/
def Printable (c : UInt8) : Prop := 0x20 ≤ c.toInt8

instance (c : UInt8) : Decidable (Printable c) := inferInstanceAs (Decidable (_ ≤ _))

/-- The `switch` of `console_putc`. -/
def putChar (c : UInt8) (ch : UInt16) (s : Screen) : Option Screen :=
  if c = backspace then some (if s.cursor_x ≠ 0 then { s with cursor_x := s.cursor_x - 1 } else s)
  else if c = tab then some { s with cursor_x := (s.cursor_x + 8) &&& ~~~0b111 }
  else if c = carriageReturn then some { s with cursor_x := 0 }
  else if c = newline then some { s with cursor_x := 0, cursor_y := s.cursor_y + 1 }
  else if Printable c then do
    let s ← s.store (s.cursor_y.toNat * 80 + s.cursor_x.toNat) ch
    return { s with cursor_x := s.cursor_x + 1 }
  else some s

/-- The end of a row. -/
def wrap (s : Screen) : Screen :=
  if s.cursor_x ≥ 80 then { s with cursor_x := 0, cursor_y := s.cursor_y + 1 } else s

def consolePutc (c : UInt8) (back fore : RealColor) (s : Screen) : Option Screen := do
  let s ← putChar c (makeChar c (makeColor back fore)) s
  let s ← scroll (wrap s)
  return s.moveCursor

/-- The loop ends at the terminating character. -/
def consoleWrite (str : List UInt8) (back fore : RealColor) (s : Screen) : Option Screen :=
  match str with
  | [] => some s
  | c :: str =>
    if c = 0 then some s
    else do
      let s ← consolePutc c back fore s
      consoleWrite str back fore s

end Sprite.Console

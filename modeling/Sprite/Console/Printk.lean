/-
**Formatted printing**, after `src/include/printk.h`.

The overloads of `printk` and its template are modelled by the characters that they hand to
`console_putc`. A format and a string are their characters before the terminating one.

* `printk` — the template: one conversion for each argument, and no more when there are none left.
* `pieces`, `render` — what a format asks for.
* `printk_orderly` — a format without unknown conversions before others is printed as it asks, unless `%d`
  has a negative number.
* `printk_right_iff` — **which formats are printed right**.
* `printk_shown` — what is printed is shown on the screen.
-/
import Mathlib.Data.List.TakeWhile
import Sprite.Console.Numbers
import Sprite.Console.Terminal
import Sprite.Fs.Strings

namespace Sprite.Console

open Numerals Fs

/-! ### The overloads and the template -/

inductive Format
  | kNone
  | kDec
  | kHex

/-- An argument, with the overload that its type selects. -/
inductive Arg
  | char (ch : UInt8)
  | str (str : List UInt8)
  | bytes (str : List UInt8)
  | uint32 (n : UInt32)
  | int (n : Int32)

/-- `console_write`. -/
def written (str : List UInt8) : List UInt8 := str.takeWhile (· ≠ 0)

def printkUInt32 (n : UInt32) : Format → List UInt8
  | .kDec => consoleWriteDec n
  | .kHex => consoleWriteHex n
  | .kNone => consoleWriteDec n

/-- The overloads for one argument. -/
def printkArg : Arg → Format → List UInt8
  | .char ch, _ => [ch]
  | .str str, _ => written str
  | .bytes str, _ => written str
  | .uint32 n, f => printkUInt32 n f
  | .int n, f => printkUInt32 n.toUInt32 f

def percent : UInt8 := 0x25

/-- The `switch` over `pos[1]`: `d`, `x`, `s` and `c`, and any other character. -/
def convert (c : UInt8) (head : Arg) : List UInt8 :=
  if c = 0x64 then printkArg head .kDec
  else if c = 0x78 then printkArg head .kHex
  else if c = 0x73 ∨ c = 0x63 then printkArg head .kNone
  else printkArg (.char percent) .kNone ++ printkArg (.char c) .kNone

/-- Without an argument, the overload for a string; else the template. -/
def printk (format : List UInt8) : List Arg → List UInt8
  | [] => printkArg (.str format) .kNone
  | head :: tail =>
    let pos := strfind format percent
    format.take (format.length - pos.length) ++
      match pos with
      | _ :: c :: rest => convert c head ++ printk rest tail
      | _ => []

/-! ### What a format asks for -/

inductive Conversion
  | d
  | x
  | s
  | c

/-- A part of a format: a character, a `%` with a character behind it, or a conversion. -/
inductive Piece
  | literal (c : UInt8)
  | unknown (c : UInt8)
  | conversion (k : Conversion)

def pieceOf (c : UInt8) : Piece :=
  if c = 0x64 then .conversion .d
  else if c = 0x78 then .conversion .x
  else if c = 0x73 then .conversion .s
  else if c = 0x63 then .conversion .c
  else .unknown c

/-- The parts of a format, from the left to the right. -/
def pieces : List UInt8 → List Piece
  | [] => []
  | [c] => [.literal c]
  | c :: c' :: rest => if c = percent then pieceOf c' :: pieces rest else .literal c :: pieces (c' :: rest)

def conversions : List Piece → List Conversion
  | [] => []
  | .conversion k :: ps => k :: conversions ps
  | .literal _ :: ps => conversions ps
  | .unknown _ :: ps => conversions ps

/-- The kinds of argument that a conversion is for. -/
inductive Matches : Conversion → Arg → Prop
  | dUInt32 (n : UInt32) : Matches .d (.uint32 n)
  | dInt (n : Int32) : Matches .d (.int n)
  | xUInt32 (n : UInt32) : Matches .x (.uint32 n)
  | xInt (n : Int32) : Matches .x (.int n)
  | str (str : List UInt8) (terminated : 0 ∉ str) : Matches .s (.str str)
  | bytes (str : List UInt8) (terminated : 0 ∉ str) : Matches .s (.bytes str)
  | char (ch : UInt8) : Matches .c (.char ch)

/-- The decimal numeral with a sign. -/
def signedDecimal (n : Int) : List UInt8 :=
  if n < 0 then 0x2D :: numeral 10 n.natAbs else numeral 10 n.natAbs

/-- What stands in the place of a conversion. -/
def text : Conversion → Arg → List UInt8
  | .d, .uint32 n => numeral 10 n.toNat
  | .d, .int n => signedDecimal n.toInt
  | .x, .uint32 n => numeral 16 n.toNat
  | .x, .int n => numeral 16 n.toUInt32.toNat
  | .s, .str str => str
  | .s, .bytes str => str
  | .c, .char ch => [ch]
  | _, _ => []

/-- **What a format asks for**: each conversion is replaced by the text of an argument, in order, and
everything else is copied. -/
def render : List Piece → List Arg → List UInt8
  | [], _ => []
  | .literal c :: ps, args => c :: render ps args
  | .unknown c :: ps, args => percent :: c :: render ps args
  | .conversion k :: ps, arg :: args => text k arg ++ render ps args
  | .conversion _ :: ps, [] => render ps []

/-- There is an argument for each conversion, of one of its kinds. -/
def Fits (ps : List Piece) (args : List Arg) : Prop := List.Forall₂ Matches (conversions ps) args

/-- A `%d` with a number that is negative. -/
inductive Negative : Conversion → Arg → Prop
  | int (n : Int32) (negative : n.toInt < 0) : Negative .d (.int n)

/-- No `%d` has a negative number. -/
def NoneNegative (ps : List Piece) (args : List Arg) : Prop :=
  List.Forall₂ (fun k arg => ¬ Negative k arg) (conversions ps) args

/-- A `%` with any other character behind it stands behind all conversions. -/
def Orderly : List Piece → Prop
  | [] => True
  | .unknown _ :: ps => conversions ps = []
  | .literal _ :: ps => Orderly ps
  | .conversion _ :: ps => Orderly ps

/-- **The format is printed right** with these arguments. -/
def PrintsRight (format : List UInt8) (args : List Arg) : Prop :=
  printk format args = render (pieces format) args

/-! ### The steps of the template -/

section Steps

variable {c : UInt8} {rest str format : List UInt8} {head : Arg} {tail args : List Arg}

theorem written_eq (terminated : 0 ∉ str) : written str = str :=
  List.takeWhile_eq_self_iff.mpr fun _ member => decide_eq_true fun zero => terminated (zero ▸ member)

theorem printk_nil (terminated : 0 ∉ format) : printk format [] = format := written_eq terminated

theorem printk_empty : printk [] (head :: tail) = [] := rfl

/-- A character is copied. -/
theorem printk_literal (other : c ≠ percent) :
    printk (c :: rest) (head :: tail) = c :: printk rest (head :: tail) := by
  have found : strfind (c :: rest) percent = strfind rest percent := if_neg other
  have bound := length_strfind rest percent
  have more : (c :: rest).length - (strfind rest percent).length
      = rest.length - (strfind rest percent).length + 1 := by
    rw [List.length_cons]
    omega
  simp only [printk, found, more, List.take_succ_cons, List.cons_append]

/-- A `%` with a character behind it uses up an argument. -/
theorem printk_pair : printk (percent :: c :: rest) (head :: tail) = convert c head ++ printk rest tail := by
  have found : strfind (percent :: c :: rest) percent = percent :: c :: rest := if_pos rfl
  simp only [printk, found, Nat.sub_self, List.take_zero, List.nil_append]

end Steps

/-! ### Formats that are printed right -/

/-- The `Format` of a conversion. -/
def Conversion.format : Conversion → Format
  | d => .kDec
  | x => .kHex
  | s => .kNone
  | c => .kNone

section Right

variable {format : List UInt8} {head arg : Arg} {tail args : List Arg} {k : Conversion}

/-- The `switch` sees what the format asks for. -/
theorem pieceOf_cases (c : UInt8) :
    (∃ k, pieceOf c = .conversion k ∧ ∀ head, convert c head = printkArg head k.format) ∨
      pieceOf c = .unknown c ∧ ∀ head, convert c head = [percent, c] := by
  unfold pieceOf convert
  by_cases isD : c = 0x64
  · exact .inl ⟨.d, if_pos isD, fun _ => if_pos isD⟩
  by_cases isX : c = 0x78
  · exact .inl ⟨.x, by rw [if_neg isD, if_pos isX], fun _ => by rw [if_neg isD, if_pos isX]; rfl⟩
  by_cases isS : c = 0x73
  · refine .inl ⟨.s, by rw [if_neg isD, if_neg isX, if_pos isS], fun _ => ?_⟩
    rw [if_neg isD, if_neg isX, if_pos (.inl isS)]
    rfl
  by_cases isC : c = 0x63
  · refine .inl ⟨.c, by rw [if_neg isD, if_neg isX, if_neg isS, if_pos isC], fun _ => ?_⟩
    rw [if_neg isD, if_neg isX, if_pos (.inr isC)]
    rfl
  refine .inr ⟨by rw [if_neg isD, if_neg isX, if_neg isS, if_neg isC], fun _ => ?_⟩
  rw [if_neg isD, if_neg isX, if_neg (not_or.mpr ⟨isS, isC⟩)]
  rfl

/-- The number that a nonnegative `int` is converted to. -/
theorem toNat_toUInt32 {n : Int32} (nonneg : 0 ≤ n.toInt) : n.toUInt32.toNat = n.toInt.natAbs := by
  have unsigned := Int32.toNat_toUInt32_of_le (Int32.le_iff_toInt_le.mpr nonneg)
  rw [unsigned, Int32.toNatClampNeg]
  omega

/-- **An argument** is printed as its text, unless it is a negative number for `%d`. -/
theorem printkArg_eq (isKind : Matches k arg) (nonneg : ¬ Negative k arg) :
    printkArg arg k.format = text k arg := by
  cases isKind with
  | dUInt32 n => exact consoleWriteDec_eq n
  | dInt n =>
    have positive : ¬ n.toInt < 0 := fun negative => nonneg (.int n negative)
    have value := toNat_toUInt32 (Int.not_lt.mp positive)
    show consoleWriteDec n.toUInt32 = signedDecimal n.toInt
    rw [consoleWriteDec_eq, value, signedDecimal, if_neg positive]
  | xUInt32 n => exact consoleWriteHex_eq n
  | xInt n => exact consoleWriteHex_eq n.toUInt32
  | str str terminated => exact written_eq terminated
  | bytes str terminated => exact written_eq terminated
  | char ch => rfl

/-- A negative number is printed without its sign, whatever comes behind it. -/
theorem printkArg_negative (negative : Negative k arg) (printed asked : List UInt8) :
    printkArg arg k.format ++ printed ≠ text k arg ++ asked := by
  cases negative with
  | int n negative =>
    show consoleWriteDec n.toUInt32 ++ printed ≠ signedDecimal n.toInt ++ asked
    rw [consoleWriteDec_eq, signedDecimal, if_pos negative]
    intro same
    have first : (numeral 10 n.toUInt32.toNat ++ printed).head? = some 0x2D := by
      rw [same]
      rfl
    rw [List.head?_append_of_ne_nil _ (numeral_ne_nil 10 _)] at first
    exact minus_not_mem (by decide) (by decide) (List.mem_of_head? first)

/-- A format without conversions asks for itself. -/
theorem render_plain (format : List UInt8) : ∀ args, conversions (pieces format) = [] →
    render (pieces format) args = format := by
  induction format using pieces.induct with
  | case1 => exact fun _ _ => rfl
  | case2 c => exact fun _ _ => rfl
  | case3 c' rest ih =>
    intro args none
    rw [pieces, if_pos rfl] at none ⊢
    rcases pieceOf_cases c' with ⟨k, isPiece, _⟩ | ⟨isPiece, _⟩
    · rw [isPiece] at none
      cases none
    · rw [isPiece] at none ⊢
      rw [render, ih args none]
  | case4 c c' rest other ih =>
    intro args none
    rw [pieces, if_neg other] at none ⊢
    rw [render, ih args none]

theorem orderly_of_none {ps : List Piece} (none : conversions ps = []) : Orderly ps := by
  induction ps with
  | nil => trivial
  | cons p ps ih =>
    cases p with
    | literal c => exact ih none
    | unknown c => exact none
    | conversion k => cases none

/-- **An orderly format** is printed as it asks, unless `%d` has a negative number. -/
theorem printk_orderly (format : List UInt8) : ∀ args, 0 ∉ format → Orderly (pieces format) →
    Fits (pieces format) args → (PrintsRight format args ↔ NoneNegative (pieces format) args) := by
  have plain : ∀ {format : List UInt8} {args : List Arg}, 0 ∉ format →
      conversions (pieces format) = [] → Fits (pieces format) args →
      (PrintsRight format args ↔ NoneNegative (pieces format) args) := by
    intro format args terminated none fits
    unfold Fits NoneNegative PrintsRight at *
    rw [none] at fits ⊢
    cases fits
    rw [printk_nil terminated, render_plain format [] none]
    exact iff_of_true rfl .nil
  induction format using pieces.induct with
  | case1 => exact fun args terminated _ fits => plain terminated rfl fits
  | case2 c => exact fun args terminated _ fits => plain terminated rfl fits
  | case3 c' rest ih =>
    intro args terminated orderly fits
    have terminated' : 0 ∉ rest :=
      List.not_mem_of_not_mem_cons (List.not_mem_of_not_mem_cons terminated)
    rcases pieceOf_cases c' with ⟨k, isPiece, converts⟩ | ⟨isPiece, _⟩
    · have isPieces : pieces (percent :: c' :: rest) = .conversion k :: pieces rest := by
        rw [pieces, if_pos rfl, isPiece]
      unfold Fits NoneNegative PrintsRight at *
      rw [isPieces] at orderly fits ⊢
      cases fits with
      | @cons _ arg _ tail isKind fits =>
        rw [printk_pair, converts, conversions, render, List.forall₂_cons]
        by_cases negative : Negative k arg
        · exact iff_of_false (printkArg_negative negative _ _) fun none => none.1 negative
        · rw [printkArg_eq isKind negative, List.append_cancel_left_eq, ih tail terminated' orderly fits]
          exact (and_iff_right negative).symm
    · have isPieces : pieces (percent :: c' :: rest) = .unknown c' :: pieces rest := by
        rw [pieces, if_pos rfl, isPiece]
      refine plain terminated ?_ fits
      rw [isPieces] at orderly ⊢
      exact orderly
  | case4 c c' rest other ih =>
    intro args terminated orderly fits
    have terminated' : 0 ∉ c' :: rest := List.not_mem_of_not_mem_cons terminated
    have isPieces : pieces (c :: c' :: rest) = .literal c :: pieces (c' :: rest) := by
      rw [pieces, if_neg other]
    cases args with
    | nil =>
      refine plain terminated ?_ fits
      have none : conversions (pieces (c :: c' :: rest)) = [] := List.forall₂_nil_right_iff.mp fits
      exact none
    | cons head tail =>
      unfold Fits NoneNegative PrintsRight at *
      rw [isPieces] at orderly fits ⊢
      rw [printk_literal other, render, List.cons.injEq, and_iff_right rfl]
      exact ih _ terminated' orderly fits

end Right

/-! ### Formats that are not

When a `%` with an unknown character uses up an argument, the last conversion is left without one, and its
two characters are printed. -/

/-- The argument is one character long, however it is printed. -/
def Single (arg : Arg) : Prop := ∀ f, (printkArg arg f).length = 1

section Lengths

variable {format : List UInt8}

theorem Single.convert_le {arg : Arg} (single : Single arg) (c : UInt8) :
    1 ≤ (convert c arg).length := by
  rcases pieceOf_cases c with ⟨k, _, converts⟩ | ⟨_, converts⟩
  · rw [converts, single]
  · rw [converts]
    exact Nat.succ_le_succ (Nat.zero_le 1)

theorem length_printk_nil (terminated : 0 ∉ format) :
    format.length ≤ (printk format []).length + 0 :=
  Nat.le_of_eq (congrArg List.length (printk_nil terminated).symm)

/-- The arguments take the place of two characters each, at most. -/
theorem length_printk (format : List UInt8) : ∀ args, 0 ∉ format → (∀ arg ∈ args, Single arg) →
    format.length ≤ (printk format args).length + args.length := by
  induction format using pieces.induct with
  | case1 => exact fun _ _ _ => Nat.zero_le _
  | case2 c =>
    intro args terminated _
    cases args with
    | nil => exact length_printk_nil terminated
    | cons head tail => exact Nat.le_trans (Nat.succ_le_succ (Nat.zero_le _)) (Nat.le_add_left _ _)
  | case3 c' rest ih =>
    intro args terminated single
    cases args with
    | nil => exact length_printk_nil terminated
    | cons head tail =>
      obtain ⟨first, single⟩ := List.forall_mem_cons.mp single
      have least := first.convert_le c'
      have others := ih tail (List.not_mem_of_not_mem_cons (List.not_mem_of_not_mem_cons terminated)) single
      rw [printk_pair]
      simp only [List.length_cons, List.length_append]
      omega
  | case4 c c' rest other ih =>
    intro args terminated single
    cases args with
    | nil => exact length_printk_nil terminated
    | cons head tail =>
      have others := ih (head :: tail) (List.not_mem_of_not_mem_cons terminated) single
      rw [printk_literal other]
      simp only [List.length_cons] at others ⊢
      omega

/-- **Too few arguments are left** when one is used up. -/
theorem length_disorderly (format : List UInt8) : ∀ args, 0 ∉ format → (∀ arg ∈ args, Single arg) →
    args.length = (conversions (pieces format)).length → ¬ Orderly (pieces format) →
    format.length < (printk format args).length + args.length := by
  induction format using pieces.induct with
  | case1 => exact fun _ _ _ _ disorderly => absurd trivial disorderly
  | case2 c => exact fun _ _ _ _ disorderly => absurd trivial disorderly
  | case3 c' rest ih =>
    intro args terminated single enough disorderly
    have terminated' : 0 ∉ rest :=
      List.not_mem_of_not_mem_cons (List.not_mem_of_not_mem_cons terminated)
    rw [pieces, if_pos rfl] at enough disorderly
    rcases pieceOf_cases c' with ⟨k, isPiece, converts⟩ | ⟨isPiece, converts⟩
    · rw [isPiece] at enough disorderly
      cases args with
      | nil => cases enough
      | cons head tail =>
        obtain ⟨first, single⟩ := List.forall_mem_cons.mp single
        have others := ih tail terminated' single (Nat.succ.inj enough) disorderly
        have one := first k.format
        rw [printk_pair, converts]
        simp only [List.length_cons, List.length_append]
        omega
    · rw [isPiece] at enough disorderly
      cases args with
      | nil => exact absurd (List.length_eq_zero_iff.mp enough.symm) disorderly
      | cons head tail =>
        have others := length_printk rest tail terminated' (List.forall_mem_cons.mp single).2
        rw [printk_pair, converts]
        simp only [List.length_cons, List.length_append, List.length_nil]
        omega
  | case4 c c' rest other ih =>
    intro args terminated single enough disorderly
    rw [pieces, if_neg other] at enough disorderly
    cases args with
    | nil =>
      have none : conversions (pieces (c' :: rest)) = [] := List.length_eq_zero_iff.mp enough.symm
      exact absurd (orderly_of_none none) disorderly
    | cons head tail =>
      have others := ih (head :: tail) (List.not_mem_of_not_mem_cons terminated) single enough disorderly
      rw [printk_literal other]
      simp only [List.length_cons] at others ⊢
      omega

/-- What is asked for has one character for each argument, and two less for each conversion. -/
theorem length_render (format : List UInt8) : ∀ args, Fits (pieces format) args →
    NoneNegative (pieces format) args → (∀ arg ∈ args, Single arg) →
    (render (pieces format) args).length + args.length = format.length := by
  induction format using pieces.induct with
  | case1 =>
    intro args fits _ _
    cases fits
    rfl
  | case2 c =>
    intro args fits _ _
    cases fits
    rfl
  | case3 c' rest ih =>
    intro args fits none single
    rw [pieces, if_pos rfl] at fits none ⊢
    rcases pieceOf_cases c' with ⟨k, isPiece, _⟩ | ⟨isPiece, _⟩
    · rw [isPiece] at fits none ⊢
      unfold Fits NoneNegative at *
      cases fits with
      | @cons _ arg _ tail isKind fits =>
        obtain ⟨nonneg, none⟩ := List.forall₂_cons.mp none
        obtain ⟨first, single⟩ := List.forall_mem_cons.mp single
        have others := ih tail fits none single
        have one : (text k arg).length = 1 := by
          rw [← printkArg_eq isKind nonneg]
          exact first k.format
        rw [render, List.length_append, one, List.length_cons, List.length_cons, List.length_cons]
        omega
    · rw [isPiece] at fits none ⊢
      have others := ih args fits none single
      rw [render, List.length_cons, List.length_cons, List.length_cons, List.length_cons]
      omega
  | case4 c c' rest other ih =>
    intro args fits none single
    rw [pieces, if_neg other] at fits none ⊢
    have others := ih args fits none single
    rw [render, List.length_cons, List.length_cons]
    omega

/-- **A disorderly format** is printed too long. -/
theorem printk_disorderly {args : List Arg} (terminated : 0 ∉ format) (disorderly : ¬ Orderly (pieces format))
    (fits : Fits (pieces format) args) (none : NoneNegative (pieces format) args)
    (single : ∀ arg ∈ args, Single arg) : ¬ PrintsRight format args := by
  intro right
  have longer := length_disorderly format args terminated single fits.length_eq.symm disorderly
  have asked := length_render format args fits none single
  rw [right] at longer
  omega

/-- An argument of one character for each conversion. -/
def sample : Conversion → Arg
  | .d => .uint32 0
  | .x => .uint32 0
  | .s => .str [0x30]
  | .c => .char 0x30

theorem sample_single (k : Conversion) : Single (sample k) := by
  have zero : consoleWriteDec 0 = [0x30] := by
    rw [consoleWriteDec_eq]
    exact numeral_small (by decide)
  intro f
  cases k with
  | d => cases f <;> first | exact congrArg List.length zero | rfl
  | x => cases f <;> first | exact congrArg List.length zero | rfl
  | s => rfl
  | c => rfl

theorem sample_matches (k : Conversion) : Matches k (sample k) ∧ ¬ Negative k (sample k) := by
  cases k with
  | d => exact ⟨.dUInt32 0, nofun⟩
  | x => exact ⟨.xUInt32 0, nofun⟩
  | s => exact ⟨.str _ (by decide), nofun⟩
  | c => exact ⟨.char _, nofun⟩

end Lengths

/-- **Which formats are printed right**: a format is for all arguments without negative numbers exactly when
no unknown conversion stands before another one. Then it is for any arguments exactly when no `%d` has a
negative number. -/
theorem printk_right_iff {format : List UInt8} (terminated : 0 ∉ format) :
    ((∀ args, Fits (pieces format) args → NoneNegative (pieces format) args → PrintsRight format args) ↔
      Orderly (pieces format)) ∧
    (Orderly (pieces format) → ∀ args, Fits (pieces format) args →
      (PrintsRight format args ↔ NoneNegative (pieces format) args)) := by
  refine ⟨⟨fun right => ?_, fun orderly args fits none => ?_⟩, fun orderly args fits => ?_⟩
  · by_contra disorderly
    have samples : ∀ ks : List Conversion, List.Forall₂ Matches ks (ks.map sample) ∧
        List.Forall₂ (fun k arg => ¬ Negative k arg) ks (ks.map sample) := by
      intro ks
      rw [List.forall₂_map_right_iff, List.forall₂_map_right_iff, List.forall₂_same, List.forall₂_same]
      exact ⟨fun k _ => (sample_matches k).1, fun k _ => (sample_matches k).2⟩
    obtain ⟨fits, none⟩ := samples (conversions (pieces format))
    refine printk_disorderly terminated disorderly fits none (fun arg member => ?_) (right _ fits none)
    obtain ⟨k, _, rfl⟩ := List.mem_map.mp member
    exact sample_single k
  · exact (printk_orderly format args terminated orderly fits).mpr none
  · exact printk_orderly format args terminated orderly fits

/-- The line that `list_entries` prints for a file: "%s\t%d\t%s\n". -/
def entryFormat : List UInt8 := [0x25, 0x73, 0x09, 0x25, 0x64, 0x09, 0x25, 0x73, 0x0A]

/-- It is printed right for a file `a` of 64 bytes. -/
theorem entry_printed_right :
    PrintsRight entryFormat [.str [0x61], .uint32 64, .str [0x66, 0x69, 0x6C, 0x65]] := by
  obtain ⟨right, _⟩ := printk_right_iff (by decide : 0 ∉ entryFormat)
  refine right.mpr trivial _ ?_ ?_
  · exact .cons (.str _ (by decide)) (.cons (.dUInt32 64) (.cons (.str _ (by decide)) .nil))
  · exact .cons nofun (.cons nofun (.cons nofun .nil))

/-- **"%%%d" with 5** is printed as it stands, as "%%" has used up the number; and **"%d" with -1** is printed
as 4294967295. -/
theorem formats_misprinted :
    Fits (pieces [0x25, 0x25, 0x25, 0x64]) [.int 5] ∧
    printk [0x25, 0x25, 0x25, 0x64] [.int 5] = [0x25, 0x25, 0x25, 0x64] ∧
    render (pieces [0x25, 0x25, 0x25, 0x64]) [.int 5] = [0x25, 0x25, 0x35] ∧
    Fits (pieces [0x25, 0x64]) [.int (-1)] ∧ ¬ PrintsRight [0x25, 0x64] [.int (-1)] := by
  refine ⟨.cons (.dInt 5) .nil, by decide, by decide, .cons (.dInt (-1)) .nil, fun right => ?_⟩
  have signless := printkArg_negative (.int (-1) (by decide)) [] []
  exact signless right

/-! ### What is shown -/

/-- Characters handed to `console_putc`, one after the other. -/
def putAll (cs : List UInt8) (back fore : RealColor) (s : Screen) : Option Screen :=
  cs.foldlM (fun s c => consolePutc c back fore s) s

section Shown

variable {s : Screen} {t : Terminal} (back fore : RealColor)

/-- `console_write` hands over what is written. -/
theorem consoleWrite_eq (str : List UInt8) : ∀ s : Screen,
    consoleWrite str back fore s = putAll (written str) back fore s := by
  induction str with
  | nil => exact fun _ => rfl
  | cons c str ih =>
    intro s
    unfold consoleWrite
    by_cases ended : c = 0
    · rw [if_pos ended, written, List.takeWhile_cons_of_neg (by simpa using ended)]
      rfl
    · rw [if_neg ended, written, List.takeWhile_cons_of_pos (by simpa using ended), putAll, List.foldlM_cons]
      simp only [ih]
      rfl

theorem putAll_tracks (cs : List UInt8) : ∀ {s : Screen} {t : Terminal}, Tracks s t →
    ∃ s', putAll cs back fore s = some s' ∧ Tracks s' (cs.foldl (Terminal.feed · back fore) t) := by
  induction cs with
  | nil => exact fun tracks => ⟨_, rfl, tracks⟩
  | cons c cs ih =>
    intro s t tracks
    obtain ⟨s₁, put, tracks₁⟩ := consolePutc_tracks tracks c back fore
    obtain ⟨s₂, rest, tracks₂⟩ := ih tracks₁
    refine ⟨s₂, ?_, tracks₂⟩
    rw [putAll, List.foldlM_cons, put]
    exact rest

/-- **What a format asks for is shown** in the rows below what is there. -/
theorem printk_shown (tracks : Tracks s t) {format : List UInt8} {args : List Arg} (terminated : 0 ∉ format)
    (orderly : Orderly (pieces format)) (fits : Fits (pieces format) args)
    (none : NoneNegative (pieces format) args) :
    ∃ s', putAll (printk format args) .rc_black .rc_white s = some s' ∧
      Shows s' ((render (pieces format) args).foldl (Terminal.feed · .rc_black .rc_white) t) := by
  have right := (printk_orderly format args terminated orderly fits).mpr none
  obtain ⟨s', shown, tracks'⟩ := putAll_tracks .rc_black .rc_white (printk format args) tracks
  rw [right] at shown tracks'
  rw [right]
  exact ⟨s', shown, tracks'.1⟩

end Shown

end Sprite.Console

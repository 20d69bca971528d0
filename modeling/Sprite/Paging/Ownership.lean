/-
**Who owns the page frames.**

Frames are on the stack or handed out. A run of the three operations is followed together with the
list of the frames handed out.

* `Ledger` — the frames on the stack and those handed out are the initial ones, each as often as it
  was there. `ledger_kept`: every operation keeps this.
* `frames_owned` — **ownership**: no frame is ever in two places, and the operations answer as they
  should while there are frames on the stack.
* `exhaustion_iff` — **exhaustion**: when an operation deals rightly with the last frames, and when
  it does not.
* `last_frames_go_wrong` — with one frame left, and with none.
-/
import Sprite.Lib.Runs
import Sprite.Paging.Stack

namespace Sprite.Paging

open Runs

inductive FrameOp where
  /-- `pmm_alloc_page()`. -/
  | alloc
  /-- `pmm_alloc_page(pma)`. -/
  | allocAt (pma : UInt32)
  /-- `pmm_free_page(p)`. -/
  | free (p : UInt32)

/-- An operation on the stack, with the frames handed out before and after it. -/
def frameStep (s : Pmm × List UInt32) : FrameOp → Option (Pmm × List UInt32)
  | .alloc => (pmmAllocPage s.1).map fun (page, s') => (s', page :: s.2)
  | .allocAt pma =>
    (pmmAllocPageAt s.1 pma).map fun (_, s') => (s', if pma ∈ s.1.free then pma :: s.2 else s.2)
  | .free p => (pmmFreePage s.1 p).map fun s' => (s', s.2.erase p)

/-- Only frames that are handed out are given back. -/
def MayFree (s : Pmm × List UInt32) : FrameOp → Prop
  | .free p => p ∈ s.2
  | _ => True

/-- Moreover there are frames on the stack. -/
def MayOwn (s : Pmm × List UInt32) (op : FrameOp) : Prop := s.1.free ≠ [] ∧ MayFree s op

/-! ### The ledger -/

/-- The frames on the stack and those handed out are the initial ones. -/
structure Ledger (frames : List UInt32) (s : Pmm × List UInt32) : Prop where
  fits : s.1.Fits
  whole : (s.1.free ++ s.2).Perm frames

section Ledger

variable {frames : List UInt32} {s t : Pmm × List UInt32} {op : FrameOp}

theorem alloc_inverse {s s' : Pmm} {page : UInt32} (fits : s.Fits)
    (ran : pmmAllocPage s = some (page, s')) : s.free = s'.free ++ [page] ∧ s'.Fits := by
  obtain ⟨page', s'', ran', taken, fits'⟩ := Pmm.alloc_spec fits (Pmm.alloc_enough ran)
  rw [ran] at ran'
  cases ran'
  exact ⟨taken, fits'⟩

theorem nonempty_of_allocAt {s s' : Pmm} {pma page : UInt32}
    (ran : pmmAllocPageAt s pma = some (page, s')) : s.free ≠ [] := by
  intro empty
  have zero : s.count = 0 := by rw [← Pmm.length_free, empty, List.length_nil]
  rw [Pmm.allocAt_empty zero] at ran
  cases ran

/-- **What one operation keeps.** -/
theorem ledger_kept (ledger : Ledger frames s) (may : MayFree s op)
    (ran : frameStep s op = some t) : Ledger frames t := by
  obtain ⟨fits, whole⟩ := ledger
  cases op with
  | alloc =>
    obtain ⟨⟨page, s'⟩, ran', rfl⟩ := Option.map_eq_some_iff.mp ran
    obtain ⟨taken, fits'⟩ := alloc_inverse fits ran'
    refine ⟨fits', ?_⟩
    rw [taken, List.append_assoc, List.singleton_append] at whole
    exact whole
  | allocAt pma =>
    obtain ⟨⟨page, s'⟩, ran', rfl⟩ := Option.map_eq_some_iff.mp ran
    obtain ⟨s'', ran'', fits', left⟩ := Pmm.allocAt_spec fits (nonempty_of_allocAt ran') pma
    rw [ran'] at ran''
    cases ran''
    refine ⟨fits', ?_⟩
    show (s'.free ++ if pma ∈ s.1.free then pma :: s.2 else s.2).Perm frames
    split_ifs with inside
    · refine List.Perm.trans ?_ whole
      refine List.perm_middle.trans ?_
      rw [← List.cons_append]
      exact ((left.cons pma).trans (List.perm_cons_erase inside).symm).append_right s.2
    · rw [List.erase_of_not_mem inside] at left
      exact (left.append_right s.2).trans whole
  | free p =>
    obtain ⟨s', ran', rfl⟩ := Option.map_eq_some_iff.mp ran
    obtain ⟨s'', ran'', pushed, fits'⟩ := Pmm.free_spec (Pmm.free_room ran') p
    rw [ran'] at ran''
    cases ran''
    refine ⟨fits', ?_⟩
    show (s'.free ++ s.2.erase p).Perm frames
    rw [pushed, List.append_assoc, List.singleton_append]
    exact ((List.perm_cons_erase may).symm.append_left s.1.free).trans whole

theorem ledger_start {s : Pmm} (fits : s.Fits) : Ledger s.free (s, []) :=
  ⟨fits, List.Perm.of_eq (List.append_nil _)⟩

/-- Not more frames are handed out than are missing on the stack. -/
theorem Ledger.room (ledger : Ledger frames s) (few : frames.length ≤ PAGE_MAX_SIZE + 1) {p : UInt32}
    (handed : p ∈ s.2) : s.1.count < PAGE_MAX_SIZE + 1 := by
  have total := ledger.whole.length_eq
  rw [List.length_append, Pmm.length_free] at total
  have positive := List.length_pos_of_mem handed
  omega

end Ledger

/-! ### Ownership -/

/-- The frames are the initial ones, and none of them is in two places. -/
structure Owned (frames : List UInt32) (s : Pmm × List UInt32) : Prop where
  whole : (s.1.free ++ s.2).Perm frames
  once : (s.1.free ++ s.2).Nodup

/-- What an operation answers, and what it leaves on the stack. -/
def Answers (s : Pmm) : FrameOp → Prop
  | .alloc => 1 < s.free.length →
    ∃ page s', pmmAllocPage s = some (page, s') ∧ s.free = s'.free ++ [page]
  | .allocAt pma => ∃ s', pmmAllocPageAt s pma = some (if pma ∈ s.free then pma else 0, s') ∧
      s'.free.Perm (s.free.erase pma)
  | .free p => ∃ s', pmmFreePage s p = some s' ∧ s'.free = s.free ++ [p]

theorem answers {frames : List UInt32} {s : Pmm × List UInt32} (ledger : Ledger frames s)
    (few : frames.length ≤ PAGE_MAX_SIZE + 1) {op : FrameOp} (may : MayOwn s op) :
    Answers s.1 op := by
  cases op with
  | alloc =>
    intro enough
    obtain ⟨page, s', ran, taken, _⟩ := Pmm.alloc_spec ledger.fits enough
    exact ⟨page, s', ran, taken⟩
  | allocAt pma =>
    obtain ⟨s', ran, _, left⟩ := Pmm.allocAt_spec ledger.fits may.1 pma
    exact ⟨s', ran, left⟩
  | free p =>
    obtain ⟨s', ran, pushed, _⟩ := Pmm.free_spec (ledger.room few may.2) p
    exact ⟨s', ran, pushed⟩

/-- **Frame ownership.** From a stack of different frames, along every run that finds frames on the
stack and gives back only what was handed out, no frame is ever in two places, none is lost, and the
next operation answers as it should. -/
theorem frames_owned {s : Pmm} (fits : s.Fits) (distinct : s.free.Nodup) (ops : List FrameOp)
    {t : Pmm × List UInt32} (permitted : Permitted frameStep MayOwn (s, []) ops)
    (ran : ops.foldlM frameStep (s, []) = some t) :
    Owned s.free t ∧ ∀ op, MayOwn t op → Answers t.1 op := by
  have few : s.free.length ≤ PAGE_MAX_SIZE + 1 := by
    rw [Pmm.length_free]
    exact fits
  have ledger : Ledger s.free t := Permitted.at_end
    (fun _ _ _ ledger may ran => ledger_kept ledger may.2 ran) permitted (ledger_start fits) ran
  exact ⟨⟨ledger.whole, ledger.whole.nodup_iff.mpr distinct⟩, fun op may => answers ledger few may⟩

/-- Two frames: one is taken, the other one asked for by its address, and the first given back. -/
theorem two_frames_owned :
    ∃ s t, [0x200000, 0x201000].foldlM pmmFreePage Pmm.empty = some s ∧
      [.alloc, .free 0x201000].foldlM frameStep (s, []) = some t ∧
      Owned s.free t ∧ ∀ op, MayOwn t op → Answers t.1 op := by
  obtain ⟨s, pushed, list, fits⟩ := Pmm.free_all_spec [0x200000, 0x201000] (by decide)
  obtain ⟨page, s', ran, taken, fits'⟩ := Pmm.alloc_spec fits (by rw [list]; decide)
  have both : s'.free ++ [page] = [0x200000] ++ [0x201000] := taken.symm.trans list
  obtain ⟨left, top⟩ := List.append_inj' both rfl
  rw [List.singleton_inj] at top
  obtain ⟨s'', ran', _, _⟩ := Pmm.free_spec (s := s') (by rw [← Pmm.length_free, left]; decide)
    0x201000
  have first : frameStep (s, []) .alloc = some (s', [page]) := by
    rw [frameStep, ran]
    rfl
  have second : frameStep (s', [page]) (.free 0x201000) = some (s'', [page].erase 0x201000) := by
    rw [frameStep, ran']
    rfl
  have run : [.alloc, .free 0x201000].foldlM frameStep (s, []) = some (s'', [page].erase 0x201000) := by
    rw [List.foldlM_cons, first, Option.bind_eq_bind, Option.bind_some, List.foldlM_cons, second]
    rfl
  refine ⟨s, _, pushed, run, frames_owned fits (by rw [list]; decide) _ ?_ run⟩
  refine ⟨⟨by rw [list]; decide, trivial⟩, fun next stepped => ?_⟩
  rw [first, Option.mem_some_iff] at stepped
  subst stepped
  exact ⟨⟨by rw [left]; decide, by rw [top]; exact List.mem_singleton_self _⟩, fun _ _ => trivial⟩

/-! ### The last frames -/

/-- The positions the loop of `pmm_alloc_page(pma)` reads. -/
def Pmm.scanned (s : Pmm) (pma : UInt32) : Nat → UInt32 → List UInt32
  | 0, _ => []
  | fuel + 1, i =>
    if i ≤ s.pmm_stack_top then
      i :: (if s.read i = some pma then [] else s.scanned pma fuel (i + 1))
    else []

/-- The positions of `pmm_stack` an operation uses. -/
def Pmm.accessed (s : Pmm) : FrameOp → List UInt32
  | .alloc => if s.pmm_stack_top ≠ 0 then [s.pmm_stack_top] else []
  | .allocAt pma => s.scanned pma (2 ^ 32) 0 ++
      match s.findFrame pma (2 ^ 32) 0 with
      | some (some i) => [i, s.pmm_stack_top, i]
      | _ => []
  | .free _ =>
    if s.pmm_stack_top ≠ UInt32.ofNat PAGE_MAX_SIZE then [s.pmm_stack_top + 1] else []

/-- The top that the positions are to be compared with: `pmm_free_page` raises it first. -/
def Pmm.topFor (s : Pmm) : FrameOp → UInt32
  | .free _ => s.pmm_stack_top + 1
  | _ => s.pmm_stack_top

/-- Every position used is at most the top, and inside the array. -/
def Inside (s : Pmm) (op : FrameOp) : Prop :=
  ∀ i ∈ s.accessed op, i ≤ s.topFor op ∧ i.toNat ≤ PAGE_MAX_SIZE

/-- The assertion of `pmm_alloc_page()` fails. -/
def OutOfMemory (s : Pmm) : Prop := ¬ s.pmm_stack_top ≠ 0

/-- `pmm_alloc_page()` stops when no frame is free and otherwise hands one out, and
`pmm_alloc_page(pma)` answers 0 when no frame is free. -/
def Right (s : Pmm) (op : FrameOp) : Prop :=
  Inside s op ∧ match op with
    | .alloc => (OutOfMemory s ↔ s.free = []) ∧
        (s.free ≠ [] → ∃ page s', pmmAllocPage s = some (page, s') ∧ page ∈ s.free)
    | .allocAt pma => s.free = [] → ∃ s', pmmAllocPageAt s pma = some (0, s')
    | .free _ => True

/-- There are frames enough: two for `pmm_alloc_page()`, one for `pmm_alloc_page(pma)`. -/
def Enough (s : Pmm) : FrameOp → Prop
  | .alloc => 1 < s.free.length
  | .allocAt _ => s.free ≠ []
  | .free _ => True

section Last

variable {s : Pmm}

theorem count_of_empty (empty : s.free = []) : s.count = 0 := by
  rw [← Pmm.length_free, empty, List.length_nil]

theorem count_of_nonempty (nonempty : s.free ≠ []) : s.count ≠ 0 := by
  rw [← Pmm.length_free]
  exact fun zero => nonempty (List.length_eq_zero_iff.mp zero)

theorem scanned_le (pma : UInt32) (fuel : Nat) :
    ∀ i, ∀ j ∈ s.scanned pma fuel i, j ≤ s.pmm_stack_top := by
  induction fuel with
  | zero => exact fun i j inside => absurd inside List.not_mem_nil
  | succ fuel ih =>
    intro i j inside
    unfold Pmm.scanned at inside
    split_ifs at inside with guard found
    · rw [List.mem_singleton.mp inside]
      exact guard
    · rcases List.mem_cons.mp inside with rfl | later
      · exact guard
      · exact ih (i + 1) j later
    · exact absurd inside List.not_mem_nil

theorem alloc_right_iff (fits : s.Fits) : Right s .alloc ↔ 1 < s.free.length := by
  constructor
  · rintro ⟨_, stops, hands⟩
    by_cases empty : s.free = []
    · have zero : s.pmm_stack_top = 0 := not_not.mp (stops.mpr empty)
      have top := Pmm.toNat_top_of_empty (count_of_empty empty)
      rw [zero] at top
      exact absurd top (by decide)
    · obtain ⟨page, s', ran, _⟩ := hands empty
      exact Pmm.alloc_enough ran
  · intro enough
    have nonempty : s.free ≠ [] := List.ne_nil_of_length_pos (by omega)
    have top := Pmm.toNat_top (count_of_nonempty nonempty)
    rw [Pmm.length_free, ← top] at enough
    have notZero : s.pmm_stack_top ≠ 0 := by
      intro zero
      rw [zero] at enough
      exact absurd enough (by decide)
    unfold Pmm.Fits at fits
    refine ⟨?_, ⟨fun stops => absurd notZero stops, fun empty => absurd empty nonempty⟩, fun _ => ?_⟩
    · intro i inside
      rw [Pmm.accessed, if_pos notZero, List.mem_singleton] at inside
      subst inside
      exact ⟨UInt32.le_refl _, by omega⟩
    · obtain ⟨page, s', ran, taken, _⟩ := Pmm.alloc_spec fits (by
        rw [Pmm.length_free, ← top]
        exact enough)
      refine ⟨page, s', ran, ?_⟩
      rw [taken]
      exact List.mem_append_right _ (List.mem_singleton_self _)

theorem allocAt_right_iff (fits : s.Fits) (pma : UInt32) : Right s (.allocAt pma) ↔ s.free ≠ [] := by
  constructor
  · rintro ⟨_, answersZero⟩ empty
    obtain ⟨s', ran⟩ := answersZero empty
    exact nonempty_of_allocAt ran empty
  · intro nonempty
    have positive := count_of_nonempty nonempty
    have top := Pmm.toNat_top positive
    have bound : PAGE_MAX_SIZE + 1 < 2 ^ 32 := by decide
    have small : s.pmm_stack_top.toNat ≤ PAGE_MAX_SIZE := by
      unfold Pmm.Fits at fits
      omega
    refine ⟨fun i inside => ?_, fun empty => absurd empty nonempty⟩
    have le : i ≤ s.pmm_stack_top := by
      rcases List.mem_append.mp inside with scanned | used
      · exact scanned_le pma _ _ i scanned
      · rcases Pmm.findFrame_spec fits positive pma (2 ^ 32) 0 (Nat.zero_le _)
          (by rw [Nat.zero_add]; exact Nat.lt_of_le_of_lt fits bound) with
          ⟨j, below, found, _⟩ | ⟨ended, _⟩
        · have position : UInt32.ofNat j ≤ s.pmm_stack_top := by
            rw [UInt32.le_iff_toNat_le, Pmm.toNat_position fits below]
            omega
          rw [show (0 : UInt32) = UInt32.ofNat 0 from rfl, found] at used
          simp only [List.mem_cons, List.not_mem_nil, or_false] at used
          rcases used with rfl | rfl | rfl
          · exact position
          · exact UInt32.le_refl _
          · exact position
        · rw [show (0 : UInt32) = UInt32.ofNat 0 from rfl, ended] at used
          exact absurd used List.not_mem_nil
    exact ⟨le, Nat.le_trans (UInt32.le_iff_toNat_le.mp le) small⟩

theorem free_right (room : s.count < PAGE_MAX_SIZE + 1) (p : UInt32) : Right s (.free p) := by
  have used : s.accessed (.free p)
      = if s.pmm_stack_top ≠ UInt32.ofNat PAGE_MAX_SIZE then [s.pmm_stack_top + 1] else [] := rfl
  refine ⟨fun i inside => ?_, trivial⟩
  rw [used] at inside
  split_ifs at inside
  · rw [List.mem_singleton] at inside
    subst inside
    exact ⟨UInt32.le_refl _, Nat.le_of_lt_succ room⟩
  · exact absurd inside List.not_mem_nil

end Last

/-- **Frame exhaustion.** In every state that a run of the three operations reaches from
`init_pmm`'s pages on, an operation is right if and only if there are frames enough for it. -/
theorem exhaustion_iff {pages : List UInt32} {s : Pmm}
    (pushed : pages.foldlM pmmFreePage Pmm.empty = some s) (ops : List FrameOp)
    {t : Pmm × List UInt32} (permitted : Permitted frameStep MayFree (s, []) ops)
    (ran : ops.foldlM frameStep (s, []) = some t) {op : FrameOp} (may : MayFree t op) :
    Right t.1 op ↔ Enough t.1 op := by
  obtain ⟨_, fits⟩ := Pmm.pushed_spec Pmm.fits_empty pushed
  have few : s.free.length ≤ PAGE_MAX_SIZE + 1 := by
    rw [Pmm.length_free]
    exact fits
  have ledger : Ledger s.free t := Permitted.at_end
    (fun _ _ _ ledger may ran => ledger_kept ledger may ran) permitted (ledger_start fits) ran
  cases op with
  | alloc => exact alloc_right_iff ledger.fits
  | allocAt pma => exact allocAt_right_iff ledger.fits pma
  | free p => exact iff_of_true (free_right (ledger.room few may) p) trivial

/-- One frame: it can be asked for by its address, but not taken from the top. -/
theorem one_frame_exhaustion :
    ∃ s, [0x200000].foldlM pmmFreePage Pmm.empty = some s ∧
      (Right s (.allocAt 0x200000) ↔ Enough s (.allocAt 0x200000)) := by
  obtain ⟨s, pushed, _, _⟩ := Pmm.free_all_spec [0x200000] (by decide)
  exact ⟨s, pushed, exhaustion_iff pushed [] (t := (s, [])) trivial rfl trivial⟩

/-- **What goes wrong**: with one frame left `pmm_alloc_page()` stops, although it is free. With none
it does not stop, and `pmm_alloc_page(pma)` does not end. -/
theorem last_frames_go_wrong :
    (∃ s, [0x200000].foldlM pmmFreePage Pmm.empty = some s ∧ s.free = [0x200000] ∧
      OutOfMemory s ∧ ¬ Right s .alloc) ∧
    (¬ OutOfMemory Pmm.empty ∧ ¬ Right Pmm.empty .alloc) ∧
    (pmmAllocPageAt Pmm.empty 0x200000 = none ∧ ¬ Right Pmm.empty (.allocAt 0x200000)) := by
  obtain ⟨s, pushed, list, fits⟩ := Pmm.free_all_spec [0x200000] (by decide)
  have wrong : ∀ {s : Pmm}, s.Fits → ¬ 1 < s.free.length → ¬ Right s .alloc :=
    fun fits short right => short ((alloc_right_iff fits).mp right)
  refine ⟨⟨s, pushed, list, ?_, wrong fits (by rw [list]; decide)⟩, ⟨?_, ?_⟩, ?_, ?_⟩
  · have top := Pmm.toNat_top (count_of_nonempty (s := s) (by rw [list]; decide))
    rw [← Pmm.length_free, list] at top
    exact not_not.mpr (UInt32.toNat_inj.mp (Nat.succ.inj top))
  · exact not_not.mpr (by decide)
  · exact wrong Pmm.fits_empty (by decide)
  · exact Pmm.allocAt_empty rfl _
  · exact fun right => (allocAt_right_iff Pmm.fits_empty _).mp right rfl

end Sprite.Paging

/-
**Tables in two levels, the lower ones from a pool.**

A directory leads to tables, a table holds the cells. The tables come from a pool of fixed size and
are handed out in order, so that a directory slot gets one when something is first stored under it.

* `Sound` — different directory slots lead to different tables of the pool, all of them handed out,
  the others are empty, and as many are handed out as there are slots in use.
* `Sound.link`, `Sound.write` — handing out the next table, and storing a cell, keep this.
* `Sound.lookup_link`, `Sound.lookup_write` — the first changes no cell that can be looked up, the
  second exactly one.
-/
import Mathlib.Data.Finset.Card
import Mathlib.Data.Fintype.Basic
import Mathlib.Data.Fintype.Card

set_option linter.unusedSectionVars false

namespace TwoLevel

variable {Dir Slot Cell : Type} {size : Nat}

/-- A directory, a pool of tables, and the number of tables handed out. -/
structure Table (Dir Slot Cell : Type) (size : Nat) where
  leads : Dir → Option (Fin size)
  cell : Fin size → Slot → Option Cell
  used : Nat

namespace Table

def lookup (t : Table Dir Slot Cell size) (dir : Dir) (slot : Slot) : Option Cell :=
  (t.leads dir).bind fun index => t.cell index slot

/-- The directory slots under which there is a table. -/
def touched [Fintype Dir] (t : Table Dir Slot Cell size) : Finset Dir :=
  Finset.univ.filter fun dir => (t.leads dir).isSome

variable [DecidableEq Dir] [DecidableEq Slot]

/-- The next table of the pool goes under a directory slot. -/
def link (t : Table Dir Slot Cell size) (dir : Dir) (index : Fin size) :
    Table Dir Slot Cell size :=
  { t with leads := Function.update t.leads dir (some index), used := t.used + 1 }

/-- A cell of a table is stored. -/
def write (t : Table Dir Slot Cell size) (index : Fin size) (slot : Slot) (cell : Cell) :
    Table Dir Slot Cell size :=
  { t with
    cell := Function.update t.cell index (Function.update (t.cell index) slot (some cell)) }

end Table

open Table

structure Sound [Fintype Dir] (t : Table Dir Slot Cell size) : Prop where
  below : ∀ {dir index}, t.leads dir = some index → index.val < t.used
  injective : ∀ {dir dir' index}, t.leads dir = some index → t.leads dir' = some index → dir = dir'
  unused : ∀ {index slot}, t.used ≤ index.val → t.cell index slot = none
  counted : t.touched.card = t.used

section Operations

variable [Fintype Dir] {t : Table Dir Slot Cell size}

theorem mem_touched {dir : Dir} : dir ∈ t.touched ↔ (t.leads dir).isSome := by
  simp only [touched, Finset.mem_filter, Finset.mem_univ, true_and]

/-- A directory slot without a table leaves one to hand out, if there are to be no more slots in use
than tables in the pool. -/
theorem Sound.room [DecidableEq Dir] (sound : Sound t) {dir : Dir} (free : t.leads dir = none)
    (fits : (insert dir t.touched).card ≤ size) : t.used < size := by
  have absent : dir ∉ t.touched := by
    rw [mem_touched, free]
    exact Bool.false_ne_true
  rw [Finset.card_insert_of_notMem absent, sound.counted] at fits
  exact fits

/-- No more directory slots are in use than there are tables in the pool. -/
theorem Sound.touched_le (sound : Sound t) : t.touched.card ≤ size := by
  classical
  have into : ∀ dir ∈ t.touched, t.leads dir ∈ Finset.univ.image (some : Fin size → Option (Fin size)) := by
    intro dir inside
    obtain ⟨index, leads⟩ := Option.isSome_iff_exists.mp (mem_touched.mp inside)
    rw [leads]
    exact Finset.mem_image_of_mem some (Finset.mem_univ index)
  have injective : Set.InjOn t.leads t.touched := by
    intro dir inside dir' _ same
    obtain ⟨index, leads⟩ := Option.isSome_iff_exists.mp (mem_touched.mp inside)
    exact sound.injective leads (same ▸ leads)
  refine le_trans (Finset.card_le_card_of_injOn t.leads into injective) ?_
  exact le_trans Finset.card_image_le (le_of_eq (Finset.card_fin size))

/-- Nothing can be looked up where no table has been handed out. -/
theorem lookup_untouched {dir : Dir} (absent : dir ∉ t.touched) (slot : Slot) :
    t.lookup dir slot = none := by
  rw [mem_touched, Option.not_isSome_iff_eq_none] at absent
  rw [lookup, absent, Option.bind_none]

variable [DecidableEq Dir] [DecidableEq Slot]

theorem touched_link (dir : Dir) (index : Fin size) :
    (t.link dir index).touched = insert dir t.touched := by
  ext other
  rw [mem_touched, Finset.mem_insert, mem_touched]
  by_cases same : other = dir
  · subst same
    simp only [link, Function.update_self, Option.isSome_some, true_or]
  · simp only [link, Function.update_of_ne same, same, false_or]

theorem Sound.link (sound : Sound t) {dir : Dir} {index : Fin size} (free : t.leads dir = none)
    (next : index.val = t.used) : Sound (t.link dir index) := by
  have fresh : ∀ other, t.leads other ≠ some index := fun other leads =>
    absurd (sound.below leads) (by omega)
  refine ⟨?_, ?_, ?_, ?_⟩
  · intro other index' leads
    by_cases same : other = dir
    · subst same
      simp only [Table.link, Function.update_self, Option.some.injEq] at leads ⊢
      rw [← leads, next]
      exact Nat.lt_succ_self _
    · simp only [Table.link, Function.update_of_ne same] at leads ⊢
      exact Nat.lt_succ_of_lt (sound.below leads)
  · intro one two index' first second
    by_cases sameOne : one = dir <;> by_cases sameTwo : two = dir
    · rw [sameOne, sameTwo]
    · subst sameOne
      simp only [Table.link, Function.update_self, Option.some.injEq] at first
      simp only [Table.link, Function.update_of_ne sameTwo] at second
      exact absurd (first ▸ second) (fresh two)
    · subst sameTwo
      simp only [Table.link, Function.update_self, Option.some.injEq] at second
      simp only [Table.link, Function.update_of_ne sameOne] at first
      exact absurd (second ▸ first) (fresh one)
    · simp only [Table.link, Function.update_of_ne sameOne] at first
      simp only [Table.link, Function.update_of_ne sameTwo] at second
      exact sound.injective first second
  · intro index' slot beyond
    exact sound.unused (Nat.le_of_succ_le beyond)
  · have absent : dir ∉ t.touched := by
      rw [mem_touched, free]
      exact Bool.false_ne_true
    rw [touched_link, Finset.card_insert_of_notMem absent, sound.counted]
    rfl

/-- **A new table is empty**: linking it changes nothing that can be looked up. -/
theorem Sound.lookup_link (sound : Sound t) {dir : Dir} {index : Fin size}
    (free : t.leads dir = none) (next : index.val = t.used) (other : Dir) (slot : Slot) :
    (t.link dir index).lookup other slot = t.lookup other slot := by
  by_cases same : other = dir
  · subst same
    simp only [lookup, Table.link, Function.update_self, Option.bind_some, free, Option.bind_none]
    exact sound.unused (le_of_eq next.symm)
  · simp only [lookup, Table.link, Function.update_of_ne same]

theorem Sound.write (sound : Sound t) {index : Fin size} (handedOut : index.val < t.used)
    (slot : Slot) (cell : Cell) : Sound (t.write index slot cell) := by
  refine ⟨sound.below, sound.injective, ?_, sound.counted⟩
  intro index' slot' beyond
  have other : index' ≠ index := by
    rintro rfl
    exact absurd handedOut (Nat.not_lt.mpr beyond)
  simp only [Table.write, Function.update_of_ne other]
  exact sound.unused beyond

/-- **Storing a cell changes that cell only**, in the view of the directory. -/
theorem Sound.lookup_write (sound : Sound t) {dir : Dir} {index : Fin size}
    (leads : t.leads dir = some index) (slot : Slot) (cell : Cell) (dir' : Dir) (slot' : Slot) :
    (t.write index slot cell).lookup dir' slot'
      = if dir' = dir ∧ slot' = slot then some cell else t.lookup dir' slot' := by
  show (t.leads dir').bind _ = _
  split_ifs with same
  · obtain ⟨rfl, rfl⟩ := same
    simp only [leads, Option.bind_some, Table.write, Function.update_self]
  · rw [lookup]
    cases found : t.leads dir' with
    | none => rfl
    | some index' =>
      simp only [Option.bind_some, Table.write]
      by_cases sameTable : index' = index
      · subst sameTable
        have sameDir := sound.injective found leads
        have otherSlot : slot' ≠ slot := fun sameSlot => same ⟨sameDir, sameSlot⟩
        rw [Function.update_self, Function.update_of_ne otherSlot]
      · rw [Function.update_of_ne sameTable]

end Operations

end TwoLevel

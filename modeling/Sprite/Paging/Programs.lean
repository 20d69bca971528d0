/-
**Programs over demand-paged memory.**

* `InMemory.server` — bytes are read and written with the handler behind every access.
* `Budget` — pages and regions that there are frames and tables for.
* `server_keeps` — as long as only these are used, what is known is kept.
-/
import Sprite.Lib.Programs
import Sprite.Paging.Flat

namespace Sprite.Paging

open Words PageDictionary

def InMemory.server (this : UInt32) : Server System where
  read := fun sys vma => do
    let (out, sys) ← sys.step this (.read vma)
    let value ← out
    return (value, sys)
  write := fun sys vma value => do
    let (_, sys) ← sys.step this (.write vma value)
    return sys

/-- Pages and regions that can all be used. -/
structure Budget (s : Pmm) where
  pages : Finset UInt32
  regions : Finset (Fin DICTIONARY_MAX_SIZE)
  fewer : pages.card < s.free.length
  fits : regions.card ≤ TABLE_RESERVE

/-- The usable addresses in these pages. -/
def Budget.area {s : Pmm} (budget : Budget s) (this : UInt32) : Set UInt32 :=
  {vma | Usable this s vma ∧
    (¬ InKernelWindow vma → page vma ∈ budget.pages ∧ dictIndex vma ∈ budget.regions)}

/-- The system is in order, has used these pages only, and holds what is known. -/
def Budget.Holds {s : Pmm} (budget : Budget s) (this : UInt32) (sys : System) (known : Known) : Prop :=
  ∃ f d m faults handed, Backed this s sys f d m faults handed ∧ f.contents = known ∧
    f.pages ⊆ budget.pages ∧ f.regions ⊆ budget.regions

section Budget

variable {this : UInt32} {s : Pmm} (budget : Budget s)

theorem Budget.use {f : Flat} (pages : f.pages ⊆ budget.pages) (regions : f.regions ⊆ budget.regions)
    {vma : UInt32} (inside : vma ∈ budget.area this) :
    (f.use vma).pages ⊆ budget.pages ∧ (f.use vma).regions ⊆ budget.regions ∧ (f.use vma).Room s := by
  have used : (f.use vma).pages ⊆ budget.pages ∧ (f.use vma).regions ⊆ budget.regions := by
    unfold Flat.use
    split_ifs with window
    · exact ⟨pages, regions⟩
    · exact ⟨Finset.insert_subset (inside.2 window).1 pages,
        Finset.insert_subset (inside.2 window).2 regions⟩
  exact ⟨used.1, used.2, lt_of_le_of_lt (Finset.card_le_card used.1) budget.fewer,
    (Finset.card_le_card used.2).trans budget.fits⟩

/-- **What is known is kept** by demand-paged memory. -/
theorem server_keeps (located : Located this) (spare : Spare this s) :
    (InMemory.server this).Keeps (budget.area this) (budget.Holds this) := by
  constructor
  · rintro sys known vma ⟨f, d, m, faults, handed, backed, rfl, pages, regions⟩ inside
    obtain ⟨pages', regions', room⟩ := budget.use pages regions inside
    obtain ⟨out, sys', f', d', m', faults', handed', stepped, ⟨value, rfl, agrees, rfl⟩, backed'⟩ :=
      step_flat located spare backed (show (flat this s).legal f (.read vma) from ⟨inside.1, room⟩)
    refine ⟨value, sys', ?_, agrees, _, d', m', faults', handed', backed', ?_, pages', regions'⟩
    · show (sys.step this (.read vma)).bind _ = _
      rw [stepped]
      rfl
    · exact congrArg (Function.update · vma (some value)) (f.contents_use vma)
  · rintro sys known vma value ⟨f, d, m, faults, handed, backed, rfl, pages, regions⟩ inside
    obtain ⟨pages', regions', room⟩ := budget.use pages regions inside
    obtain ⟨out, sys', f', d', m', faults', handed', stepped, ⟨-, rfl⟩, backed'⟩ :=
      step_flat located spare backed
        (show (flat this s).legal f (.write vma value) from ⟨inside.1, room⟩)
    refine ⟨sys', ?_, _, d', m', faults', handed', backed', ?_, pages', regions'⟩
    · show (sys.step this (.write vma value)).bind _ = _
      rw [stepped]
      rfl
    · exact congrArg (Function.update · vma (some value)) (f.contents_use vma)

end Budget

end Sprite.Paging

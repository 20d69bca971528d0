/-
**The page dictionary is a map from pages to frames**, as long as its tables suffice.

* `pageMap` — the ideal map: a frame for each virtual page that has one, and a supply of frames.
* `Mirrors` — the dictionary stands for such a map.
* `dictionary_refines_map` — **the refinement**, over runs of any length.
-/
import Mathlib.Data.Bool.AllAny
import Sprite.Paging.Dictionary
import Sprite.Lib.Runs

namespace Sprite.Paging

open TwoLevel PageTable PageDictionary

/-! ### The ideal map -/

/-- A map from page numbers to frames, the regions of 4 MB in which something has been asked to be
mapped, and what the frames come from. -/
structure PageMap (Frames : Type) where
  frameOf : UInt32 → Option UInt32
  touched : Finset (Fin DICTIONARY_MAX_SIZE)
  frames : Frames

namespace PageMap

variable {Frames : Type}

def at_ (m : PageMap Frames) (vma : UInt32) : UInt32 := translation (m.frameOf (page vma)) vma

/-- The page of an address gets a frame. -/
def map (m : PageMap Frames) (vma base : UInt32) : PageMap Frames :=
  { m with
    frameOf := Function.update m.frameOf (page vma) (some base)
    touched := insert (dictIndex vma) m.touched }

@[simp] theorem map_self (m : PageMap Frames) (vma base : UInt32) :
    (m.map vma base).frameOf (page vma) = some base := Function.update_self _ _ _

theorem map_of_ne (m : PageMap Frames) {vma vma' : UInt32} (base : UInt32)
    (other : page vma' ≠ page vma) : (m.map vma base).frameOf (page vma') = m.frameOf (page vma') :=
  Function.update_of_ne other _ _

/-- There are tables for the regions touched, the one of this address included. -/
def Room (m : PageMap Frames) (vma : UInt32) : Prop :=
  (insert (dictIndex vma) m.touched).card ≤ TABLE_RESERVE

end PageMap

inductive Request where
  | at_ (vma : UInt32)
  | operatorIndex (vma : UInt32)
  | insert (vma pma : UInt32)

section Machine

variable {Frames : Type} (pmmAllocPage : Frames → Option (UInt32 × Frames))

/-- Mapping needs room, and `operator[]` a frame if the page has none. What `operator[]` answers is
what `at` answers from then on. -/
def pageMap : Runs.Machine (PageMap Frames) Request (Option UInt32) where
  legal := fun m request => match request with
    | .at_ _ => True
    | .operatorIndex vma =>
      m.Room vma ∧ (m.frameOf (page vma) = none → (pmmAllocPage m.frames).isSome)
    | .insert vma _ => m.Room vma
  next := fun m request out m' => match request with
    | .at_ vma => out = some (m.at_ vma) ∧ m' = m
    | .operatorIndex vma => out = some (m'.at_ vma) ∧ match m.frameOf (page vma) with
      | some _ => m' = m
      | none => ∃ base frames', pmmAllocPage m.frames = some (base, frames') ∧
          m' = { m.map vma base with frames := frames' }
    | .insert vma pma => out = none ∧ m' = m.map vma (pma &&& PAGE_MASK)

/-- A request to the dictionary, which lies at `this`; `insert` answers nothing. -/
def step (this : UInt32) (s : PageDictionary × Frames) :
    Request → Option (Option UInt32 × PageDictionary × Frames)
  | .at_ vma => do
    let pma ← s.1.at_ this vma
    return (some pma, s)
  | .operatorIndex vma => do
    let (pma, s') ← s.1.operatorIndex pmmAllocPage this s.2 vma
    return (some pma, s')
  | .insert vma pma => do
    let d ← s.1.insert this vma pma
    return (none, d, s.2)

/-- What is mapped agrees, address for address, and so do the frames left. -/
def Agree (this : UInt32) (s : PageDictionary × Frames) (m : PageMap Frames) : Prop :=
  (∀ vma, s.1.at_ this vma = some (m.at_ vma)) ∧ s.2 = m.frames

/-- In the states `Good`, which allocation keeps, only page addresses are allocated. -/
structure AllocatesPages (Good : Frames → Prop) : Prop where
  aligned : ∀ {frames base frames'}, Good frames → pmmAllocPage frames = some (base, frames') →
    base &&& PAGE_MASK = base
  kept : ∀ {frames base frames'}, Good frames → pmmAllocPage frames = some (base, frames') →
    Good frames'

end Machine

/-! ### The simulation -/

/-- The dictionary stands for the map. -/
structure Mirrors {Frames : Type} (this : UInt32) (d : PageDictionary) (m : PageMap Frames) :
    Prop where
  wired : Wired this d
  touched : (view this d).touched = m.touched
  same : ∀ vma, frameOf this d vma = m.frameOf (page vma)

section Simulation

variable {Frames : Type} {pmmAllocPage : Frames → Option (UInt32 × Frames)} {this : UInt32}
  {d : PageDictionary} {m : PageMap Frames}

theorem Mirrors.at_ (mirrors : Mirrors this d m) (vma : UInt32) :
    d.at_ this vma = some (m.at_ vma) := by
  rw [at_spec mirrors.wired, mirrors.same]
  rfl

theorem zero_mirrors (frames : Frames) : Mirrors this .zero ⟨fun _ => none, ∅, frames⟩ := by
  have wired := zero_wired this
  have empty : (view this .zero).touched = ∅ := Finset.card_eq_zero.mp wired.sound.counted
  refine ⟨wired, empty, fun vma => lookup_untouched ?_ _⟩
  rw [empty]
  exact Finset.notMem_empty _

/-- A dictionary in which the page of an address has got a frame stands for the map in which it
has. -/
theorem Mirrors.mapped {d' : PageDictionary} {vma base : UInt32} (mirrors : Mirrors this d m)
    (wired' : Wired this d')
    (touched' : (view this d').touched = insert (dictIndex vma) (view this d).touched)
    (frames' : ∀ other, frameOf this d' other
      = if page other = page vma then some base else frameOf this d other) :
    Mirrors this d' (m.map vma base) := by
  refine ⟨wired', ?_, fun other => ?_⟩
  · rw [touched', mirrors.touched]
    rfl
  · rw [frames', mirrors.same]
    split_ifs with samePage
    · rw [samePage, PageMap.map_self]
    · rw [PageMap.map_of_ne m base samePage]

theorem Mirrors.insert (aligned : this &&& PAGE_MASK = this) (mirrors : Mirrors this d m)
    (vma pma : UInt32) (room : m.Room vma) :
    ∃ d', d.insert this vma pma = some d' ∧ Mirrors this d' (m.map vma (pma &&& PAGE_MASK)) := by
  obtain ⟨d', ran, wired', touched', frames'⟩ :=
    insert_spec aligned mirrors.wired vma pma (mirrors.touched ▸ room)
  exact ⟨d', ran, mirrors.mapped wired' touched' frames'⟩

/-- A page that has a frame keeps it, and no other is taken. -/
theorem Mirrors.index_mapped (mirrors : Mirrors this d m) {vma base : UInt32} (frames : Frames)
    (mapped : m.frameOf (page vma) = some base) :
    d.operatorIndex pmmAllocPage this frames vma = some (m.at_ vma, d, frames) := by
  rw [operatorIndex_mapped mirrors.wired ((mirrors.same vma).trans mapped), PageMap.at_, mapped]
  rfl

/-- A page that has no frame gets the one that is allocated. -/
theorem Mirrors.index_unmapped (aligned : this &&& PAGE_MASK = this) (mirrors : Mirrors this d m)
    {vma base : UInt32} {frames frames' : Frames} (room : m.Room vma)
    (unmapped : m.frameOf (page vma) = none)
    (allocated : pmmAllocPage frames = some (base, frames')) (whole : base &&& PAGE_MASK = base) :
    ∃ d', d.operatorIndex pmmAllocPage this frames vma
        = some ((m.map vma base).at_ vma, d', frames') ∧ Mirrors this d' (m.map vma base) := by
  obtain ⟨d', ran, wired', touched', maps⟩ := operatorIndex_unmapped aligned mirrors.wired
    ((mirrors.same vma).trans unmapped) allocated (mirrors.touched ▸ room)
  rw [whole] at ran maps
  refine ⟨d', ?_, mirrors.mapped wired' touched' maps⟩
  rw [ran, PageMap.at_, PageMap.map_self]
  rfl

/-- Running low on frames does not concern the map. -/
theorem Mirrors.frames (mirrors : Mirrors this d m) (frames : Frames) :
    Mirrors this d { m with frames := frames } := ⟨mirrors.wired, mirrors.touched, mirrors.same⟩

variable {Good : Frames → Prop}

/-- **One request.** -/
theorem step_simulates (aligned : this &&& PAGE_MASK = this)
    (allocates : AllocatesPages pmmAllocPage Good) {frames : Frames} {request : Request}
    (mirrors : Mirrors this d m) (shared : frames = m.frames) (good : Good frames)
    (legal : (pageMap pmmAllocPage).legal m request) :
    ∃ out s' m', step pmmAllocPage this (d, frames) request = some (out, s') ∧
      (pageMap pmmAllocPage).next m request out m' ∧ Mirrors this s'.1 m' ∧ s'.2 = m'.frames ∧
      Good s'.2 := by
  cases request with
  | at_ vma =>
    refine ⟨some (m.at_ vma), (d, frames), m, ?_, ⟨rfl, rfl⟩, mirrors, shared, good⟩
    rw [step, mirrors.at_]
    rfl
  | insert vma pma =>
    obtain ⟨d', ran, mirrors'⟩ := mirrors.insert aligned vma pma legal
    refine ⟨none, (d', frames), _, ?_, ⟨rfl, rfl⟩, mirrors', shared, good⟩
    rw [step, ran]
    rfl
  | operatorIndex vma =>
    obtain ⟨room, supply⟩ := legal
    cases known : m.frameOf (page vma) with
    | some base =>
      refine ⟨some (m.at_ vma), (d, frames), m, ?_, ?_, mirrors, shared, good⟩
      · rw [step, mirrors.index_mapped frames known]
        rfl
      · simp only [pageMap, known, and_self]
    | none =>
      obtain ⟨⟨base, frames'⟩, allocated⟩ := Option.isSome_iff_exists.mp (supply known)
      rw [← shared] at allocated
      obtain ⟨d', ran, mirrors'⟩ := mirrors.index_unmapped aligned room known allocated
        (allocates.aligned good allocated)
      refine ⟨some ((m.map vma base).at_ vma), (d', frames'), { m.map vma base with frames := frames' },
        ?_, ?_, mirrors'.frames frames', rfl, allocates.kept good allocated⟩
      · rw [step, ran]
        rfl
      · simp only [pageMap, known]
        exact ⟨rfl, base, frames', shared ▸ allocated, rfl⟩

/-- **The page dictionary refines the map**, over every sequence of `at`, `operator[]` and `insert`
from a fresh dictionary on. -/
theorem dictionary_refines_map (aligned : this &&& PAGE_MASK = this)
    (allocates : AllocatesPages pmmAllocPage Good) {frames : Frames} (good : Good frames)
    (requests : List Request) :
    Runs.Refines (step pmmAllocPage this) (pageMap pmmAllocPage) (Agree this)
      (.zero, frames) ⟨fun _ => none, ∅, frames⟩ requests := by
  refine Runs.refines_of_simulation
    (fun s m => Mirrors this s.1 m ∧ s.2 = m.frames ∧ Good s.2) ?_ ?_ requests _ _
    ⟨zero_mirrors frames, rfl, good⟩
  · rintro ⟨d, frames⟩ m request ⟨mirrors, shared, good⟩ legal
    exact step_simulates aligned allocates mirrors shared good legal
  · rintro ⟨d, frames⟩ m ⟨mirrors, shared, _⟩
    exact ⟨mirrors.at_, shared⟩

end Simulation

/-! ### The frames of the kernel -/

/-- The frames on the stack are page addresses. -/
def WholePages (s : Pmm) : Prop := s.Fits ∧ ∀ base ∈ s.free, base &&& PAGE_MASK = base

theorem pmmAllocPage_allocates : AllocatesPages pmmAllocPage WholePages := by
  have spec : ∀ {s base s'}, WholePages s → pmmAllocPage s = some (base, s') →
      s.free = s'.free ++ [base] ∧ s'.Fits := by
    intro s base s' good ran
    obtain ⟨base', s'', ran', taken, fits⟩ := Pmm.alloc_spec good.1 (Pmm.alloc_enough ran)
    rw [ran] at ran'
    cases ran'
    exact ⟨taken, fits⟩
  constructor
  · intro s base s' good ran
    refine good.2 base ?_
    rw [(spec good ran).1]
    exact List.mem_append_right _ (List.mem_singleton_self _)
  · intro s base s' good ran
    obtain ⟨taken, fits⟩ := spec good ran
    refine ⟨fits, fun other inside => good.2 other ?_⟩
    rw [taken]
    exact List.mem_append_left _ inside

/-- A dictionary at 0xC0110000 and a stack of four frames: two regions, and a page asked for twice. -/
theorem kernel_dictionary_refines_map :
    ∃ s, [0x200000, 0x201000, 0x202000, 0x203000].foldlM pmmFreePage Pmm.empty = some s ∧
      Runs.Refines (step pmmAllocPage 0xC0110000) (pageMap pmmAllocPage) (Agree 0xC0110000)
        (.zero, s) ⟨fun _ => none, ∅, s⟩ [.insert 0xC0000000 0, .operatorIndex 0x10002000,
          .operatorIndex 0x10002FFC, .at_ 0x10002004, .insert 0x10002000 0x5000, .at_ 0x10002004] := by
  obtain ⟨s, ran, pushed, fits⟩ := Pmm.free_all_spec [0x200000, 0x201000, 0x202000, 0x203000]
    (by decide)
  refine ⟨s, ran, dictionary_refines_map (by decide) pmmAllocPage_allocates ⟨fits, ?_⟩ _⟩
  rw [pushed]
  exact List.all_iff_forall_prop.mp (by decide)

end Sprite.Paging

/-
**Requests to the tables that translate.** The operations of the dictionary work on the tables by which
the machine reaches them.

* `Live`, `Live.step` — the machine and the frames left, and a request, word by word.
* `liveMap` — the ideal map, in which a page is never given another frame.
* `Translates` — the machine takes every address where the map says, whatever it remembers.
* `live_simulates` — one request.
* `tables_refine_map` — **the refinement**, over runs of any length.
-/
import Sprite.Lib.Runs
import Sprite.Paging.Startup

namespace Sprite.Paging

open Words Mmu TwoLevel PageTable PageDictionary

inductive TableOp where
  | request (request : Request)
  /-- The machine forgets the translation of a page. -/
  | evict (page : UInt32)

structure Live (Frames : Type) where
  machine : Machine
  frames : Frames

section Live

variable {Frames : Type} (pmmAllocPage : Frames → Option (UInt32 × Frames))

def Live.step (this : UInt32) (l : Live Frames) : TableOp → Option (Option UInt32 × Live Frames)
  | .request (.at_ vma) => do
    let (pma, machine) ← InMemory.at_ this vma l.machine
    return (some pma, { l with machine })
  | .request (.operatorIndex vma) => do
    let ((pma, frames), machine) ← InMemory.operatorIndex pmmAllocPage this l.frames vma l.machine
    return (some pma, ⟨machine, frames⟩)
  | .request (.insert vma pma) => do
    let (_, machine) ← InMemory.insert this vma pma l.machine
    return (none, { l with machine })
  | .evict page => some (none, { l with machine := l.machine.evict page })

/-- A page that has a frame may be asked to be mapped to that frame only. -/
def KeepsFrames (m : PageMap Frames) : Request → Prop
  | .insert vma pma => ∀ base ∈ m.frameOf (page vma), base = pma &&& PAGE_MASK
  | _ => True

/-- **The ideal map**; that the machine forgets something does not concern it. -/
def liveMap : Runs.Machine (PageMap Frames) TableOp (Option UInt32) where
  legal := fun m op => match op with
    | .request request => (pageMap pmmAllocPage).legal m request ∧ KeepsFrames m request
    | .evict _ => True
  next := fun m op out m' => match op with
    | .request request => (pageMap pmmAllocPage).next m request out m'
    | .evict _ => out = none ∧ m' = m

/-- Where the machine takes every address. -/
def Translates (l : Live Frames) (m : PageMap Frames) : Prop :=
  (∀ vma, (Mmu.translate vma l.machine).map Prod.fst
    = (m.frameOf (page vma)).map fun frame => physical frame vma) ∧ l.frames = m.frames

end Live

/-! ### One request -/

/-- The dictionary in memory stands for the map, and the machine translates with it. -/
structure Lives {Frames : Type} (this : UInt32) (l : Live Frames) (m : PageMap Frames)
    (d : PageDictionary) : Prop where
  serves : Serves this (PMA this) Set.univ l.machine.memory d
  register : l.machine.cr3 = PMA this
  coherent : Coherent Set.univ l.machine
  mirrors : Mirrors this d m
  shared : l.frames = m.frames

section Simulation

variable {Frames : Type} {pmmAllocPage : Frames → Option (UInt32 × Frames)} {this : UInt32}
  {l : Live Frames} {m : PageMap Frames} {d : PageDictionary}

theorem Lives.translates (located : Located this) (lives : Lives this l m d) : Translates l m := by
  refine ⟨fun vma => ?_, lives.shared⟩
  have walked : walk l.machine.memory l.machine.cr3 vma = m.frameOf (page vma) := by
    rw [lives.register, walk_eq located lives.serves.holds lives.serves.pointed, lives.mirrors.same]
  cases mapped : m.frameOf (page vma) with
  | none =>
    rw [translate_missing lives.coherent (walked.trans mapped)]
    rfl
  | some frame =>
    obtain ⟨tlb, found, -⟩ := translate_spec lives.coherent (Set.mem_univ _) (walked.trans mapped)
    rw [found]
    rfl

/-- What a program does to the machine of a live dictionary. -/
theorem Lives.run {α : Type} (lives : Lives this l m d) {program : Virtual α} {result : α}
    {memory' : Memory} (does : Does Set.univ program (PMA this) l.machine.memory result memory') :
    ∃ tlb, program l.machine = some (result, ⟨memory', PMA this, tlb⟩) ∧
      Coherent Set.univ ⟨memory', PMA this, tlb⟩ := does l.machine rfl lives.register lives.coherent

variable {Good : Frames → Prop}

/-- **One request**, word by word. -/
theorem live_simulates (located : Located this) (allocates : AllocatesPages pmmAllocPage Good)
    (lives : Lives this l m d) (good : Good l.frames) {op : TableOp}
    (legal : (liveMap pmmAllocPage).legal m op) :
    ∃ out l' m' d', l.step pmmAllocPage this op = some (out, l') ∧
      (liveMap pmmAllocPage).next m op out m' ∧ Lives this l' m' d' ∧ Good l'.frames := by
  cases op with
  | evict page =>
    exact ⟨none, _, m, d, rfl, ⟨rfl, rfl⟩, ⟨lives.serves, lives.register, lives.coherent.evict page,
      lives.mirrors, lives.shared⟩, good⟩
  | request request =>
    obtain ⟨allowed, keeps⟩ := legal
    obtain ⟨out, s', m', stepped, accepted, mirrors', shared', good'⟩ :=
      step_simulates located.aligned allocates lives.mirrors lives.shared good allowed
    cases request with
    | at_ vma =>
      obtain ⟨tlb, answered, coherent'⟩ :=
        lives.run (at_does located lives.mirrors.wired lives.serves vma)
      have result : some (translation (frameOf this d vma) vma) = out ∧ (d, l.frames) = s' := by
        rw [step, at_spec lives.mirrors.wired] at stepped
        simp only [Option.bind_eq_bind, Option.bind_some, Option.pure_def, Option.some.injEq,
          Prod.mk.injEq] at stepped
        exact stepped
      obtain ⟨rfl, rfl⟩ := result
      refine ⟨_, ⟨⟨l.machine.memory, PMA this, tlb⟩, l.frames⟩, m', d, ?_, accepted,
        ⟨lives.serves, rfl, coherent', mirrors', shared'⟩, good'⟩
      show (InMemory.at_ this vma l.machine).bind _ = _
      rw [answered]
      rfl
    | operatorIndex vma =>
      obtain ⟨⟨pma, d', frames'⟩, indexed, same⟩ := Option.bind_eq_some_iff.mp stepped
      simp only [Option.pure_def, Option.some.injEq, Prod.mk.injEq] at same
      obtain ⟨rfl, rfl⟩ := same
      obtain ⟨memory', does, serves', -⟩ := operatorIndex_does located lives.mirrors.wired lives.serves
        (lives.mirrors.touched ▸ allowed.1) indexed
      obtain ⟨tlb, answered, coherent'⟩ := lives.run does
      refine ⟨_, ⟨⟨memory', PMA this, tlb⟩, frames'⟩, m', d', ?_, accepted,
        ⟨serves', rfl, coherent', mirrors', shared'⟩, good'⟩
      show (InMemory.operatorIndex pmmAllocPage this l.frames vma l.machine).bind _ = _
      rw [answered]
      rfl
    | insert vma pma =>
      obtain ⟨d', inserted, same⟩ := Option.bind_eq_some_iff.mp stepped
      simp only [Option.pure_def, Option.some.injEq, Prod.mk.injEq] at same
      obtain ⟨rfl, rfl⟩ := same
      have fresh : ∀ base ∈ frameOf this d vma, base = pma &&& PAGE_MASK := by
        rw [lives.mirrors.same]
        exact keeps
      obtain ⟨d'', memory', inserted', does, serves', -⟩ := insert_does located lives.mirrors.wired
        lives.serves (lives.mirrors.touched ▸ allowed) fresh
      rw [inserted, Option.some.injEq] at inserted'
      subst inserted'
      obtain ⟨tlb, answered, coherent'⟩ := lives.run does
      refine ⟨_, ⟨⟨memory', PMA this, tlb⟩, l.frames⟩, m', d', ?_, accepted,
        ⟨serves', rfl, coherent', mirrors', shared'⟩, good'⟩
      show (InMemory.insert this vma pma l.machine).bind _ = _
      rw [answered]
      rfl

/-- **The tables that translate refine the map**, from the tables of `kern_entry` on, over every
sequence of `at`, `operator[]` and `insert`, as long as no page is given another frame: the operations
never miss a translation themselves, answer as the map does, and the machine takes every address where
the map says, whatever it remembers or forgets. -/
theorem tables_refine_map (located : Located this) (allocates : AllocatesPages pmmAllocPage Good)
    {frames : Frames} (good : Good frames) {memory : Memory} (empty : Holds memory (PMA this) .zero) :
    ∃ machine m, InMemory.initVmm this (kernEntry memory) = some ((), machine) ∧
      (∀ vma, m.frameOf (page vma)
        = if InKernelWindow vma then some (PMA vma &&& PAGE_MASK) else none) ∧
      m.touched = {dictIndex PAGE_OFFSET} ∧ m.frames = frames ∧ ∀ ops,
        Runs.Refines (Live.step pmmAllocPage this) (liveMap pmmAllocPage) Translates
          ⟨machine, frames⟩ m ops := by
  obtain ⟨d, memory', ran, started, serves, mapped, -⟩ := startup_spec located Pmm.empty empty
  obtain ⟨k, m, started', paged⟩ := initVmm_paged located.aligned Pmm.fits_empty
  rw [started, Option.some.injEq] at started'
  subst started'
  have touched : m.touched = {dictIndex PAGE_OFFSET} := by
    refine Finset.Subset.antisymm paged.touched ?_
    rw [Finset.singleton_subset_iff, ← paged.mirrors.touched, mem_touched]
    by_contra absent
    have unmapped : frameOf this d PAGE_OFFSET = none :=
      lookup_untouched (fun inside => absent (mem_touched.mp inside)) _
    rw [mapped, if_pos (by decide)] at unmapped
    cases unmapped
  have lives : Lives this (⟨⟨memory', PMA this, fun _ => none⟩, frames⟩ : Live Frames)
      ⟨m.frameOf, m.touched, frames⟩ d :=
    ⟨serves, rfl, fun _ _ found => absurd found (Option.some_ne_none _).symm,
      ⟨paged.mirrors.wired, paged.mirrors.touched, paged.mirrors.same⟩, rfl⟩
  refine ⟨_, ⟨m.frameOf, m.touched, frames⟩, ran, fun vma => ?_, touched, rfl, fun ops => ?_⟩
  · exact (paged.mirrors.same vma).symm.trans (mapped vma)
  · refine Runs.refines_of_simulation
      (fun l m => ∃ d, Lives this l m d ∧ Good l.frames) ?_ ?_ ops _ _ ⟨d, lives, good⟩
    · rintro l m op ⟨d, lives, good⟩ legal
      obtain ⟨out, l', m', d', stepped, accepted, lives', good'⟩ :=
        live_simulates located allocates lives good legal
      exact ⟨out, l', m', stepped, accepted, d', lives', good'⟩
    · rintro l m ⟨d, lives, -⟩
      exact lives.translates located

end Simulation

/-- A dictionary at 0xC0110000, in a memory of zeros, and a stack of three frames. -/
theorem kernel_tables_refine_map :
    ∃ s machine m, [0x200000, 0x201000, 0x202000].foldlM pmmFreePage Pmm.empty = some s ∧
      InMemory.initVmm 0xC0110000 (kernEntry fun _ => 0) = some ((), machine) ∧
      Runs.Refines (Live.step pmmAllocPage 0xC0110000) (liveMap pmmAllocPage) Translates
        ⟨machine, s⟩ m [.request (.operatorIndex 0x10002000), .evict 0x10002,
          .request (.insert 0x20000000 0x5000), .request (.at_ 0x10002FFC)] := by
  obtain ⟨s, ran, pushed, fits⟩ := Pmm.free_all_spec [0x200000, 0x201000, 0x202000] (by decide)
  have located : Located 0xC0110000 := ⟨by decide, by decide, by decide⟩
  have whole : WholePages s := ⟨fits, by rw [pushed]; exact List.all_iff_forall_prop.mp (by decide)⟩
  obtain ⟨machine, m, started, -, -, -, runs⟩ :=
    tables_refine_map located pmmAllocPage_allocates whole (blank_holds _)
  exact ⟨s, machine, m, ran, started, runs _⟩

end Sprite.Paging

/-
**Demand paging gives flat memory**, after `page_fault_handler` in `src/lib/vmm.cc`.

A program reads and writes bytes at virtual addresses. Where a translation is missing the handler runs,
which works on the page tables through the page tables, and the instruction is executed again. The
machine may forget translations at any time, and is never told to.

* `System`, `access`, `System.step` — the machine, what is left of the frames, and what an access does.
* `Flat`, `flat` — memory without any translation: what has been read or written stays.
* `Backed` — the invariant: the places behind the addresses in use are different, are no part of the
  dictionary, and hold what they should.
* `step_flat` — one access; `refines_of_backed` — the whole run.
* `paged_memory_is_flat` — **the refinement**, from power-on, over runs of any length.
-/
import Sprite.Lib.Runs
import Sprite.Paging.Startup

namespace Sprite.Paging

open Words Mmu PageTable PageDictionary

/-! ### The system -/

structure System where
  machine : Machine
  pmm : Pmm

/-- `page_fault_handler`, word by word. -/
def InMemory.pageFaultHandler (this : UInt32) (sys : System) (fault : PageFault) : Option System :=
  if fault.errCode &&& PAGE_PRESENT = 0 then do
    let ((_, pmm), machine) ←
      InMemory.operatorIndex pmmAllocPage this sys.pmm fault.cr2 sys.machine
    return ⟨machine, pmm⟩
  else some sys

/-- What the machine does where a translation is missing: `cr2` is the address, and bit 1 of the error
code says whether it was to be written. -/
def missed (vma : UInt32) (writes : Bool) : PageFault := ⟨vma, if writes then 2 else 0⟩

/-- The error code says that the page is not present. -/
theorem missed_missing (vma : UInt32) (writes : Bool) :
    (missed vma writes).errCode &&& PAGE_PRESENT = 0 := by
  cases writes with
  | false =>
    show (0 : UInt32) &&& PAGE_PRESENT = 0
    decide
  | true =>
    show (2 : UInt32) &&& PAGE_PRESENT = 0
    decide

/-- **The place an access goes to.** If the translation is missing the handler runs, and the instruction
is executed again. -/
def access (this : UInt32) (sys : System) (vma : UInt32) (writes : Bool) : Option (UInt32 × System) :=
  match Mmu.translate vma sys.machine with
  | some (place, machine) => some (place, { sys with machine })
  | none => do
    let sys ← InMemory.pageFaultHandler this sys (missed vma writes)
    let (place, machine) ← Mmu.translate vma sys.machine
    return (place, { sys with machine })

inductive ByteOp where
  | read (vma : UInt32)
  | write (vma : UInt32) (value : UInt8)
  /-- The machine forgets the translation of a page. -/
  | evict (page : UInt32)

/-- An access, and the byte that is read. -/
def System.step (this : UInt32) (sys : System) : ByteOp → Option (Option UInt8 × System)
  | .read vma => do
    let (place, sys) ← access this sys vma false
    return (some (sys.machine.memory place), sys)
  | .write vma value => do
    let (place, sys) ← access this sys vma true
    return (none, { sys with
      machine := { sys.machine with memory := Function.update sys.machine.memory place value } })
  | .evict page => some (none, { sys with machine := sys.machine.evict page })

/-! ### Flat memory -/

/-- The bytes that are known, the pages outside the kernel window that have been used, and the regions
of 4 MB in which something has. -/
structure Flat where
  contents : UInt32 → Option UInt8
  pages : Finset UInt32
  regions : Finset (Fin DICTIONARY_MAX_SIZE)

namespace Flat

/-- The kernel window holds what memory holds. -/
def start (memory : Memory) : Flat where
  contents := fun vma => if InKernelWindow vma then some (memory (PMA vma)) else none
  pages := ∅
  regions := {dictIndex PAGE_OFFSET}

/-- An address is used. -/
def use (f : Flat) (vma : UInt32) : Flat :=
  if InKernelWindow vma then f
  else { f with pages := insert (page vma) f.pages, regions := insert (dictIndex vma) f.regions }

/-- A byte is known from now on. -/
def know (f : Flat) (vma : UInt32) (value : UInt8) : Flat :=
  { f with contents := Function.update f.contents vma (some value) }

end Flat

/-- Addresses that programs use: of the kernel window not the dictionary, and not the frames that are to
be handed out. -/
def Usable (this : UInt32) (s : Pmm) (vma : UInt32) : Prop :=
  InKernelWindow vma → PMA vma ∉ objectArea (PMA this) ∧ PMA vma &&& PAGE_MASK ∉ s.free

/-- There is a frame to spare for each page, and a table for each region. -/
def Flat.Room (s : Pmm) (f : Flat) : Prop :=
  f.pages.card < s.free.length ∧ f.regions.card ≤ TABLE_RESERVE

/-- **Flat memory**: what is read is what was last read or written. -/
def flat (this : UInt32) (s : Pmm) : Runs.Machine Flat ByteOp (Option UInt8) where
  legal := fun f op => match op with
    | .read vma => Usable this s vma ∧ (f.use vma).Room s
    | .write vma _ => Usable this s vma ∧ (f.use vma).Room s
    | .evict _ => True
  next := fun f op out f' => match op with
    | .read vma => ∃ value, out = some value ∧ (∀ known ∈ f.contents vma, value = known) ∧
        f' = (f.use vma).know vma value
    | .write vma value => out = none ∧ f' = (f.use vma).know vma value
    | .evict _ => out = none ∧ f' = f

/-- A frame is taken for each page used, and no remembered translation is stale. -/
def Sparing (s : Pmm) (sys : System) (f : Flat) : Prop :=
  sys.pmm.free.length + f.pages.card = s.free.length ∧ Coherent Set.univ sys.machine

/-! ### The invariant -/

/-- What is to be known of the frames on the stack at first. -/
structure Spare (this : UInt32) (s : Pmm) : Prop where
  fits : s.Fits
  distinct : s.free.Nodup
  whole : ∀ base ∈ s.free, base &&& PAGE_MASK = base
  apart : ∀ base ∈ s.free, ∀ vma, physical base vma ∉ objectArea (PMA this)

/-- The dictionary maps the pages used to different frames, and the places hold what they should. -/
structure Backed (this : UInt32) (s : Pmm) (sys : System) (f : Flat) (d : PageDictionary)
    (m : PageMap Pmm) (faults : List PageFault) (handed : List UInt32) : Prop where
  serves : Serves this (PMA this) Set.univ sys.machine.memory d
  register : sys.machine.cr3 = PMA this
  coherent : Coherent Set.univ sys.machine
  paged : Paged this s faults ⟨d, sys.pmm⟩ m handed
  regions : regions faults ⊆ f.regions
  pages : f.pages = (faults.map fun fault => page fault.cr2).toFinset
  each : faults.length = f.pages.card
  taken : handed.length = f.pages.card
  missing : ∀ fault ∈ faults, fault.errCode &&& PAGE_PRESENT = 0
  used : ∀ vma, ¬ InKernelWindow vma → (m.frameOf (page vma)).isSome → page vma ∈ f.pages
  contents : ∀ vma value, Usable this s vma → f.contents vma = some value →
    ∃ frame, m.frameOf (page vma) = some frame ∧ sys.machine.memory (physical frame vma) = value

section Places

variable {this : UInt32} {s : Pmm}

theorem mask_physical {frame : UInt32} (whole : frame &&& PAGE_MASK = frame) (vma : UInt32) :
    physical frame vma &&& PAGE_MASK = frame := by
  have multiple : frame.toNat % 4096 = 0 := pageBase_eq_iff.mp whole
  have bits : (physical frame vma &&& PAGE_MASK).toNat = (physical frame vma).toNat / 4096 * 4096 :=
    toNat_pageBase _
  rw [← UInt32.toNat_inj, bits, toNat_physical multiple]
  omega

/-- The place of an address of the kernel window. -/
theorem physical_window {vma : UInt32} (inside : InKernelWindow vma) :
    physical (PMA vma &&& PAGE_MASK) vma = PMA vma := by
  have range := inKernelWindow_iff.mp inside
  have place := toNat_pma_of_le vma (by omega)
  have mask : (PMA vma &&& PAGE_MASK).toNat = (PMA vma).toNat / 4096 * 4096 := toNat_pageBase _
  rw [← UInt32.toNat_inj, toNat_physical (by omega), mask]
  omega

/-- Addresses on one page that go to one place are the same. -/
theorem eq_of_place {frame vma vma' : UInt32} (whole : frame &&& PAGE_MASK = frame)
    (samePage : page vma = page vma') (same : physical frame vma = physical frame vma') :
    vma = vma' := by
  have multiple : frame.toNat % 4096 = 0 := pageBase_eq_iff.mp whole
  rw [← UInt32.toNat_inj, page_val, page_val] at samePage
  rw [← UInt32.toNat_inj, toNat_physical multiple, toNat_physical multiple] at same
  rw [← UInt32.toNat_inj]
  omega

variable {sys : System} {f : Flat} {d : PageDictionary} {m : PageMap Pmm} {faults : List PageFault}
  {handed : List UInt32}

theorem Backed.handed_free (backed : Backed this s sys f d m faults handed) {base : UInt32}
    (inside : base ∈ handed) : base ∈ s.free := by
  rw [backed.paged.stack]
  exact List.mem_append_right _ inside

/-- The frame of a usable address, and what is known of the place. -/
theorem Backed.place (spare : Spare this s) (backed : Backed this s sys f d m faults handed)
    {vma frame : UInt32} (usable : Usable this s vma) (mapped : m.frameOf (page vma) = some frame) :
    frame &&& PAGE_MASK = frame ∧ physical frame vma ∉ objectArea (PMA this) := by
  by_cases inside : InKernelWindow vma
  · have known := backed.paged.window vma inside
    rw [mapped, Option.some.injEq] at known
    subst known
    refine ⟨by rw [UInt32.and_assoc, UInt32.and_self], ?_⟩
    rw [physical_window inside]
    exact (usable inside).1
  · have owner := backed.handed_free (backed.paged.owned vma frame inside mapped)
    exact ⟨spare.whole frame owner, spare.apart frame owner vma⟩

/-- **Different addresses have different places.** -/
theorem Backed.injective (spare : Spare this s) (backed : Backed this s sys f d m faults handed)
    {vma vma' frame frame' : UInt32} (usable : Usable this s vma) (usable' : Usable this s vma')
    (mapped : m.frameOf (page vma) = some frame) (mapped' : m.frameOf (page vma') = some frame')
    (same : physical frame vma = physical frame' vma') : vma = vma' := by
  have whole := (backed.place spare usable mapped).1
  have whole' := (backed.place spare usable' mapped').1
  have sameFrame : frame = frame' := by
    rw [← mask_physical whole vma, same, mask_physical whole' vma']
  subst sameFrame
  -- A frame of the window is none of those handed out.
  have differ : ∀ {one two : UInt32}, Usable this s one → InKernelWindow one → ¬ InKernelWindow two →
      m.frameOf (page one) = some frame → m.frameOf (page two) ≠ some frame := by
    intro one two usableOne inside outside mappedOne mappedTwo
    have known := backed.paged.window one inside
    rw [mappedOne, Option.some.injEq] at known
    refine (usableOne inside).2 (known ▸ ?_)
    exact backed.handed_free (backed.paged.owned two frame outside mappedTwo)
  by_cases inside : InKernelWindow vma <;> by_cases inside' : InKernelWindow vma'
  · have known := backed.paged.window vma inside
    have known' := backed.paged.window vma' inside'
    rw [mapped, Option.some.injEq] at known
    rw [mapped', Option.some.injEq] at known'
    rw [known, physical_window inside, ← known, known', physical_window inside'] at same
    have range := inKernelWindow_iff.mp inside
    have range' := inKernelWindow_iff.mp inside'
    have place := toNat_pma_of_le vma (by omega)
    have place' := toNat_pma_of_le vma' (by omega)
    rw [same] at place
    rw [← UInt32.toNat_inj]
    omega
  · exact absurd mapped' (differ usable inside inside' mapped)
  · exact absurd mapped (differ usable' inside' inside mapped')
  · exact eq_of_place whole (backed.paged.injective vma vma' frame inside inside' mapped mapped') same

end Places

/-! ### One access -/

section Access

variable {this : UInt32} {s : Pmm} {sys : System} {f : Flat} {d : PageDictionary} {m : PageMap Pmm}
  {faults : List PageFault} {handed : List UInt32}

theorem Flat.contents_use (f : Flat) (vma : UInt32) : (f.use vma).contents = f.contents := by
  unfold Flat.use
  split <;> rfl

/-- A page that has a frame has been used. -/
theorem Backed.use_eq (backed : Backed this s sys f d m faults handed) {vma : UInt32}
    (mapped : (m.frameOf (page vma)).isSome) : f.use vma = f := by
  unfold Flat.use
  split_ifs with inside
  · rfl
  · have used := backed.used vma inside mapped
    have earlier := used
    rw [backed.pages, List.mem_toFinset, List.mem_map] at earlier
    obtain ⟨fault, isFault, samePage⟩ := earlier
    have region : dictIndex vma ∈ f.regions := by
      refine backed.regions ?_
      rw [← (indices_eq_iff.mpr samePage).1]
      refine Finset.mem_insert_of_mem ?_
      rw [List.mem_toFinset]
      exact List.mem_map_of_mem isFault
    rw [Finset.insert_eq_of_mem used, Finset.insert_eq_of_mem region]

/-- What the machine makes of an address. -/
theorem Backed.walk (located : Located this) (backed : Backed this s sys f d m faults handed)
    (vma : UInt32) : walk sys.machine.memory sys.machine.cr3 vma = m.frameOf (page vma) := by
  rw [backed.register, walk_eq located backed.serves.holds backed.serves.pointed,
    backed.paged.mirrors.same]

/-- Only what is remembered changes. -/
theorem Backed.remember (backed : Backed this s sys f d m faults handed)
    {tlb : UInt32 → Option UInt32} (coherent : Coherent Set.univ { sys.machine with tlb := tlb }) :
    Backed this s { sys with machine := { sys.machine with tlb := tlb } } f d m faults handed :=
  ⟨backed.serves, backed.register, coherent, backed.paged, backed.regions, backed.pages, backed.each,
    backed.taken, backed.missing, backed.used, backed.contents⟩

/-- An access to a page that has a frame. -/
theorem access_mapped (located : Located this) (backed : Backed this s sys f d m faults handed)
    {vma frame : UInt32} (mapped : m.frameOf (page vma) = some frame) (writes : Bool) :
    ∃ sys', access this sys vma writes = some (physical frame vma, sys') ∧
      Backed this s sys' f d m faults handed := by
  obtain ⟨tlb, found, coherent⟩ := translate_spec backed.coherent (Set.mem_univ _)
    ((backed.walk located vma).trans mapped)
  refine ⟨_, ?_, backed.remember coherent⟩
  unfold access
  rw [found]

/-- The fault of a page that has none is one that the handler can deal with. -/
theorem Backed.modest (backed : Backed this s sys f d m faults handed) {vma : UInt32}
    (outside : ¬ InKernelWindow vma) (unused : page vma ∉ f.pages) (room : (f.use vma).Room s)
    (writes : Bool) : Modest s (faults ++ [missed vma writes]) := by
  obtain ⟨fewer, tables⟩ := room
  rw [Flat.use, if_neg outside] at fewer tables
  rw [Finset.card_insert_of_notMem unused] at fewer
  refine ⟨fun fault inside => ?_, ?_, ?_⟩
  · rcases List.mem_append.mp inside with inside | inside
    · exact backed.missing fault inside
    · rw [List.mem_singleton.mp inside]
      exact missed_missing vma writes
  · rw [List.length_append, List.length_singleton, backed.each]
    exact fewer
  · rw [regions_append]
    exact (Finset.card_le_card (Finset.insert_subset_insert _ backed.regions)).trans tables

/-- **The handler, in memory**, on a page that has no frame. -/
theorem pageFaultHandler_does (located : Located this)
    (backed : Backed this s sys f d m faults handed) {fault : PageFault} {k : Kernel}
    (modest : Modest s (faults ++ [fault])) (ran : pageFaultHandler this ⟨d, sys.pmm⟩ fault = some k) :
    ∃ memory' tlb, InMemory.pageFaultHandler this sys fault
        = some ⟨⟨memory', PMA this, tlb⟩, k.pmm⟩ ∧ Coherent Set.univ ⟨memory', PMA this, tlb⟩ ∧
      Serves this (PMA this) Set.univ memory' k.page_dictionary ∧
      Within (objectArea (PMA this)) sys.machine.memory memory' := by
  have missing := modest.missing fault (List.mem_append_right _ (List.mem_singleton_self _))
  unfold pageFaultHandler at ran
  rw [if_pos missing] at ran
  obtain ⟨⟨pma, d', pmm'⟩, indexed, same⟩ := Option.bind_eq_some_iff.mp ran
  cases same
  have fits : (insert (dictIndex fault.cr2) (view this d).touched).card ≤ TABLE_RESERVE := by
    refine le_trans (Finset.card_le_card ?_) modest.fits
    rw [regions_append, backed.paged.mirrors.touched]
    exact Finset.insert_subset_insert _ backed.paged.touched
  obtain ⟨memory', does, serves', within⟩ := operatorIndex_does located backed.paged.mirrors.wired
    backed.serves fits indexed
  obtain ⟨tlb, answered, coherent⟩ := does sys.machine rfl backed.register backed.coherent
  refine ⟨memory', tlb, ?_, coherent, serves', within⟩
  unfold InMemory.pageFaultHandler
  rw [if_pos missing, answered]
  rfl

/-- **An access to a page that has no frame**: the page gets one, and is in use from then on. -/
theorem access_unmapped (located : Located this) (spare : Spare this s)
    (backed : Backed this s sys f d m faults handed) {vma : UInt32}
    (unmapped : m.frameOf (page vma) = none) (room : (f.use vma).Room s) (writes : Bool) :
    ∃ frame sys' d' m' faults' handed', access this sys vma writes = some (physical frame vma, sys') ∧
      Backed this s sys' (f.use vma) d' m' faults' handed' ∧ m'.frameOf (page vma) = some frame := by
  have outside : ¬ InKernelWindow vma := by
    intro inside
    rw [backed.paged.window vma inside] at unmapped
    cases unmapped
  have unused : page vma ∉ f.pages := by
    rw [backed.pages, List.mem_toFinset, List.mem_map]
    rintro ⟨fault, isFault, samePage⟩
    have mapped := backed.paged.mapped fault isFault
    rw [samePage, unmapped] at mapped
    cases mapped
  have modest := backed.modest outside unused room writes
  obtain ⟨k, base, handled, paged⟩ := fault_unmapped located.aligned spare.distinct spare.whole
    backed.paged modest unmapped
  obtain ⟨memory', tlb, handled', coherent, serves', within⟩ :=
    pageFaultHandler_does located backed modest handled
  have mapped : (m.map vma base).frameOf (page vma) = some base := m.map_self vma base
  have kept : ∀ other, page other ≠ page vma →
      (m.map vma base).frameOf (page other) = m.frameOf (page other) :=
    fun other different => m.map_of_ne base different
  have used : f.use vma = { f with
      pages := insert (page vma) f.pages, regions := insert (dictIndex vma) f.regions } :=
    if_neg outside
  have backed' : Backed this s ⟨⟨memory', PMA this, tlb⟩, k.pmm⟩ (f.use vma) k.page_dictionary
      (m.map vma base) (faults ++ [missed vma writes]) (base :: handed) := by
    rw [used]
    refine ⟨serves', rfl, coherent, paged, ?_, ?_, ?_, ?_, modest.missing, ?_, ?_⟩
    · rw [regions_append]
      exact Finset.insert_subset_insert _ backed.regions
    · simp only [List.map_append, List.map_singleton, List.toFinset_append, backed.pages]
      rw [Finset.union_comm]
      rfl
    · rw [List.length_append, backed.each, List.length_singleton]
      exact (Finset.card_insert_of_notMem unused).symm
    · rw [List.length_cons, backed.taken]
      exact (Finset.card_insert_of_notMem unused).symm
    · intro other outside' found
      by_cases same : page other = page vma
      · rw [same]
        exact Finset.mem_insert_self _ _
      · rw [kept other same] at found
        exact Finset.mem_insert_of_mem (backed.used other outside' found)
    · intro other value usable known
      obtain ⟨frame, found, byte⟩ := backed.contents other value usable known
      have different : page other ≠ page vma := by
        intro same
        rw [same, unmapped] at found
        cases found
      refine ⟨frame, (kept other different).trans found, ?_⟩
      exact (within _ (backed.place spare usable found).2).trans byte
  obtain ⟨tlb', found, coherent'⟩ := translate_spec coherent (Set.mem_univ _)
    ((backed'.walk located vma).trans mapped)
  refine ⟨base, _, _, _, _, _, ?_, backed'.remember coherent', mapped⟩
  have absent : Mmu.translate vma sys.machine = none :=
    translate_missing backed.coherent ((backed.walk located vma).trans unmapped)
  unfold access
  rw [absent]
  show (InMemory.pageFaultHandler this sys (missed vma writes)).bind _ = _
  rw [handled']
  show (Mmu.translate vma _).bind _ = _
  rw [found]
  rfl

/-- **One access**, to whatever address. -/
theorem access_spec (located : Located this) (spare : Spare this s)
    (backed : Backed this s sys f d m faults handed) {vma : UInt32} (room : (f.use vma).Room s)
    (writes : Bool) :
    ∃ frame sys' d' m' faults' handed', access this sys vma writes = some (physical frame vma, sys') ∧
      Backed this s sys' (f.use vma) d' m' faults' handed' ∧ m'.frameOf (page vma) = some frame := by
  cases mapped : m.frameOf (page vma) with
  | some frame =>
    obtain ⟨sys', accessed, backed'⟩ := access_mapped located backed mapped writes
    have same : f.use vma = f := backed.use_eq (by rw [mapped]; rfl)
    exact ⟨frame, sys', d, m, faults, handed, accessed, same.symm ▸ backed', mapped⟩
  | none => exact access_unmapped located spare backed mapped room writes

/-- **A byte is written** at the place of a usable address: the other bytes that are known stay. -/
theorem Backed.know (located : Located this) (spare : Spare this s)
    (backed : Backed this s sys f d m faults handed) {vma frame : UInt32}
    (usable : Usable this s vma) (mapped : m.frameOf (page vma) = some frame) (value : UInt8) :
    Backed this s { sys with machine := { sys.machine with
      memory := Function.update sys.machine.memory (physical frame vma) value } }
      (f.know vma value) d m faults handed := by
  obtain ⟨whole, away⟩ := backed.place spare usable mapped
  have fits := located.pma_room
  have holds : Holds (Function.update sys.machine.memory (physical frame vma) value) (PMA this) d := by
    refine backed.serves.holds.congr fits fun byte inside => Function.update_of_ne ?_ _ _
    rintro rfl
    exact away inside
  have serves : Serves this (PMA this) Set.univ
      (Function.update sys.machine.memory (physical frame vma) value) d := by
    refine ⟨holds, backed.serves.pointed, .self fun other inside => ?_⟩
    rw [backed.paged.mirrors.same]
    exact backed.paged.window other inside
  refine ⟨serves, backed.register, fun address base found => ⟨trivial, ?_⟩, backed.paged,
    backed.regions, backed.pages, backed.each, backed.taken, backed.missing, backed.used, ?_⟩
  · have known := (backed.coherent address base found).2
    rw [backed.walk located] at known
    show Mmu.walk _ sys.machine.cr3 address = some base
    rw [backed.register, walk_eq located holds serves.pointed, backed.paged.mirrors.same, known]
  · intro other value' usable' known
    change Function.update f.contents vma (some value) other = some value' at known
    by_cases same : other = vma
    · subst same
      rw [Function.update_self, Option.some.injEq] at known
      exact ⟨frame, mapped, (Function.update_self _ _ _).trans known⟩
    · rw [Function.update_of_ne same] at known
      obtain ⟨frame', mapped', byte⟩ := backed.contents other value' usable' known
      refine ⟨frame', mapped', (Function.update_of_ne ?_ _ _).trans byte⟩
      exact fun place => same (backed.injective spare usable' usable mapped' mapped place)

/-- **One operation.** -/
theorem step_flat (located : Located this) (spare : Spare this s)
    (backed : Backed this s sys f d m faults handed) {op : ByteOp} (legal : (flat this s).legal f op) :
    ∃ out sys' f' d' m' faults' handed', sys.step this op = some (out, sys') ∧
      (flat this s).next f op out f' ∧ Backed this s sys' f' d' m' faults' handed' := by
  cases op with
  | read vma =>
    obtain ⟨usable, room⟩ := legal
    obtain ⟨frame, sys', d', m', faults', handed', accessed, backed', mapped⟩ :=
      access_spec located spare backed room false
    have read := backed'.know located spare usable mapped (sys'.machine.memory (physical frame vma))
    rw [Function.update_eq_self] at read
    refine ⟨some (sys'.machine.memory (physical frame vma)), sys', _, _, _, _, _, ?_,
      ⟨_, rfl, fun known isKnown => ?_, rfl⟩, read⟩
    · show (access this sys vma false).bind _ = _
      rw [accessed]
      rfl
    · rw [← Flat.contents_use f vma] at isKnown
      obtain ⟨frame', mapped', byte⟩ := backed'.contents vma known usable isKnown
      rw [mapped, Option.some.injEq] at mapped'
      rw [mapped', byte]
  | write vma value =>
    obtain ⟨usable, room⟩ := legal
    obtain ⟨frame, sys', d', m', faults', handed', accessed, backed', mapped⟩ :=
      access_spec located spare backed room true
    refine ⟨none, _, _, _, _, _, _, ?_, ⟨rfl, rfl⟩, backed'.know located spare usable mapped value⟩
    show (access this sys vma true).bind _ = _
    rw [accessed]
    rfl
  | evict page =>
    exact ⟨none, _, f, d, m, faults, handed, rfl, ⟨rfl, rfl⟩,
      backed.remember (backed.coherent.evict page)⟩

/-- **Runs from a state that is backed**: what is true of all of those is true throughout. -/
theorem refines_of_backed (located : Located this) (spare : Spare this s)
    {agree : System → Flat → Prop}
    (implies : ∀ sys f d m faults handed, Backed this s sys f d m faults handed → agree sys f)
    (backed : Backed this s sys f d m faults handed) (ops : List ByteOp) :
    Runs.Refines (System.step this) (flat this s) agree sys f ops := by
  refine Runs.refines_of_simulation
    (fun sys f => ∃ d m faults handed, Backed this s sys f d m faults handed) ?_ ?_ ops _ _
    ⟨d, m, faults, handed, backed⟩
  · rintro sys f op ⟨d, m, faults, handed, backed⟩ legal
    obtain ⟨out, sys', f', d', m', faults', handed', stepped, accepted, backed'⟩ :=
      step_flat located spare backed legal
    exact ⟨out, sys', f', stepped, accepted, d', m', faults', handed', backed'⟩
  · rintro sys f ⟨d, m, faults, handed, backed⟩
    exact implies sys f d m faults handed backed

theorem Backed.sparing (backed : Backed this s sys f d m faults handed) : Sparing s sys f := by
  refine ⟨?_, backed.coherent⟩
  rw [backed.paged.stack, List.length_append, backed.taken]

end Access

/-! ### From power-on -/

/-- The tables `kern_entry` writes lie below the kernel. -/
theorem startup_backed {this : UInt32} (located : Located this) {s : Pmm} (spare : Spare this s)
    {memory : Memory} (empty : Holds memory (PMA this) .zero) :
    ∃ machine d m, InMemory.initVmm this (kernEntry memory) = some ((), machine) ∧
      Backed this s ⟨machine, s⟩ (Flat.start (kernEntry memory).memory) d m [] [] := by
  obtain ⟨d, memory', ran, started, serves, mapped, within⟩ := startup_spec located s empty
  obtain ⟨k, m, started', paged⟩ := initVmm_paged located.aligned spare.fits
  rw [started, Option.some.injEq] at started'
  subst started'
  have frames : ∀ vma, m.frameOf (page vma)
      = if InKernelWindow vma then some (PMA vma &&& PAGE_MASK) else none :=
    fun vma => (paged.mirrors.same vma).symm.trans (mapped vma)
  have forgetful : Coherent Set.univ ⟨memory', PMA this, fun _ => none⟩ := by
    intro address frame found
    cases found
  refine ⟨_, d, m, ran, serves, rfl, forgetful, paged, ?_, rfl, rfl, rfl,
    fun _ inside => absurd inside List.not_mem_nil, ?_, ?_⟩
  · exact Finset.Subset.refl _
  · intro vma outside found
    rw [frames, if_neg outside] at found
    cases found
  · intro vma value usable known
    by_cases inside : InKernelWindow vma
    · simp only [Flat.start, if_pos inside, Option.some.injEq] at known
      refine ⟨_, paged.window vma inside, ?_⟩
      rw [physical_window inside, ← known]
      exact within _ (usable inside).1
    · simp only [Flat.start, if_neg inside] at known
      cases known

/-- **Demand-paged memory is flat memory.** From whatever was in memory besides an empty dictionary,
`kern_entry` and `init_vmm` come back. From then on every read at a usable address, in whatever order
with writes and with translations forgotten, answers the byte last written or read there, or first what
the kernel window held. The handler always comes back, takes one frame for each page, and no remembered
translation is ever stale. -/
theorem paged_memory_is_flat {this : UInt32} (located : Located this) {s : Pmm} (spare : Spare this s)
    {memory : Memory} (empty : Holds memory (PMA this) .zero) :
    ∃ machine, InMemory.initVmm this (kernEntry memory) = some ((), machine) ∧ ∀ ops,
      Runs.Refines (System.step this) (flat this s) (Sparing s) ⟨machine, s⟩
        (Flat.start (kernEntry memory).memory) ops := by
  obtain ⟨machine, d, m, ran, backed⟩ := startup_backed located spare empty
  exact ⟨machine, ran, fun ops =>
    refines_of_backed located spare (fun _ _ _ _ _ _ backed => backed.sparing) backed ops⟩

/-- A dictionary at 0xC0110000, in a memory of zeros, and a stack of three frames: two pages are used, and
a translation is forgotten in between. -/
theorem kernel_memory_is_flat :
    ∃ s machine, [0x200000, 0x201000, 0x202000].foldlM pmmFreePage Pmm.empty = some s ∧
      InMemory.initVmm 0xC0110000 (kernEntry fun _ => 0) = some ((), machine) ∧
      Runs.Refines (System.step 0xC0110000) (flat 0xC0110000 s) (Sparing s) ⟨machine, s⟩
        (Flat.start (kernEntry fun _ => 0).memory)
        [.write 0x10002004 7, .evict 0x10002, .write 0x20000004 9, .read 0x10002004] := by
  obtain ⟨s, ran, pushed, fits⟩ := Pmm.free_all_spec [0x200000, 0x201000, 0x202000] (by decide)
  have located : Located 0xC0110000 := ⟨by decide, by decide, by decide⟩
  have whole : ∀ base ∈ s.free, base &&& PAGE_MASK = base ∧ 0x200000 ≤ base.toNat := by
    rw [pushed]
    exact List.all_iff_forall_prop.mp (by decide)
  have spare : Spare 0xC0110000 s := by
    refine ⟨fits, by rw [pushed]; decide, fun base inside => (whole base inside).1, ?_⟩
    intro base inside vma object
    obtain ⟨aligned, above⟩ := whole base inside
    have below : (physical base vma).toNat < (PMA 0xC0110000).toNat + sizeofPageDictionary := object.2
    have limit : (PMA 0xC0110000).toNat + sizeofPageDictionary = 0x191004 := by decide
    rw [toNat_physical (pageBase_eq_iff.mp aligned)] at below
    omega
  obtain ⟨machine, started, runs⟩ := paged_memory_is_flat located spare (blank_holds _)
  exact ⟨s, machine, ran, started, runs _⟩

end Sprite.Paging

/-
**The page tables, worked on through themselves**, after `src/include/vmm.h`.

The code gets at the dictionary by virtual addresses, which the machine translates with the very words
that are read and written. The operations are followed here word by word.

* `InMemory` — `at`, `operator[]` and `insert` as programs that read and write words.
* `Serves` — the tables by which the machine translates let the code get at the dictionary: these are
  the dictionary itself, or those of `kern_entry`.
* `at_does`, `operatorIndex_does`, `insert_does` — **each operation does in memory what it does to the
  object**, no translation is missing on the way, and none remembered becomes stale.
-/
import Sprite.Paging.Boot
import Sprite.Paging.Object

namespace Sprite.Paging

open Words Mmu PageTable PageDictionary

/-! ### The operations, word by word -/

namespace InMemory

variable {Frames : Type} (pmmAllocPage : Frames → Option (UInt32 × Frames))

/-- `&entries[table_index(vma)]` of the page table at an address. -/
def pteAddr (table vma : UInt32) : UInt32 := table + 4 * UInt32.ofNat (tableIndex vma).val

/-- `PageTable::at(vma)`. -/
def tableAt (table vma : UInt32) : Virtual UInt32 := do
  let pte ← load (pteAddr table vma)
  if pte &&& PAGE_PRESENT = 0 then return 0
  else return pte &&& ENTRY_ADDR ||| pageOffset vma

/-- `if (!(pte & PAGE_PRESENT)) pte = pmm_alloc_page() | PAGE_PRESENT | PAGE_WRITE`. -/
def ensurePage (table : UInt32) (frames : Frames) (vma : UInt32) : Virtual Frames := do
  let pte ← load (pteAddr table vma)
  if pte &&& PAGE_PRESENT = 0 then do
    let (page, frames) ← StateT.lift (pmmAllocPage frames)
    store (pteAddr table vma) (page ||| PAGE_PRESENT ||| PAGE_WRITE)
    return frames
  else return frames

/-- `PageTable::operator[](vma)`. -/
def tableOperatorIndex (table : UInt32) (frames : Frames) (vma : UInt32) :
    Virtual (UInt32 × Frames) := do
  let frames ← ensurePage pmmAllocPage table frames vma
  let pte ← load (pteAddr table vma)
  return (pte &&& ENTRY_ADDR ||| pageOffset vma, frames)

/-- `PageTable::insert(vma, pma)`. -/
def tableInsert (table vma pma : UInt32) : Virtual Unit :=
  store (pteAddr table vma) (pma &&& ENTRY_ADDR ||| PAGE_PRESENT ||| PAGE_WRITE)

/-- `&entries[dict_index(vma)]` of the dictionary at `this`. -/
def pdeAddr (this vma : UInt32) : UInt32 := (Field.entry (dictIndex vma)).address this

def allocTable (this : UInt32) : Virtual UInt32 := do
  let table_count ← load (Field.table_count.address this)
  if table_count < UInt32.ofNat TABLE_RESERVE then do
    store (Field.table_count.address this) (table_count + 1)
    return reserveAddr this table_count
  else failure

/-- `if (!(pde & PAGE_PRESENT)) set_page_table(pt, alloc_table())`. -/
def ensureTable (this vma : UInt32) : Virtual Unit := do
  let pde ← load (pdeAddr this vma)
  if pde &&& PAGE_PRESENT = 0 then do
    let table ← allocTable this
    store (pdeAddr this vma) (setPde table)
  else return ()

/-- What `operator[]` and `insert` begin with; the address of the page table. -/
def retrieveTable (this vma : UInt32) : Virtual UInt32 := do
  ensureTable this vma
  let pde ← load (pdeAddr this vma)
  return realPageTable pde

/-- `PageDictionary::at(vma)`. -/
def at_ (this vma : UInt32) : Virtual UInt32 := do
  let pde ← load (pdeAddr this vma)
  if pde &&& PAGE_PRESENT = 0 then return 0
  else tableAt (realPageTable pde) vma

/-- `PageDictionary::operator[](vma)`. -/
def operatorIndex (this : UInt32) (frames : Frames) (vma : UInt32) : Virtual (UInt32 × Frames) := do
  let table ← retrieveTable this vma
  tableOperatorIndex pmmAllocPage table frames vma

/-- `PageDictionary::insert(vma, pma)`. -/
def insert (this vma pma : UInt32) : Virtual Unit := do
  let table ← retrieveTable this vma
  tableInsert table vma pma

end InMemory

/-! ### Getting at the dictionary -/

/-- How the machine translates while the dictionary is worked on: by the tables of `kern_entry`, or by
the dictionary, which maps the kernel window. -/
inductive Through (this : UInt32) (memory : Memory) (d : PageDictionary) :
    UInt32 → Set UInt32 → Prop where
  | boot (tables : BootTables memory) : Through this memory d pdeTmp bootPages
  | self (window : ∀ vma, InKernelWindow vma → frameOf this d vma = some (PMA vma &&& PAGE_MASK)) :
      Through this memory d (PMA this) Set.univ

/-- The dictionary is in memory, and the code gets at it. -/
structure Serves (this cr3 : UInt32) (pages : Set UInt32) (memory : Memory) (d : PageDictionary) :
    Prop where
  holds : Holds memory (PMA this) d
  pointed : Pointed this d
  through : Through this memory d cr3 pages

/-- Every frame that was there is there. -/
def Grows (this : UInt32) (d d' : PageDictionary) : Prop :=
  ∀ vma base, frameOf this d vma = some base → frameOf this d' vma = some base

theorem Grows.refl (this : UInt32) (d : PageDictionary) : Grows this d d := fun _ _ found => found

section Serves

variable {this cr3 : UInt32} {pages : Set UInt32} {memory : Memory} {d : PageDictionary}

theorem Located.field_window (located : Located this) (field : Field) :
    InKernelWindow (field.address this) := by
  have place := field.toNat_address located.fits
  have inside := field.offset_fits
  have low := located.low
  have high := located.high
  rw [inKernelWindow_iff, place]
  omega

/-- The frame of a word of the object, and the place in it, are those of its physical address. -/
theorem Located.physical_field (located : Located this) (field : Field) :
    physical (PMA (field.address this) &&& PAGE_MASK) (field.address this)
      = field.address (PMA this) := by
  have place := field.toNat_address located.fits
  have inside := field.offset_fits
  have low := located.low
  have fits := located.pma_fits
  have place' := field.toNat_address located.pma_room
  have pma := toNat_pma_of_le (field.address this) (by omega)
  have base := toNat_pageBase (PMA (field.address this))
  have placed := located.toNat_pma
  have mask : (PMA (field.address this) &&& PAGE_MASK).toNat
    = (PMA (field.address this)).toNat / 4096 * 4096 := base
  rw [← UInt32.toNat_inj, toNat_physical (by omega), mask]
  omega

/-- The object is no part of the tables of `kern_entry`. -/
theorem Located.boot_apart (located : Located this) {memory' : Memory}
    (within : Within (objectArea (PMA this)) memory memory') :
    ∀ byte ∈ bootArea, memory' byte = memory byte := by
  have low := located.low
  have placed := located.toNat_pma
  intro byte inside
  have below : byte.toNat < 0x4000 := inside.2
  refine within byte fun object => ?_
  have above : (PMA this).toNat ≤ byte.toNat := object.1
  omega

/-- The translation of a word of the object. -/
theorem Serves.walk_field (located : Located this) (serves : Serves this cr3 pages memory d)
    (field : Field) :
    pageNumber (field.address this) ∈ pages ∧
      walk memory cr3 (field.address this) = some (PMA (field.address this) &&& PAGE_MASK) := by
  have window := located.field_window field
  cases serves.through with
  | boot tables =>
    have range := inKernelWindow_iff.mp window
    have number := pageNumber_val (field.address this)
    refine ⟨Or.inr ?_, tables.walk_window window⟩
    omega
  | self mapped =>
    refine ⟨trivial, ?_⟩
    rw [walk_eq located serves.holds serves.pointed]
    exact mapped _ window

/-- **Reading a word of the object.** -/
theorem Serves.load (located : Located this) (serves : Serves this cr3 pages memory d)
    (field : Field) : Does pages (Mmu.load (field.address this)) cr3 memory (d.get field) memory := by
  obtain ⟨inside, walked⟩ := serves.walk_field located field
  have does := Does.load inside walked
  rwa [located.physical_field, serves.holds] at does

/-- **Writing a word of the object**, so that no frame is lost: nothing that is remembered becomes
stale, not even of the addresses by which the object is got at. -/
theorem Serves.store (located : Located this) (serves : Serves this cr3 pages memory d)
    (field : Field) (value : UInt32) (pointed : Pointed this (d.set value field))
    (grows : Grows this d (d.set value field)) :
    ∃ memory', Does pages (Mmu.store (field.address this) value) cr3 memory () memory' ∧
      Serves this cr3 pages memory' (d.set value field) ∧
      Within (objectArea (PMA this)) memory memory' := by
  have fits := located.pma_room
  obtain ⟨inside, walked⟩ := serves.walk_field located field
  have holds := serves.holds.store fits field value
  have within : Within (objectArea (PMA this)) memory _ := store_within fits field value
  have place := located.physical_field field
  have extending : Extends pages cr3 memory (store32 memory (field.address (PMA this)) value) ∧
      Through this (store32 memory (field.address (PMA this)) value) (d.set value field) cr3 pages := by
    cases serves.through with
    | boot tables =>
      have same := located.boot_apart within
      exact ⟨tables.extends same, .boot (tables.congr same)⟩
    | self mapped =>
      refine ⟨fun address frame _ found => ?_, .self fun vma window => grows _ _ (mapped vma window)⟩
      rw [walk_eq located serves.holds serves.pointed] at found
      rw [walk_eq located holds pointed]
      exact grows _ _ found
  refine ⟨_, ?_, ⟨holds, pointed, extending.2⟩, within⟩
  have does : Does pages (Mmu.store (field.address this) value) cr3 memory () _ :=
    Does.store inside walked (by rw [place]; exact extending.1)
  rwa [place] at does

end Serves

/-! ### The operations -/

section Operations

variable {this cr3 : UInt32} {pages : Set UInt32} {memory : Memory} {d : PageDictionary}

/-- The address of a page table that a directory word leads to. -/
theorem realPageTable_eq (located : Located this) {pde : UInt32} {t : Fin TABLE_RESERVE}
    (found : reserveAt this (realPageTable pde) = some t) (vma : UInt32) :
    InMemory.pteAddr (realPageTable pde) vma = (Field.cell t (tableIndex vma)).address this := by
  have table := toNat_of_reserveAt located found
  have place := (Field.cell t (tableIndex vma)).toNat_address located.fits
  have inside := (Field.cell t (tableIndex vma)).offset_fits
  have low := located.low
  have high := located.high
  have placed := located.toNat_pma
  have index : (UInt32.ofNat (tableIndex vma).val).toNat = (tableIndex vma).val :=
    UInt32.toNat_ofNat_of_lt' (lt_of_lt_of_le (Field.entry_lt (tableIndex vma)) (by decide))
  have pointer : realPageTable pde = base pde + PAGE_OFFSET := by
    rw [realPageTable, VMA, UInt32.and_comm]
    rfl
  rw [← UInt32.toNat_inj, place, InMemory.pteAddr, pointer, UInt32.toNat_add, UInt32.toNat_add,
    UInt32.toNat_mul, index, table, show PAGE_OFFSET.toNat = 0xC0000000 from rfl,
    show (4 : UInt32).toNat = 4 from rfl]
  simp only [Field.offset] at inside ⊢
  omega

theorem set_cell (d : PageDictionary) (t : Fin TABLE_RESERVE) (vma value : UInt32) :
    d.set value (.cell t (tableIndex vma)) = d.setTable t ((d.reserve t).setPte vma value) := rfl

/-- **Retrieving the page table.** -/
theorem retrieveTable_does (located : Located this) (wired : Wired this d)
    (serves : Serves this cr3 pages memory d) {vma : UInt32}
    (fits : (insert (dictIndex vma) (view this d).touched).card ≤ TABLE_RESERVE) :
    ∃ t d' pde memory', d.retrieveTable this vma = some (t, d') ∧ Wired this d' ∧
      (view this d').leads (dictIndex vma) = some t ∧
      (∀ other, frameOf this d' other = frameOf this d other) ∧
      reserveAt this (realPageTable pde) = some t ∧
      Does pages (InMemory.retrieveTable this vma) cr3 memory (realPageTable pde) memory' ∧
      Serves this cr3 pages memory' d' ∧ Within (objectArea (PMA this)) memory memory' := by
  obtain ⟨t, d', ran, wired', leads, -, same⟩ := retrieveTable_spec located.aligned wired vma fits
  by_cases absent : d.entries (dictIndex vma) &&& PAGE_PRESENT = 0
  · have free : (view this d).leads (dictIndex vma) = none := if_pos absent
    have room : d.table_count.toNat < TABLE_RESERVE := wired.sound.room free fits
    have asserted : d.table_count < UInt32.ofNat TABLE_RESERVE := by
      rw [UInt32.lt_iff_toNat_lt]
      exact room
    -- The table is handed out, and then put under its directory slot.
    obtain ⟨middle, counted, serves', within⟩ := serves.store located .table_count (d.table_count + 1)
      serves.pointed (Grows.refl this d)
    have entry : (linked this d (dictIndex vma)).entries (dictIndex vma)
        = setPde (reserveAddr this d.table_count) := Function.update_self _ _ _
    have result : t = ⟨d.table_count.toNat, room⟩ ∧ d' = linked this d (dictIndex vma) := by
      unfold PageDictionary.retrieveTable at ran
      rw [ensureTable_absent absent room, Option.bind_eq_bind, Option.bind_some, entry,
        reserveAt_reserveAddr located.aligned room] at ran
      simp only [Option.bind_eq_bind, Option.bind_some, Option.pure_def, Option.some.injEq,
        Prod.mk.injEq] at ran
      exact ⟨ran.1.symm, ran.2.symm⟩
    obtain ⟨rfl, rfl⟩ := result
    obtain ⟨memory', stored, serves'', within'⟩ := serves'.store located (.entry (dictIndex vma))
      (setPde (reserveAddr this d.table_count)) wired'.pointed
      (fun other base found => (same other).trans found)
    have again := serves''.load located (.entry (dictIndex vma))
    rw [PageDictionary.get_set_self] at again
    refine ⟨_, _, setPde (reserveAddr this d.table_count), memory', ran, wired', leads, same,
      reserveAt_reserveAddr located.aligned room, ?_, serves'', within.trans within'⟩
    have handed : Does pages (InMemory.allocTable this) cr3 memory (reserveAddr this d.table_count)
        middle := by
      refine (serves.load located .table_count).bind ?_
      rw [if_pos (show d.get .table_count < _ from asserted)]
      exact counted.bind (Does.pure _)
    have ensured : Does pages (InMemory.ensureTable this vma) cr3 memory () memory' := by
      refine (serves.load located (.entry (dictIndex vma))).bind ?_
      rw [if_pos (show d.get (.entry (dictIndex vma)) &&& PAGE_PRESENT = 0 from absent)]
      exact handed.bind stored
    exact ensured.bind (again.bind (Does.pure _))
  · obtain ⟨t', leads', found⟩ := wired.table absent
    have kept : d.ensureTable this (dictIndex vma) = some d := if_neg absent
    have result : t = t' ∧ d' = d := by
      unfold PageDictionary.retrieveTable at ran
      rw [kept, Option.bind_eq_bind, Option.bind_some, found] at ran
      simp only [Option.bind_eq_bind, Option.bind_some, Option.pure_def, Option.some.injEq,
        Prod.mk.injEq] at ran
      exact ⟨ran.1.symm, ran.2.symm⟩
    obtain ⟨rfl, rfl⟩ := result
    refine ⟨t, d', d'.entries (dictIndex vma), memory, ran, wired', leads, same, found, ?_, serves,
      Within.refl _ _⟩
    have ensured : Does pages (InMemory.ensureTable this vma) cr3 memory () memory := by
      refine (serves.load located (.entry (dictIndex vma))).bind ?_
      rw [if_neg (show ¬ d'.get (.entry (dictIndex vma)) &&& PAGE_PRESENT = 0 from absent)]
      exact Does.pure ()
    exact ensured.bind ((serves.load located (.entry (dictIndex vma))).bind (Does.pure _))

/-- **`at`** reads what the object says. -/
theorem at_does (located : Located this) (wired : Wired this d)
    (serves : Serves this cr3 pages memory d) (vma : UInt32) :
    Does pages (InMemory.at_ this vma) cr3 memory (translation (frameOf this d vma) vma) memory := by
  refine (serves.load located (.entry (dictIndex vma))).bind ?_
  by_cases absent : d.entries (dictIndex vma) &&& PAGE_PRESENT = 0
  · rw [if_pos (show d.get (.entry (dictIndex vma)) &&& PAGE_PRESENT = 0 from absent),
      frameOf_absent absent]
    exact Does.pure 0
  · obtain ⟨t, leads, found⟩ := wired.table absent
    rw [if_neg (show ¬ d.get (.entry (dictIndex vma)) &&& PAGE_PRESENT = 0 from absent),
      ← frame_of_leads leads, ← table_at_spec]
    have entry := serves.load located (.cell t (tableIndex vma))
    rw [← realPageTable_eq located found] at entry
    refine entry.bind ?_
    show Does pages (if (d.reserve t).entries (tableIndex vma) &&& PAGE_PRESENT = 0 then _ else _) _ _
      (if (d.reserve t).entries (tableIndex vma) &&& PAGE_PRESENT = 0 then _ else _) _
    split
    · exact Does.pure 0
    · exact Does.pure _

/-- **`insert`**, on a page that has no other frame. -/
theorem insert_does (located : Located this) (wired : Wired this d)
    (serves : Serves this cr3 pages memory d) {vma pma : UInt32}
    (fits : (insert (dictIndex vma) (view this d).touched).card ≤ TABLE_RESERVE)
    (fresh : ∀ base ∈ frameOf this d vma, base = pma &&& PAGE_MASK) :
    ∃ d' memory', d.insert this vma pma = some d' ∧
      Does pages (InMemory.insert this vma pma) cr3 memory () memory' ∧
      Serves this cr3 pages memory' d' ∧ Within (objectArea (PMA this)) memory memory' := by
  obtain ⟨t, d', pde, middle, ran, wired', leads, same, found, retrieved, serves', within⟩ :=
    retrieveTable_does located wired serves fits
  obtain ⟨wired'', -, frames⟩ := setPte_spec wired' leads (pma &&& ENTRY_ADDR)
  have base : pma &&& ENTRY_ADDR &&& ENTRY_ADDR = pma &&& PAGE_MASK := by
    rw [UInt32.and_assoc, UInt32.and_self]
    rfl
  have grows : Grows this d' (d'.set (pma &&& ENTRY_ADDR ||| PAGE_PRESENT ||| PAGE_WRITE)
      (.cell t (tableIndex vma))) := by
    intro other frame known
    rw [set_cell, frames, base]
    split_ifs with samePage
    · rw [same, frameOf, (indices_eq_iff.mpr samePage).1, (indices_eq_iff.mpr samePage).2] at known
      exact congrArg some (fresh frame known).symm
    · exact known
  obtain ⟨memory', stored, serves'', within'⟩ := serves'.store located (.cell t (tableIndex vma))
    (pma &&& ENTRY_ADDR ||| PAGE_PRESENT ||| PAGE_WRITE) wired''.pointed grows
  refine ⟨_, memory', ?_, ?_, serves'', within.trans within'⟩
  · unfold PageDictionary.insert
    rw [ran]
    rfl
  · rw [← realPageTable_eq located found] at stored
    exact retrieved.bind stored

/-- **`operator[]`**: the answer, the frames left and the tables are those of the object. -/
theorem operatorIndex_does {Frames : Type} {pmmAllocPage : Frames → Option (UInt32 × Frames)}
    {frames frames' : Frames} (located : Located this) (wired : Wired this d)
    (serves : Serves this cr3 pages memory d) {vma pma : UInt32} {d' : PageDictionary}
    (fits : (insert (dictIndex vma) (view this d).touched).card ≤ TABLE_RESERVE)
    (ran : d.operatorIndex pmmAllocPage this frames vma = some (pma, d', frames')) :
    ∃ memory', Does pages (InMemory.operatorIndex pmmAllocPage this frames vma) cr3 memory
        (pma, frames') memory' ∧
      Serves this cr3 pages memory' d' ∧ Within (objectArea (PMA this)) memory memory' := by
  obtain ⟨t, d₁, pde, middle, retrieved, wired₁, leads, same, found, does, serves₁, within⟩ :=
    retrieveTable_does located wired serves fits
  have entry := serves₁.load located (.cell t (tableIndex vma))
  rw [← realPageTable_eq located found] at entry
  unfold PageDictionary.operatorIndex at ran
  rw [retrieved, Option.bind_eq_bind, Option.bind_some] at ran
  unfold PageTable.operatorIndex at ran
  by_cases absent : (d₁.reserve t).entries (tableIndex vma) &&& PAGE_PRESENT = 0
  · simp only [if_pos absent] at ran
    cases allocated : pmmAllocPage frames with
    | none =>
      rw [allocated] at ran
      cases ran
    | some answer =>
      obtain ⟨page, frames₁⟩ := answer
      rw [allocated] at ran
      simp only [Option.bind_eq_bind, Option.bind_some, Option.pure_def, Option.some.injEq,
        Prod.mk.injEq] at ran
      obtain ⟨rfl, rfl, rfl⟩ := ran
      obtain ⟨wired₂, -, maps⟩ := setPte_spec wired₁ leads page
      have unmapped : frameOf this d₁ vma = none := by
        rw [← frame_of_leads leads, frame, if_pos absent]
      have grows : Grows this d₁ (d₁.set (page ||| PAGE_PRESENT ||| PAGE_WRITE)
          (.cell t (tableIndex vma))) := by
        intro other known mapped
        rw [set_cell, maps, if_neg ?_]
        · exact mapped
        · intro samePage
          rw [frameOf, (indices_eq_iff.mpr samePage).1, (indices_eq_iff.mpr samePage).2] at mapped
          exact absurd (unmapped.symm.trans mapped) (by simp)
      obtain ⟨memory', stored, serves₂, within'⟩ := serves₁.store located
        (.cell t (tableIndex vma)) (page ||| PAGE_PRESENT ||| PAGE_WRITE) wired₂.pointed grows
      have again := serves₂.load located (.cell t (tableIndex vma))
      rw [PageDictionary.get_set_self, ← realPageTable_eq located found] at again
      rw [← realPageTable_eq located found] at stored
      have ensured : Does pages (InMemory.ensurePage pmmAllocPage (realPageTable pde) frames vma) cr3
          middle frames₁ memory' := by
        refine entry.bind ?_
        rw [if_pos (show d₁.get (.cell t (tableIndex vma)) &&& PAGE_PRESENT = 0 from absent)]
        exact (Does.lift allocated).bind (stored.bind (Does.pure frames₁))
      exact ⟨memory', does.bind (ensured.bind (again.bind (Does.pure _))), serves₂,
        within.trans within'⟩
  · simp only [if_neg absent, Option.bind_eq_bind, Option.bind_some, Option.pure_def,
      Option.some.injEq, Prod.mk.injEq] at ran
    obtain ⟨rfl, rfl, rfl⟩ := ran
    have unchanged : d₁.setTable t (d₁.reserve t) = d₁ := by
      rw [setTable, Function.update_eq_self]
    rw [unchanged]
    have ensured : Does pages (InMemory.ensurePage pmmAllocPage (realPageTable pde) frames vma) cr3
        middle frames middle := by
      refine entry.bind ?_
      rw [if_neg (show ¬ d₁.get (.cell t (tableIndex vma)) &&& PAGE_PRESENT = 0 from absent)]
      exact Does.pure frames
    exact ⟨middle, does.bind (ensured.bind (entry.bind (Does.pure _))), serves₁, within⟩

end Operations

end Sprite.Paging

/-
**The page dictionary as a table in two levels.**

* `view` — the dictionary with its words decoded: which table of `reserve` a directory word leads to,
  and which frame an entry of a table stands for.
* `Wired` — every present directory word leads to a table of its own in `reserve`, and as many are
  handed out as there are present words.
* `indices_eq_iff` — two addresses use the same entry only if they are on the same page.
* `at_spec`, `insert_spec`, `operatorIndex_mapped`, `operatorIndex_unmapped` — the operations, each
  by what it does to `frameOf`.
-/
import Sprite.Paging.Stack
import Sprite.Paging.Vmm
import Sprite.Lib.TwoLevel
import Sprite.Lib.Words

set_option linter.unusedSectionVars false

namespace Sprite.Paging

open TwoLevel Words PageTable PageDictionary

/-! ### Addresses and indices -/

/-- The number of the page of an address. -/
def page (vma : UInt32) : UInt32 := vma >>> 12

theorem toNat_tenBits (x : UInt32) : (x &&& 0x3FF).toNat = x.toNat % 1024 := by
  rw [UInt32.toNat_and, show (0x3FF : UInt32).toNat = 2 ^ 10 - 1 from rfl,
    Nat.and_two_pow_sub_one_eq_mod]

theorem tableIndex_val (vma : UInt32) : (tableIndex vma).val = vma.toNat / 4096 % 1024 := by
  show (vma >>> 12 &&& 0x3FF).toNat = _
  rw [toNat_tenBits, UInt32.toNat_shiftRight, Nat.shiftRight_eq_div_pow]
  rfl

theorem dictIndex_val (vma : UInt32) : (dictIndex vma).val = vma.toNat / 4194304 := by
  have small := vma.toNat_lt
  show (vma >>> 22 &&& 0x3FF).toNat = _
  rw [toNat_tenBits, UInt32.toNat_shiftRight, Nat.shiftRight_eq_div_pow]
  show vma.toNat / 4194304 % 1024 = _
  omega

theorem page_val (vma : UInt32) : (page vma).toNat = vma.toNat / 4096 := by
  rw [page, UInt32.toNat_shiftRight, Nat.shiftRight_eq_div_pow]
  rfl

/-- **Two addresses share both indices only if they share the page.** -/
theorem indices_eq_iff {vma vma' : UInt32} :
    dictIndex vma' = dictIndex vma ∧ tableIndex vma' = tableIndex vma ↔ page vma' = page vma := by
  have small := vma.toNat_lt
  have small' := vma'.toNat_lt
  rw [Fin.ext_iff, Fin.ext_iff, ← UInt32.toNat_inj, dictIndex_val, dictIndex_val, tableIndex_val,
    tableIndex_val, page_val, page_val]
  omega

/-! ### Words with flags -/

theorem flags_present (x : UInt32) : (x ||| PAGE_PRESENT ||| PAGE_WRITE) &&& PAGE_PRESENT ≠ 0 := by
  rw [UInt32.or_assoc, UInt32.or_comm PAGE_PRESENT, ← UInt32.or_assoc, or_and_self]
  decide

theorem flags_base (x : UInt32) :
    (x ||| PAGE_PRESENT ||| PAGE_WRITE) &&& ENTRY_ADDR = x &&& ENTRY_ADDR := by
  have write : (x ||| PAGE_PRESENT ||| PAGE_WRITE) &&& ENTRY_ADDR
      = (x ||| PAGE_PRESENT) &&& ENTRY_ADDR := pageBase_or _ (by decide)
  exact write.trans (pageBase_or _ (by decide))

/-- A directory word leads back to the table address it was made from. -/
theorem realPageTable_setPde {raw : UInt32} (aligned : raw &&& PAGE_MASK = raw) :
    realPageTable (setPde raw) = raw := by
  have small := raw.toNat_lt
  have whole : raw.toNat % 4096 = 0 := pageBase_eq_iff.mp aligned
  have physical : PMA raw &&& ENTRY_ADDR = PMA raw := by
    refine pageBase_eq_iff.mpr ?_
    rw [PMA, UInt32.toNat_sub, show PAGE_OFFSET.toNat = 3221225472 from rfl]
    omega
  have base : raw &&& ENTRY_ADDR = raw := aligned
  rw [realPageTable, setPde, base, UInt32.and_comm, flags_base, physical, VMA, PMA,
    UInt32.sub_add_cancel]

section Object

variable {this : UInt32} (aligned : this &&& PAGE_MASK = this)

include aligned

theorem reserveAddr_aligned (i : UInt32) : reserveAddr this i &&& PAGE_MASK = reserveAddr this i := by
  have whole : this.toNat % 4096 = 0 := pageBase_eq_iff.mp aligned
  refine pageBase_eq_iff.mpr ?_
  rw [reserveAddr, UInt32.toNat_add, UInt32.toNat_add, UInt32.toNat_mul,
    show (4096 : UInt32).toNat = 4096 from rfl]
  omega

/-- **The pointer made for a table of `reserve` leads to that table.** -/
theorem reserveAt_reserveAddr {i : UInt32} (inside : i.toNat < TABLE_RESERVE) :
    reserveAt this (realPageTable (setPde (reserveAddr this i))) = some ⟨i.toNat, inside⟩ := by
  have offset : (reserveAddr this i - (this + 4096)).toNat = 4096 * i.toNat := by
    have bound : TABLE_RESERVE = 128 := rfl
    rw [reserveAddr, UInt32.add_comm, UInt32.add_sub_cancel, UInt32.toNat_mul,
      show (4096 : UInt32).toNat = 4096 from rfl]
    exact Nat.mod_eq_of_lt (by omega)
  rw [realPageTable_setPde (reserveAddr_aligned aligned i)]
  simp only [reserveAt, offset, Nat.mul_mod_right, Nat.mul_div_cancel_left _ (by decide : 0 < 4096),
    true_and]
  exact dif_pos inside

end Object

/-! ### The dictionary as a table in two levels -/

/-- The frame an entry of a page table stands for. -/
def frame (t : PageTable) (i : Fin TABLE_MAX_SIZE) : Option UInt32 :=
  if t.entries i &&& PAGE_PRESENT = 0 then none else some (t.entries i &&& ENTRY_ADDR)

/-- The table a directory word leads to. -/
def leadsTo (this pde : UInt32) : Option (Fin TABLE_RESERVE) :=
  if pde &&& PAGE_PRESENT = 0 then none else reserveAt this (realPageTable pde)

def view (this : UInt32) (d : PageDictionary) :
    Table (Fin DICTIONARY_MAX_SIZE) (Fin TABLE_MAX_SIZE) UInt32 TABLE_RESERVE where
  leads := fun i => leadsTo this (d.entries i)
  cell := fun t i => frame (d.reserve t) i
  used := d.table_count.toNat

structure Wired (this : UInt32) (d : PageDictionary) : Prop where
  sound : Sound (view this d)
  pointed : ∀ i, d.entries i &&& PAGE_PRESENT ≠ 0 → (leadsTo this (d.entries i)).isSome

/-- The frame the dictionary holds for the page of an address. -/
def frameOf (this : UInt32) (d : PageDictionary) (vma : UInt32) : Option UInt32 :=
  (view this d).lookup (dictIndex vma) (tableIndex vma)

/-- What `at` makes of it. -/
def translation (frame : Option UInt32) (vma : UInt32) : UInt32 :=
  match frame with
  | some base => base ||| pageOffset vma
  | none => 0

theorem zero_wired (this : UInt32) : Wired this .zero := by
  have absent : ∀ i, PageDictionary.zero.entries i &&& PAGE_PRESENT = 0 := fun _ =>
    UInt32.zero_and
  have leadsNowhere : ∀ i, (view this .zero).leads i = none := fun i => if_pos (absent i)
  refine ⟨⟨?_, ?_, fun _ => if_pos UInt32.zero_and, ?_⟩, fun i present => absurd (absent i) present⟩
  · intro i t leads
    rw [leadsNowhere] at leads
    cases leads
  · intro i i' t leads
    rw [leadsNowhere] at leads
    cases leads
  · show (view this .zero).touched.card = 0
    rw [Finset.card_eq_zero, Finset.eq_empty_iff_forall_notMem]
    intro i inside
    rw [mem_touched, leadsNowhere] at inside
    cases inside

theorem frame_setPte (t : PageTable) (vma x : UInt32) :
    frame (t.setPte vma (x ||| PAGE_PRESENT ||| PAGE_WRITE))
      = Function.update (frame t) (tableIndex vma) (some (x &&& ENTRY_ADDR)) := by
  funext i
  by_cases same : i = tableIndex vma
  · subst same
    have entry : (t.setPte vma (x ||| PAGE_PRESENT ||| PAGE_WRITE)).entries (tableIndex vma)
        = x ||| PAGE_PRESENT ||| PAGE_WRITE := Function.update_self _ _ _
    rw [Function.update_self, frame, entry, if_neg (flags_present x), flags_base]
  · have entry : (t.setPte vma (x ||| PAGE_PRESENT ||| PAGE_WRITE)).entries i = t.entries i :=
      Function.update_of_ne same _ _
    rw [Function.update_of_ne same, frame, frame, entry]

/-- Storing a present entry stores a cell of the table. -/
theorem view_setPte (this : UInt32) (d : PageDictionary) (t : Fin TABLE_RESERVE) (vma x : UInt32) :
    view this (d.setTable t ((d.reserve t).setPte vma (x ||| PAGE_PRESENT ||| PAGE_WRITE)))
      = (view this d).write t (tableIndex vma) (x &&& ENTRY_ADDR) := by
  have cells := Function.comp_update frame d.reserve t
    ((d.reserve t).setPte vma (x ||| PAGE_PRESENT ||| PAGE_WRITE))
  rw [frame_setPte] at cells
  exact congrArg (Table.mk _ · _) cells

/-! ### The operations -/

section Operations

variable {this : UInt32} {d : PageDictionary}

/-- A present directory word leads to its table. -/
theorem Wired.table (wired : Wired this d) {i : Fin DICTIONARY_MAX_SIZE}
    (present : d.entries i &&& PAGE_PRESENT ≠ 0) :
    ∃ t, (view this d).leads i = some t ∧ reserveAt this (realPageTable (d.entries i)) = some t := by
  obtain ⟨t, leads⟩ := Option.isSome_iff_exists.mp (wired.pointed i present)
  have found : leadsTo this (d.entries i) = reserveAt this (realPageTable (d.entries i)) :=
    if_neg present
  exact ⟨t, leads, found.symm.trans leads⟩

/-- The entry of an address in its table, as the view has it. -/
theorem frame_of_leads {vma : UInt32} {t : Fin TABLE_RESERVE}
    (leads : (view this d).leads (dictIndex vma) = some t) :
    frame (d.reserve t) (tableIndex vma) = frameOf this d vma := by
  rw [frameOf, Table.lookup, leads]
  rfl

theorem frameOf_absent {vma : UInt32} (absent : d.entries (dictIndex vma) &&& PAGE_PRESENT = 0) :
    frameOf this d vma = none := by
  have leads : (view this d).leads (dictIndex vma) = none := if_pos absent
  rw [frameOf, Table.lookup, leads, Option.bind_none]

theorem table_at_spec (t : PageTable) (vma : UInt32) :
    t.at_ vma = translation (frame t (tableIndex vma)) vma := by
  unfold PageTable.at_ frame
  by_cases absent : t.entries (tableIndex vma) &&& PAGE_PRESENT = 0
  · rw [if_pos absent, if_pos absent]
    rfl
  · rw [if_neg absent, if_neg absent]
    rfl

theorem at_spec (wired : Wired this d) (vma : UInt32) :
    d.at_ this vma = some (translation (frameOf this d vma) vma) := by
  unfold PageDictionary.at_
  by_cases absent : d.entries (dictIndex vma) &&& PAGE_PRESENT = 0
  · rw [if_pos absent, frameOf_absent absent]
    rfl
  · obtain ⟨t, leads, found⟩ := wired.table absent
    rw [if_neg absent, found, Option.bind_eq_bind, Option.bind_some, table_at_spec,
      frame_of_leads leads]
    rfl

/-- The next table of `reserve`, put under a directory slot. -/
def linked (this : UInt32) (d : PageDictionary) (i : Fin DICTIONARY_MAX_SIZE) : PageDictionary :=
  setPageTable { d with table_count := d.table_count + 1 } i (reserveAddr this d.table_count)

theorem ensureTable_absent {i : Fin DICTIONARY_MAX_SIZE} (absent : d.entries i &&& PAGE_PRESENT = 0)
    (room : d.table_count.toNat < TABLE_RESERVE) :
    d.ensureTable this i = some (linked this d i) := by
  have asserted : d.table_count < UInt32.ofNat TABLE_RESERVE := by
    rw [UInt32.lt_iff_toNat_lt, show (UInt32.ofNat TABLE_RESERVE).toNat = TABLE_RESERVE from rfl]
    exact room
  unfold ensureTable allocTable
  rw [if_pos absent, if_pos asserted, Option.bind_eq_bind, Option.bind_some]
  rfl

theorem leadsTo_reserveAddr (aligned : this &&& PAGE_MASK = this) {i : UInt32}
    (inside : i.toNat < TABLE_RESERVE) :
    leadsTo this (setPde (reserveAddr this i)) = some ⟨i.toNat, inside⟩ := by
  have present : setPde (reserveAddr this i) &&& PAGE_PRESENT ≠ 0 := flags_present _
  rw [leadsTo, if_neg present, reserveAt_reserveAddr aligned inside]

theorem view_linked (aligned : this &&& PAGE_MASK = this) (i : Fin DICTIONARY_MAX_SIZE)
    (room : d.table_count.toNat < TABLE_RESERVE) :
    view this (linked this d i) = (view this d).link i ⟨d.table_count.toNat, room⟩ := by
  have bound : TABLE_RESERVE = 128 := rfl
  have counted : (d.table_count + 1).toNat = d.table_count.toNat + 1 := by
    rw [UInt32.toNat_add, show (1 : UInt32).toNat = 1 from rfl]
    exact Nat.mod_eq_of_lt (by omega)
  have leads := Function.comp_update (leadsTo this) d.entries i (setPde (reserveAddr this d.table_count))
  rw [leadsTo_reserveAddr aligned room] at leads
  exact congrArg₂ (Table.mk · _ ·) leads counted

/-- A table is retrieved: the one that is there, or else the next of `reserve`. Nothing that is mapped
changes. -/
theorem retrieveTable_spec (aligned : this &&& PAGE_MASK = this) (wired : Wired this d)
    (vma : UInt32) (fits : (insert (dictIndex vma) (view this d).touched).card ≤ TABLE_RESERVE) :
    ∃ t d', d.retrieveTable this vma = some (t, d') ∧ Wired this d' ∧
      (view this d').leads (dictIndex vma) = some t ∧
      (view this d').touched = insert (dictIndex vma) (view this d).touched ∧
      ∀ other, frameOf this d' other = frameOf this d other := by
  unfold retrieveTable
  by_cases absent : d.entries (dictIndex vma) &&& PAGE_PRESENT = 0
  · have free : (view this d).leads (dictIndex vma) = none := if_pos absent
    have room : d.table_count.toNat < TABLE_RESERVE := wired.sound.room free fits
    have same := view_linked aligned (dictIndex vma) room
    have entry : (linked this d (dictIndex vma)).entries (dictIndex vma)
        = setPde (reserveAddr this d.table_count) := Function.update_self _ _ _
    refine ⟨⟨d.table_count.toNat, room⟩, linked this d (dictIndex vma), ?_, ⟨?_, ?_⟩, ?_, ?_, ?_⟩
    · rw [ensureTable_absent absent room, Option.bind_eq_bind, Option.bind_some, entry,
        reserveAt_reserveAddr aligned room]
      rfl
    · rw [same]
      exact wired.sound.link free rfl
    · intro i present
      by_cases sameEntry : i = dictIndex vma
      · rw [sameEntry, entry, leadsTo_reserveAddr aligned room, Option.isSome_some]
      · have other : (linked this d (dictIndex vma)).entries i = d.entries i :=
          Function.update_of_ne sameEntry _ _
        rw [other] at present ⊢
        exact wired.pointed i present
    · rw [same]
      exact Function.update_self _ _ _
    · rw [same, touched_link]
    · intro other
      rw [frameOf, same, wired.sound.lookup_link free rfl]
      rfl
  · obtain ⟨t, leads, found⟩ := wired.table absent
    have kept : d.ensureTable this (dictIndex vma) = some d := if_neg absent
    refine ⟨t, d, ?_, wired, leads, ?_, fun _ => rfl⟩
    · rw [kept, Option.bind_eq_bind, Option.bind_some, found]
      rfl
    · refine (Finset.insert_eq_of_mem (mem_touched.mpr ?_)).symm
      rw [leads, Option.isSome_some]

/-- Storing a present entry in the table of an address maps its page, and no other. -/
theorem setPte_spec (wired : Wired this d) {vma : UInt32} {t : Fin TABLE_RESERVE}
    (leads : (view this d).leads (dictIndex vma) = some t) (x : UInt32) :
    let d' := d.setTable t ((d.reserve t).setPte vma (x ||| PAGE_PRESENT ||| PAGE_WRITE))
    Wired this d' ∧ (view this d').touched = (view this d).touched ∧
      ∀ other, frameOf this d' other
        = if page other = page vma then some (x &&& ENTRY_ADDR) else frameOf this d other := by
  refine ⟨⟨?_, wired.pointed⟩, rfl, fun other => ?_⟩
  · rw [view_setPte]
    exact wired.sound.write (wired.sound.below leads) _ _
  · rw [frameOf, view_setPte, wired.sound.lookup_write leads, frameOf]
    simp only [indices_eq_iff]

theorem insert_spec (aligned : this &&& PAGE_MASK = this) (wired : Wired this d) (vma pma : UInt32)
    (fits : (insert (dictIndex vma) (view this d).touched).card ≤ TABLE_RESERVE) :
    ∃ d', d.insert this vma pma = some d' ∧ Wired this d' ∧
      (view this d').touched = insert (dictIndex vma) (view this d).touched ∧
      ∀ other, frameOf this d' other
        = if page other = page vma then some (pma &&& PAGE_MASK) else frameOf this d other := by
  obtain ⟨t, d', retrieved, wired', leads, touched, same⟩ :=
    retrieveTable_spec aligned wired vma fits
  obtain ⟨wired'', touched', frames⟩ := setPte_spec wired' leads (pma &&& ENTRY_ADDR)
  have base : pma &&& ENTRY_ADDR &&& ENTRY_ADDR = pma &&& PAGE_MASK := by
    rw [UInt32.and_assoc, UInt32.and_self]
    rfl
  refine ⟨_, ?_, wired'', touched'.trans touched, fun other => ?_⟩
  · unfold PageDictionary.insert PageTable.insert
    rw [retrieved, Option.bind_eq_bind, Option.bind_some]
    rfl
  · rw [frames, base, same]

section Allocation

variable {Frames : Type} {pmmAllocPage : Frames → Option (UInt32 × Frames)} {frames : Frames}

theorem table_index_mapped {t : PageTable} {vma base : UInt32}
    (mapped : frame t (tableIndex vma) = some base) :
    t.operatorIndex pmmAllocPage frames vma = some (base ||| pageOffset vma, t, frames) := by
  by_cases absent : t.entries (tableIndex vma) &&& PAGE_PRESENT = 0
  · rw [frame, if_pos absent] at mapped
    cases mapped
  · rw [frame, if_neg absent, Option.some.injEq] at mapped
    unfold PageTable.operatorIndex
    rw [if_neg absent, mapped]

theorem table_index_unmapped {t : PageTable} {vma base : UInt32} {frames' : Frames}
    (unmapped : frame t (tableIndex vma) = none)
    (allocated : pmmAllocPage frames = some (base, frames')) :
    t.operatorIndex pmmAllocPage frames vma = some (base &&& PAGE_MASK ||| pageOffset vma,
      t.setPte vma (base ||| PAGE_PRESENT ||| PAGE_WRITE), frames') := by
  by_cases absent : t.entries (tableIndex vma) &&& PAGE_PRESENT = 0
  · unfold PageTable.operatorIndex
    rw [if_pos absent, allocated, Option.bind_eq_bind, Option.bind_some]
    show some ((base ||| PAGE_PRESENT ||| PAGE_WRITE) &&& ENTRY_ADDR ||| _, _, _) = _
    rw [flags_base]
    rfl
  · rw [frame, if_neg absent] at unmapped
    cases unmapped

theorem operatorIndex_of {d' : PageDictionary} {vma pma : UInt32} {t : Fin TABLE_RESERVE}
    {table : PageTable} {frames' : Frames} (retrieved : d.retrieveTable this vma = some (t, d'))
    (ran : (d'.reserve t).operatorIndex pmmAllocPage frames vma = some (pma, table, frames')) :
    d.operatorIndex pmmAllocPage this frames vma = some (pma, d'.setTable t table, frames') := by
  unfold PageDictionary.operatorIndex
  rw [retrieved, Option.bind_eq_bind, Option.bind_some]
  show ((d'.reserve t).operatorIndex pmmAllocPage frames vma).bind _ = _
  rw [ran]
  rfl

/-- **A page that is mapped**: no frame is taken, and nothing changes. -/
theorem operatorIndex_mapped (wired : Wired this d) {vma base : UInt32}
    (mapped : frameOf this d vma = some base) :
    d.operatorIndex pmmAllocPage this frames vma = some (base ||| pageOffset vma, d, frames) := by
  have present : d.entries (dictIndex vma) &&& PAGE_PRESENT ≠ 0 := by
    intro absent
    rw [frameOf_absent absent] at mapped
    cases mapped
  obtain ⟨t, leads, found⟩ := wired.table present
  have retrieved : d.retrieveTable this vma = some (t, d) := by
    have kept : d.ensureTable this (dictIndex vma) = some d := if_neg present
    unfold retrieveTable
    rw [kept, Option.bind_eq_bind, Option.bind_some, found]
    rfl
  have ran : d.operatorIndex pmmAllocPage this frames vma
      = some (base ||| pageOffset vma, d.setTable t (d.reserve t), frames) :=
    operatorIndex_of retrieved (table_index_mapped ((frame_of_leads leads).trans mapped))
  rw [ran, setTable, Function.update_eq_self]

/-- **A page that is not mapped**: one frame is taken, and its page is mapped to it. -/
theorem operatorIndex_unmapped (aligned : this &&& PAGE_MASK = this) (wired : Wired this d)
    {vma base : UInt32} {frames' : Frames} (unmapped : frameOf this d vma = none)
    (allocated : pmmAllocPage frames = some (base, frames'))
    (fits : (insert (dictIndex vma) (view this d).touched).card ≤ TABLE_RESERVE) :
    ∃ d', d.operatorIndex pmmAllocPage this frames vma
        = some (base &&& PAGE_MASK ||| pageOffset vma, d', frames') ∧ Wired this d' ∧
      (view this d').touched = insert (dictIndex vma) (view this d).touched ∧
      ∀ other, frameOf this d' other
        = if page other = page vma then some (base &&& PAGE_MASK) else frameOf this d other := by
  obtain ⟨t, d', retrieved, wired', leads, touched, same⟩ :=
    retrieveTable_spec aligned wired vma fits
  obtain ⟨wired'', touched', maps⟩ := setPte_spec wired' leads base
  have entry : frame (d'.reserve t) (tableIndex vma) = none :=
    (frame_of_leads leads).trans ((same vma).trans unmapped)
  refine ⟨_, operatorIndex_of retrieved (table_index_unmapped entry allocated), wired'',
    touched'.trans touched, fun other => ?_⟩
  rw [maps, same]
  rfl

end Allocation

end Operations

end Sprite.Paging

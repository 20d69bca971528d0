/-
**The page dictionary as it lies in memory.** The machine translates with the object itself: its first
1024 words are the directory, and `register_dictionary` loads `cr3` with their physical address.

* `Field`, `PageDictionary.get`, `PageDictionary.set` — the words of the object.
* `Holds` — memory holds the object at an address; `Holds.store`: storing a word sets a field.
* `Pointed`, `walk_eq` — **the machine translates every address to the frame that `frameOf` has for it**.
-/
import Sprite.Lib.Areas
import Sprite.Lib.Mmu
import Sprite.Paging.Dictionary

namespace Sprite.Paging

open Words Mmu PageTable PageDictionary

/-! ### The words of the object -/

inductive Field where
  | entry (i : Fin DICTIONARY_MAX_SIZE)
  | cell (t : Fin TABLE_RESERVE) (i : Fin TABLE_MAX_SIZE)
  | table_count
  deriving DecidableEq

namespace Field

/-- How far into the object a word lies. -/
def offset : Field → Nat
  | .entry i => 4 * i.val
  | .cell t i => 4096 + 4096 * t.val + 4 * i.val
  | .table_count => 4096 + 4096 * TABLE_RESERVE

/-- Its address, if the object begins at `start`. -/
def address (start : UInt32) (field : Field) : UInt32 := start + UInt32.ofNat field.offset

end Field

/-- `sizeof(PageDictionary)`. -/
def sizeofPageDictionary : Nat := 4096 + 4096 * TABLE_RESERVE + 4

def PageDictionary.get (d : PageDictionary) : Field → UInt32
  | .entry i => d.entries i
  | .cell t i => (d.reserve t).entries i
  | .table_count => d.table_count

def PageDictionary.set (d : PageDictionary) (value : UInt32) : Field → PageDictionary
  | .entry i => { d with entries := Function.update d.entries i value }
  | .cell t i => d.setTable t ⟨Function.update (d.reserve t).entries i value⟩
  | .table_count => { d with table_count := value }

theorem PageDictionary.get_set_self (d : PageDictionary) (value : UInt32) (field : Field) :
    (d.set value field).get field = value := by
  cases field with
  | entry i => exact Function.update_self _ _ _
  | cell t i =>
    show (Function.update d.reserve t _ t).entries i = value
    rw [Function.update_self]
    exact Function.update_self _ _ _
  | table_count => rfl

theorem PageDictionary.get_set_of_ne (d : PageDictionary) (value : UInt32) {field other : Field}
    (different : other ≠ field) : (d.set value field).get other = d.get other := by
  cases field with
  | entry i =>
    cases other with
    | entry j => exact Function.update_of_ne (fun same => different (congrArg Field.entry same)) _ _
    | cell t j => rfl
    | table_count => rfl
  | cell t i =>
    cases other with
    | entry j => rfl
    | cell t' j =>
      show (Function.update d.reserve t _ t').entries j = _
      by_cases sameTable : t' = t
      · subst sameTable
        rw [Function.update_self]
        exact Function.update_of_ne (fun same => different (congrArg (Field.cell t') same)) _ _
      · rw [Function.update_of_ne sameTable]
        rfl
    | table_count => rfl
  | table_count =>
    cases other with
    | entry j => rfl
    | cell t j => rfl
    | table_count => exact absurd rfl different

namespace Field

theorem entry_lt (i : Fin DICTIONARY_MAX_SIZE) : i.val < 1024 := i.isLt

theorem table_lt (t : Fin TABLE_RESERVE) : t.val < 128 := t.isLt

theorem offset_fits (field : Field) : field.offset + 4 ≤ sizeofPageDictionary := by
  have size : sizeofPageDictionary = 528388 := rfl
  cases field with
  | entry i =>
    have small := entry_lt i
    simp only [offset]
    omega
  | cell t i =>
    have small := table_lt t
    have small' := entry_lt i
    simp only [offset]
    omega
  | table_count => exact le_rfl

/-- Different words of the object do not overlap. -/
theorem offset_apart {field other : Field} (different : other ≠ field) :
    other.offset + 4 ≤ field.offset ∨ field.offset + 4 ≤ other.offset := by
  cases field with
  | entry i =>
    have small := entry_lt i
    cases other with
    | entry j =>
      have apart : j.val ≠ i.val := fun same => different (congrArg Field.entry (Fin.ext same))
      simp only [offset]
      omega
    | cell t j =>
      simp only [offset]
      omega
    | table_count =>
      simp only [offset]
      omega
  | cell t i =>
    have small := table_lt t
    have small' := entry_lt i
    cases other with
    | entry j =>
      have small'' := entry_lt j
      simp only [offset]
      omega
    | cell t' j =>
      have small'' := entry_lt j
      have apart : ¬ (t'.val = t.val ∧ j.val = i.val) := fun same =>
        different (by rw [Fin.ext same.1, Fin.ext same.2])
      simp only [offset]
      omega
    | table_count =>
      simp only [offset]
      omega
  | table_count =>
    cases other with
    | entry j =>
      have small := entry_lt j
      simp only [offset]
      omega
    | cell t j =>
      have small := table_lt t
      have small' := entry_lt j
      simp only [offset]
      omega
    | table_count => exact absurd rfl different

theorem toNat_address {start : UInt32} (fits : start.toNat + sizeofPageDictionary ≤ 2 ^ 32)
    (field : Field) : (field.address start).toNat = start.toNat + field.offset := by
  have inside := field.offset_fits
  have offset : (UInt32.ofNat field.offset).toNat = field.offset :=
    UInt32.toNat_ofNat_of_lt' (by simp only [UInt32.size]; omega)
  rw [address, UInt32.toNat_add, offset]
  omega

end Field

/-! ### The object in memory -/

/-- Memory holds the object at an address. -/
def Holds (memory : Memory) (start : UInt32) (d : PageDictionary) : Prop :=
  ∀ field : Field, load32 memory (field.address start) = d.get field

/-- The bytes of the object. -/
def objectArea (start : UInt32) : Set UInt32 :=
  between start.toNat (start.toNat + sizeofPageDictionary)

section Object

variable {memory : Memory} {start : UInt32} {d : PageDictionary}
  (fits : start.toNat + sizeofPageDictionary ≤ 2 ^ 32)

include fits

/-- **Storing a word of the object sets the field**, and no other. -/
theorem Holds.store (holds : Holds memory start d) (field : Field) (value : UInt32) :
    Holds (store32 memory (field.address start) value) start (d.set value field) := by
  intro other
  by_cases same : other = field
  · rw [same, load32_store32, d.get_set_self]
  · have place := field.toNat_address fits
    have place' := other.toNat_address fits
    have inside := field.offset_fits
    have inside' := other.offset_fits
    have apart := Field.offset_apart same
    rw [d.get_set_of_ne value same, ← holds other]
    refine load32_congr (by omega) fun byte low high => store32_frame ?_
    omega

/-- The store stays inside the object. -/
theorem store_within (field : Field) (value : UInt32) :
    Within (objectArea start) memory (store32 memory (field.address start) value) := by
  have place := field.toNat_address fits
  have inside := field.offset_fits
  intro byte outside
  refine store32_frame ?_
  have away : ¬ (start.toNat ≤ byte.toNat ∧ byte.toNat < start.toNat + sizeofPageDictionary) := outside
  have small := byte.toNat_lt
  omega

/-- What lies outside the object can change without it. -/
theorem Holds.congr (holds : Holds memory start d) {memory' : Memory}
    (same : ∀ byte ∈ objectArea start, memory' byte = memory byte) : Holds memory' start d := by
  intro field
  have place := field.toNat_address fits
  have inside := field.offset_fits
  rw [← holds field]
  refine load32_congr (by omega) fun byte low high => same byte ⟨by omega, by omega⟩

end Object

/-! ### What the machine makes of it -/

/-- A present directory word leads to a table of `reserve`. -/
def Pointed (this : UInt32) (d : PageDictionary) : Prop :=
  ∀ i, d.entries i &&& PAGE_PRESENT ≠ 0 → (leadsTo this (d.entries i)).isSome

/-- Where the linker may put the object: on a page boundary, behind `kern_start`, and in the 4 MB that
the kernel maps. -/
structure Located (this : UInt32) : Prop where
  aligned : this &&& PAGE_MASK = this
  low : 0xC0100000 ≤ this.toNat
  high : this.toNat + sizeofPageDictionary ≤ 0xC0400000

section Walk

variable {this : UInt32}

theorem toNat_pma_of_le (vma : UInt32) (low : 0xC0000000 ≤ vma.toNat) :
    (PMA vma).toNat = vma.toNat - 0xC0000000 := by
  have small := vma.toNat_lt
  rw [PMA, UInt32.toNat_sub, show PAGE_OFFSET.toNat = 0xC0000000 from rfl]
  omega

theorem Located.toNat_pma (located : Located this) :
    (PMA this).toNat = this.toNat - 0xC0000000 :=
  toNat_pma_of_le this (le_trans (by decide) located.low)

theorem Located.fits (located : Located this) :
    this.toNat + sizeofPageDictionary ≤ 2 ^ 32 := by
  have high := located.high
  omega

theorem Located.pma_fits (located : Located this) :
    (PMA this).toNat + sizeofPageDictionary ≤ 0x400000 := by
  have high := located.high
  have low := located.low
  rw [located.toNat_pma]
  omega

theorem Located.pma_room (located : Located this) :
    (PMA this).toNat + sizeofPageDictionary ≤ 2 ^ 32 := located.pma_fits.trans (by decide)

theorem Located.whole (located : Located this) : this.toNat % 4096 = 0 :=
  pageBase_eq_iff.mp located.aligned

theorem Located.base_pma (located : Located this) : base (PMA this) = PMA this := by
  have whole := located.whole
  have low := located.low
  refine pageBase_eq_iff.mpr ?_
  rw [located.toNat_pma]
  omega

/-- The directory word of an address, by its field. -/
theorem directoryWord_eq (located : Located this) (vma : UInt32) :
    directoryWord (PMA this) vma = (Field.entry (dictIndex vma)).address (PMA this) := by
  have fits := located.pma_fits
  have place := (Field.entry (dictIndex vma)).toNat_address located.pma_room
  have index := dictIndex_val vma
  have small := vma.toNat_lt
  have inside := (Field.entry (dictIndex vma)).offset_fits
  rw [← UInt32.toNat_inj, place, directoryWord, located.base_pma, UInt32.toNat_add, UInt32.toNat_mul,
    directorySlot_val, show (4 : UInt32).toNat = 4 from rfl]
  simp only [Field.offset] at inside ⊢
  omega

/-- A pointer to a table of `reserve` is a multiple of the page size behind the directory. -/
theorem toNat_of_reserveAt (located : Located this) {pde : UInt32} {t : Fin TABLE_RESERVE}
    (found : reserveAt this (realPageTable pde) = some t) :
    (base pde).toNat = (PMA this).toNat + 4096 + 4096 * t.val := by
  unfold reserveAt at found
  simp only [Option.dite_none_right_eq_some, Option.some.injEq] at found
  obtain ⟨inside, rfl⟩ := found
  have fits := located.pma_fits
  have whole := located.whole
  have low := located.low
  have word : (base pde).toNat = pde.toNat / 4096 * 4096 := toNat_pageBase pde
  have small := pde.toNat_lt
  have placed := located.toNat_pma
  have small' := this.toNat_lt
  have difference : (realPageTable pde - (this + 4096)).toNat
      = ((base pde).toNat + (2 ^ 32 - (PMA this).toNat - 4096)) % 2 ^ 32 := by
    have same : realPageTable pde = base pde + PAGE_OFFSET := by
      rw [realPageTable, VMA, UInt32.and_comm]
      rfl
    rw [same, UInt32.toNat_sub, UInt32.toNat_add, UInt32.toNat_add,
      show PAGE_OFFSET.toNat = 0xC0000000 from rfl, show (4096 : UInt32).toNat = 4096 from rfl]
    omega
  have bound : TABLE_RESERVE = 128 := rfl
  have size : sizeofPageDictionary = 4096 + 4096 * 128 + 4 := rfl
  simp only at inside ⊢
  rw [difference] at inside ⊢
  omega

theorem tableSlot_eq (vma : UInt32) : (tableSlot vma).toNat = (tableIndex vma).val := rfl

/-- The entry of an address, by its field. -/
theorem tableEntry_eq (located : Located this) {pde : UInt32} {t : Fin TABLE_RESERVE}
    (found : reserveAt this (realPageTable pde) = some t) (vma : UInt32) :
    tableEntry pde vma = (Field.cell t (tableIndex vma)).address (PMA this) := by
  have fits := located.pma_fits
  have place := (Field.cell t (tableIndex vma)).toNat_address located.pma_room
  have inside := (Field.cell t (tableIndex vma)).offset_fits
  have table := toNat_of_reserveAt located found
  rw [← UInt32.toNat_inj, place, tableEntry, UInt32.toNat_add, UInt32.toNat_mul, tableSlot_eq, table,
    show (4 : UInt32).toNat = 4 from rfl]
  simp only [Field.offset] at inside ⊢
  omega

/-- **The machine translates with the object**: with its physical address in `cr3`, every address has
the frame that the dictionary holds for it, or none. -/
theorem walk_eq (located : Located this) {memory : Memory} {d : PageDictionary}
    (holds : Holds memory (PMA this) d) (pointed : Pointed this d) (vma : UInt32) :
    walk memory (PMA this) vma = frameOf this d vma := by
  have word : load32 memory (directoryWord (PMA this) vma) = d.entries (dictIndex vma) := by
    rw [directoryWord_eq located, holds]
    rfl
  unfold walk
  rw [word]
  by_cases absent : d.entries (dictIndex vma) &&& PAGE_PRESENT = 0
  · rw [frameOf_absent absent]
    exact if_pos absent
  · obtain ⟨t, leads⟩ := Option.isSome_iff_exists.mp (pointed _ absent)
    have found : reserveAt this (realPageTable (d.entries (dictIndex vma))) = some t := by
      rw [← leads, leadsTo, if_neg absent]
    have entry : load32 memory (tableEntry (d.entries (dictIndex vma)) vma)
        = (d.reserve t).entries (tableIndex vma) := by
      rw [tableEntry_eq located found, holds]
      rfl
    rw [← frame_of_leads leads]
    refine (if_neg absent).trans ?_
    rw [entry]
    rfl

end Walk

end Sprite.Paging

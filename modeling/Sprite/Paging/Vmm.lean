/-
**Page tables and the page dictionary**, after `src/include/vmm.h`.

The dictionary is one object: 1024 directory words, then 128 page tables to hand out, then the count
of those handed out. A directory word holds the *physical* address of a table with flag bits, and a
table pointer is the virtual address; `this` is the address of the object. What allocates a page frame
is a parameter. A failed assertion, or a pointer that leads to no table, is `none`.

* `PageTable.at_`, `PageTable.operatorIndex`, `PageTable.insert` — one table: `at`, `operator[]` and
  `insert`.
* `PageDictionary.at_`, `PageDictionary.operatorIndex`, `PageDictionary.insert` — the same through
  the directory.
-/
import Mathlib.Logic.Function.Basic
import Sprite.Lib.Words

namespace Sprite.Paging

def PAGE_OFFSET : UInt32 := 0xC0000000

/-- The physical address of a kernel address. -/
def PMA (x : UInt32) : UInt32 := x - PAGE_OFFSET

/-- The kernel address of a physical address. -/
def VMA (x : UInt32) : UInt32 := x + PAGE_OFFSET

def PAGE_PRESENT : UInt32 := 0b1

def PAGE_WRITE : UInt32 := 0b10

def ENTRY_ADDR : UInt32 := 0xFFFFF000

abbrev TABLE_MAX_SIZE : Nat := 1024

abbrev DICTIONARY_MAX_SIZE : Nat := 1024

abbrev TABLE_RESERVE : Nat := 128

theorem tenBits_lt (x : UInt32) : (x &&& 0x3FF).toNat < 1024 := by
  rw [UInt32.toNat_and]
  exact Nat.lt_of_le_of_lt Nat.and_le_right (by decide)

variable {Frames : Type}

/-! ### A page table -/

structure PageTable where
  entries : Fin TABLE_MAX_SIZE → UInt32

namespace PageTable

def tableIndex (addr : UInt32) : Fin TABLE_MAX_SIZE := ⟨(addr >>> 12 &&& 0x3FF).toNat, tenBits_lt _⟩

def pageOffset (addr : UInt32) : UInt32 := addr &&& 0xFFF

/-- `at(vma)`. -/
def at_ (t : PageTable) (vma : UInt32) : UInt32 :=
  let pte := t.entries (tableIndex vma)
  if pte &&& PAGE_PRESENT = 0 then 0 else pte &&& ENTRY_ADDR ||| pageOffset vma

/-- `pte = value` for the entry of an address. -/
def setPte (t : PageTable) (vma value : UInt32) : PageTable :=
  ⟨Function.update t.entries (tableIndex vma) value⟩

/-- `operator[](vma)`. -/
def operatorIndex (pmmAllocPage : Frames → Option (UInt32 × Frames)) (t : PageTable)
    (frames : Frames) (vma : UInt32) : Option (UInt32 × PageTable × Frames) :=
  let pte := t.entries (tableIndex vma)
  if pte &&& PAGE_PRESENT = 0 then do
    let (page, frames) ← pmmAllocPage frames
    let pte := page ||| PAGE_PRESENT ||| PAGE_WRITE
    return (pte &&& ENTRY_ADDR ||| pageOffset vma, t.setPte vma pte, frames)
  else some (pte &&& ENTRY_ADDR ||| pageOffset vma, t, frames)

def insert (t : PageTable) (vma pma : UInt32) : PageTable :=
  t.setPte vma (pma &&& ENTRY_ADDR ||| PAGE_PRESENT ||| PAGE_WRITE)

end PageTable

/-! ### The page dictionary -/

structure PageDictionary where
  entries : Fin DICTIONARY_MAX_SIZE → UInt32
  reserve : Fin TABLE_RESERVE → PageTable
  table_count : UInt32

namespace PageDictionary

/-- The object as the program starts. -/
def zero : PageDictionary := ⟨fun _ => 0, fun _ => ⟨fun _ => 0⟩, 0⟩

def dictIndex (addr : UInt32) : Fin DICTIONARY_MAX_SIZE :=
  ⟨(addr >>> 22 &&& 0x3FF).toNat, tenBits_lt _⟩

/-- `&reserve[i]`: the tables lie behind the directory, and each takes 4096 bytes. -/
def reserveAddr (this i : UInt32) : UInt32 := this + 4096 + 4096 * i

/-- The table of `reserve` a pointer leads to, if any. -/
def reserveAt (this pt : UInt32) : Option (Fin TABLE_RESERVE) :=
  let offset := (pt - (this + 4096)).toNat
  if inside : offset % 4096 = 0 ∧ offset / 4096 < TABLE_RESERVE then some ⟨offset / 4096, inside.2⟩
  else none

/-- The word `set_pde` stores. -/
def setPde (raw : UInt32) : UInt32 := PMA (raw &&& ENTRY_ADDR) ||| PAGE_PRESENT ||| PAGE_WRITE

def setPageTable (d : PageDictionary) (i : Fin DICTIONARY_MAX_SIZE) (raw : UInt32) :
    PageDictionary :=
  { d with entries := Function.update d.entries i (setPde raw) }

def realPageTable (pde : UInt32) : UInt32 := VMA (ENTRY_ADDR &&& pde)

/-- `alloc_table`, with the assertion "no page table available". -/
def allocTable (this : UInt32) (d : PageDictionary) : Option (UInt32 × PageDictionary) :=
  if d.table_count < UInt32.ofNat TABLE_RESERVE then
    some (reserveAddr this d.table_count, { d with table_count := d.table_count + 1 })
  else none

/-- `at(vma)`. -/
def at_ (this : UInt32) (d : PageDictionary) (vma : UInt32) : Option UInt32 :=
  let pde := d.entries (dictIndex vma)
  if pde &&& PAGE_PRESENT = 0 then some 0
  else do
    let t ← reserveAt this (realPageTable pde)
    return (d.reserve t).at_ vma

/-- `if (!(pde & PAGE_PRESENT)) set_page_table(pt, alloc_table())`. -/
def ensureTable (this : UInt32) (d : PageDictionary) (i : Fin DICTIONARY_MAX_SIZE) :
    Option PageDictionary :=
  if d.entries i &&& PAGE_PRESENT = 0 then do
    let (raw, d) ← d.allocTable this
    return d.setPageTable i raw
  else some d

/-- What `operator[]` and `insert` begin with: retrieve the page table, or hand one out. -/
def retrieveTable (this : UInt32) (d : PageDictionary) (vma : UInt32) :
    Option (Fin TABLE_RESERVE × PageDictionary) := do
  let d ← d.ensureTable this (dictIndex vma)
  let t ← reserveAt this (realPageTable (d.entries (dictIndex vma)))
  return (t, d)

/-- The table is left in another state. -/
def setTable (d : PageDictionary) (t : Fin TABLE_RESERVE) (table : PageTable) : PageDictionary :=
  { d with reserve := Function.update d.reserve t table }

/-- `operator[](vma)`. -/
def operatorIndex (pmmAllocPage : Frames → Option (UInt32 × Frames)) (this : UInt32)
    (d : PageDictionary) (frames : Frames) (vma : UInt32) :
    Option (UInt32 × PageDictionary × Frames) := do
  let (t, d) ← d.retrieveTable this vma
  let (pma, table, frames) ← (d.reserve t).operatorIndex pmmAllocPage frames vma
  return (pma, d.setTable t table, frames)

def insert (this : UInt32) (d : PageDictionary) (vma pma : UInt32) : Option PageDictionary := do
  let (t, d) ← d.retrieveTable this vma
  return d.setTable t ((d.reserve t).insert vma pma)

end PageDictionary

end Sprite.Paging

/-
**Names of functions**, after `src/lib/elf.cc`.

`init_debug` looks for two sections of the kernel's image by name, in memory, and keeps where they are;
`elf_lookup_symbol` looks through the symbols of one for the function that an address is in.

* `elfFromMultiboot`, `elfLookupSymbol` — the two loops.
* `elfFromMultiboot_eq` — the last section of a matching name is taken.
* `names_found` — **the function an address is in is found**, from the section headers on.
-/
import Sprite.Lib.Words
import Sprite.Strings.Comparison
import Sprite.Paging.Vmm

namespace Sprite.Debug

open Words Terminated Fs
open Sprite.Paging (VMA)

/-- `elf_t`. -/
structure Elf where
  symtab : UInt32
  symtabsz : UInt32
  strtab : UInt32
  strtabsz : UInt32

/-- The fields of the multiboot structure that are used. -/
structure Multiboot where
  num : UInt32
  addr : UInt32
  shndx : UInt32

/-- The fields of `elf_section_header_t` that are used. -/
structure SectionHeader where
  name : UInt32
  addr : UInt32
  size : UInt32
  deriving DecidableEq

/-- The fields of `elf_symbol_t` that are used. -/
structure Symbol where
  name : UInt32
  value : UInt32
  size : UInt32
  info : UInt8
  deriving DecidableEq

/-- `sizeof(elf_section_header_t)`. -/
def sizeofSectionHeader : UInt32 := 40

/-- `sizeof(elf_symbol_t)`. -/
def sizeofSymbol : UInt32 := 16

/-- `sh[i]`. -/
def sectionAt (memory : Memory) (sh i : UInt32) : SectionHeader where
  name := load32 memory (sh + sizeofSectionHeader * i)
  addr := load32 memory (sh + sizeofSectionHeader * i + 12)
  size := load32 memory (sh + sizeofSectionHeader * i + 20)

/-- `symtab[i]`. -/
def symbolAt (memory : Memory) (symtab i : UInt32) : Symbol where
  name := load32 memory (symtab + sizeofSymbol * i)
  value := load32 memory (symtab + sizeofSymbol * i + 4)
  size := load32 memory (symtab + sizeofSymbol * i + 8)
  info := memory (symtab + sizeofSymbol * i + 12)

/-- The memory from an address on. -/
def bytesFrom (memory : Memory) (address : UInt32) (offset : Nat) : UInt8 := memory (address + UInt32.ofNat offset)

/-- `".strtab"`. -/
def strtabName : List UInt8 := [0x2E, 0x73, 0x74, 0x72, 0x74, 0x61, 0x62]

/-- `".symtab"`. -/
def symtabName : List UInt8 := [0x2E, 0x73, 0x79, 0x6D, 0x74, 0x61, 0x62]

/-! ### The two loops -/

/-- One turn of the loop of `elf_from_multiboot`. -/
def useSection (memory : Memory) (shstrtab : UInt32) (elf : Elf) (s : SectionHeader) : Elf :=
  let name := bytesFrom memory (VMA (shstrtab + s.name))
  let elf := if strcmp name 0 strtabName = 0 then { elf with strtab := s.addr, strtabsz := s.size } else elf
  if strcmp name 0 symtabName = 0 then { elf with symtab := s.addr, symtabsz := s.size } else elf

/-- The sections from the first on. -/
def sections (memory : Memory) (mb : Multiboot) : List SectionHeader :=
  (List.range mb.num.toNat).map fun i => sectionAt memory mb.addr (UInt32.ofNat i)

/-- `elf_from_multiboot`, where `elf` is what the variable holds before anything is assigned to it. -/
def elfFromMultiboot (memory : Memory) (mb : Multiboot) (elf : Elf) : Elf :=
  (sections memory mb).foldl (useSection memory (sectionAt memory mb.addr mb.shndx).addr) elf

/-- The test of the loop of `elf_lookup_symbol`: a function with an address in it. -/
def Symbol.Tested (s : Symbol) (addr : UInt32) : Prop :=
  s.info &&& 0xF = 2 ∧ s.value ≤ addr ∧ addr < s.value + s.size

instance (s : Symbol) (addr : UInt32) : Decidable (s.Tested addr) := inferInstanceAs (Decidable (_ ∧ _))

/-- The symbols from the first on. -/
def symbols (memory : Memory) (elf : Elf) : List Symbol :=
  (List.range (elf.symtabsz / sizeofSymbol).toNat).map fun i => symbolAt memory elf.symtab (UInt32.ofNat i)

/-- `elf_lookup_symbol`: the address of a name, or `nullptr`. -/
def elfLookupSymbol (memory : Memory) (addr : UInt32) (elf : Elf) : Option UInt32 :=
  ((symbols memory elf).find? fun symbol => symbol.Tested addr).map fun symbol => elf.strtab + symbol.name

/-! ### Which sections are taken -/

/-- The name of a section. -/
def Called (memory : Memory) (shstrtab : UInt32) (s : SectionHeader) (name : List UInt8) : Prop :=
  StringAt (· + 1) (bytesFrom memory (VMA (shstrtab + s.name))) 0 name

instance (memory : Memory) (shstrtab : UInt32) (s : SectionHeader) (name : List UInt8) :
    Decidable (Called memory shstrtab s name) := inferInstanceAs (Decidable (StringAt _ _ _ _))

variable {memory : Memory} {shstrtab : UInt32} {s : SectionHeader} {name text : List UInt8} {elf : Elf}
  {front back : List SectionHeader}

/-- What `strcmp` says about the name of a section: the beginning of a text compares as equal to it. -/
theorem strcmp_called (called : Called memory shstrtab s name) (text : List UInt8) :
    strcmp (bytesFrom memory (VMA (shstrtab + s.name))) 0 text = 0 ↔ name <+: text := by
  rw [Strings.strcmp_eq text called, Strings.difference_eq_zero_iff called.zero_not_mem]

/-- **Of the sections with a name, the last one counts**: the ones behind it do not match. -/
structure Last (memory : Memory) (shstrtab : UInt32) (all : List SectionHeader) (text : List UInt8)
    (s : SectionHeader) : Prop where
  called : Called memory shstrtab s text
  behind : ∃ front back, all = front ++ s :: back ∧
    ∀ other ∈ back, ∃ name, Called memory shstrtab other name ∧ ¬ name <+: text

theorem foldl_other (text : List UInt8) {β : Type} (field : Elf → β)
    (kept : ∀ elf s, strcmp (bytesFrom memory (VMA (shstrtab + s.name))) 0 text ≠ 0 →
      field (useSection memory shstrtab elf s) = field elf)
    (others : ∀ other ∈ back, ∃ name, Called memory shstrtab other name ∧ ¬ name <+: text) (elf : Elf) :
    field (back.foldl (useSection memory shstrtab) elf) = field elf := by
  induction back generalizing elf with
  | nil => rfl
  | cons other back ih =>
    obtain ⟨name, called, differs⟩ := others other List.mem_cons_self
    rw [List.foldl_cons, ih fun other member => others other (List.mem_cons_of_mem _ member)]
    exact kept elf other fun zero => differs ((strcmp_called called text).mp zero)

theorem foldl_last (text : List UInt8) {β : Type} (field : Elf → β) (value : SectionHeader → β)
    (taken : ∀ elf s, strcmp (bytesFrom memory (VMA (shstrtab + s.name))) 0 text = 0 →
      field (useSection memory shstrtab elf s) = value s)
    (kept : ∀ elf s, strcmp (bytesFrom memory (VMA (shstrtab + s.name))) 0 text ≠ 0 →
      field (useSection memory shstrtab elf s) = field elf)
    {all : List SectionHeader} (last : Last memory shstrtab all text s) (elf : Elf) :
    field (all.foldl (useSection memory shstrtab) elf) = value s := by
  obtain ⟨front, back, rfl, others⟩ := last.behind
  rw [List.foldl_append, List.foldl_cons, foldl_other text field kept others]
  exact taken _ s ((strcmp_called last.called text).mpr (List.prefix_refl text))

/-- **What `init_debug` keeps**: where the last sections with the two names are. -/
theorem elfFromMultiboot_eq {mb : Multiboot} {symtab strtab : SectionHeader}
    (lastSymtab : Last memory (sectionAt memory mb.addr mb.shndx).addr (sections memory mb) symtabName symtab)
    (lastStrtab : Last memory (sectionAt memory mb.addr mb.shndx).addr (sections memory mb) strtabName strtab)
    (elf : Elf) :
    elfFromMultiboot memory mb elf = ⟨symtab.addr, symtab.size, strtab.addr, strtab.size⟩ := by
  have first := foldl_last symtabName (fun elf => (elf.symtab, elf.symtabsz)) (fun s => (s.addr, s.size))
    (fun elf s zero => by simp [useSection, zero])
    (fun elf s other => by simp only [useSection, if_neg other]; split_ifs <;> rfl) lastSymtab elf
  have second := foldl_last strtabName (fun elf => (elf.strtab, elf.strtabsz)) (fun s => (s.addr, s.size))
    (fun elf s zero => by simp only [useSection, if_pos zero]; split_ifs <;> rfl)
    (fun elf s other => by simp only [useSection, if_neg other]; split_ifs <;> rfl) lastStrtab elf
  rw [elfFromMultiboot]
  generalize (sections memory mb).foldl _ elf = result at first second ⊢
  simp only [Prod.mk.injEq] at first second
  cases result
  simp_all

/-! ### Functions -/

/-- **A function with an address in it.** -/
def Symbol.Covers (s : Symbol) (addr : UInt32) : Prop :=
  s.info &&& 0xF = 2 ∧ s.value.toNat ≤ addr.toNat ∧ addr.toNat < s.value.toNat + s.size.toNat

/-- The test of the loop, for a function that ends below the last address. -/
theorem Symbol.tested_iff {s : Symbol} (low : s.info &&& 0xF = 2 → s.value.toNat + s.size.toNat < 2 ^ 32)
    (addr : UInt32) : s.Tested addr ↔ s.Covers addr := by
  unfold Tested Covers
  refine and_congr_right fun isFunction => ?_
  have small := low isFunction
  rw [UInt32.le_iff_toNat_le, UInt32.lt_iff_toNat_lt, UInt32.toNat_add, Nat.mod_eq_of_lt small]

/-- **The function that an address is in is found**, from the section headers on: the first symbol that
covers it, and none if there is none. -/
theorem names_found {memory : Memory} {mb : Multiboot} {symtab strtab : SectionHeader}
    (lastSymtab : Last memory (sectionAt memory mb.addr mb.shndx).addr (sections memory mb) symtabName symtab)
    (lastStrtab : Last memory (sectionAt memory mb.addr mb.shndx).addr (sections memory mb) strtabName strtab)
    (elf : Elf) (low : ∀ symbol ∈ symbols memory ⟨symtab.addr, symtab.size, strtab.addr, strtab.size⟩,
      symbol.info &&& 0xF = 2 → symbol.value.toNat + symbol.size.toNat < 2 ^ 32) (addr : UInt32) :
    (elfLookupSymbol memory addr (elfFromMultiboot memory mb elf) = none ↔
      ∀ symbol ∈ symbols memory ⟨symtab.addr, symtab.size, strtab.addr, strtab.size⟩, ¬ symbol.Covers addr) ∧
    ∀ name, elfLookupSymbol memory addr (elfFromMultiboot memory mb elf) = some name →
      ∃ front symbol back, symbols memory ⟨symtab.addr, symtab.size, strtab.addr, strtab.size⟩
          = front ++ symbol :: back ∧
        symbol.Covers addr ∧ (∀ other ∈ front, ¬ other.Covers addr) ∧ name = strtab.addr + symbol.name := by
  rw [elfFromMultiboot_eq lastSymtab lastStrtab, elfLookupSymbol]
  generalize symbols memory ⟨symtab.addr, symtab.size, strtab.addr, strtab.size⟩ = table at low ⊢
  constructor
  · rw [Option.map_eq_none_iff, List.find?_eq_none]
    refine forall₂_congr fun symbol member => ?_
    rw [decide_eq_true_iff, Symbol.tested_iff (low symbol member)]
  · intro name found
    obtain ⟨symbol, first, rfl⟩ := Option.map_eq_some_iff.mp found
    obtain ⟨tested, front, back, rfl, others⟩ := List.find?_eq_some_iff_append.mp first
    refine ⟨front, symbol, back, rfl, ?_, fun other member covers => ?_, rfl⟩
    · exact (Symbol.tested_iff (low symbol (by simp)) addr).mp (of_decide_eq_true tested)
    · have notTested := others other member
      have tested := (Symbol.tested_iff (low other (by simp [member])) addr).mpr covers
      simp [tested] at notTested

/-- Three section headers, the names `.symtab`, `.strtab` and `main`, and two symbols, in the first bytes
of each 64 KB. -/
def tinyImage : Memory := fun place =>
  ([
    (40, 1), (52, 160), (54, 16), (60, 32), (80, 9), (92, 120), (94, 16), (100, 22), (121, 46),
    (122, 115), (123, 121), (124, 109), (125, 116), (126, 97), (127, 98), (129, 46), (130, 115),
    (131, 116), (132, 114), (133, 116), (134, 97), (135, 98), (137, 109), (138, 97), (139, 105),
    (140, 110), (176, 17), (180, 64), (182, 16), (183, 192), (184, 32), (188, 18)
  ].lookup (place &&& 0xFFFF).toNat).getD 0

def tinyMultiboot : Multiboot := ⟨3, 0x00100000, 2⟩

theorem main_is_found :
    (elfLookupSymbol tinyImage 0xC0100050 (elfFromMultiboot tinyImage tinyMultiboot ⟨0, 0, 0, 0⟩) = none ↔
      ∀ symbol ∈ symbols tinyImage ⟨0x001000A0, 32, 0x00100078, 22⟩, ¬ symbol.Covers 0xC0100050) ∧
    ∀ name, elfLookupSymbol tinyImage 0xC0100050
        (elfFromMultiboot tinyImage tinyMultiboot ⟨0, 0, 0, 0⟩) = some name →
      ∃ front symbol back, symbols tinyImage ⟨0x001000A0, 32, 0x00100078, 22⟩ = front ++ symbol :: back ∧
        symbol.Covers 0xC0100050 ∧ (∀ other ∈ front, ¬ other.Covers 0xC0100050) ∧
        name = 0x00100078 + symbol.name := by
  have lastSymtab : Last tinyImage (sectionAt tinyImage tinyMultiboot.addr tinyMultiboot.shndx).addr
      (sections tinyImage tinyMultiboot) symtabName ⟨1, 0x001000A0, 32⟩ := by
    refine ⟨by decide +kernel, [⟨0, 0, 0⟩], [⟨9, 0x00100078, 22⟩], by decide +kernel, fun other member => ?_⟩
    cases List.mem_singleton.mp member
    exact ⟨strtabName, by decide +kernel, by decide⟩
  have lastStrtab : Last tinyImage (sectionAt tinyImage tinyMultiboot.addr tinyMultiboot.shndx).addr
      (sections tinyImage tinyMultiboot) strtabName ⟨9, 0x00100078, 22⟩ := by
    refine ⟨by decide +kernel, [⟨0, 0, 0⟩, ⟨1, 0x001000A0, 32⟩], [], by decide +kernel, fun other member => ?_⟩
    cases member
  exact names_found lastSymtab lastStrtab _ (by decide +kernel) _

end Sprite.Debug

/-
**The paging unit of a 32-bit machine.**

Addresses are translated in two levels: the word of the directory leads to a page table, and the entry
there to a frame. Translations are remembered, and a store to the tables does not make the machine
forget them.

* `walk` — what the tables in memory say of an address.
* `Machine`, `Virtual` — a machine with the translations it remembers, and programs that get at memory
  through them.
* `Coherent` — no remembered translation is stale.
* `Does` — what a program does on every machine in which none is, with a rule for each way of putting
  programs together.
-/
import Mathlib.Control.Monad.Basic
import Mathlib.Data.Set.Lattice
import Mathlib.Logic.Function.Basic
import Sprite.Lib.Words

namespace Mmu

open Words

/-! ### The tables -/

/-- The number of the page of an address. -/
def pageNumber (address : UInt32) : UInt32 := address >>> 12

/-- The slot of the directory for an address. -/
def directorySlot (address : UInt32) : UInt32 := address >>> 22

/-- The slot of a page table for an address. -/
def tableSlot (address : UInt32) : UInt32 := address >>> 12 &&& 0x3FF

/-- The page address that a word with flags holds. -/
def base (word : UInt32) : UInt32 := word &&& 0xFFFFF000

/-- Where the word of the directory for an address lies. -/
def directoryWord (cr3 address : UInt32) : UInt32 := base cr3 + 4 * directorySlot address

/-- Where the entry for an address lies in the table that a directory word leads to. -/
def tableEntry (word address : UInt32) : UInt32 := base word + 4 * tableSlot address

/-- **The frame of an address**, if both words on the way to it are present. -/
def walk (memory : Memory) (cr3 address : UInt32) : Option UInt32 :=
  let word := load32 memory (directoryWord cr3 address)
  if word &&& 1 = 0 then none
  else
    let entry := load32 memory (tableEntry word address)
    if entry &&& 1 = 0 then none else some (base entry)

/-- The address in memory, in the frame of a virtual address. -/
def physical (frame address : UInt32) : UInt32 := frame ||| address &&& 0xFFF

theorem pageNumber_val (address : UInt32) : (pageNumber address).toNat = address.toNat / 4096 := by
  rw [pageNumber, UInt32.toNat_shiftRight, Nat.shiftRight_eq_div_pow]
  rfl

theorem directorySlot_val (address : UInt32) :
    (directorySlot address).toNat = address.toNat / 4194304 := by
  rw [directorySlot, UInt32.toNat_shiftRight, Nat.shiftRight_eq_div_pow]
  rfl

theorem toNat_offset (address : UInt32) : (address &&& 0xFFF).toNat = address.toNat % 4096 := by
  rw [UInt32.toNat_and, show (0xFFF : UInt32).toNat = 2 ^ 12 - 1 from rfl,
    Nat.and_two_pow_sub_one_eq_mod]

/-- The offset goes behind the frame without a carry. -/
theorem toNat_physical {frame : UInt32} (whole : frame.toNat % 4096 = 0) (address : UInt32) :
    (physical frame address).toNat = frame.toNat + address.toNat % 4096 := by
  have low : address.toNat % 4096 < 2 ^ 12 := Nat.mod_lt _ (by decide)
  obtain ⟨number, multiple⟩ := Nat.dvd_of_mod_eq_zero whole
  rw [physical, UInt32.toNat_or, toNat_offset, multiple]
  exact (Nat.two_pow_add_eq_or_of_lt low number).symm

/-- Addresses on one page are translated alike. -/
theorem walk_page {memory : Memory} {cr3 address address' : UInt32}
    (same : pageNumber address = pageNumber address') :
    walk memory cr3 address = walk memory cr3 address' := by
  have region : directorySlot address = directorySlot address' := by
    rw [← UInt32.toNat_inj, pageNumber_val, pageNumber_val] at same
    rw [← UInt32.toNat_inj, directorySlot_val, directorySlot_val]
    omega
  have directory : directoryWord cr3 address = directoryWord cr3 address' := by
    rw [directoryWord, directoryWord, region]
  have slot : tableSlot address = tableSlot address' := congrArg (· &&& 0x3FF) same
  have entry : ∀ word, tableEntry word address = tableEntry word address' := by
    intro word
    rw [tableEntry, tableEntry, slot]
  simp only [walk, directory, entry]

/-! ### The machine -/

/-- Memory, the register that leads to the directory, and the frames remembered of some pages. -/
structure Machine where
  memory : Memory
  cr3 : UInt32
  tlb : UInt32 → Option UInt32

/-- Something is remembered of the given pages only, and nothing that the tables do not say. -/
def Coherent (pages : Set UInt32) (m : Machine) : Prop :=
  ∀ address frame, m.tlb (pageNumber address) = some frame →
    pageNumber address ∈ pages ∧ walk m.memory m.cr3 address = some frame

/-- A translation is forgotten. -/
def Machine.evict (m : Machine) (page : UInt32) : Machine :=
  { m with tlb := Function.update m.tlb page none }

/-- Storing into `cr3`: all translations are forgotten. -/
def Machine.loadCr3 (m : Machine) (cr3 : UInt32) : Machine :=
  { m with cr3 := cr3, tlb := fun _ => none }

/-- A program that gets at memory by virtual addresses. It stops where a translation is missing. -/
abbrev Virtual := StateT Machine Option

/-- One program behind another, when the first comes back. -/
theorem bind_run {α β : Type} {program : Virtual α} {next : α → Virtual β} {m m' : Machine} {middle : α}
    (ran : program m = some (middle, m')) : (program >>= next) m = next middle m' := by
  show (program m).bind _ = _
  rw [ran]
  rfl

/-- The translation of an address is looked up, and remembered. -/
def translate (address : UInt32) : Virtual UInt32 := fun m =>
  match m.tlb (pageNumber address) with
  | some frame => some (physical frame address, m)
  | none => (walk m.memory m.cr3 address).map fun frame =>
      (physical frame address,
        { m with tlb := Function.update m.tlb (pageNumber address) (some frame) })

/-- The word at an address, which is to be a multiple of 4. -/
def load (address : UInt32) : Virtual UInt32 := do
  let place ← translate address
  return load32 (← get).memory place

/-- A word is stored at an address, which is to be a multiple of 4. -/
def store (address value : UInt32) : Virtual Unit := do
  let place ← translate address
  modify fun m => { m with memory := store32 m.memory place value }

section Coherence

variable {pages : Set UInt32} {m : Machine}

theorem Coherent.evict (coherent : Coherent pages m) (page : UInt32) :
    Coherent pages (m.evict page) := by
  intro address frame found
  change Function.update m.tlb page none (pageNumber address) = some frame at found
  by_cases same : pageNumber address = page
  · rw [same, Function.update_self] at found
    cases found
  · rw [Function.update_of_ne same] at found
    exact coherent address frame found

/-- **A translation answers what the tables say.** -/
theorem translate_spec (coherent : Coherent pages m) {address frame : UInt32}
    (inside : pageNumber address ∈ pages) (mapped : walk m.memory m.cr3 address = some frame) :
    ∃ tlb, translate address m = some (physical frame address, { m with tlb := tlb }) ∧
      Coherent pages { m with tlb := tlb } := by
  cases remembered : m.tlb (pageNumber address) with
  | some frame' =>
    have same := (coherent address frame' remembered).2
    rw [mapped, Option.some.injEq] at same
    refine ⟨m.tlb, ?_, coherent⟩
    rw [translate, remembered, same]
  | none =>
    refine ⟨Function.update m.tlb (pageNumber address) (some frame), ?_, ?_⟩
    · rw [translate, remembered, mapped]
      rfl
    · intro address' frame' found
      change Function.update m.tlb (pageNumber address) (some frame) (pageNumber address')
        = some frame' at found
      by_cases same : pageNumber address' = pageNumber address
      · rw [same, Function.update_self] at found
        exact ⟨same ▸ inside, (walk_page same).trans (mapped.trans found)⟩
      · rw [Function.update_of_ne same] at found
        exact coherent address' frame' found

/-- An address without a translation: nothing is remembered of it, either. -/
theorem translate_missing (coherent : Coherent pages m) {address : UInt32}
    (missing : walk m.memory m.cr3 address = none) : translate address m = none := by
  cases remembered : m.tlb (pageNumber address) with
  | some frame =>
    have same := (coherent address frame remembered).2
    rw [missing] at same
    cases same
  | none =>
    rw [translate, remembered, missing]
    rfl

/-- What the tables say of the pages is still said after a change of memory. -/
def Extends (pages : Set UInt32) (cr3 : UInt32) (memory memory' : Memory) : Prop :=
  ∀ address frame, pageNumber address ∈ pages → walk memory cr3 address = some frame →
    walk memory' cr3 address = some frame

/-- **Tables may grow without the machine being told**: what it remembers stays true. -/
theorem Coherent.grow (coherent : Coherent pages m) {memory' : Memory}
    (grows : Extends pages m.cr3 m.memory memory') : Coherent pages { m with memory := memory' } :=
  fun address frame found =>
    have known := coherent address frame found
    ⟨known.1, grows address frame known.1 known.2⟩

end Coherence

/-! ### What programs do -/

/-- **What a program does**: on every machine with these tables that remembers nothing stale, and
something of the given pages only, it answers `result` and leaves `memory'`, and the same is true of
what is remembered then. -/
def Does {α : Type} (pages : Set UInt32) (program : Virtual α) (cr3 : UInt32) (memory : Memory)
    (result : α) (memory' : Memory) : Prop :=
  ∀ m : Machine, m.memory = memory → m.cr3 = cr3 → Coherent pages m →
    ∃ tlb, program m = some (result, ⟨memory', cr3, tlb⟩) ∧ Coherent pages ⟨memory', cr3, tlb⟩

namespace Does

variable {α β : Type} {pages : Set UInt32} {cr3 : UInt32} {memory memory' memory'' : Memory}

theorem pure (result : α) : Does pages (Pure.pure result) cr3 memory result memory := by
  rintro m rfl rfl coherent
  exact ⟨m.tlb, rfl, coherent⟩

/-- What does not concern the machine. -/
theorem lift {answer : Option α} {result : α} (answered : answer = some result) :
    Does pages (StateT.lift answer) cr3 memory result memory := by
  rintro m rfl rfl coherent
  refine ⟨m.tlb, ?_, coherent⟩
  rw [answered]
  rfl

/-- One program behind another. -/
theorem bind {program : Virtual α} {next : α → Virtual β} {middle : α} {result : β}
    (first : Does pages program cr3 memory middle memory')
    (second : Does pages (next middle) cr3 memory' result memory'') :
    Does pages (program >>= next) cr3 memory result memory'' := by
  intro m sameMemory sameRegister coherent
  obtain ⟨tlb, ran, coherent'⟩ := first m sameMemory sameRegister coherent
  obtain ⟨tlb', ran', coherent''⟩ := second _ rfl rfl coherent'
  exact ⟨tlb', (bind_run ran).trans ran', coherent''⟩

theorem load {address frame : UInt32} (inside : pageNumber address ∈ pages)
    (mapped : walk memory cr3 address = some frame) :
    Does pages (Mmu.load address) cr3 memory (load32 memory (physical frame address)) memory := by
  rintro m rfl rfl coherent
  obtain ⟨tlb, ran, coherent'⟩ := translate_spec coherent inside mapped
  refine ⟨tlb, ?_, coherent'⟩
  show (translate address m).bind _ = _
  rw [ran]
  rfl

theorem store {address frame value : UInt32} (inside : pageNumber address ∈ pages)
    (mapped : walk memory cr3 address = some frame)
    (grows : Extends pages cr3 memory (store32 memory (physical frame address) value)) :
    Does pages (Mmu.store address value) cr3 memory ()
      (store32 memory (physical frame address) value) := by
  rintro m rfl rfl coherent
  obtain ⟨tlb, ran, coherent'⟩ := translate_spec coherent inside mapped
  refine ⟨tlb, ?_, coherent'.grow grows⟩
  show (translate address m).bind _ = _
  rw [ran]
  rfl

end Does

end Mmu

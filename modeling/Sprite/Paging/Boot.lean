/-
**The tables the kernel starts with**, after `kern_entry` in `src/init/entry.cc`.

Paging begins with two page tables below the kernel, one for the first 4 MB of the address space and
one for the kernel window. The other words of the directory are what memory happened to hold.

* `kernEntry` — the tables are written, and paging is switched on.
* `BootTables`, `kernEntry_tables` — what is in memory then, whatever was there before.
* `BootTables.walk_window`, `BootTables.walk_low` — how it translates.
-/
import Sprite.Lib.Areas
import Sprite.Lib.Mmu
import Sprite.Paging.Faults

namespace Sprite.Paging

open Words Mmu

def pdeTmp : UInt32 := 0x1000

def pteLow : UInt32 := 0x2000

def pteHigh : UInt32 := 0x3000

/-- `PGD_INDEX(x)`. -/
def PGD_INDEX (x : UInt32) : UInt32 := x >>> 22 &&& 0x3FF

/-- The word that the two tables hold for page `i`. -/
def bootEntry (i : Nat) : UInt32 := UInt32.ofNat i <<< 12 ||| PAGE_PRESENT ||| PAGE_WRITE

/-- `pte_high[i] = pte_low[i] = ...`. -/
def bootTurn (memory : Memory) (i : Nat) : Memory :=
  store32 (store32 memory (pteLow + 4 * UInt32.ofNat i) (bootEntry i)) (pteHigh + 4 * UInt32.ofNat i)
    (bootEntry i)

/-- The first turns of the loop over the tables. -/
def bootTables (memory : Memory) (turns : Nat) : Memory := (List.range turns).foldl bootTurn memory

/-- `kern_entry`, as far as paging goes. -/
def kernEntry (memory : Memory) : Machine :=
  let memory := store32 memory pdeTmp (pteLow ||| PAGE_PRESENT ||| PAGE_WRITE)
  let memory := store32 memory (pdeTmp + 4 * PGD_INDEX PAGE_OFFSET)
    (pteHigh ||| PAGE_PRESENT ||| PAGE_WRITE)
  ⟨bootTables memory 1024, pdeTmp, fun _ => none⟩

/-! ### What it leaves in memory -/

/-- The two words of the directory that are set, and the two tables. -/
structure BootTables (memory : Memory) : Prop where
  low : load32 memory pdeTmp = pteLow ||| PAGE_PRESENT ||| PAGE_WRITE
  window : load32 memory (pdeTmp + 4 * PGD_INDEX PAGE_OFFSET) = pteHigh ||| PAGE_PRESENT ||| PAGE_WRITE
  lowPage : ∀ i < 1024, load32 memory (pteLow + 4 * UInt32.ofNat i) = bootEntry i
  windowPage : ∀ i < 1024, load32 memory (pteHigh + 4 * UInt32.ofNat i) = bootEntry i

/-- Where the tables lie. -/
def bootArea : Set UInt32 := between 0x1000 0x4000

theorem toNat_bootSlot (start : UInt32) (low : start.toNat ≤ 0x3000) {i : Nat} (small : i < 1024) :
    (start + 4 * UInt32.ofNat i).toNat = start.toNat + 4 * i := by
  have value : (UInt32.ofNat i).toNat = i :=
    UInt32.toNat_ofNat_of_lt' (Nat.lt_trans small (by decide))
  rw [UInt32.toNat_add, UInt32.toNat_mul, value, show (4 : UInt32).toNat = 4 from rfl]
  omega

/-- A word is the same after a store that does not overlap it. -/
theorem load32_store32_apart {memory : Memory} {address other value : UInt32}
    (fits : other.toNat + 4 ≤ 2 ^ 32) (fits' : address.toNat + 4 ≤ 2 ^ 32)
    (apart : other.toNat + 4 ≤ address.toNat ∨ address.toNat + 4 ≤ other.toNat) :
    load32 (store32 memory address value) other = load32 memory other :=
  load32_congr fits fun _ low high => store32_frame (by omega)

theorem BootTables.congr {memory memory' : Memory} (tables : BootTables memory)
    (same : ∀ byte ∈ bootArea, memory' byte = memory byte) : BootTables memory' := by
  have words : ∀ address : UInt32, 0x1000 ≤ address.toNat → address.toNat + 4 ≤ 0x4000 →
      load32 memory' address = load32 memory address := fun address above below =>
    load32_congr (by omega) fun byte low high => same byte ⟨by omega, by omega⟩
  have lowPlace : pteLow.toNat = 0x2000 := rfl
  have highPlace : pteHigh.toNat = 0x3000 := rfl
  refine ⟨?_, ?_, fun i small => ?_, fun i small => ?_⟩
  · rw [words _ (by decide) (by decide)]
    exact tables.low
  · rw [words _ (by decide) (by decide)]
    exact tables.window
  · have place := toNat_bootSlot pteLow (by decide) small
    rw [words _ (by omega) (by omega)]
    exact tables.lowPage i small
  · have place := toNat_bootSlot pteHigh (by decide) small
    rw [words _ (by omega) (by omega)]
    exact tables.windowPage i small

/-- The first turns of the loop. The words of the directory stay. -/
theorem bootTables_spec (memory : Memory) (turns : Nat) (few : turns ≤ 1024) :
    (∀ address : UInt32, address.toNat + 4 ≤ 0x2000 →
        load32 (bootTables memory turns) address = load32 memory address) ∧
      (∀ i < turns, load32 (bootTables memory turns) (pteLow + 4 * UInt32.ofNat i) = bootEntry i) ∧
      ∀ i < turns, load32 (bootTables memory turns) (pteHigh + 4 * UInt32.ofNat i) = bootEntry i := by
  have lowPlace : pteLow.toNat = 0x2000 := rfl
  have highPlace : pteHigh.toNat = 0x3000 := rfl
  induction turns with
  | zero => exact ⟨fun _ _ => rfl, fun i small => absurd small (Nat.not_lt_zero i),
      fun i small => absurd small (Nat.not_lt_zero i)⟩
  | succ n ih =>
    obtain ⟨below, lows, highs⟩ := ih (by omega)
    have lowWord := toNat_bootSlot pteLow (by decide) (i := n) (by omega)
    have highWord := toNat_bootSlot pteHigh (by decide) (i := n) (by omega)
    have next : bootTables memory (n + 1) = bootTurn (bootTables memory n) n := by
      rw [bootTables, List.range_succ, List.foldl_append]
      rfl
    -- A word that the turn does not touch.
    have kept : ∀ address : UInt32, address.toNat + 4 ≤ 0x4000 →
        (address.toNat + 4 ≤ 0x2000 + 4 * n ∨ 0x2000 + 4 * n + 4 ≤ address.toNat) →
        (address.toNat + 4 ≤ 0x3000 + 4 * n ∨ 0x3000 + 4 * n + 4 ≤ address.toNat) →
        load32 (bootTables memory (n + 1)) address = load32 (bootTables memory n) address := by
      intro address fits apart apart'
      rw [next, bootTurn, load32_store32_apart (by omega) (by omega) (by omega),
        load32_store32_apart (by omega) (by omega) (by omega)]
    refine ⟨fun address fits => ?_, fun i small => ?_, fun i small => ?_⟩
    · rw [kept address (by omega) (by omega) (by omega)]
      exact below address fits
    · have place := toNat_bootSlot pteLow (by decide) (i := i) (by omega)
      rcases Nat.lt_succ_iff_lt_or_eq.mp small with earlier | rfl
      · rw [kept _ (by omega) (by omega) (by omega)]
        exact lows i earlier
      · rw [next, bootTurn, load32_store32_apart (by omega) (by omega) (by omega), load32_store32]
    · have place := toNat_bootSlot pteHigh (by decide) (i := i) (by omega)
      rcases Nat.lt_succ_iff_lt_or_eq.mp small with earlier | rfl
      · rw [kept _ (by omega) (by omega) (by omega)]
        exact highs i earlier
      · rw [next, bootTurn, load32_store32]

/-- **What `kern_entry` leaves in memory**, whatever it found there. -/
theorem kernEntry_tables (memory : Memory) : BootTables (kernEntry memory).memory := by
  obtain ⟨below, lows, highs⟩ := bootTables_spec (store32 (store32 memory pdeTmp
    (pteLow ||| PAGE_PRESENT ||| PAGE_WRITE)) (pdeTmp + 4 * PGD_INDEX PAGE_OFFSET)
    (pteHigh ||| PAGE_PRESENT ||| PAGE_WRITE)) 1024 le_rfl
  simp only [kernEntry]
  refine ⟨?_, ?_, lows, highs⟩
  · rw [below pdeTmp (by decide), load32_store32_apart (by decide) (by decide) (by decide),
      load32_store32]
  · rw [below (pdeTmp + 4 * PGD_INDEX PAGE_OFFSET) (by decide), load32_store32]

/-! ### How it translates -/

/-- The pages that the two tables map. -/
def bootPages : Set UInt32 :=
  {number | number.toNat < 0x400 ∨ 0xC0000 ≤ number.toNat ∧ number.toNat < 0xC0400}

theorem bootEntry_present (i : Nat) : bootEntry i &&& 1 ≠ 0 := flags_present _

theorem base_bootEntry {i : Nat} (small : i < 1024) : (base (bootEntry i)).toNat = i * 4096 := by
  have place := toNat_pageAddress small
  have word : base (bootEntry i) = (UInt32.ofNat i <<< 12) &&& ENTRY_ADDR := flags_base _
  rw [word]
  have bits := toNat_pageBase (UInt32.ofNat i <<< 12)
  rw [place] at bits
  refine bits.trans ?_
  omega

/-- A table of 1024 such entries, to which the directory leads. -/
theorem walk_bootTable {memory : Memory} (vma : UInt32) {slot table : UInt32}
    (leads : load32 memory (directoryWord pdeTmp vma) = slot) (present : slot &&& 1 ≠ 0)
    (reached : base slot = table) (entries : ∀ i < 1024, load32 memory (table + 4 * UInt32.ofNat i)
      = bootEntry i) :
    ∃ frame, walk memory pdeTmp vma = some frame ∧ frame.toNat = vma.toNat / 4096 % 1024 * 4096 := by
  have small : (tableSlot vma).toNat < 1024 := tenBits_lt _
  have entry : load32 memory (tableEntry slot vma) = bootEntry (tableSlot vma).toNat := by
    rw [tableEntry, reached]
    have found := entries _ small
    rwa [UInt32.ofNat_toNat] at found
  refine ⟨base (bootEntry (tableSlot vma).toNat), ?_, ?_⟩
  · unfold walk
    rw [leads]
    refine (if_neg present).trans ?_
    rw [entry]
    exact if_neg (bootEntry_present _)
  · rw [base_bootEntry small, show (tableSlot vma).toNat = vma.toNat / 4096 % 1024 from
      tableIndex_val vma]

/-- **The kernel window** is translated as `init_vmm` will map it. -/
theorem BootTables.walk_window {memory : Memory} (tables : BootTables memory) {vma : UInt32}
    (inside : InKernelWindow vma) : walk memory pdeTmp vma = some (PMA vma &&& PAGE_MASK) := by
  have range := inKernelWindow_iff.mp inside
  have slot : directoryWord pdeTmp vma = pdeTmp + 4 * PGD_INDEX PAGE_OFFSET := by
    have index : directorySlot vma = PGD_INDEX PAGE_OFFSET := by
      rw [← UInt32.toNat_inj, directorySlot_val, show (PGD_INDEX PAGE_OFFSET).toNat = 768 from rfl]
      omega
    rw [directoryWord, index]
    rfl
  obtain ⟨frame, walked, value⟩ := walk_bootTable vma (slot ▸ tables.window) (by decide)
    (by decide) tables.windowPage
  have physical := toNat_pageBase (PMA vma)
  rw [PMA, UInt32.toNat_sub, show PAGE_OFFSET.toNat = 3221225472 from rfl] at physical
  rw [walked, Option.some.injEq, ← UInt32.toNat_inj, value]
  refine Eq.trans ?_ physical.symm
  omega

/-- **The first 4 MB** are where they are. -/
theorem BootTables.walk_low {memory : Memory} (tables : BootTables memory) {vma : UInt32}
    (low : vma.toNat < 0x400000) : walk memory pdeTmp vma = some (vma &&& PAGE_MASK) := by
  have slot : directoryWord pdeTmp vma = pdeTmp := by
    have index : directorySlot vma = 0 := by
      rw [← UInt32.toNat_inj, directorySlot_val, show (0 : UInt32).toNat = 0 from rfl]
      omega
    rw [directoryWord, index]
    rfl
  obtain ⟨frame, walked, value⟩ := walk_bootTable vma (slot ▸ tables.low) (by decide)
    (by decide) tables.lowPage
  have physical := toNat_pageBase vma
  rw [walked, Option.some.injEq, ← UInt32.toNat_inj, value]
  refine Eq.trans ?_ physical.symm
  omega

/-- What the boot tables say of their pages does not depend on the rest of memory. -/
theorem BootTables.extends {memory memory' : Memory} (tables : BootTables memory)
    (same : ∀ byte ∈ bootArea, memory' byte = memory byte) :
    Extends bootPages pdeTmp memory memory' := by
  have tables' := tables.congr same
  intro address frame inside walked
  have number := pageNumber_val address
  have range : (pageNumber address).toNat < 0x400 ∨
    0xC0000 ≤ (pageNumber address).toNat ∧ (pageNumber address).toNat < 0xC0400 := inside
  rcases range with low | high
  · rw [tables.walk_low (by omega)] at walked
    rw [tables'.walk_low (by omega), walked]
  · have window : InKernelWindow address := inKernelWindow_iff.mpr (by omega)
    rw [tables.walk_window window] at walked
    rw [tables'.walk_window window, walked]

end Sprite.Paging

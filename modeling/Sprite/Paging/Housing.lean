/-
**Where the pages are**: from the memory map to the frames of the pages in use.

`init_pmm` reads the map while the tables of `kern_entry` translate, and the frames it finds are handed
out by the page fault handler.

* `Housed` — each page in use has a frame of its own, which is a whole page of available memory above
  the kernel, and no other page has one.
* `spare_of_soundMap` — what `init_pmm` leaves on the stack can be handed out.
* `pages_are_housed` — **the result**, from power-on, over runs of any length.
-/
import Sprite.Paging.Discovery
import Sprite.Paging.Flat

namespace Sprite.Paging

open Words Mmu

/-- The pages in use outside the kernel window, and their frames. -/
structure Housed (mem : Memory) (kernEnd : UInt32) (mboot : Multiboot) (sys : System) (f : Flat) :
    Prop where
  used : ∀ vma, ¬ InKernelWindow vma → page vma ∈ f.pages →
    ∃ frame, walk sys.machine.memory sys.machine.cr3 vma = some frame ∧
      (PMA kernEnd).toNat ≤ frame.toNat ∧ ∃ a ∈ entries mem mboot, (mmapEntry mem a).HoldsPage frame
  apart : ∀ vma vma' frame, ¬ InKernelWindow vma → ¬ InKernelWindow vma' →
    walk sys.machine.memory sys.machine.cr3 vma = some frame →
    walk sys.machine.memory sys.machine.cr3 vma' = some frame → page vma = page vma'
  unused : ∀ vma, ¬ InKernelWindow vma → page vma ∉ f.pages →
    walk sys.machine.memory sys.machine.cr3 vma = none
  window : ∀ vma, InKernelWindow vma →
    walk sys.machine.memory sys.machine.cr3 vma = some (PMA vma &&& PAGE_MASK)

section Housing

variable {this kernEnd : UInt32} {mem : Memory} {mboot : Multiboot}

theorem Backed.housed (located : Located this) {s : Pmm} {sys : System} {f : Flat}
    {d : PageDictionary} {m : PageMap Pmm} {faults : List PageFault} {handed : List UInt32}
    (backed : Backed this s sys f d m faults handed) {count : UInt32}
    (discovered : Discovered mem kernEnd mboot s count) : Housed mem kernEnd mboot sys f := by
  have walked := backed.walk located
  refine ⟨fun vma outside used => ?_, fun vma vma' frame outside outside' found found' => ?_,
    fun vma outside unused => ?_, fun vma inside => ?_⟩
  · rw [backed.pages, List.mem_toFinset, List.mem_map] at used
    obtain ⟨fault, isFault, samePage⟩ := used
    obtain ⟨frame, mapped⟩ := Option.isSome_iff_exists.mp (backed.paged.mapped fault isFault)
    rw [samePage] at mapped
    have owner := backed.handed_free (backed.paged.owned vma frame outside mapped)
    exact ⟨frame, (walked vma).trans mapped, discovered.above frame owner,
      discovered.available frame owner⟩
  · rw [walked] at found found'
    exact backed.paged.injective vma vma' frame outside outside' found found'
  · rw [walked]
    by_contra mapped
    exact unused (backed.used vma outside (Option.isSome_iff_ne_none.mpr mapped))
  · rw [walked]
    exact backed.paged.window vma inside

/-- **What `init_pmm` leaves on the stack can be handed out**, when the map is read rightly and the
kernel ends on a page boundary behind the dictionary. -/
theorem spare_of_soundMap (located : Located this) (kernel : KERN_START ≤ kernEnd)
    (aligned : kernEnd &&& PAGE_MASK = kernEnd)
    (behind : this.toNat + sizeofPageDictionary ≤ kernEnd.toNat)
    (noWrap : mboot.mmap_addr.toNat + 24 * mboot.mmap_length.toNat < 2 ^ 32)
    (sound : SoundMap mem kernEnd mboot) :
    ∃ s count, initPmm mem kernEnd mboot = some (s, count) ∧ Spare this s ∧
      Discovered mem kernEnd mboot s count := by
  obtain ⟨s, ran, discovered⟩ := discovered_of_soundMap kernel sound
  have list := Pmm.pushed_empty ran
  have low := located.low
  have placed := located.toNat_pma
  have kernelPlace : (PMA kernEnd).toNat = kernEnd.toNat - 0xC0000000 :=
    toNat_pma_of_le kernEnd (by omega)
  have multiple : kernEnd.toNat % 4096 = 0 := pageBase_eq_iff.mp aligned
  have whole : ∀ base ∈ s.free, base &&& PAGE_MASK = base := by
    intro base inside
    rw [list, allPages, List.mem_flatMap] at inside
    obtain ⟨i, -, inside⟩ := inside
    obtain ⟨j, below, rfl⟩ := mem_pages.mp inside
    have start : MmapEntry.pageAddr _ kernEnd = PMA kernEnd := pageAddr_of_usable (usable_of_pages (Nat.zero_lt_of_lt below))
    refine pageBase_eq_iff.mpr ?_
    rw [(toNat_page below).1, start]
    omega
  refine ⟨s, _, ?_, ⟨(Pmm.pushed_spec Pmm.fits_empty ran).2, discovered.once, whole, ?_⟩, discovered⟩
  · rw [initPmm_eq noWrap, ran]
    rfl
  · intro base inside vma object
    have above := discovered.above base inside
    have below : (physical base vma).toNat < (PMA this).toNat + sizeofPageDictionary := object.2
    rw [toNat_physical (pageBase_eq_iff.mp (whole base inside))] at below
    omega

/-- **Every page in use is housed**, from power-on: `init_pmm` and `init_vmm` come back, and then over
every run of accesses each page used has a frame of its own in available memory above the kernel, the
others have none, and the kernel window stays where it is. -/
theorem pages_are_housed (located : Located this) {memory : Memory}
    (empty : Holds memory (PMA this) .zero) (kernel : KERN_START ≤ kernEnd)
    (aligned : kernEnd &&& PAGE_MASK = kernEnd)
    (behind : this.toNat + sizeofPageDictionary ≤ kernEnd.toNat)
    (noWrap : mboot.mmap_addr.toNat + 24 * mboot.mmap_length.toNat < 2 ^ 32)
    (sound : SoundMap (kernEntry memory).memory kernEnd mboot) :
    ∃ s count machine, initPmm (kernEntry memory).memory kernEnd mboot = some (s, count) ∧
      InMemory.initVmm this (kernEntry memory) = some ((), machine) ∧ ∀ ops,
        Runs.Refines (System.step this) (flat this s)
          (Housed (kernEntry memory).memory kernEnd mboot) ⟨machine, s⟩
          (Flat.start (kernEntry memory).memory) ops := by
  obtain ⟨s, count, found, spare, discovered⟩ :=
    spare_of_soundMap located kernel aligned behind noWrap sound
  obtain ⟨machine, d, m, started, backed⟩ := startup_backed located spare empty
  exact ⟨s, count, machine, found, started, fun ops => refines_of_backed located spare
    (fun _ _ _ _ _ _ backed => backed.housed located discovered) backed ops⟩

end Housing

/-- A record that lies behind the tables of `kern_entry` is what it was. -/
theorem mmapEntry_kernEntry (memory : Memory) {a : UInt32} (above : 0x4000 ≤ a.toNat)
    (fits : a.toNat + 24 ≤ 2 ^ 32) : mmapEntry (kernEntry memory).memory a = mmapEntry memory a := by
  have word : ∀ offset : UInt32, offset.toNat ≤ 20 →
      load32 (kernEntry memory).memory (a + offset) = load32 memory (a + offset) := by
    intro offset small
    have place : (a + offset).toNat = a.toNat + offset.toNat := by
      rw [UInt32.toNat_add]
      omega
    refine load32_congr (by omega) fun byte low _ => kernEntry_within memory byte fun boot => ?_
    have below : byte.toNat < 0x4000 := boot.2
    omega
  have first := word 0 (by decide)
  rw [UInt32.add_zero] at first
  simp only [mmapEntry, first, word 4 (by decide), word 8 (by decide), word 12 (by decide),
    word 16 (by decide), word 20 (by decide)]

/-- A kernel that ends at 0xC0192000, with a map of one entry. -/
theorem smallMap_sound : SoundMap (kernEntry smallMap).memory 0xC0192000 ⟨24, 0x9000⟩ := by
  have records : ∀ i < 24, record (kernEntry smallMap).memory ⟨24, 0x9000⟩ i
      = record smallMap ⟨24, 0x9000⟩ i := by
    intro i small
    have value : (UInt32.ofNat i).toNat = i := UInt32.toNat_ofNat_of_lt' (lt_trans small (by decide))
    have place : ((0x9000 : UInt32) + sizeofMmapEntry * UInt32.ofNat i).toNat = 0x9000 + 24 * i := by
      rw [UInt32.toNat_add, UInt32.toNat_mul, value, show sizeofMmapEntry.toNat = 24 from rfl,
        show (0x9000 : UInt32).toNat = 0x9000 from rfl]
      omega
    show mmapEntry _ ((0x9000 : UInt32) + sizeofMmapEntry * UInt32.ofNat i) = mmapEntry _ _
    exact mmapEntry_kernEntry smallMap (by omega) (by omega)
  have others : ∀ i < 24, 0 < (record smallMap ⟨24, 0x9000⟩ i).pageCount 0xC0192000 → i = 0 := by
    decide +kernel
  have first : ∀ i, Yields (kernEntry smallMap).memory 0xC0192000 ⟨24, 0x9000⟩ i → i = 0 := by
    rintro i ⟨inside, some⟩
    have small : i < 24 := inside
    rw [records i small] at some
    exact others i small some
  refine ⟨fun i j yields yields' => (first i yields).trans (first j yields').symm,
    fun i yields own => ?_, fun i yields foreign => absurd ?_ foreign⟩
  · rw [first i yields, records 0 (by decide)]
    decide +kernel
  · rw [first i yields]
    refine ⟨?_, ?_⟩
    · have own : (0x9000 : UInt32) + sizeofMmapEntry * UInt32.ofNat 0 = UInt32.ofNat 0x9000 := by decide
      rw [own]
      exact List.mem_cons_self
    · rw [records 0 (by decide)]
      decide +kernel

theorem kernel_pages_are_housed :
    ∃ s count machine, initPmm (kernEntry smallMap).memory 0xC0192000 ⟨24, 0x9000⟩ = some (s, count) ∧
      InMemory.initVmm 0xC0110000 (kernEntry smallMap) = some ((), machine) ∧
      Runs.Refines (System.step 0xC0110000) (flat 0xC0110000 s)
        (Housed (kernEntry smallMap).memory 0xC0192000 ⟨24, 0x9000⟩) ⟨machine, s⟩
        (Flat.start (kernEntry smallMap).memory) [.write 0xD0000000 7, .read 0xD0000FFF] := by
  have located : Located 0xC0110000 := ⟨by decide, by decide, by decide⟩
  have empty : Holds smallMap (PMA 0xC0110000) .zero := by
    refine (blank_holds _).congr (by decide) fun byte inside => ?_
    have above : 0x110000 ≤ byte.toNat := inside.1
    have small := byte.toNat_lt
    unfold smallMap entryAt
    rw [store32_frame, store32_frame, store32_frame, store32_frame, store32_frame, store32_frame]
    all_goals left; exact le_trans (by decide) above
  obtain ⟨s, count, machine, found, started, runs⟩ := pages_are_housed located empty
    (by decide) (by decide) (by decide) (by decide) smallMap_sound
  exact ⟨s, count, machine, found, started, runs _⟩

end Sprite.Paging

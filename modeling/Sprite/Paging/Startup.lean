/-
**From the tables of `kern_entry` to the page dictionary**, after `init_vmm` in `src/lib/vmm.cc`.

The dictionary is filled while the machine translates with the tables of `kern_entry`, and then `cr3`
is made to lead to it. The code that does this, its stack and the dictionary itself lie in the kernel
window.

* `InMemory.initVmm` — the loop, and `register_dictionary`.
* `mapWindow_does` — the loop, turn by turn.
* `startup_spec` — what is in memory when it is done.
* `window_survives_startup` — **the result**: the kernel window is translated in the same way before and
  after, and nothing else is translated any more.
-/
import Sprite.Paging.Tables

namespace Sprite.Paging

open Words Mmu PageTable PageDictionary

namespace InMemory

/-- `register_dictionary()`. -/
def registerDictionary (this : UInt32) : Virtual Unit := modify fun m => m.loadCr3 (PMA this)

/-- The first turns of the loop of `init_vmm`. -/
def mapWindow (this : UInt32) : Nat → Virtual Unit
  | 0 => pure ()
  | i + 1 => do
    mapWindow this i
    insert this (VMA (UInt32.ofNat i <<< 12)) (UInt32.ofNat i <<< 12)

/-- `init_vmm()`; registering the handler is left to the machine. -/
def initVmm (this : UInt32) : Virtual Unit := do
  mapWindow this (4 * 1024 / 4)
  registerDictionary this

end InMemory

instance (vma : UInt32) : Decidable (InKernelWindow vma) := inferInstanceAs (Decidable (_ ∧ _))

section Startup

variable {this : UInt32} {memory : Memory}

/-- `kern_entry` writes to its tables only. -/
theorem kernEntry_within (memory : Memory) : Within bootArea memory (kernEntry memory).memory := by
  have lowPlace : pteLow.toNat = 0x2000 := rfl
  have highPlace : pteHigh.toNat = 0x3000 := rfl
  have away : ∀ {byte : UInt32}, byte ∉ bootArea → byte.toNat < 0x1000 ∨ 0x4000 ≤ byte.toNat := by
    intro byte outside
    have neither : ¬ (0x1000 ≤ byte.toNat ∧ byte.toNat < 0x4000) := outside
    omega
  have turns : ∀ (memory : Memory) (n : Nat), n ≤ 1024 → Within bootArea memory (bootTables memory n) := by
    intro memory n
    induction n with
    | zero => exact fun _ => Within.refl _ _
    | succ n ih =>
      intro few byte outside
      have lowWord := toNat_bootSlot pteLow (by decide) (i := n) (by omega)
      have highWord := toNat_bootSlot pteHigh (by decide) (i := n) (by omega)
      have far := away outside
      have small := byte.toNat_lt
      rw [bootTables, List.range_succ, List.foldl_append, List.foldl_cons, List.foldl_nil, bootTurn,
        store32_frame (by omega), store32_frame (by omega)]
      exact ih (by omega) byte outside
  intro byte outside
  have far := away outside
  have small := byte.toNat_lt
  have first : pdeTmp.toNat = 0x1000 := rfl
  have second : (pdeTmp + 4 * PGD_INDEX PAGE_OFFSET).toNat = 0x1C00 := rfl
  simp only [kernEntry]
  rw [turns _ 1024 le_rfl byte outside, store32_frame (by omega), store32_frame (by omega)]

/-- **The loop of `init_vmm`**, through the tables of `kern_entry`. -/
theorem mapWindow_does (located : Located this) (s : Pmm) (tables : BootTables memory)
    (empty : Holds memory (PMA this) .zero) (turns : Nat) (few : turns ≤ 1024) :
    ∃ d memory', (List.range turns).foldlM (fun d i => PageDictionary.insert this d
        (VMA (UInt32.ofNat i <<< 12)) (UInt32.ofNat i <<< 12)) .zero = some d ∧
      Does bootPages (InMemory.mapWindow this turns) pdeTmp memory () memory' ∧
      Serves this pdeTmp bootPages memory' d ∧ Within (objectArea (PMA this)) memory memory' := by
  induction turns with
  | zero =>
    exact ⟨.zero, memory, rfl, Does.pure (), ⟨empty, (zero_wired this).pointed, .boot tables⟩,
      Within.refl _ _⟩
  | succ i ih =>
    obtain ⟨d, middle, ran, does, serves, within⟩ := ih (by omega)
    obtain ⟨d', m, ran', mirrors, touched, frames⟩ := initVmm_loop located.aligned s i (by omega)
    rw [ran, Option.some.injEq] at ran'
    subst ran'
    have address := toNat_windowAddress (i := i) (by omega)
    have region : dictIndex (VMA (UInt32.ofNat i <<< 12)) = dictIndex PAGE_OFFSET := by
      rw [Fin.ext_iff, dictIndex_val, dictIndex_val, address,
        show PAGE_OFFSET.toNat = 3221225472 from rfl]
      omega
    have room : (insert (dictIndex (VMA (UInt32.ofNat i <<< 12))) (view this d).touched).card
        ≤ TABLE_RESERVE := by
      rw [mirrors.touched, region]
      refine le_trans (Finset.card_le_card
        (Finset.insert_subset (Finset.mem_singleton_self _) touched)) ?_
      rw [Finset.card_singleton]
      decide
    -- The page of this turn has no frame yet.
    have fresh : frameOf this d (VMA (UInt32.ofNat i <<< 12)) = none := by
      rw [mirrors.same, frames, if_neg (by omega)]
    have other : ∀ base ∈ frameOf this d (VMA (UInt32.ofNat i <<< 12)),
        base = UInt32.ofNat i <<< 12 &&& PAGE_MASK := by
      intro base found
      rw [fresh] at found
      cases found
    obtain ⟨d', memory', inserted, does', serves', within'⟩ :=
      insert_does located mirrors.wired serves room other
    refine ⟨d', memory', ?_, does.bind does', serves', within.trans within'⟩
    rw [List.range_succ, List.foldlM_append, ran, Option.bind_eq_bind, Option.bind_some,
      List.foldlM_cons, inserted]
    rfl

/-- **What `init_vmm` leaves**, beginning with the tables of `kern_entry` and an empty dictionary: `cr3`
leads to the dictionary, which is in memory and maps the kernel window and nothing else. -/
theorem startup_spec (located : Located this) (s : Pmm) (empty : Holds memory (PMA this) .zero) :
    ∃ d memory', InMemory.initVmm this (kernEntry memory)
        = some ((), ⟨memory', PMA this, fun _ => none⟩) ∧
      initVmm this ⟨.zero, s⟩ = some ⟨d, s⟩ ∧
      Serves this (PMA this) Set.univ memory' d ∧
      (∀ vma, frameOf this d vma
        = if InKernelWindow vma then some (PMA vma &&& PAGE_MASK) else none) ∧
      Within (objectArea (PMA this)) (kernEntry memory).memory memory' := by
  have tables := kernEntry_tables memory
  have low := located.low
  have placed := located.toNat_pma
  have kept : Holds (kernEntry memory).memory (PMA this) .zero := by
    refine empty.congr located.pma_room fun byte inside => ?_
    refine kernEntry_within memory byte fun boot => ?_
    have above : (PMA this).toNat ≤ byte.toNat := inside.1
    have below : byte.toNat < 0x4000 := boot.2
    omega
  obtain ⟨d, memory', ran, does, serves, within⟩ := mapWindow_does located s tables kept 1024 le_rfl
  obtain ⟨d', m, ran', mirrors, -, frames⟩ := initVmm_loop located.aligned s 1024 le_rfl
  rw [ran, Option.some.injEq] at ran'
  subst ran'
  have mapped : ∀ vma, frameOf this d vma
      = if InKernelWindow vma then some (PMA vma &&& PAGE_MASK) else none := by
    intro vma
    rw [mirrors.same, frames]
    exact if_congr inKernelWindow_iff.symm rfl rfl
  have start : Coherent bootPages (kernEntry memory) := fun _ _ found => by cases found
  obtain ⟨tlb, wrote, -⟩ := does (kernEntry memory) rfl rfl start
  refine ⟨d, memory', ?_, ?_, ⟨serves.holds, serves.pointed, .self fun vma inside => ?_⟩, mapped,
    within⟩
  · unfold InMemory.initVmm
    rw [show 4 * 1024 / 4 = 1024 from rfl, bind_run wrote]
    rfl
  · unfold initVmm
    rw [show 4 * 1024 / 4 = 1024 from rfl, ran]
    rfl
  · rw [mapped, if_pos inside]

/-- **The switch from the tables of `kern_entry` to the dictionary**, from whatever was in memory besides
an empty dictionary: no translation is missing while the dictionary is filled. The addresses of the
kernel window have the same frames before and after. The first 4 MB, where `kern_entry` itself runs,
are where they are before, and afterwards no address outside the window has a frame. -/
theorem window_survives_startup (located : Located this) (empty : Holds memory (PMA this) .zero) :
    ∃ m, InMemory.initVmm this (kernEntry memory) = some ((), m) ∧ m.cr3 = PMA this ∧
      (∀ vma, InKernelWindow vma → ∃ frame, walk (kernEntry memory).memory (kernEntry memory).cr3 vma
        = some frame ∧ walk m.memory m.cr3 vma = some frame ∧ physical frame vma = PMA vma) ∧
      (∀ vma, vma.toNat < 0x400000 → ∃ frame, walk (kernEntry memory).memory (kernEntry memory).cr3 vma
        = some frame ∧ physical frame vma = vma) ∧
      (∀ vma, ¬ InKernelWindow vma → walk m.memory m.cr3 vma = none) ∧
      ∀ byte, byte ∉ objectArea (PMA this) → byte ∉ bootArea → m.memory byte = memory byte := by
  obtain ⟨d, memory', ran, -, serves, mapped, within⟩ := startup_spec located Pmm.empty empty
  have tables := kernEntry_tables memory
  have translated := walk_eq located serves.holds serves.pointed
  refine ⟨_, ran, rfl, fun vma inside => ⟨PMA vma &&& PAGE_MASK, tables.walk_window inside, ?_, ?_⟩,
    fun vma low => ⟨vma &&& PAGE_MASK, tables.walk_low low, ?_⟩, fun vma outside => ?_,
    fun byte outside outside' => ?_⟩
  · rw [translated, mapped, if_pos inside]
  · have range := inKernelWindow_iff.mp inside
    have place := toNat_pma_of_le vma (by omega)
    have mask : (PMA vma &&& PAGE_MASK).toNat = (PMA vma).toNat / 4096 * 4096 := toNat_pageBase _
    rw [← UInt32.toNat_inj, toNat_physical (by omega), mask]
    omega
  · have mask : (vma &&& PAGE_MASK).toNat = vma.toNat / 4096 * 4096 := toNat_pageBase _
    rw [← UInt32.toNat_inj, toNat_physical (by omega), mask]
    omega
  · rw [translated, mapped, if_neg outside]
  · exact (within byte outside).trans (kernEntry_within memory byte outside')

end Startup

/-- Memory in which nothing has been written holds the object as the program starts. -/
theorem blank_holds (start : UInt32) : Holds (fun _ => 0) start .zero := by
  intro field
  cases field <;> rfl

/-- A dictionary at 0xC0110000, in a memory of zeros. -/
theorem window_survives_kernel_startup :
    ∃ m, InMemory.initVmm 0xC0110000 (kernEntry fun _ => 0) = some ((), m) ∧ m.cr3 = 0x110000 ∧
      ∃ frame, walk (kernEntry fun _ => 0).memory (kernEntry fun _ => 0).cr3 0xC0123456 = some frame ∧
        walk m.memory m.cr3 0xC0123456 = some frame ∧ physical frame 0xC0123456 = 0x123456 := by
  have located : Located 0xC0110000 := ⟨by decide, by decide, by decide⟩
  obtain ⟨m, ran, register, window, -⟩ := window_survives_startup located (blank_holds _)
  exact ⟨m, ran, register, window 0xC0123456 (by decide)⟩

end Sprite.Paging

/-
**Demand paging never aliases frames**, after `src/lib/vmm.cc`.

* `initVmm`, `pageFaultHandler` — the kernel window is mapped, and a page is mapped when it is
  missed. Registering the handler and loading `cr3` are left to the machine.
* `Paged` — what holds of the tables and the frame stack together, after any faults.
* `initVmm_paged`, `fault_keeps` — it holds at first, and a fault keeps it.
* `demand_paging_never_aliases` — **the result**, over runs of any length.
-/
import Sprite.Paging.Refinement

namespace Sprite.Paging

open PageTable PageDictionary

structure Kernel where
  page_dictionary : PageDictionary
  pmm : Pmm

/-- `init_vmm`: 4 MB of kernel space are mapped. -/
def initVmm (this : UInt32) (k : Kernel) : Option Kernel := do
  let d ← (List.range (4 * 1024 / 4)).foldlM (fun d i =>
    d.insert this (VMA (UInt32.ofNat i <<< 12)) (UInt32.ofNat i <<< 12)) k.page_dictionary
  return { k with page_dictionary := d }

/-- A page fault: the address from `cr2`, and the error code pushed. -/
structure PageFault where
  cr2 : UInt32
  errCode : UInt32

def pageFaultHandler (this : UInt32) (k : Kernel) (fault : PageFault) : Option Kernel :=
  if fault.errCode &&& PAGE_PRESENT = 0 then do
    let (_, d, pmm) ← k.page_dictionary.operatorIndex pmmAllocPage this k.pmm fault.cr2
    return ⟨d, pmm⟩
  else some k

/-! ### What is to be shown -/

/-- The address is in the 4 MB that `init_vmm` maps. -/
def InKernelWindow (vma : UInt32) : Prop := 0xC0000000 ≤ vma ∧ vma < 0xC0400000

/-- The regions of 4 MB touched: that of the kernel window, and those of the faults. -/
def regions (faults : List PageFault) : Finset (Fin DICTIONARY_MAX_SIZE) :=
  insert (dictIndex PAGE_OFFSET) (faults.map fun fault => dictIndex fault.cr2).toFinset

/-- Faults on pages that are not present, fewer of them than frames, in no more regions than there
are tables. -/
structure Modest (s : Pmm) (faults : List PageFault) : Prop where
  missing : ∀ fault ∈ faults, fault.errCode &&& PAGE_PRESENT = 0
  fewer : faults.length < s.free.length
  fits : (regions faults).card ≤ TABLE_RESERVE

/-- After some faults, from the frame stack `s` on: what `at` reads are the frames of the tables, the
kernel window is mapped as it was, the pages that faulted are mapped, and outside the window to
different frames, which were taken from the stack. -/
structure Unaliased (this : UInt32) (s : Pmm) (faults : List PageFault) (k : Kernel) : Prop where
  reads : ∀ vma, k.page_dictionary.at_ this vma
    = some (translation (frameOf this k.page_dictionary vma) vma)
  window : ∀ vma, InKernelWindow vma →
    frameOf this k.page_dictionary vma = some (PMA vma &&& PAGE_MASK)
  mapped : ∀ fault ∈ faults, (frameOf this k.page_dictionary fault.cr2).isSome
  apart : ∀ fault ∈ faults, ∀ fault' ∈ faults, ¬ InKernelWindow fault.cr2 →
    ¬ InKernelWindow fault'.cr2 → page fault.cr2 ≠ page fault'.cr2 →
    frameOf this k.page_dictionary fault.cr2 ≠ frameOf this k.page_dictionary fault'.cr2
  taken : ∀ fault ∈ faults, ¬ InKernelWindow fault.cr2 →
    ∀ base ∈ frameOf this k.page_dictionary fault.cr2, base ∈ s.free ∧ base ∉ k.pmm.free

/-- A fault leaves every mapping as it was, and takes no frame if the page is mapped. -/
structure Preserves (this : UInt32) (fault : PageFault) (k k' : Kernel) : Prop where
  mappings : ∀ vma base, frameOf this k.page_dictionary vma = some base →
    frameOf this k'.page_dictionary vma = some base
  frames : (frameOf this k.page_dictionary fault.cr2).isSome → k'.pmm = k.pmm

/-! ### The invariant -/

/-- The tables stand for the map `m`. It maps the kernel window and the pages that faulted, the
latter to the frames `handed` out since the stack was `s`. -/
structure Paged (this : UInt32) (s : Pmm) (faults : List PageFault) (k : Kernel) (m : PageMap Pmm)
    (handed : List UInt32) : Prop where
  mirrors : Mirrors this k.page_dictionary m
  touched : m.touched ⊆ regions faults
  window : ∀ vma, InKernelWindow vma → m.frameOf (page vma) = some (PMA vma &&& PAGE_MASK)
  mapped : ∀ fault ∈ faults, (m.frameOf (page fault.cr2)).isSome
  owned : ∀ vma base, ¬ InKernelWindow vma → m.frameOf (page vma) = some base → base ∈ handed
  injective : ∀ vma vma' base, ¬ InKernelWindow vma → ¬ InKernelWindow vma' →
    m.frameOf (page vma) = some base → m.frameOf (page vma') = some base → page vma = page vma'
  fits : k.pmm.Fits
  stack : s.free = k.pmm.free ++ handed
  each : handed.length ≤ faults.length

theorem regions_append (faults : List PageFault) (fault : PageFault) :
    regions (faults ++ [fault]) = insert (dictIndex fault.cr2) (regions faults) := by
  ext i
  simp only [regions, List.map_append, List.map_singleton, List.toFinset_append, Finset.mem_insert,
    Finset.mem_union, List.mem_toFinset, List.mem_singleton]
  exact ⟨fun h => by rcases h with h | h | h <;> simp [h], fun h => by
    rcases h with h | h | h <;> simp [h]⟩

theorem Modest.before {s : Pmm} {faults : List PageFault} {fault : PageFault}
    (modest : Modest s (faults ++ [fault])) : Modest s faults := by
  refine ⟨fun other inside => modest.missing other (List.mem_append_left _ inside), ?_, ?_⟩
  · have fewer := modest.fewer
    rw [List.length_append] at fewer
    omega
  · refine le_trans (Finset.card_le_card ?_) modest.fits
    rw [regions_append]
    exact Finset.subset_insert _ _

section Faults

variable {this : UInt32} {s : Pmm} {faults : List PageFault} {k : Kernel} {m : PageMap Pmm}
  {handed : List UInt32}

theorem Paged.unaliased (distinct : s.free.Nodup) (paged : Paged this s faults k m handed) :
    Unaliased this s faults k := by
  have same := paged.mirrors.same
  refine ⟨at_spec paged.mirrors.wired, ?_, ?_, ?_, ?_⟩
  · intro vma inside
    rw [same, paged.window vma inside]
  · intro fault inside
    rw [same]
    exact paged.mapped fault inside
  · intro fault inside fault' inside' outside outside' other
    rw [same, same]
    intro equal
    obtain ⟨base, found⟩ := Option.isSome_iff_exists.mp (paged.mapped fault inside)
    exact other (paged.injective _ _ base outside outside' found (equal ▸ found))
  · intro fault inside outside base found
    rw [same] at found
    have owner := paged.owned _ base outside found
    rw [paged.stack, List.nodup_append] at distinct
    refine ⟨?_, fun still => distinct.2.2 base still base owner rfl⟩
    rw [paged.stack]
    exact List.mem_append_right _ owner

/-- A fault on a page that has a frame. -/
theorem fault_mapped {fault : PageFault} {base : UInt32} (paged : Paged this s faults k m handed)
    (missing : fault.errCode &&& PAGE_PRESENT = 0) (known : m.frameOf (page fault.cr2) = some base) :
    pageFaultHandler this k fault = some k ∧ Paged this s (faults ++ [fault]) k m handed := by
  refine ⟨?_, { paged with touched := ?_, mapped := ?_, each := ?_ }⟩
  · unfold pageFaultHandler
    rw [if_pos missing, paged.mirrors.index_mapped k.pmm known]
    rfl
  · rw [regions_append]
    exact paged.touched.trans (Finset.subset_insert _ _)
  · intro other inside
    rcases List.mem_append.mp inside with inside | inside
    · exact paged.mapped other inside
    · rw [List.mem_singleton.mp inside, known, Option.isSome_some]
  · rw [List.length_append]
    exact Nat.le_add_right_of_le paged.each

/-- A fault on a page that has none: the top frame of the stack becomes its frame. -/
theorem fault_unmapped (aligned : this &&& PAGE_MASK = this) (distinct : s.free.Nodup)
    (whole : ∀ base ∈ s.free, base &&& PAGE_MASK = base) {fault : PageFault}
    (paged : Paged this s faults k m handed) (modest : Modest s (faults ++ [fault]))
    (unknown : m.frameOf (page fault.cr2) = none) :
    ∃ k' base, pageFaultHandler this k fault = some k' ∧
      Paged this s (faults ++ [fault]) k' (m.map fault.cr2 base) (base :: handed) := by
  have missing := modest.missing fault (List.mem_append_right _ (List.mem_singleton_self _))
  have enough : 1 < k.pmm.free.length := by
    have fewer := modest.fewer
    have each := paged.each
    rw [paged.stack, List.length_append, List.length_append, List.length_singleton] at fewer
    omega
  obtain ⟨base, pmm', allocated, took, fits'⟩ := Pmm.alloc_spec paged.fits enough
  have stack' : s.free = pmm'.free ++ base :: handed := by
    rw [paged.stack, took, List.append_assoc, List.singleton_append]
  have inStack : base ∈ s.free := by
    rw [stack']
    exact List.mem_append_right _ List.mem_cons_self
  have fresh : base ∉ handed := by
    rw [stack', List.nodup_append, List.nodup_cons] at distinct
    exact distinct.2.1.1
  have touched' : insert (dictIndex fault.cr2) m.touched ⊆ regions (faults ++ [fault]) := by
    rw [regions_append]
    exact Finset.insert_subset_insert _ paged.touched
  have room : m.Room fault.cr2 := le_trans (Finset.card_le_card touched') modest.fits
  obtain ⟨d', ran, mirrors'⟩ :=
    paged.mirrors.index_unmapped aligned room unknown allocated (whole base inStack)
  have kept : ∀ vma, page vma ≠ page fault.cr2 →
      (m.map fault.cr2 base).frameOf (page vma) = m.frameOf (page vma) :=
    fun vma other => m.map_of_ne base other
  -- A page of the map is the one that has faulted, with the new frame, or was there before.
  have cases : ∀ vma f, (m.map fault.cr2 base).frameOf (page vma) = some f →
      page vma = page fault.cr2 ∧ f = base ∨
        page vma ≠ page fault.cr2 ∧ m.frameOf (page vma) = some f := by
    intro vma f found
    by_cases same : page vma = page fault.cr2
    · rw [same, PageMap.map_self, Option.some.injEq] at found
      exact Or.inl ⟨same, found.symm⟩
    · exact Or.inr ⟨same, (kept vma same).symm.trans found⟩
  refine ⟨⟨d', pmm'⟩, base, ?_, ⟨mirrors', touched', ?_, ?_, ?_, ?_, fits', stack', ?_⟩⟩
  · unfold pageFaultHandler
    rw [if_pos missing, ran]
    rfl
  · intro vma inside
    have known := paged.window vma inside
    rw [kept vma (fun same => by rw [same, unknown] at known; cases known), known]
  · intro other inside
    by_cases same : page other.cr2 = page fault.cr2
    · rw [same, PageMap.map_self, Option.isSome_some]
    · rw [kept _ same]
      rcases List.mem_append.mp inside with inside | inside
      · exact paged.mapped other inside
      · rw [List.mem_singleton.mp inside] at same
        exact absurd rfl same
  · intro vma f outside found
    rcases cases vma f found with ⟨_, rfl⟩ | ⟨_, known⟩
    · exact List.mem_cons_self
    · exact List.mem_cons_of_mem _ (paged.owned vma f outside known)
  · intro vma vma' f outside outside' found found'
    rcases cases vma f found with ⟨same, rfl⟩ | ⟨_, known⟩ <;>
      rcases cases vma' _ found' with ⟨same', new⟩ | ⟨_, known'⟩
    · exact same.trans same'.symm
    · exact absurd (paged.owned vma' _ outside' known') fresh
    · exact absurd (new ▸ paged.owned vma _ outside known) fresh
    · exact paged.injective vma vma' f outside outside' known known'
  · rw [List.length_cons, List.length_append]
    exact Nat.succ_le_succ paged.each

/-- **One fault.** -/
theorem fault_keeps (aligned : this &&& PAGE_MASK = this) (distinct : s.free.Nodup)
    (whole : ∀ base ∈ s.free, base &&& PAGE_MASK = base) {fault : PageFault}
    (paged : Paged this s faults k m handed) (modest : Modest s (faults ++ [fault])) :
    ∃ k' m' handed', pageFaultHandler this k fault = some k' ∧
      Paged this s (faults ++ [fault]) k' m' handed' ∧ Preserves this fault k k' := by
  have missing := modest.missing fault (List.mem_append_right _ (List.mem_singleton_self _))
  cases known : m.frameOf (page fault.cr2) with
  | some base =>
    obtain ⟨ran, paged'⟩ := fault_mapped paged missing known
    exact ⟨k, m, handed, ran, paged', fun _ _ found => found, fun _ => rfl⟩
  | none =>
    obtain ⟨k', base, ran, paged'⟩ := fault_unmapped aligned distinct whole paged modest known
    refine ⟨k', _, _, ran, paged', ?_, ?_⟩
    · intro vma f found
      rw [paged.mirrors.same] at found
      have other : page vma ≠ page fault.cr2 := by
        intro same
        rw [same, known] at found
        cases found
      rw [paged'.mirrors.same, m.map_of_ne base other, found]
    · intro mapped
      rw [paged.mirrors.same, known] at mapped
      cases mapped

/-- A run of faults. -/
theorem faults_keep (aligned : this &&& PAGE_MASK = this) (distinct : s.free.Nodup)
    (whole : ∀ base ∈ s.free, base &&& PAGE_MASK = base) (start : Paged this s [] k m handed)
    (faults : List PageFault) (modest : Modest s faults) :
    ∃ k' m' handed', faults.foldlM (pageFaultHandler this) k = some k' ∧
      Paged this s faults k' m' handed' := by
  induction faults using List.reverseRecOn with
  | nil => exact ⟨k, m, handed, rfl, start⟩
  | append_singleton faults fault ih =>
    obtain ⟨k', m', handed', ran, paged⟩ := ih modest.before
    obtain ⟨k'', m'', handed'', ran', paged', _⟩ := fault_keeps aligned distinct whole paged modest
    refine ⟨k'', m'', handed'', ?_, paged'⟩
    rw [List.foldlM_append, ran, Option.bind_eq_bind, Option.bind_some, List.foldlM_cons, ran']
    rfl

end Faults

/-! ### The kernel window -/

theorem toNat_pageAddress {i : Nat} (small : i < 1024) : (UInt32.ofNat i <<< 12).toNat = i * 4096 := by
  have value : (UInt32.ofNat i).toNat = i :=
    UInt32.toNat_ofNat_of_lt' (Nat.lt_trans small (by decide))
  rw [UInt32.toNat_shiftLeft, value, show (12 : UInt32).toNat % 32 = 12 from rfl,
    Nat.shiftLeft_eq]
  omega

theorem toNat_windowAddress {i : Nat} (small : i < 1024) :
    (VMA (UInt32.ofNat i <<< 12)).toNat = 3221225472 + i * 4096 := by
  rw [VMA, UInt32.toNat_add, toNat_pageAddress small, show PAGE_OFFSET.toNat = 3221225472 from rfl]
  omega

/-- The page of the window that is mapped in turn `i` gets the frame that `PMA` makes of it. -/
theorem windowFrame {i : Nat} (small : i < 1024) {vma : UInt32}
    (same : page vma = page (VMA (UInt32.ofNat i <<< 12))) :
    UInt32.ofNat i <<< 12 &&& PAGE_MASK = PMA vma &&& PAGE_MASK := by
  have below := vma.toNat_lt
  rw [← UInt32.toNat_inj, page_val, page_val, toNat_windowAddress small] at same
  have left := Words.toNat_pageBase (UInt32.ofNat i <<< 12)
  have right := Words.toNat_pageBase (PMA vma)
  rw [toNat_pageAddress small] at left
  rw [PMA, UInt32.toNat_sub, show PAGE_OFFSET.toNat = 3221225472 from rfl] at right
  rw [← UInt32.toNat_inj]
  refine left.trans (Eq.trans ?_ right.symm)
  omega

theorem inKernelWindow_iff {vma : UInt32} : InKernelWindow vma ↔
    3221225472 ≤ vma.toNat ∧ vma.toNat < 3221225472 + 1024 * 4096 := by
  rw [InKernelWindow, UInt32.le_iff_toNat_le, UInt32.lt_iff_toNat_lt,
    show (0xC0000000 : UInt32).toNat = 3221225472 from rfl,
    show (0xC0400000 : UInt32).toNat = 3225419776 from rfl]

/-- The first turns of the loop map the first pages of the window. -/
theorem initVmm_loop {this : UInt32} (aligned : this &&& PAGE_MASK = this) (s : Pmm) (turns : Nat)
    (few : turns ≤ 1024) :
    ∃ d m, (List.range turns).foldlM (fun d i => PageDictionary.insert this d
        (VMA (UInt32.ofNat i <<< 12)) (UInt32.ofNat i <<< 12)) .zero = some d ∧
      Mirrors this d (m : PageMap Pmm) ∧ m.touched ⊆ {dictIndex PAGE_OFFSET} ∧
      ∀ vma, m.frameOf (page vma) = if 3221225472 ≤ vma.toNat ∧ vma.toNat < 3221225472 + turns * 4096
        then some (PMA vma &&& PAGE_MASK) else none := by
  induction turns with
  | zero =>
    refine ⟨.zero, _, rfl, zero_mirrors s, Finset.empty_subset _, fun vma => ?_⟩
    rw [if_neg (by omega)]
  | succ i ih =>
    obtain ⟨d, m, ran, mirrors, touched, frames⟩ := ih (by omega)
    have address := toNat_windowAddress (i := i) (by omega)
    have region : dictIndex (VMA (UInt32.ofNat i <<< 12)) = dictIndex PAGE_OFFSET := by
      rw [Fin.ext_iff, dictIndex_val, dictIndex_val, address,
        show PAGE_OFFSET.toNat = 3221225472 from rfl]
      omega
    have touched' : insert (dictIndex (VMA (UInt32.ofNat i <<< 12))) m.touched
        ⊆ {dictIndex PAGE_OFFSET} := by
      rw [region]
      exact Finset.insert_subset (Finset.mem_singleton_self _) touched
    have room : m.Room (VMA (UInt32.ofNat i <<< 12)) :=
      le_trans (Finset.card_le_card touched') (by rw [Finset.card_singleton]; decide)
    obtain ⟨d', ran', mirrors'⟩ := mirrors.insert aligned _ (UInt32.ofNat i <<< 12) room
    refine ⟨d', _, ?_, mirrors', touched', fun vma => ?_⟩
    · rw [List.range_succ, List.foldlM_append, ran, Option.bind_eq_bind, Option.bind_some,
        List.foldlM_cons, ran']
      rfl
    · by_cases same : page vma = page (VMA (UInt32.ofNat i <<< 12))
      · have place := same
        rw [← UInt32.toNat_inj, page_val, page_val, address] at place
        rw [same, PageMap.map_self, windowFrame (by omega) same, if_pos (by omega)]
      · have place := same
        rw [← UInt32.toNat_inj, page_val, page_val, address] at place
        rw [m.map_of_ne _ same, frames]
        exact if_congr (by omega) rfl rfl

/-- **What `init_vmm` sets up.** -/
theorem initVmm_paged {this : UInt32} (aligned : this &&& PAGE_MASK = this) {s : Pmm}
    (fits : s.Fits) :
    ∃ k m, initVmm this ⟨.zero, s⟩ = some k ∧ Paged this s [] k m [] := by
  obtain ⟨d, m, ran, mirrors, touched, frames⟩ := initVmm_loop aligned s 1024 le_rfl
  have nothing : ∀ vma, ¬ InKernelWindow vma → m.frameOf (page vma) = none := by
    intro vma outside
    rw [frames, if_neg (fun inside => outside (inKernelWindow_iff.mpr inside))]
  refine ⟨⟨d, s⟩, m, ?_, ⟨mirrors, touched, ?_, ?_, ?_, ?_, fits, (List.append_nil _).symm, le_rfl⟩⟩
  · unfold initVmm
    rw [show 4 * 1024 / 4 = 1024 from rfl, ran]
    rfl
  · intro vma inside
    rw [frames, if_pos (inKernelWindow_iff.mp inside)]
  · exact fun fault inside => absurd inside List.not_mem_nil
  · intro vma base outside found
    rw [nothing vma outside] at found
    cases found
  · intro vma vma' base outside _ found
    rw [nothing vma outside] at found
    cases found

/-- **Demand paging never aliases frames.** From a stack of different page frames and the mapping of
`init_vmm` on, every run of faults comes back, and after it different pages outside the kernel window
have different frames, which have left the stack. The next fault changes no mapping, and takes no
frame if the page has one. -/
theorem demand_paging_never_aliases {this : UInt32} (aligned : this &&& PAGE_MASK = this) {s : Pmm}
    (fits : s.Fits) (distinct : s.free.Nodup) (whole : ∀ base ∈ s.free, base &&& PAGE_MASK = base) :
    ∃ k₀, initVmm this ⟨.zero, s⟩ = some k₀ ∧ ∀ faults, Modest s faults →
      ∃ k, faults.foldlM (pageFaultHandler this) k₀ = some k ∧ Unaliased this s faults k ∧
        ∀ fault, Modest s (faults ++ [fault]) →
          ∃ k', pageFaultHandler this k fault = some k' ∧ Preserves this fault k k' := by
  obtain ⟨k₀, m₀, started, paged₀⟩ := initVmm_paged aligned fits
  refine ⟨k₀, started, fun faults modest => ?_⟩
  obtain ⟨k, m, handed, ran, paged⟩ := faults_keep aligned distinct whole paged₀ faults modest
  refine ⟨k, ran, paged.unaliased distinct, fun fault modest' => ?_⟩
  obtain ⟨k', _, _, ran', _, preserves⟩ := fault_keeps aligned distinct whole paged modest'
  exact ⟨k', ran', preserves⟩

/-- A dictionary at 0xC0110000 and a stack of four frames: faults in two regions, then one more in
the first, on a page that has a frame by then. -/
theorem kernel_paging_never_aliases :
    ∃ s k₀ k k', [0x200000, 0x201000, 0x202000, 0x203000].foldlM pmmFreePage Pmm.empty = some s ∧
      initVmm 0xC0110000 ⟨.zero, s⟩ = some k₀ ∧
      [⟨0x10002000, 0⟩, ⟨0x20000010, 2⟩].foldlM (pageFaultHandler 0xC0110000) k₀ = some k ∧
      Unaliased 0xC0110000 s [⟨0x10002000, 0⟩, ⟨0x20000010, 2⟩] k ∧
      pageFaultHandler 0xC0110000 k ⟨0x10002FFC, 2⟩ = some k' ∧
      Preserves 0xC0110000 ⟨0x10002FFC, 2⟩ k k' := by
  obtain ⟨s, ran, pushed, fits⟩ := Pmm.free_all_spec [0x200000, 0x201000, 0x202000, 0x203000]
    (by decide)
  have modest : Modest s ([⟨0x10002000, 0⟩, ⟨0x20000010, 2⟩] ++ [⟨0x10002FFC, 2⟩]) :=
    ⟨by decide, by rw [pushed]; decide, by decide⟩
  have aligned : (0xC0110000 : UInt32) &&& PAGE_MASK = 0xC0110000 := by decide
  obtain ⟨k₀, started, runs⟩ := demand_paging_never_aliases aligned fits (by rw [pushed]; decide)
    (by rw [pushed]; exact List.all_iff_forall_prop.mp (by decide))
  obtain ⟨k, ran', unaliased, next⟩ := runs _ modest.before
  obtain ⟨k', ran'', preserves⟩ := next _ modest
  exact ⟨s, k₀, k, k', ran, started, ran', unaliased, ran'', preserves⟩

end Sprite.Paging

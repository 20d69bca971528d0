/-
**What `at` answers when it misses.**

`at` answers 0 for a page that is not mapped, and the first address of frame 0 is 0, too. `init_vmm` maps
that frame.

* `Mapped`, `MappedToZero` — which pages a sequence of requests maps, and which of them to frame 0.
* `legal_of_step` — a request that comes back had a table, and a frame if it needed one.
* `History` — the invariant: the map knows which pages have been mapped, and which to frame 0.
* `miss_unambiguous_iff` — **the addresses for which the answer 0 says that the page is not mapped**.
* `first_page_missed` — the page at 0xC0000000 looks as if it were not mapped.
-/
import Sprite.Paging.Faults

namespace Sprite.Paging

open TwoLevel PageTable PageDictionary

/-! ### What requests map -/

/-- The request maps the page of an address. -/
def Request.Maps (vma : UInt32) : Request → Prop
  | .at_ _ => False
  | .operatorIndex vma' => page vma = page vma'
  | .insert vma' _ => page vma = page vma'

/-- The address that an `insert` for the page maps it to. -/
def Request.inserts (vma : UInt32) : Request → Option UInt32
  | .at_ _ => none
  | .operatorIndex _ => none
  | .insert vma' pma => if page vma = page vma' then some pma else none

/-- **The page is mapped**, by `init_vmm` or by a request. -/
def Mapped (requests : List Request) (vma : UInt32) : Prop :=
  InKernelWindow vma ∨ ∃ request ∈ requests, request.Maps vma

/-- The address that the last `insert` for the page maps it to. -/
def lastInsert (vma : UInt32) (requests : List Request) : Option UInt32 :=
  requests.foldl (fun last request => (request.inserts vma).or last) none

/-- **The page is mapped to frame 0**: by the last `insert` for it, or without one by `init_vmm`. -/
def MappedToZero (requests : List Request) (vma : UInt32) : Prop :=
  match lastInsert vma requests with
  | some pma => pma &&& PAGE_MASK = 0
  | none => page vma = page PAGE_OFFSET

section Requests

variable {requests : List Request} {request : Request} {vma : UInt32}

theorem lastInsert_append (vma : UInt32) (requests : List Request) (request : Request) :
    lastInsert vma (requests ++ [request]) = (request.inserts vma).or (lastInsert vma requests) := by
  rw [lastInsert, List.foldl_append]
  rfl

theorem mapped_append :
    Mapped (requests ++ [request]) vma ↔ Mapped requests vma ∨ request.Maps vma := by
  unfold Mapped
  simp only [List.mem_append, List.mem_singleton, or_and_right, exists_or, exists_eq_left, or_assoc]

/-- A request that is no `insert` for the page leaves its frame. -/
theorem mappedToZero_append (other : request.inserts vma = none) :
    MappedToZero (requests ++ [request]) vma ↔ MappedToZero requests vma := by
  rw [MappedToZero, lastInsert_append, other, Option.none_or, MappedToZero]

theorem mappedToZero_insert {pma : UInt32} (inserts : request.inserts vma = some pma) :
    MappedToZero (requests ++ [request]) vma ↔ pma &&& PAGE_MASK = 0 := by
  rw [MappedToZero, lastInsert_append, inserts, Option.some_or]

end Requests

/-! ### Requests that come back -/

section Legal

variable {Frames : Type} {pmmAllocPage : Frames → Option (UInt32 × Frames)} {this : UInt32}
  {d : PageDictionary} {m : PageMap Frames}

/-- A table that has been retrieved was there, or there was one left. -/
theorem room_of_retrieve {vma : UInt32} {r : Fin TABLE_RESERVE × PageDictionary} (wired : Wired this d)
    (ran : d.retrieveTable this vma = some r) :
    (insert (dictIndex vma) (view this d).touched).card ≤ TABLE_RESERVE := by
  by_cases absent : d.entries (dictIndex vma) &&& PAGE_PRESENT = 0
  · obtain ⟨d', ensured, _⟩ := Option.bind_eq_some_iff.mp ran
    rw [ensureTable, if_pos absent] at ensured
    obtain ⟨⟨raw, d''⟩, allocated, _⟩ := Option.bind_eq_some_iff.mp ensured
    by_cases asserted : d.table_count < UInt32.ofNat TABLE_RESERVE
    · have few : d.table_count.toNat < TABLE_RESERVE := UInt32.lt_iff_toNat_lt.mp asserted
      have counted : (view this d).touched.card = d.table_count.toNat := wired.sound.counted
      have more := Finset.card_insert_le (dictIndex vma) (view this d).touched
      omega
    · rw [allocTable, if_neg asserted] at allocated
      cases allocated
  · obtain ⟨t, leads, _⟩ := wired.table absent
    have inside : dictIndex vma ∈ (view this d).touched := by
      rw [mem_touched, leads]
      rfl
    rw [Finset.insert_eq_of_mem inside]
    exact wired.sound.touched_le

/-- A frame that has been needed was there. -/
theorem alloc_of_operatorIndex (aligned : this &&& PAGE_MASK = this) (wired : Wired this d) {vma : UInt32}
    {frames : Frames} {r : UInt32 × PageDictionary × Frames}
    (ran : d.operatorIndex pmmAllocPage this frames vma = some r) (unmapped : frameOf this d vma = none) :
    (pmmAllocPage frames).isSome := by
  obtain ⟨⟨t, d'⟩, retrieved, ran⟩ := Option.bind_eq_some_iff.mp ran
  obtain ⟨_, _, retrieved', _, leads, _, same⟩ :=
    retrieveTable_spec aligned wired vma (room_of_retrieve wired retrieved)
  cases retrieved.symm.trans retrieved'
  obtain ⟨_, ran, _⟩ := Option.bind_eq_some_iff.mp ran
  have absent : frame (d'.reserve t) (tableIndex vma) = none :=
    (frame_of_leads leads).trans ((same vma).trans unmapped)
  by_cases missing : (d'.reserve t).entries (tableIndex vma) &&& PAGE_PRESENT = 0
  · unfold PageTable.operatorIndex at ran
    rw [if_pos missing] at ran
    obtain ⟨_, allocated, _⟩ := Option.bind_eq_some_iff.mp ran
    rw [allocated]
    rfl
  · rw [frame, if_neg missing] at absent
    cases absent

/-- **A request that comes back** was one that the map allows. -/
theorem legal_of_step (aligned : this &&& PAGE_MASK = this) (mirrors : Mirrors this d m)
    {request : Request} {r : Option UInt32 × PageDictionary × Frames}
    (ran : step pmmAllocPage this (d, m.frames) request = some r) :
    (pageMap pmmAllocPage).legal m request := by
  cases request with
  | at_ vma => trivial
  | insert vma pma =>
    obtain ⟨d', inserted, _⟩ := Option.bind_eq_some_iff.mp ran
    obtain ⟨_, retrieved, _⟩ := Option.bind_eq_some_iff.mp inserted
    have room := room_of_retrieve mirrors.wired retrieved
    rwa [mirrors.touched] at room
  | operatorIndex vma =>
    obtain ⟨_, indexed, _⟩ := Option.bind_eq_some_iff.mp ran
    obtain ⟨_, retrieved, _⟩ := Option.bind_eq_some_iff.mp indexed
    have room := room_of_retrieve mirrors.wired retrieved
    rw [mirrors.touched] at room
    refine ⟨room, fun unmapped => alloc_of_operatorIndex aligned mirrors.wired indexed ?_⟩
    rw [mirrors.same, unmapped]

end Legal

/-! ### What the map knows -/

/-- **The invariant**: the map has a frame for the pages that have been mapped, and frame 0 for those that
have been mapped to it. -/
structure History {Frames : Type} (m : PageMap Frames) (requests : List Request) : Prop where
  mapped : ∀ vma, (m.frameOf (page vma)).isSome ↔ Mapped requests vma
  zero : ∀ vma, m.frameOf (page vma) = some 0 ↔ MappedToZero requests vma

section Runs

variable {Frames : Type} {pmmAllocPage : Frames → Option (UInt32 × Frames)} {this : UInt32}
  {d : PageDictionary} {m m' : PageMap Frames} {requests : List Request}

/-- A request that maps no page, or one that has a frame. -/
theorem History.same {request : Request} (history : History m requests)
    (known : ∀ vma, request.Maps vma → (m.frameOf (page vma)).isSome)
    (inserts : ∀ vma, request.inserts vma = none) : History m (requests ++ [request]) := by
  refine ⟨fun vma => ?_, fun vma => ?_⟩
  · rw [mapped_append, ← history.mapped]
    exact (or_iff_left_of_imp (known vma)).symm
  · rw [mappedToZero_append (inserts vma), history.zero]

/-- A request that maps a page. -/
theorem History.map {request : Request} (history : History m requests) {vma base : UInt32}
    (maps : ∀ other, request.Maps other ↔ page other = page vma)
    (inserts : ∀ other, page other ≠ page vma → request.inserts other = none)
    (isZero : ∀ other, page other = page vma →
      (base = 0 ↔ MappedToZero (requests ++ [request]) other)) :
    History (m.map vma base) (requests ++ [request]) := by
  refine ⟨fun other => ?_, fun other => ?_⟩
  · rw [mapped_append, maps, ← history.mapped]
    by_cases samePage : page other = page vma
    · rw [samePage, PageMap.map_self]
      exact iff_of_true rfl (.inr rfl)
    · rw [PageMap.map_of_ne m base samePage, or_iff_left samePage]
  · by_cases samePage : page other = page vma
    · rw [← isZero other samePage, samePage, PageMap.map_self, Option.some.injEq]
    · rw [PageMap.map_of_ne m base samePage, mappedToZero_append (inserts other samePage), history.zero]

/-- **One request.** -/
theorem History.next {request : Request} {out : Option UInt32} (history : History m requests)
    (nonzero : ∀ base frames', pmmAllocPage m.frames = some (base, frames') → base ≠ 0)
    (next : (pageMap pmmAllocPage).next m request out m') : History m' (requests ++ [request]) := by
  cases request with
  | at_ vma =>
    obtain ⟨_, rfl⟩ := next
    exact history.same (fun _ impossible => impossible.elim) fun _ => rfl
  | insert vma pma =>
    obtain ⟨_, rfl⟩ := next
    refine history.map (fun _ => Iff.rfl) (fun other apart => if_neg apart) fun other samePage => ?_
    have inserts : (Request.insert vma pma).inserts other = some pma := if_pos samePage
    rw [mappedToZero_insert inserts]
  | operatorIndex vma =>
    obtain ⟨_, next⟩ := next
    cases known : m.frameOf (page vma) with
    | some base =>
      rw [known] at next
      obtain rfl : m' = m := next
      refine history.same (fun other samePage => ?_) fun _ => rfl
      have page_eq : page other = page vma := samePage
      rw [page_eq, known]
      rfl
    | none =>
      rw [known] at next
      obtain ⟨base, frames', allocated, rfl⟩ := next
      have mapped : History (m.map vma base) (requests ++ [.operatorIndex vma]) := by
        refine history.map (fun _ => Iff.rfl) (fun _ _ => rfl) fun other samePage => ?_
        rw [mappedToZero_append rfl, ← history.zero, samePage, known]
        exact iff_of_false (nonzero base frames' allocated) fun impossible => by cases impossible
      exact ⟨mapped.mapped, mapped.zero⟩

/-- Requests, one after the other. -/
def after (pmmAllocPage : Frames → Option (UInt32 × Frames)) (this : UInt32)
    (s : PageDictionary × Frames) (requests : List Request) : Option (PageDictionary × Frames) :=
  requests.foldlM (fun s request => (step pmmAllocPage this s request).map Prod.snd) s

/-- **Every run** keeps the invariant. -/
theorem history_after (aligned : this &&& PAGE_MASK = this) {Good : Frames → Prop}
    (allocates : AllocatesPages pmmAllocPage Good)
    (nonzero : ∀ frames base frames', Good frames → pmmAllocPage frames = some (base, frames') → base ≠ 0)
    {frames : Frames} (mirrors : Mirrors this d m) (shared : frames = m.frames) (good : Good frames)
    (start : History m []) (requests : List Request) : ∀ {last : PageDictionary × Frames},
    after pmmAllocPage this (d, frames) requests = some last →
    ∃ m', Mirrors this last.1 m' ∧ last.2 = m'.frames ∧ Good last.2 ∧ History m' requests := by
  induction requests using List.reverseRecOn with
  | nil =>
    intro last ran
    cases ran
    exact ⟨m, mirrors, shared, good, start⟩
  | append_singleton requests request ih =>
    intro last ran
    rw [after, List.foldlM_append] at ran
    obtain ⟨⟨d₁, frames₁⟩, before, ran⟩ := Option.bind_eq_some_iff.mp ran
    obtain ⟨m₁, mirrors₁, rfl, good₁, history⟩ := ih before
    rw [List.foldlM_cons] at ran
    obtain ⟨_, mapped, same⟩ := Option.bind_eq_some_iff.mp ran
    cases same
    obtain ⟨r, stepped, rfl⟩ := Option.map_eq_some_iff.mp mapped
    obtain ⟨out, s', m', stepped', next, mirrors', shared', good'⟩ :=
      step_simulates aligned allocates mirrors₁ rfl good₁ (legal_of_step aligned mirrors₁ stepped)
    cases stepped.symm.trans stepped'
    exact ⟨m', mirrors', shared', good', history.next (fun base frames' => nonzero _ base frames' good₁) next⟩

/-- `init_vmm` maps the kernel window, and its first page to frame 0. -/
theorem history_start (aligned : this &&& PAGE_MASK = this) (s : Pmm) (frames : Frames) :
    ∃ k, ∃ m : PageMap Frames, initVmm this ⟨.zero, s⟩ = some k ∧ Mirrors this k.page_dictionary m ∧
      m.touched ⊆ {dictIndex PAGE_OFFSET} ∧ frames = m.frames ∧ History m [] := by
  obtain ⟨d, m, ran, mirrors, touched, places⟩ := initVmm_loop aligned s 1024 (Nat.le_refl _)
  refine ⟨⟨d, s⟩, ⟨m.frameOf, m.touched, frames⟩, ?_, ⟨mirrors.wired, mirrors.touched, mirrors.same⟩,
    touched, rfl, fun vma => ?_, fun vma => ?_⟩
  · unfold initVmm
    rw [show 4 * 1024 / 4 = 1024 from rfl, ran]
    rfl
  · have mapped : Mapped [] vma ↔ InKernelWindow vma := by
      unfold Mapped
      simp only [List.not_mem_nil, false_and, exists_false, or_false]
    rw [mapped, inKernelWindow_iff, places]
    split_ifs with inside
    · exact iff_of_true rfl inside
    · exact iff_of_false Bool.false_ne_true inside
  · have zero : MappedToZero [] vma ↔ page vma = page PAGE_OFFSET := Iff.rfl
    have small := vma.toNat_lt
    have base := Words.toNat_pageBase (PMA vma)
    rw [PMA, UInt32.toNat_sub, show PAGE_OFFSET.toNat = 3221225472 from rfl] at base
    rw [zero, places, ← UInt32.toNat_inj, page_val, page_val, show PAGE_OFFSET.toNat = 3221225472 from rfl]
    split_ifs with inside
    · have number : (PMA vma &&& PAGE_MASK).toNat = _ := base
      rw [Option.some.injEq, ← UInt32.toNat_inj, number, show (0 : UInt32).toNat = 0 from rfl]
      omega
    · refine iff_of_false (fun impossible => by cases impossible) ?_
      omega

theorem translation_eq_zero {frame : Option UInt32} {vma : UInt32} :
    translation frame vma = 0 ↔ frame = none ∨ frame = some 0 ∧ pageOffset vma = 0 := by
  cases frame with
  | none => exact iff_of_true rfl (.inl rfl)
  | some base =>
    have either : base ||| pageOffset vma = 0 ↔ base = 0 ∧ pageOffset vma = 0 := UInt32.or_eq_zero_iff
    rw [translation, either, Option.some.injEq]
    exact (or_iff_right (Option.some_ne_none base)).symm

/-- **`at` answers 0 exactly when the page is not mapped**, after every run of requests from `init_vmm` on,
for every address but the first one of a page that is mapped to frame 0. -/
theorem miss_unambiguous_iff (aligned : this &&& PAGE_MASK = this) {Good : Frames → Prop}
    (allocates : AllocatesPages pmmAllocPage Good)
    (nonzero : ∀ frames base frames', Good frames → pmmAllocPage frames = some (base, frames') → base ≠ 0)
    {s : Pmm} {k : Kernel} (started : initVmm this ⟨.zero, s⟩ = some k) {frames : Frames}
    (good : Good frames) {last : PageDictionary × Frames}
    (ran : after pmmAllocPage this (k.page_dictionary, frames) requests = some last) (vma : UInt32) :
    ∃ pma, last.1.at_ this vma = some pma ∧
      ((pma = 0 ↔ ¬ Mapped requests vma) ↔ ¬ (MappedToZero requests vma ∧ pageOffset vma = 0)) := by
  obtain ⟨_, m, started', mirrors, _, shared, start⟩ := history_start aligned s frames
  cases started.symm.trans started'
  obtain ⟨m', mirrors', _, _, history⟩ :=
    history_after aligned allocates nonzero mirrors shared good start requests ran
  refine ⟨_, mirrors'.at_ vma, ?_⟩
  rw [PageMap.at_, translation_eq_zero, ← history.mapped, ← history.zero, Option.not_isSome_iff_eq_none]
  constructor
  · rintro same both
    have missed := same.mp (.inr both)
    rw [both.1] at missed
    cases missed
  · intro apart
    exact or_iff_left apart

end Runs

/-! ### The kernel -/

/-- The frames on the stack are page addresses, none of them 0. -/
def NonzeroPages (s : Pmm) : Prop := WholePages s ∧ ∀ base ∈ s.free, base ≠ 0

theorem nonzeroPages_alloc {s s' : Pmm} {base : UInt32} (good : NonzeroPages s)
    (ran : pmmAllocPage s = some (base, s')) : base ≠ 0 ∧ NonzeroPages s' := by
  obtain ⟨base', s'', ran', taken, _⟩ := Pmm.alloc_spec good.1.1 (Pmm.alloc_enough ran)
  cases ran.symm.trans ran'
  refine ⟨good.2 base ?_, pmmAllocPage_allocates.kept good.1 ran, fun other inside => good.2 other ?_⟩
  · rw [taken]
    exact List.mem_append_right _ (List.mem_singleton_self _)
  · rw [taken]
    exact List.mem_append_left _ inside

theorem pmmAllocPage_nonzero : AllocatesPages pmmAllocPage NonzeroPages :=
  ⟨fun good ran => pmmAllocPage_allocates.aligned good.1 ran, fun good ran => (nonzeroPages_alloc good ran).2⟩

/-- A dictionary at 0xC0110000 and a stack of four frames: a page is asked for, and its first address is
mapped. -/
theorem asked_page_is_mapped :
    ∃ s k last pma, [0x200000, 0x201000, 0x202000, 0x203000].foldlM pmmFreePage Pmm.empty = some s ∧
      initVmm 0xC0110000 ⟨.zero, s⟩ = some k ∧
      after pmmAllocPage 0xC0110000 (k.page_dictionary, s) [.operatorIndex 0x10002000] = some last ∧
      last.1.at_ 0xC0110000 0x10002000 = some pma ∧
      (pma = 0 ↔ ¬ Mapped [.operatorIndex 0x10002000] 0x10002000) := by
  have aligned : (0xC0110000 : UInt32) &&& PAGE_MASK = 0xC0110000 := by decide
  obtain ⟨s, ran, pushed, fits⟩ := Pmm.free_all_spec [0x200000, 0x201000, 0x202000, 0x203000]
    (by decide)
  have good : NonzeroPages s := by
    rw [NonzeroPages, WholePages, pushed]
    exact ⟨⟨fits, List.all_iff_forall_prop.mp (by decide)⟩, List.all_iff_forall_prop.mp (by decide)⟩
  obtain ⟨k, m, started, mirrors, touched, shared, _⟩ := history_start aligned s s
  have room : m.Room 0x10002000 :=
    le_trans (Finset.card_le_card (Finset.insert_subset_insert _ touched)) (by decide)
  have supply : (pmmAllocPage s).isSome := by
    obtain ⟨base, s', allocated, _⟩ := Pmm.alloc_spec fits (by rw [pushed]; decide)
    rw [allocated]
    rfl
  have legal : (pageMap pmmAllocPage).legal m (.operatorIndex 0x10002000) := ⟨room, fun _ => shared ▸ supply⟩
  obtain ⟨out, last, m', stepped, _⟩ :=
    step_simulates aligned pmmAllocPage_nonzero mirrors shared good legal
  have reached : after pmmAllocPage 0xC0110000 (k.page_dictionary, s) [.operatorIndex 0x10002000]
      = some last := by
    rw [after, List.foldlM_cons, stepped]
    rfl
  obtain ⟨pma, answered, right⟩ := miss_unambiguous_iff aligned pmmAllocPage_nonzero
    (fun _ _ _ good ran => (nonzeroPages_alloc good ran).1) started good reached 0x10002000
  refine ⟨s, k, last, pma, ran, started, reached, answered, right.mpr fun both => ?_⟩
  have elsewhere : page 0x10002000 = page PAGE_OFFSET := both.1
  revert elsewhere
  decide

/-- **The first page of the kernel window is mapped**, but `at` answers 0 for its first address. -/
theorem first_page_missed : ∃ k, initVmm 0xC0110000 ⟨.zero, Pmm.empty⟩ = some k ∧ Mapped [] 0xC0000000 ∧
    frameOf 0xC0110000 k.page_dictionary 0xC0000000 = some 0 ∧
    k.page_dictionary.at_ 0xC0110000 0xC0000000 = some 0 := by
  obtain ⟨k, m, started, mirrors, _, _, start⟩ :=
    history_start (by decide : (0xC0110000 : UInt32) &&& PAGE_MASK = 0xC0110000) Pmm.empty ()
  have zero : m.frameOf (page 0xC0000000) = some 0 := (start.zero 0xC0000000).mpr rfl
  have frame : frameOf 0xC0110000 k.page_dictionary 0xC0000000 = some 0 := (mirrors.same _).trans zero
  refine ⟨k, started, .inl ⟨by decide, by decide⟩, frame, ?_⟩
  rw [at_spec mirrors.wired, frame]
  rfl

end Sprite.Paging

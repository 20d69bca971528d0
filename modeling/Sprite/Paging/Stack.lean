/-
**The frame stack as a list.**

* `Pmm.free` — the frames on the stack, the top one last.
* `Pmm.alloc_spec`, `Pmm.allocAt_spec`, `Pmm.free_spec` — what the operations do to it.
* `Pmm.alloc_enough`, `Pmm.free_room`, `Pmm.allocAt_empty` — when they do not come back.
-/
import Mathlib.Data.List.Perm.Basic
import Sprite.Paging.Pmm

namespace Sprite.Paging

/-! ### The frames on the stack -/

namespace Pmm

/-- How many frames are on the stack; `pmm_stack_top` is the position of the last one. -/
def count (s : Pmm) : Nat := (s.pmm_stack_top + 1).toNat

/-- The frames on the stack, the top one last. -/
def free (s : Pmm) : List UInt32 :=
  (List.range s.count).map fun i => (s.read (UInt32.ofNat i)).getD 0

/-- The stack fits into its array. -/
def Fits (s : Pmm) : Prop := s.count ≤ PAGE_MAX_SIZE + 1

theorem fits_empty : Pmm.empty.Fits := Nat.zero_le _

theorem length_free (s : Pmm) : s.free.length = s.count := by
  rw [free, List.length_map, List.length_range]

theorem read_some {s : Pmm} {i : UInt32} (inside : i.toNat < PAGE_MAX_SIZE + 1) :
    s.read i = some (s.pmm_stack ⟨i.toNat, inside⟩) := dif_pos inside

/-- **Taking a frame**: unless there is one frame only, the top one is taken. The frame at the bottom
is never handed out. -/
theorem alloc_spec {s : Pmm} (fits : s.Fits) (enough : 1 < s.free.length) :
    ∃ page s', pmmAllocPage s = some (page, s') ∧ s.free = s'.free ++ [page] ∧ s'.Fits := by
  rw [length_free] at enough
  have small := s.pmm_stack_top.toNat_lt
  have counted : s.count = s.pmm_stack_top.toNat + 1 := by
    have value : s.count = (s.pmm_stack_top.toNat + 1) % 2 ^ 32 := UInt32.toNat_add _ _
    omega
  have inside : s.pmm_stack_top.toNat < PAGE_MAX_SIZE + 1 := by
    rw [← Nat.succ_le_iff, Nat.succ_eq_add_one, ← counted]
    exact fits
  have notZero : s.pmm_stack_top ≠ 0 := by
    intro zero
    rw [zero] at counted
    exact absurd counted (by rw [show (0 : UInt32).toNat = 0 from rfl]; omega)
  have counted' : Pmm.count { s with pmm_stack_top := s.pmm_stack_top - 1 }
      = s.pmm_stack_top.toNat := by
    rw [count, UInt32.sub_add_cancel]
  refine ⟨s.pmm_stack ⟨s.pmm_stack_top.toNat, inside⟩,
    { s with pmm_stack_top := s.pmm_stack_top - 1 }, ?_, ?_, ?_⟩
  · simp only [pmmAllocPage, if_pos notZero, read_some inside, Option.bind_eq_bind,
      Option.bind_some, Option.pure_def]
  · rw [free, free, counted, counted', List.range_succ, List.map_append, List.map_singleton,
      UInt32.ofNat_toNat, read_some inside]
    rfl
  · rw [Fits, counted']
    exact Nat.le_of_lt inside

theorem write_spec {s : Pmm} {i : UInt32} (inside : i.toNat < PAGE_MAX_SIZE + 1) (p : UInt32) :
    ∃ s', s.write i p = some s' ∧ s'.pmm_stack_top = s.pmm_stack_top ∧ s'.read i = some p ∧
      ∀ j, j ≠ i → s'.read j = s.read j := by
  refine ⟨_, dif_pos inside, rfl, ?_, ?_⟩
  · rw [read_some inside]
    exact congrArg some (Function.update_self _ _ _)
  · intro j other
    unfold read
    split_ifs with inside'
    · have apart : (⟨j.toNat, inside'⟩ : Fin (PAGE_MAX_SIZE + 1)) ≠ ⟨i.toNat, inside⟩ := fun same =>
        other (UInt32.toNat_inj.mp (Fin.mk.inj same))
      exact congrArg some (Function.update_of_ne apart _ _)
    · rfl

/-- A frame is only taken when there are two. -/
theorem alloc_enough {s s' : Pmm} {page : UInt32} (ran : pmmAllocPage s = some (page, s')) :
    1 < s.free.length := by
  rw [length_free, count, UInt32.toNat_add, show (1 : UInt32).toNat = 1 from rfl]
  have bound : PAGE_MAX_SIZE + 1 < 2 ^ 32 := by decide
  unfold pmmAllocPage at ran
  split_ifs at ran with notZero
  have positive : s.pmm_stack_top.toNat ≠ 0 := fun zero => notZero (UInt32.toNat_inj.mp zero)
  by_cases inside : s.pmm_stack_top.toNat < PAGE_MAX_SIZE + 1
  · omega
  · have outside : s.read s.pmm_stack_top = none := dif_neg inside
    rw [outside] at ran
    cases ran

/-- **Putting a frame back**, onto a stack that is not full. -/
theorem free_spec {s : Pmm} (room : s.count < PAGE_MAX_SIZE + 1) (p : UInt32) :
    ∃ s', pmmFreePage s p = some s' ∧ s'.free = s.free ++ [p] ∧ s'.Fits := by
  have position : (s.pmm_stack_top + 1).toNat = s.count := rfl
  have bound : PAGE_MAX_SIZE + 1 < 2 ^ 32 := by decide
  have notFull : s.pmm_stack_top ≠ UInt32.ofNat PAGE_MAX_SIZE := by
    intro full
    rw [full] at position
    exact absurd (position ▸ room) (by decide)
  obtain ⟨s', wrote, top, there, others⟩ :=
    write_spec (s := { s with pmm_stack_top := s.pmm_stack_top + 1 }) (position ▸ room) p
  have counted' : s'.count = s.count + 1 := by
    have value : s'.count = ((s.pmm_stack_top + 1).toNat + 1) % 2 ^ 32 := by
      rw [count, top]
      exact UInt32.toNat_add _ _
    rw [value, position]
    omega
  refine ⟨s', ?_, ?_, ?_⟩
  · simp only [pmmFreePage, if_pos notFull, wrote]
  · have last : UInt32.ofNat s.count = s.pmm_stack_top + 1 := by rw [← position, UInt32.ofNat_toNat]
    rw [free, free, counted', List.range_succ, List.map_append, List.map_singleton, last, there]
    refine congrArg (· ++ _) (List.map_congr_left fun i below => ?_)
    have small : i < s.count := List.mem_range.mp below
    have other : UInt32.ofNat i ≠ s.pmm_stack_top + 1 := by
      intro same
      have below : i < UInt32.size := Nat.lt_trans small (Nat.lt_trans room bound)
      have same' := congrArg UInt32.toNat same
      rw [position, UInt32.toNat_ofNat_of_lt' below] at same'
      omega
    rw [others _ other]
    rfl
  · rw [Fits, counted']
    exact room

/-- A frame is only pushed when there is room. -/
theorem free_room {s s' : Pmm} {p : UInt32} (ran : pmmFreePage s p = some s') :
    s.count < PAGE_MAX_SIZE + 1 := by
  unfold pmmFreePage at ran
  split_ifs at ran
  by_contra full
  have outside : Pmm.write { s with pmm_stack_top := s.pmm_stack_top + 1 } (s.pmm_stack_top + 1) p
      = none := dif_neg full
  rw [outside] at ran
  cases ran

/-- Frames that could be pushed are on the stack. -/
theorem pushed_spec {pages : List UInt32} : ∀ {s t : Pmm}, s.Fits →
    pages.foldlM pmmFreePage s = some t → t.free = s.free ++ pages ∧ t.Fits := by
  induction pages with
  | nil =>
    intro s t fits ran
    cases ran
    exact ⟨(List.append_nil _).symm, fits⟩
  | cons p pages ih =>
    intro s t fits ran
    rw [List.foldlM_cons] at ran
    obtain ⟨next, stepped, rest⟩ := Option.bind_eq_some_iff.mp ran
    obtain ⟨next', stepped', pushed, fits'⟩ := free_spec (free_room stepped) p
    rw [stepped] at stepped'
    cases stepped'
    obtain ⟨left, fits''⟩ := ih fits' rest
    rw [left, pushed, List.append_assoc, List.singleton_append]
    exact ⟨rfl, fits''⟩

theorem pushed_empty {pages : List UInt32} {s : Pmm}
    (ran : pages.foldlM pmmFreePage empty = some s) : s.free = pages :=
  (pushed_spec fits_empty ran).1

/-! ### Taking a given frame -/

theorem getElem?_free {s : Pmm} {i : Nat} (below : i < s.count) :
    s.free[i]? = some ((s.read (UInt32.ofNat i)).getD 0) := by
  rw [free, List.getElem?_map, List.getElem?_range below]
  rfl

theorem toNat_position {s : Pmm} {i : Nat} (fits : s.Fits) (below : i < s.count) :
    (UInt32.ofNat i).toNat = i := by
  have bound : PAGE_MAX_SIZE + 1 < UInt32.size := by decide
  exact UInt32.toNat_ofNat_of_lt' (Nat.lt_trans (Nat.lt_of_lt_of_le below fits) bound)

/-- What is read at a position of the stack is the frame there. -/
theorem read_free {s : Pmm} {i : Nat} (fits : s.Fits) (below : i < s.count) :
    ∃ p, s.read (UInt32.ofNat i) = some p ∧ s.free[i]? = some p := by
  have inside : (UInt32.ofNat i).toNat < PAGE_MAX_SIZE + 1 := by
    rw [toNat_position fits below]
    exact Nat.lt_of_lt_of_le below fits
  have read := read_some (s := s) inside
  exact ⟨_, read, by rw [getElem?_free below, read]; rfl⟩

/-- The stack is not empty: its top is the last position. -/
theorem toNat_top {s : Pmm} (nonempty : s.count ≠ 0) : s.pmm_stack_top.toNat + 1 = s.count := by
  have value : s.count = (s.pmm_stack_top.toNat + 1) % 2 ^ 32 := UInt32.toNat_add _ _
  have small := s.pmm_stack_top.toNat_lt
  omega

/-- The loop finds the frame at some position, or ends without it. -/
theorem findFrame_spec {s : Pmm} (fits : s.Fits) (nonempty : s.count ≠ 0) (pma : UInt32)
    (fuel : Nat) :
    ∀ i, i ≤ s.count → s.count < i + fuel →
      (∃ j, j < s.count ∧ s.findFrame pma fuel (UInt32.ofNat i) = some (some (UInt32.ofNat j)) ∧
        s.free[j]? = some pma) ∨
      (s.findFrame pma fuel (UInt32.ofNat i) = some none ∧ pma ∉ s.free.drop i) := by
  have bound : PAGE_MAX_SIZE + 1 < UInt32.size := by decide
  have top := toNat_top nonempty
  induction fuel with
  | zero => exact fun i le enough => absurd enough (by omega)
  | succ fuel ih =>
    intro i le enough
    have value : (UInt32.ofNat i).toNat = i :=
      UInt32.toNat_ofNat_of_lt' (Nat.lt_of_le_of_lt (Nat.le_trans le fits) bound)
    have next : UInt32.ofNat i + 1 = UInt32.ofNat (i + 1) := (UInt32.ofNat_add i 1).symm
    unfold findFrame
    by_cases below : i < s.count
    · have guard : UInt32.ofNat i ≤ s.pmm_stack_top := by
        rw [UInt32.le_iff_toNat_le, value]
        omega
      obtain ⟨p, read, here⟩ := read_free fits below
      rw [if_pos guard, read, Option.bind_eq_bind, Option.bind_some]
      by_cases same : p = pma
      · rw [if_pos same]
        exact Or.inl ⟨i, below, rfl, same ▸ here⟩
      · rw [if_neg same, next]
        have split : s.free.drop i = p :: s.free.drop (i + 1) := by
          obtain ⟨inside, isHere⟩ := List.getElem?_eq_some_iff.mp here
          rw [List.drop_eq_getElem_cons inside, isHere]
        rcases ih (i + 1) below (by omega) with found | ⟨ended, absent⟩
        · exact Or.inl found
        · refine Or.inr ⟨ended, ?_⟩
          rw [split, List.mem_cons, not_or]
          exact ⟨fun equal => same equal.symm, absent⟩
    · have guard : ¬ UInt32.ofNat i ≤ s.pmm_stack_top := by
        rw [UInt32.le_iff_toNat_le, value]
        omega
      rw [if_neg guard, List.drop_eq_nil_of_le (by rw [length_free]; omega)]
      exact Or.inr ⟨rfl, List.not_mem_nil⟩

/-- Putting the last element in the place of another one takes that one out. -/
theorem swap_remove_perm {α : Type} {init : List α} {last x : α} {i : Nat}
    (there : init[i]? = some x) : (x :: init.set i last).Perm (init ++ [last]) := by
  obtain ⟨inside, rfl⟩ := List.getElem?_eq_some_iff.mp there
  calc (init[i] :: init.set i last).Perm (init[i] :: last :: init.eraseIdx i) :=
        (List.set_perm_cons_eraseIdx inside last).cons _
    _ |>.Perm (last :: init[i] :: init.eraseIdx i) := List.Perm.swap _ _ _
    _ |>.Perm (last :: init) := (List.getElem_cons_eraseIdx_perm inside).cons _
    _ |>.Perm (init ++ [last]) := (List.perm_append_singleton last init).symm

theorem count_pop (s : Pmm) :
    Pmm.count { s with pmm_stack_top := s.pmm_stack_top - 1 } = s.pmm_stack_top.toNat := by
  rw [count, UInt32.sub_add_cancel]

/-- The stack without its top. -/
theorem free_pop {s : Pmm} (nonempty : s.count ≠ 0) :
    Pmm.free { s with pmm_stack_top := s.pmm_stack_top - 1 } = s.free.dropLast := by
  have top := toNat_top nonempty
  rw [free, free, count_pop, ← top, List.range_succ, List.map_append, List.map_singleton,
    List.dropLast_concat]
  rfl

theorem free_write {s s' : Pmm} {i : Nat} {p : UInt32} (fits : s.Fits)
    (inside : (UInt32.ofNat i).toNat = i) (wrote : s.write (UInt32.ofNat i) p = some s') :
    s'.free = s.free.set i p := by
  have within : (UInt32.ofNat i).toNat < PAGE_MAX_SIZE + 1 := by
    by_contra outside
    have stopped : s.write (UInt32.ofNat i) p = none := dif_neg outside
    rw [stopped] at wrote
    cases wrote
  obtain ⟨_, wrote', top, there, others⟩ := write_spec (s := s) within p
  rw [wrote] at wrote'
  cases wrote'
  have counted : s'.count = s.count := by rw [count, count, top]
  refine List.ext_getElem? fun j => ?_
  by_cases below : j < s.count
  · rw [getElem?_free (counted.symm ▸ below), List.getElem?_set]
    by_cases same : i = j
    · subst same
      rw [if_pos rfl, if_pos (by rw [length_free]; exact below), there]
      rfl
    · have other : UInt32.ofNat j ≠ UInt32.ofNat i := by
        intro equal
        have equal' := congrArg UInt32.toNat equal
        rw [toNat_position fits below, inside] at equal'
        exact same equal'.symm
      rw [if_neg same, others _ other, getElem?_free below]
  · rw [List.getElem?_eq_none (by rw [length_free, counted]; omega),
      List.getElem?_eq_none (by rw [List.length_set, length_free]; omega)]

/-- Filling a gap with the top frame takes out the frame that was there. -/
theorem fillGap_spec {s : Pmm} (fits : s.Fits) {j : Nat} (below : j < s.count) {pma : UInt32}
    (here : s.free[j]? = some pma) :
    ∃ s', s.fillGap (UInt32.ofNat j) = some s' ∧ s'.Fits ∧ (pma :: s'.free).Perm s.free := by
  have nonempty : s.count ≠ 0 := by omega
  have top := toNat_top nonempty
  have position : UInt32.ofNat s.pmm_stack_top.toNat = s.pmm_stack_top := UInt32.ofNat_toNat
  obtain ⟨last, read, isLast⟩ := read_free fits (i := s.pmm_stack_top.toNat) (by omega)
  rw [position] at read
  have value := toNat_position fits below
  obtain ⟨s', wrote, top', _⟩ := write_spec (s := { s with pmm_stack_top := s.pmm_stack_top - 1 })
    (i := UInt32.ofNat j) (by rw [value]; exact Nat.lt_of_lt_of_le below fits) last
  have fits' : Pmm.Fits { s with pmm_stack_top := s.pmm_stack_top - 1 } := by
    rw [Fits, count_pop]
    exact Nat.le_of_lt (by rw [Nat.lt_iff_add_one_le, top]; exact fits)
  have left := free_write fits' value wrote
  rw [free_pop nonempty] at left
  have whole : s.free.dropLast ++ [last] = s.free := by
    rw [List.getElem?_eq_some_iff] at isLast
    obtain ⟨inside, isLast⟩ := isLast
    have notNil : s.free ≠ [] := List.ne_nil_of_length_pos (by omega)
    rw [← isLast]
    conv_rhs => rw [← List.dropLast_concat_getLast notNil]
    have final : s.pmm_stack_top.toNat = s.free.length - 1 := by rw [length_free]; omega
    simp only [List.getLast_eq_getElem, final]
  refine ⟨s', ?_, ?_, ?_⟩
  · unfold fillGap
    rw [read, Option.bind_eq_bind, Option.bind_some]
    exact wrote
  · rw [Fits, count, top']
    exact fits'
  · rw [left]
    rcases Nat.lt_or_ge j s.free.dropLast.length with inner | outer
    · have there : s.free.dropLast[j]? = some pma := by
        rw [← whole, List.getElem?_append_left inner] at here
        exact here
      exact (swap_remove_perm there).trans (List.Perm.of_eq whole)
    · rw [List.set_eq_of_length_le outer]
      have atEnd : j = s.free.dropLast.length := by
        rw [List.length_dropLast, length_free] at outer ⊢
        omega
      have same : last = pma := by
        rw [← whole, List.getElem?_append_right outer, atEnd, Nat.sub_self] at here
        exact Option.some.inj here
      rw [← same]
      exact (List.perm_append_singleton _ _).symm.trans (List.Perm.of_eq whole)

/-- **Taking a given frame** from a stack that is not empty: it is taken if it is there, and it only. -/
theorem allocAt_spec {s : Pmm} (fits : s.Fits) (nonempty : s.free ≠ []) (pma : UInt32) :
    ∃ s', pmmAllocPageAt s pma = some (if pma ∈ s.free then pma else 0, s') ∧ s'.Fits ∧
      s'.free.Perm (s.free.erase pma) := by
  have positive : s.count ≠ 0 := by
    rw [← length_free]
    exact fun zero => nonempty (List.length_eq_zero_iff.mp zero)
  have bound : PAGE_MAX_SIZE + 1 < 2 ^ 32 := by decide
  unfold pmmAllocPageAt
  rcases findFrame_spec fits positive pma (2 ^ 32) 0 (Nat.zero_le _)
    (by rw [Nat.zero_add]; exact Nat.lt_of_le_of_lt fits bound) with
    ⟨j, below, found, here⟩ | ⟨ended, absent⟩
  · obtain ⟨s', filled, fits', perm⟩ := fillGap_spec fits below here
    obtain ⟨p, read, here'⟩ := read_free fits below
    rw [here, Option.some.injEq] at here'
    subst here'
    have inside : pma ∈ s.free := List.mem_of_getElem? here
    refine ⟨s', ?_, fits', ?_⟩
    · rw [show (0 : UInt32) = UInt32.ofNat 0 from rfl, found, if_pos inside, Option.bind_eq_bind,
        Option.bind_some]
      show (s.read _).bind _ = _
      rw [read, Option.bind_some]
      show (s.fillGap _).bind _ = _
      rw [filled]
      rfl
    · exact List.Perm.cons_inv (perm.trans (List.perm_cons_erase inside))
  · rw [List.drop_zero] at absent
    refine ⟨s, ?_, fits, ?_⟩
    · rw [show (0 : UInt32) = UInt32.ofNat 0 from rfl, ended, if_neg absent]
      rfl
    · rw [List.erase_of_not_mem absent]

/-- The index of the top of an empty stack has wrapped round. -/
theorem toNat_top_of_empty {s : Pmm} (empty : s.count = 0) : s.pmm_stack_top.toNat = 2 ^ 32 - 1 := by
  have value : s.count = (s.pmm_stack_top.toNat + 1) % 2 ^ 32 := UInt32.toNat_add _ _
  have small := s.pmm_stack_top.toNat_lt
  omega

/-- On an empty stack, whose top is the last address, the loop does not end by its guard. -/
theorem findFrame_empty {s : Pmm} (empty : s.count = 0) (pma : UInt32) (fuel : Nat) :
    ∀ i, s.findFrame pma fuel i ≠ some none := by
  have top := toNat_top_of_empty empty
  induction fuel with
  | zero => exact fun i => (Option.some_ne_none _).symm
  | succ fuel ih =>
    intro i
    have small := i.toNat_lt
    have guard : i ≤ s.pmm_stack_top := by
      rw [UInt32.le_iff_toNat_le, top]
      omega
    unfold findFrame
    rw [if_pos guard, Option.bind_eq_bind]
    cases s.read i with
    | none => exact (Option.some_ne_none _).symm
    | some p =>
      rw [Option.bind_some]
      split_ifs
      · exact fun same => Option.some_ne_none _ (Option.some.inj same)
      · exact ih (i + 1)

/-- **On an empty stack** `pmm_alloc_page(pma)` does not come back. -/
theorem allocAt_empty {s : Pmm} (empty : s.count = 0) (pma : UInt32) : pmmAllocPageAt s pma = none := by
  have outside : s.read s.pmm_stack_top = none := by
    have value : s.count = (s.pmm_stack_top.toNat + 1) % 2 ^ 32 := UInt32.toNat_add _ _
    have bound : PAGE_MAX_SIZE + 1 < 2 ^ 32 - 1 := by decide
    have small := s.pmm_stack_top.toNat_lt
    exact dif_neg (by omega)
  have gap : ∀ i, s.fillGap i = none := by
    intro i
    unfold fillGap
    rw [outside]
    rfl
  unfold pmmAllocPageAt
  cases found : s.findFrame pma (2 ^ 32) 0 with
  | none => rfl
  | some result =>
    cases result with
    | none => exact absurd found (findFrame_empty empty pma _ _)
    | some i =>
      rw [Option.bind_eq_bind, Option.bind_some]
      show (s.read i).bind _ = none
      cases s.read i with
      | none => rfl
      | some p =>
        rw [Option.bind_some]
        show (s.fillGap i).bind _ = none
        rw [gap]
        rfl

/-- Putting frames onto an empty stack. -/
theorem free_all_spec (pages : List UInt32) (room : pages.length ≤ PAGE_MAX_SIZE + 1) :
    ∃ s, pages.foldlM pmmFreePage empty = some s ∧ s.free = pages ∧ s.Fits := by
  have general : ∀ (pages : List UInt32) (s : Pmm), s.Fits →
      s.free.length + pages.length ≤ PAGE_MAX_SIZE + 1 →
      ∃ s', pages.foldlM pmmFreePage s = some s' ∧ s'.free = s.free ++ pages ∧ s'.Fits := by
    intro pages
    induction pages with
    | nil => exact fun s fits _ => ⟨s, rfl, (List.append_nil _).symm, fits⟩
    | cons p pages ih =>
      intro s _ room
      rw [List.length_cons, length_free] at room
      obtain ⟨s', ran, pushed, fits'⟩ := free_spec (s := s) (by omega) p
      have length' : s'.free.length = s.count + 1 := by
        rw [pushed, List.length_append, length_free, List.length_singleton]
      obtain ⟨s'', ran', pushed', fits''⟩ := ih s' fits' (by omega)
      refine ⟨s'', ?_, ?_, fits''⟩
      · rw [List.foldlM_cons, ran]
        exact ran'
      · rw [pushed', pushed, List.append_assoc, List.singleton_append]
  have none : empty.free = [] := rfl
  obtain ⟨s, ran, pushed, fits⟩ := general pages empty (Nat.zero_le _) (by
    rw [none, List.length_nil, Nat.zero_add]
    exact room)
  exact ⟨s, ran, pushed, fits⟩

end Pmm

end Sprite.Paging

/-
**Recency.**

The elements of a trace in the order of their last use are its `dedup`, the least recently used one
first. A cache that gives up the least recently used element holds the last `n` of them: how many
different elements have been used since decides whether an element is there, and nothing else.

* `touch` — one use of a cache of `n` elements.
* `foldl_touch` — **what it holds after a trace**.
* `Recent` — used before, and fewer than `n` others since.
* `mem_rtake_iff` — an element is there **if and only if** it is recent.
-/
import Mathlib.Data.List.DropRight
import Mathlib.Data.List.Lattice
import Mathlib.Data.List.Dedup

namespace Recency

variable {α : Type} [DecidableEq α] {n m : Nat} {a : α} {l trace front back : List α}

/-- **Using an element**: it becomes the last one, and when it is new to a full cache, the first one
goes. -/
def touch (n : Nat) (cache : List α) (a : α) : List α :=
  if a ∈ cache then cache.erase a ++ [a] else (if cache.length < n then cache else cache.tail) ++ [a]

/-- **Recently used**: `a` has been used, and fewer than `n` others since. -/
def Recent (n : Nat) (trace : List α) (a : α) : Prop :=
  ∃ before since, trace = before ++ a :: since ∧ a ∉ since ∧ since.dedup.length < n

omit [DecidableEq α] in
theorem rtake_append (whole : front = [] ∨ back.length = n) (short : back.length ≤ n) :
    (front ++ back).rtake n = back := by
  rcases whole with rfl | exact
  · simp [List.rtake, Nat.sub_eq_zero_of_le short]
  · simp [List.rtake, exact]

omit [DecidableEq α] in
/-- A list ends in its last `n` elements. -/
theorem exists_rtake (l : List α) (n : Nat) :
    ∃ front, l = front ++ l.rtake n ∧ (front = [] ∨ (l.rtake n).length = n) ∧ (l.rtake n).length ≤ n := by
  have length : (l.rtake n).length = l.length - (l.length - n) := by simp [List.rtake]
  refine ⟨l.take (l.length - n), (List.take_append_drop _ _).symm, ?_, by omega⟩
  by_cases short : l.length ≤ n
  · exact Or.inl (by simp [Nat.sub_eq_zero_of_le short])
  · exact Or.inr (by omega)

/-- The last element used is the last one. -/
theorem dedup_concat (l : List α) (a : α) : (l ++ [a]).dedup = l.dedup.erase a ++ [a] := by
  induction l with
  | nil => simp
  | cons x l ih =>
    by_cases member : x ∈ l
    · rw [List.cons_append, List.dedup_cons_of_mem (by simp [member]), ih, List.dedup_cons_of_mem member]
    by_cases same : x = a
    · subst same
      rw [List.cons_append, List.dedup_cons_of_mem (by simp), ih, List.dedup_cons_of_notMem member,
        List.erase_cons_head, List.erase_of_not_mem (by simpa using member)]
    · rw [List.cons_append, List.dedup_cons_of_notMem (by simp [member, same]), ih,
        List.dedup_cons_of_notMem member, List.erase_cons_tail (by simpa using same), List.cons_append]

/-- **One use** of the last `n` elements of a list without repetition. -/
theorem touch_rtake (distinct : l.Nodup) (a : α) :
    touch (n + 1) (l.rtake (n + 1)) a = (l.erase a ++ [a]).rtake (n + 1) := by
  rw [List.rtake_concat_succ, touch]
  obtain ⟨front, split, whole, short⟩ := exists_rtake l (n + 1)
  generalize l.rtake (n + 1) = back at split whole short ⊢
  subst split
  obtain ⟨-, distinctBack, apart⟩ := List.nodup_append.mp distinct
  by_cases member : a ∈ back
  · have notFront : a ∉ front := fun inside => apart a inside a member rfl
    have length := List.length_erase_of_mem member
    rw [if_pos member, List.erase_append_right _ notFront, rtake_append _ (by omega)]
    exact whole.imp_right fun exact => by omega
  rw [if_neg member]
  congr 1
  by_cases room : back.length < n + 1
  · have nil : front = [] := whole.resolve_right fun exact => by omega
    subst nil
    rw [if_pos room, List.nil_append, List.erase_of_not_mem member, ← List.nil_append back,
      rtake_append (Or.inl rfl) (by omega)]
    rfl
  · rw [if_neg room]
    obtain ⟨first, rest, rfl⟩ : ∃ first rest, back = first :: rest :=
      List.exists_cons_of_length_pos (by omega)
    rw [List.length_cons] at room short
    have length : rest.length = n := by omega
    have erased : (front ++ first :: rest).erase a = (front.erase a ++ [first]) ++ rest := by
      by_cases inside : a ∈ front
      · rw [List.erase_append_left _ inside, List.append_assoc, List.singleton_append]
      · rw [List.erase_of_not_mem (by simp [inside, List.mem_cons.not.mp member]),
          List.erase_of_not_mem inside, List.append_assoc, List.singleton_append]
    rw [erased, rtake_append (Or.inr length) length.le, List.tail_cons]

/-- **What the cache holds after a trace**: the last elements used. -/
theorem foldl_touch (positive : 0 < n) (trace : List α) :
    trace.foldl (touch n) [] = trace.dedup.rtake n := by
  obtain ⟨n, rfl⟩ := Nat.exists_eq_succ_of_ne_zero positive.ne'
  induction trace using List.reverseRecOn with
  | nil => simp
  | append_singleton trace a ih =>
    rw [List.foldl_concat, ih, touch_rtake trace.nodup_dedup, dedup_concat]

/-- Where an element of a trace stands in the order of the last uses. -/
theorem dedup_of_last (before : List α) {since : List α} (last : a ∉ since) :
    ∃ older, (before ++ a :: since).dedup = older ++ a :: since.dedup := by
  obtain ⟨older, split⟩ := List.suffix_union_right before (a :: since).dedup
  refine ⟨older, ?_⟩
  rw [List.dedup_append, ← split, List.dedup_cons_of_notMem last]

omit [DecidableEq α] in
theorem exists_last (member : a ∈ trace) : ∃ before since, trace = before ++ a :: since ∧ a ∉ since := by
  obtain ⟨since, before, split, last⟩ := List.eq_append_cons_of_mem (List.mem_reverse.mpr member)
  refine ⟨before.reverse, since.reverse, ?_, by simpa using last⟩
  rw [← List.reverse_reverse trace, split]
  simp

omit [DecidableEq α] in
/-- An element that occurs once is among the last `n` if there are fewer behind it. -/
theorem mem_rtake_middle {older newer : List α} (distinct : (older ++ a :: newer).Nodup) :
    a ∈ (older ++ a :: newer).rtake n ↔ newer.length < n := by
  have length : (older ++ a :: newer).length = older.length + newer.length + 1 := by
    simp only [List.length_append, List.length_cons]
    omega
  have last : a ∉ newer := (List.nodup_cons.mp (List.nodup_append.mp distinct).2.1).1
  rw [List.rtake, length]
  by_cases few : newer.length < n
  · rw [List.drop_append_of_le_length (by omega)]
    simp [few]
  · obtain ⟨k, isDropped⟩ : ∃ k, older.length + newer.length + 1 - n = older.length + (k + 1) :=
      ⟨newer.length - n, by omega⟩
    rw [isDropped, List.drop_length_add_append, List.drop_succ_cons]
    exact ⟨fun member => absurd (List.mem_of_mem_drop member) last, fun impossible => absurd impossible few⟩

/-- **An element is among the last `n` if and only if it is recent.** -/
theorem mem_rtake_iff : a ∈ trace.dedup.rtake n ↔ Recent n trace a := by
  have stands : ∀ {before since : List α}, trace = before ++ a :: since → a ∉ since →
      (a ∈ trace.dedup.rtake n ↔ since.dedup.length < n) := by
    intro before since split last
    obtain ⟨older, order⟩ := dedup_of_last before last
    have distinct := trace.nodup_dedup
    rw [split, order] at distinct
    rw [split, order, mem_rtake_middle distinct]
  constructor
  · intro member
    have used : a ∈ trace := List.mem_dedup.mp (List.mem_of_mem_drop member)
    obtain ⟨before, since, split, last⟩ := exists_last used
    exact ⟨before, since, split, last, (stands split last).mp member⟩
  · rintro ⟨before, since, split, last, few⟩
    exact (stands split last).mpr few

/-- What is recent for a small cache is recent for a larger one. -/
theorem Recent.mono (recent : Recent n trace a) (larger : n ≤ m) : Recent m trace a := by
  obtain ⟨before, since, split, last, few⟩ := recent
  exact ⟨before, since, split, last, few.trans_le larger⟩

end Recency

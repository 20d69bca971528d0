/-
**Looking up a task by its pid.**

The loop of `find_task` leaves at the task that the last one is behind, so that the last of several
tasks is not looked at; and `kill` hands on what it answers without looking at it.

* `Circle` — the queue, wherever `running_` is.
* `findTask_spec` — which tasks are looked at.
* `find_and_kill_iff` — **for which pids the task is found**, and for which `kill` comes back.
* `newest_not_found` — the second of two tasks is not found.
-/
import Sprite.Sched.RunQueue

namespace Sprite.Sched

open TaskScheduler

variable {s : TaskScheduler} {live front back : List Ptr} {start next : Ptr} {p : UInt32}

/-- **The tasks are a circle** from `runnable_tasks_` on, and null is not a task. -/
structure Circle (s : TaskScheduler) (live : List Ptr) : Prop where
  right : RunQueue { s with running_ := s.runnable_tasks_ } live
  null : s.tasks nullptr = none

theorem RunQueue.circle (right : RunQueue s live) (null : s.tasks nullptr = none) : Circle s live :=
  ⟨⟨right.nodup, right.notNull, right.head, right.cycle, List.mem_of_head? right.head⟩, null⟩

/-- The link from one task to the next. -/
theorem Circle.link (circle : Circle s (front ++ start :: next :: back)) : Follows s.tasks start next :=
  circle.right.link

/-- The link from the last task to the first. -/
theorem Circle.close (circle : Circle s (front ++ [start])) : Follows s.tasks start s.runnable_tasks_ :=
  circle.right.close

theorem Circle.notHead (circle : Circle s (front ++ start :: next :: back)) : next ≠ s.runnable_tasks_ :=
  circle.right.notHead

/-- The tasks that `find_task` looks at. -/
def lookedAt : List Ptr → List Ptr
  | [task] => [task]
  | live => live.dropLast

theorem lookedAt_many (start next : Ptr) (back : List Ptr) :
    lookedAt (start :: next :: back) = start :: (next :: back).dropLast := rfl

/-- The search stops at a task with the pid, and goes on behind any other. -/
theorem find_cons {t : TaskStruct} (found : s.tasks start = some t) (p : UInt32) (looked : List Ptr) :
    (start :: looked).find? (fun task => pidOf s task = some p)
      = if t.pid = p then some start else looked.find? fun task => pidOf s task = some p := by
  have isPid : pidOf s start = some t.pid := by rw [pidOf, found, Option.map_some]
  split_ifs with same
  · exact List.find?_cons_of_pos (by simp [isPid, same])
  · exact List.find?_cons_of_neg (by simp [isPid, same])

/-- **The walk of `find_task`** looks at every task but the last. -/
theorem findFrom_eq (p : UInt32) (back : List Ptr) : ∀ (front : List Ptr) (start next : Ptr) (fuel : Nat),
    Circle s (front ++ start :: next :: back) → back.length < fuel →
    s.findFrom p fuel start = some (((start :: (next :: back).dropLast).find? fun task =>
      pidOf s task = some p).getD nullptr) := by
  induction back with
  | nil =>
    intro front start next fuel circle enough
    obtain ⟨fuel, rfl⟩ : ∃ n, fuel = n + 1 := Nat.exists_eq_succ_of_ne_zero (Nat.ne_of_gt enough)
    have regroup : front ++ [start, next] = (front ++ [start]) ++ [next] := by simp
    obtain ⟨t, found, rfl⟩ := circle.link
    obtain ⟨t', found', closes⟩ := (regroup ▸ circle).close
    rw [List.dropLast_singleton, find_cons found]
    simp only [findFrom, found, found', Option.bind_eq_bind, Option.bind_some, closes, ne_eq,
      not_true_eq_false, if_false, Option.pure_def]
    split_ifs with same
    · rfl
    · rfl
  | cons after back ih =>
    intro front start next fuel circle enough
    obtain ⟨fuel, rfl⟩ : ∃ n, fuel = n + 1 :=
      Nat.exists_eq_succ_of_ne_zero (Nat.ne_of_gt (Nat.zero_lt_of_lt enough))
    have regroup : front ++ start :: next :: after :: back
        = (front ++ [start]) ++ next :: after :: back := by simp
    obtain ⟨t, found, rfl⟩ := circle.link
    have circle' := regroup ▸ circle
    obtain ⟨t', found', link'⟩ := circle'.link
    have further : t'.next ≠ s.runnable_tasks_ := link' ▸ circle'.notHead
    have rest := ih (front ++ [start]) t.next after fuel circle' (Nat.lt_of_succ_lt_succ enough)
    rw [List.dropLast_cons_cons, find_cons found]
    simp only [findFrom, found, found', Option.bind_eq_bind, Option.bind_some, if_pos further,
      Option.pure_def]
    split_ifs with same
    · rfl
    · exact rest

/-- **`find_task`** answers the first of the tasks it looks at that has the pid. -/
theorem findTask_spec (circle : Circle s live) (p : UInt32) :
    s.findTask p = some (((lookedAt live).find? fun task => pidOf s task = some p).getD nullptr) := by
  have bound := circle.right.length_lt
  obtain ⟨rest, rfl⟩ : ∃ rest, live = s.runnable_tasks_ :: rest :=
    List.head?_eq_some_iff.mp circle.right.head
  cases rest with
  | nil =>
    have alone : Circle s ([] ++ [s.runnable_tasks_]) := circle
    obtain ⟨t, found, closes⟩ := alone.close
    have one : kPointers = (kPointers - 1) + 1 := rfl
    rw [findTask, one, lookedAt, find_cons found]
    simp only [findFrom, found, Option.bind_eq_bind, Option.bind_some, closes, ne_eq, not_true_eq_false,
      if_false, Option.pure_def]
    split_ifs with same
    · rfl
    · rfl
  | cons next back =>
    rw [lookedAt_many]
    refine findFrom_eq p back [] s.runnable_tasks_ next kPointers circle ?_
    simp only [List.length_cons] at bound
    omega

/-! ### Which pids are found -/

/-- No two tasks have the same pid. -/
def DistinctPids (s : TaskScheduler) (live : List Ptr) : Prop :=
  ∀ task ∈ live, ∀ other ∈ live, pidOf s task = pidOf s other → task = other

/-- **`find_task` ends** with the task that has the pid, or with null if no task has it. -/
def FindsTask (s : TaskScheduler) (live : List Ptr) (p : UInt32) : Prop :=
  ∃ r, s.findTask p = some r ∧ (∀ task ∈ live, pidOf s task = some p → r = task) ∧
    ((∀ task ∈ live, pidOf s task ≠ some p) → r = nullptr)

/-- **`kill` leaves the queue** as it is when no task has the pid. -/
def KillsNone (s : TaskScheduler) (live : List Ptr) (p : UInt32) : Prop :=
  (∀ task ∈ live, pidOf s task ≠ some p) → ∃ s', s.kill p = some s' ∧ Circle s' live

theorem lookedAt_subset : ∀ live : List Ptr, lookedAt live ⊆ live
  | [] => List.Subset.refl []
  | [_] => List.Subset.refl _
  | _ :: _ :: _ => List.dropLast_subset _

theorem find_of_mem {looked : List Ptr} {task : Ptr} (distinct : DistinctPids s live)
    (subset : looked ⊆ live) (member : task ∈ looked) (isPid : pidOf s task = some p) :
    (looked.find? fun task => pidOf s task = some p) = some task := by
  obtain ⟨found, isFound⟩ : ∃ found, (looked.find? fun task => pidOf s task = some p) = some found := by
    rw [← Option.isSome_iff_exists, List.find?_isSome]
    exact ⟨task, member, decide_eq_true isPid⟩
  have holds := List.find?_some isFound
  have foundPid : pidOf s found = some p := of_decide_eq_true holds
  have same := distinct found (subset (List.mem_of_find?_eq_some isFound)) task (subset member)
    (foundPid.trans isPid.symm)
  rw [isFound, same]

theorem find_of_not_mem {looked : List Ptr} (none : ∀ task ∈ looked, pidOf s task ≠ some p) :
    (looked.find? fun task => pidOf s task = some p) = .none := by
  rw [List.find?_eq_none]
  exact fun task member isPid => none task member (of_decide_eq_true isPid)

/-- **A task is found when it is looked at.** -/
theorem findsTask_iff (circle : Circle s live) (distinct : DistinctPids s live) :
    FindsTask s live p ↔ ∀ task ∈ live, pidOf s task = some p → task ∈ lookedAt live := by
  unfold FindsTask
  rw [findTask_spec circle p]
  constructor
  · rintro ⟨r, same, finds, _⟩ task member isPid
    obtain rfl := finds task member isPid
    by_contra unseen
    have none : ∀ other ∈ lookedAt live, pidOf s other ≠ some p := fun other looked otherPid =>
      unseen (distinct other (lookedAt_subset live looked) r member (otherPid.trans isPid.symm) ▸ looked)
    rw [find_of_not_mem none, Option.getD_none] at same
    cases same
    exact circle.right.notNull member
  · intro looked
    refine ⟨_, rfl, fun task member isPid => ?_, fun none => ?_⟩
    · rw [find_of_mem distinct (lookedAt_subset live) (looked task member isPid) isPid, Option.getD_some]
    · rw [find_of_not_mem fun task member => none task (lookedAt_subset live member), Option.getD_none]

/-- Every task but the last of several is looked at. -/
theorem lookedAt_iff (circle : Circle s live) :
    (∀ task ∈ live, pidOf s task = some p → task ∈ lookedAt live) ↔
      live.length = 1 ∨ ∀ task ∈ live.getLast?, pidOf s task ≠ some p := by
  have nodup := circle.right.nodup
  obtain ⟨rest, rfl⟩ : ∃ rest, live = s.runnable_tasks_ :: rest :=
    List.head?_eq_some_iff.mp circle.right.head
  cases rest with
  | nil => exact iff_of_true (fun task member _ => member) (.inl rfl)
  | cons next back =>
    have several : ¬ (s.runnable_tasks_ :: next :: back).length = 1 := by simp
    obtain ⟨init, last, split⟩ : ∃ init last, s.runnable_tasks_ :: next :: back = init ++ [last] :=
      ⟨_, _, (List.dropLast_concat_getLast (List.cons_ne_nil _ _)).symm⟩
    have looked : lookedAt (s.runnable_tasks_ :: next :: back) = init := by
      have all : lookedAt (s.runnable_tasks_ :: next :: back) = (s.runnable_tasks_ :: next :: back).dropLast := rfl
      rw [all, split, List.dropLast_concat]
    rw [looked, or_iff_right several, split, List.getLast?_concat]
    rw [split] at nodup
    constructor
    · intro all task isLast isPid
      obtain rfl := Option.mem_some.mp isLast
      have inside := all last (List.mem_append_right _ (List.mem_singleton_self last)) isPid
      exact (List.nodup_append.mp nodup).2.2 last inside last (List.mem_singleton_self last) rfl
    · intro notLast task member isPid
      rcases List.mem_append.mp member with inside | isLast
      · exact inside
      · obtain rfl := List.mem_singleton.mp isLast
        exact absurd isPid (notLast task rfl)

/-- **`kill` of a pid that no task has** dereferences null. -/
theorem kill_none (circle : Circle s live) (none : ∀ task ∈ live, pidOf s task ≠ some p) :
    s.kill p = .none := by
  have found : s.findTask p = some nullptr := by
    rw [findTask_spec circle p, find_of_not_mem fun task member => none task (lookedAt_subset live member)]
    rfl
  rw [kill, found, Option.bind_eq_bind, Option.bind_some, TaskScheduler.exit, circle.null]
  rfl

/-- **`find_task` is right** for every pid but that of the last of several tasks, and `kill` is harmless
for a pid exactly when some task has it. -/
theorem find_and_kill_iff (circle : Circle s live) (distinct : DistinctPids s live) (p : UInt32) :
    (FindsTask s live p ↔ live.length = 1 ∨ ∀ task ∈ live.getLast?, pidOf s task ≠ some p) ∧
      (KillsNone s live p ↔ ∃ task ∈ live, pidOf s task = some p) := by
  refine ⟨(findsTask_iff circle distinct).trans (lookedAt_iff circle), fun harmless => ?_, ?_⟩
  · by_contra none
    have none' : ∀ task ∈ live, pidOf s task ≠ some p := fun task member isPid => none ⟨task, member, isPid⟩
    obtain ⟨s', ran, _⟩ := harmless none'
    rw [kill_none circle none'] at ran
    cases ran
  · rintro ⟨task, member, isPid⟩ none
    exact absurd isPid (none task member)

/-! ### Two tasks -/

/-- The first task and a thread behind it. -/
def twoTasks : List Ptr := [0x00108000, 0xD0000004]

theorem two_tasks : ∃ s, (TaskScheduler.start 0x00108000).submit 1 kthreadExit 0xD0000004 = some (1, s) ∧
    Circle s twoTasks ∧ pidOf s 0x00108000 = some 0 ∧ pidOf s 0xD0000004 = some 1 := by
  obtain ⟨s, ran, right⟩ := submit_keeps (start_right (by decide : (0x00108000 : Ptr) ≠ nullptr))
    (by decide : (0xD0000004 : Ptr) ≠ nullptr) (by decide) 1 kthreadExit
  have known : ((TaskScheduler.start 0x00108000).submit 1 kthreadExit 0xD0000004).map
      (fun r => (r.2.tasks nullptr, pidOf r.2 0x00108000, pidOf r.2 0xD0000004))
      = some (none, some 0, some 1) := by decide +kernel
  rw [ran, Option.map_some] at known
  simp only [Option.some.injEq, Prod.mk.injEq] at known
  exact ⟨s, ran, right.circle known.1, known.2⟩

theorem twoTasks_distinct {s : TaskScheduler} (first : pidOf s 0x00108000 = some 0)
    (second : pidOf s 0xD0000004 = some 1) : DistinctPids s twoTasks := by
  simp [DistinctPids, twoTasks, first, second]

/-- The first of the two is found, and may be killed. -/
theorem first_is_found : ∃ s, (TaskScheduler.start 0x00108000).submit 1 kthreadExit 0xD0000004 = some (1, s) ∧
    FindsTask s twoTasks 0 ∧ KillsNone s twoTasks 0 := by
  obtain ⟨s, ran, circle, first, second⟩ := two_tasks
  obtain ⟨finds, kills⟩ := find_and_kill_iff circle (twoTasks_distinct first second) 0
  exact ⟨s, ran, finds.mpr (.inr (by simp [twoTasks, second])),
    kills.mpr ⟨0x00108000, List.mem_cons_self, first⟩⟩

/-- **The thread submitted last is not found**, and killing a thread that there is not dereferences null. -/
theorem newest_not_found :
    ∃ s, (TaskScheduler.start 0x00108000).submit 1 kthreadExit 0xD0000004 = some (1, s) ∧
      Circle s twoTasks ∧ DistinctPids s twoTasks ∧ pidOf s 0xD0000004 = some 1 ∧
      s.findTask 1 = some nullptr ∧ (∀ task ∈ twoTasks, pidOf s task ≠ some 7) ∧ s.kill 7 = none := by
  obtain ⟨s, ran, circle, first, second⟩ := two_tasks
  have absent : ∀ task ∈ twoTasks, pidOf s task ≠ some 7 := by simp [twoTasks, first, second]
  refine ⟨s, ran, circle, twoTasks_distinct first second, second, ?_, absent, kill_none circle absent⟩
  rw [findTask_spec circle]
  simp [twoTasks, lookedAt, first]

end Sprite.Sched

/-
**The run queue.**

The tasks are a cycle of one-way links that starts at `runnable_tasks_`, in the order they were
submitted in. `find_task` stops before it has looked at the last task, and `exit` moves neither
`runnable_tasks_` nor `running_` off the task it frees. So a task may be killed as long as it is none
of the three.

* `RunQueue` — the cycle, for a list of live tasks.
* `lastFrom_spec`, `findFrom_spec`, `beforeTask_spec` — where the three walks along it end.
* `submit_keeps`, `schedule_keeps`, `kill_keeps` — the operations.
* `runQueue_along_safe_kills` — **every run in which only such tasks are killed**.
* `other_kills_break_queue` — what happens in the other cases.
-/
import Sprite.Lib.Rings
import Sprite.Lib.Runs
import Sprite.Sched.TaskScheduler

namespace Sprite.Sched

open Rings Runs TaskScheduler

/-- `task->next` is `task'`. -/
def Follows (tasks : Ptr → Option TaskStruct) (task task' : Ptr) : Prop :=
  ∃ t, tasks task = some t ∧ t.next = task'

/-- **The run queue is right** for the live tasks, given in the order of submission: from
`runnable_tasks_` the links go once round them, and `running_` is one of them. -/
structure RunQueue (s : TaskScheduler) (live : List Ptr) : Prop where
  nodup : live.Nodup
  notNull : nullptr ∉ live
  head : live.head? = some s.runnable_tasks_
  cycle : Cycle.Chain (Follows s.tasks) (live : Cycle Ptr)
  running : s.running_ ∈ live

variable {s : TaskScheduler} {live front back : List Ptr} {task task' : Ptr} {fuel : Nat}

/-- The cycle as a path that leads back to its start. -/
theorem RunQueue.path (right : RunQueue s live) :
    (live ++ [s.runnable_tasks_]).IsChain (Follows s.tasks) := by
  obtain ⟨rest, rfl⟩ : ∃ rest, live = s.runnable_tasks_ :: rest := List.head?_eq_some_iff.mp right.head
  exact (Cycle.chain_coe_cons _ _ _).mp right.cycle

theorem runQueue_of_path (nodup : live.Nodup) (notNull : nullptr ∉ live)
    (head : live.head? = some s.runnable_tasks_)
    (path : (live ++ [s.runnable_tasks_]).IsChain (Follows s.tasks)) (running : s.running_ ∈ live) :
    RunQueue s live := by
  obtain ⟨rest, rfl⟩ : ∃ rest, live = s.runnable_tasks_ :: rest := List.head?_eq_some_iff.mp head
  exact ⟨nodup, notNull, head, (Cycle.chain_coe_cons _ _ _).mpr path, running⟩

/-- The link from one task of the queue to the next. -/
theorem RunQueue.link (right : RunQueue s (front ++ task :: task' :: back)) :
    Follows s.tasks task task' := by
  have path := right.path
  rw [List.append_assoc, List.cons_append, List.cons_append, List.isChain_append_cons_cons] at path
  exact path.2.1

/-- The link from the last task back to the first. -/
theorem RunQueue.close (right : RunQueue s (front ++ [task])) :
    Follows s.tasks task s.runnable_tasks_ := by
  have path := right.path
  rw [List.append_assoc, List.cons_append, List.nil_append, List.isChain_append_cons_cons] at path
  exact path.2.1

/-- No other task is the first one. -/
theorem RunQueue.notHead (right : RunQueue s (front ++ task :: task' :: back)) :
    task' ≠ s.runnable_tasks_ := by
  intro same
  have nodup := right.nodup
  have head := right.head
  rw [List.nodup_append, List.nodup_cons] at nodup
  cases front with
  | nil =>
    cases head
    exact nodup.2.1.1 (by rw [same]; exact List.mem_cons_self)
  | cons first front =>
    cases head
    exact nodup.2.2 _ List.mem_cons_self task' (by simp) same.symm

/-- Every task of the queue has one behind it. -/
theorem RunQueue.next (right : RunQueue s live) (member : task ∈ live) :
    ∃ task' ∈ live, Follows s.tasks task task' := by
  obtain ⟨front, back, rfl⟩ := List.append_of_mem member
  cases back with
  | nil => exact ⟨_, List.mem_of_head? right.head, right.close⟩
  | cons task' back => exact ⟨task', by simp, right.link⟩

/-- Every task of the queue can be dereferenced. -/
theorem RunQueue.deref (right : RunQueue s live) (member : task ∈ live) :
    ∃ t, s.tasks task = some t := by
  obtain ⟨_, _, t, found, _⟩ := right.next member
  exact ⟨t, found⟩

/-! ### The three walks -/

/-- **The walk of `submit`** ends at the last task. -/
theorem lastFrom_spec (back : List Ptr) : ∀ (front : List Ptr) (task : Ptr) (fuel : Nat),
    RunQueue s (front ++ task :: back) → back.length < fuel →
    ∃ init last, front ++ task :: back = init ++ [last] ∧ s.lastFrom fuel task = some last := by
  induction back with
  | nil =>
    intro front task fuel right enough
    obtain ⟨t, found, closes⟩ := right.close
    obtain ⟨fuel, rfl⟩ : ∃ n, fuel = n + 1 := Nat.exists_eq_succ_of_ne_zero (Nat.ne_of_gt enough)
    refine ⟨front, task, rfl, ?_⟩
    simp only [lastFrom, found, Option.bind_eq_bind, Option.bind_some, closes, ne_eq,
      not_true_eq_false, if_false, Option.pure_def]
  | cons next back ih =>
    intro front task fuel right enough
    obtain ⟨t, found, link⟩ := right.link
    have further := right.notHead
    obtain ⟨fuel, rfl⟩ : ∃ n, fuel = n + 1 :=
      Nat.exists_eq_succ_of_ne_zero (Nat.ne_of_gt (Nat.zero_lt_of_lt enough))
    have regroup : front ++ task :: next :: back = (front ++ [task]) ++ next :: back := by simp
    rw [regroup] at right ⊢
    obtain ⟨init, last, split, walked⟩ := ih _ next fuel right (Nat.lt_of_succ_lt_succ enough)
    refine ⟨init, last, split, ?_⟩
    simp only [lastFrom, found, Option.bind_eq_bind, Option.bind_some, link, if_pos further, walked]

/-- The pid of a task. -/
def pidOf (s : TaskScheduler) (task : Ptr) : Option UInt32 := (s.tasks task).map TaskStruct.pid

/-- **The walk of `find_task`** ends at the first task with the pid, unless that is the last. -/
theorem findFrom_spec (between : List Ptr) {p : UInt32} : ∀ (front : List Ptr) (start : Ptr)
    (fuel : Nat), RunQueue s (front ++ (start :: between) ++ task' :: back) →
    (∀ task ∈ (start :: between).dropLast, pidOf s task ≠ some p) →
    pidOf s ((start :: between).getLast (List.cons_ne_nil _ _)) = some p → between.length < fuel →
    s.findFrom p fuel start = some ((start :: between).getLast (List.cons_ne_nil _ _)) := by
  induction between with
  | nil =>
    intro front start fuel right _ isPid enough
    obtain ⟨fuel, rfl⟩ : ∃ n, fuel = n + 1 := Nat.exists_eq_succ_of_ne_zero (Nat.ne_of_gt enough)
    obtain ⟨t, found, pid⟩ := Option.map_eq_some_iff.mp isPid
    simp only [List.getLast_singleton] at found ⊢
    simp only [findFrom, found, Option.bind_eq_bind, Option.bind_some, pid, if_true, Option.pure_def]
  | cons next between ih =>
    intro front start fuel right others isPid enough
    obtain ⟨fuel, rfl⟩ : ∃ n, fuel = n + 1 :=
      Nat.exists_eq_succ_of_ne_zero (Nat.ne_of_gt (Nat.zero_lt_of_lt enough))
    have shape : front ++ (start :: next :: between) ++ task' :: back
        = front ++ start :: next :: (between ++ task' :: back) := by simp
    have regroup : front ++ (start :: next :: between) ++ task' :: back
        = (front ++ [start]) ++ (next :: between) ++ task' :: back := by simp
    obtain ⟨t, found, link⟩ := (shape ▸ right).link
    -- The task behind `next` is not the first one, since `next` is not the last.
    obtain ⟨t', found', further⟩ : ∃ t', s.tasks next = some t' ∧ t'.next ≠ s.runnable_tasks_ := by
      cases between with
      | nil =>
        have shape' : front ++ [start, next] ++ task' :: back
            = (front ++ [start]) ++ next :: task' :: back := by simp
        obtain ⟨t', found', link'⟩ := (shape' ▸ right).link
        exact ⟨t', found', link' ▸ (shape' ▸ right).notHead⟩
      | cons after between =>
        have shape' : front ++ (start :: next :: after :: between) ++ task' :: back
            = (front ++ [start]) ++ next :: after :: (between ++ task' :: back) := by simp
        obtain ⟨t', found', link'⟩ := (shape' ▸ right).link
        exact ⟨t', found', link' ▸ (shape' ▸ right).notHead⟩
    have notPid : t.pid ≠ p := by
      have other := others start (by simp)
      rw [pidOf, found] at other
      exact fun same => other (congrArg some same)
    have walked := ih (front ++ [start]) next fuel (regroup ▸ right)
      (fun task inside => others task (by
        rw [List.dropLast_cons_of_ne_nil (List.cons_ne_nil _ _)]
        exact List.mem_cons_of_mem _ inside))
      (by rwa [List.getLast_cons (List.cons_ne_nil _ _)] at isPid) (Nat.lt_of_succ_lt_succ enough)
    rw [List.getLast_cons (List.cons_ne_nil _ _)]
    simp only [findFrom, found, Option.bind_eq_bind, Option.bind_some, if_neg notPid, link, found',
      if_pos further, walked]

/-- **The walk of `exit`** ends at the task and the one before it. -/
theorem beforeTask_spec (between : List Ptr) : ∀ (front : List Ptr) (prev cur : Ptr) (fuel : Nat),
    RunQueue s (front ++ (prev :: between) ++ task :: back) → Follows s.tasks prev cur →
    between.length < fuel →
    s.beforeTask task fuel prev cur
      = some ((prev :: between).getLast (List.cons_ne_nil _ _), task) := by
  induction between with
  | nil =>
    intro front prev cur fuel right follows enough
    obtain ⟨fuel, rfl⟩ : ∃ n, fuel = n + 1 := Nat.exists_eq_succ_of_ne_zero (Nat.ne_of_gt enough)
    have shape : front ++ [prev] ++ task :: back = front ++ prev :: task :: back := by simp
    obtain ⟨t, found, link⟩ := (shape ▸ right).link
    obtain ⟨t', found', link'⟩ := follows
    rw [found] at found'
    cases found'
    rw [link] at link'
    simp [beforeTask, link']
  | cons next between ih =>
    intro front prev cur fuel right follows enough
    obtain ⟨fuel, rfl⟩ : ∃ n, fuel = n + 1 :=
      Nat.exists_eq_succ_of_ne_zero (Nat.ne_of_gt (Nat.zero_lt_of_lt enough))
    have shape : front ++ (prev :: next :: between) ++ task :: back
        = front ++ prev :: next :: (between ++ task :: back) := by simp
    have regroup : front ++ (prev :: next :: between) ++ task :: back
        = (front ++ [prev]) ++ (next :: between) ++ task :: back := by simp
    obtain ⟨t, found, link⟩ := (shape ▸ right).link
    obtain ⟨t', found', link'⟩ := follows
    rw [found] at found'
    cases found'
    obtain rfl : next = cur := link.symm.trans link'
    have other : next ≠ task := by
      rintro rfl
      have nodup := right.nodup
      rw [List.nodup_append] at nodup
      exact nodup.2.2 next (by simp) next List.mem_cons_self rfl
    obtain ⟨c, foundNext⟩ := right.deref (by simp : next ∈ _)
    have walked := ih (front ++ [prev]) next c.next fuel (regroup ▸ right) ⟨c, foundNext, rfl⟩
      (Nat.lt_of_succ_lt_succ enough)
    rw [List.getLast_cons (List.cons_ne_nil _ _)]
    simp only [beforeTask, if_pos other, foundNext, found, Option.bind_eq_bind, Option.bind_some,
      link, walked]

/-! ### The operations -/

/-- Fewer tasks than pointers. -/
theorem RunQueue.length_lt (right : RunQueue s live) : live.length < kPointers := by
  have values : (nullptr :: live).map UInt32.toNat ⊆ List.range (2 ^ 32) := by
    intro n inside
    obtain ⟨pointer, _, rfl⟩ := List.mem_map.mp inside
    exact List.mem_range.mpr pointer.toNat_lt
  have distinct : ((nullptr :: live).map UInt32.toNat).Nodup :=
    (List.nodup_cons.mpr ⟨right.notNull, right.nodup⟩).map fun _ _ same => UInt32.toNat_inj.mp same
  have bound := (List.subperm_of_subset distinct values).length_le
  rw [List.length_map, List.length_range, List.length_cons] at bound
  exact bound

/-- A link set changes the links of one task only. -/
theorem setNext_spec {t : TaskStruct} (found : s.tasks task = some t) (target : Ptr) :
    s.setNext task target = some { s with
      tasks := Function.update s.tasks task (some { t with next := target }) } := by
  simp only [setNext, found, Option.bind_eq_bind, Option.bind_some, Option.pure_def]

/-- A task set up beside the queue does not disturb it. -/
theorem create_keeps (right : RunQueue s live) {newTask : Ptr} (fresh : newTask ∉ live)
    (fn kthreadExit : UInt32) : RunQueue (s.create fn kthreadExit newTask) live := by
  refine runQueue_of_path right.nodup right.notNull right.head ?_ right.running
  refine isChain_imp_sources right.path fun task inside task' link => ?_
  rw [List.dropLast_concat] at inside
  obtain ⟨t, found, next⟩ := link
  have other : task ≠ newTask := fun same => fresh (same ▸ inside)
  exact ⟨t, (Function.update_of_ne other _ _).trans found, next⟩

/-- **A task that leads to the first one** can be linked behind the last one. -/
theorem pushBack_keeps (right : RunQueue s live) {newTask : Ptr} (notNull : newTask ≠ nullptr)
    (fresh : newTask ∉ live) (leads : Follows s.tasks newTask s.runnable_tasks_) :
    ∃ s', s.pushBack newTask = some s' ∧ RunQueue s' (live ++ [newTask]) := by
  obtain ⟨rest, shape⟩ : ∃ rest, live = s.runnable_tasks_ :: rest :=
    List.head?_eq_some_iff.mp right.head
  have enough : rest.length < kPointers := by
    have bound := right.length_lt
    rw [shape, List.length_cons] at bound
    omega
  obtain ⟨init, last, split, walked⟩ := lastFrom_spec rest [] s.runnable_tasks_ kPointers
    (shape ▸ right) enough
  have split : live = init ++ [last] := shape.trans split
  have isLast : last ∈ live := by
    rw [split]
    exact List.mem_append_right _ (List.mem_singleton_self last)
  obtain ⟨t, found⟩ := right.deref isLast
  have nodup := right.nodup
  rw [split, List.nodup_append] at nodup
  refine ⟨{ s with tasks := Function.update s.tasks last (some { t with next := newTask }) }, ?_,
    runQueue_of_path ?_ ?_ ?_ ?_ (List.mem_append_left _ right.running)⟩
  · simp only [pushBack, walked, Option.bind_eq_bind, Option.bind_some, setNext_spec found]
  · refine List.nodup_append.mpr ⟨right.nodup, List.nodup_singleton _, ?_⟩
    intro task inside other isNew same
    rw [List.mem_singleton.mp isNew] at same
    exact fresh (same ▸ inside)
  · simp only [List.mem_append, List.mem_singleton, not_or]
    exact ⟨right.notNull, fun same => notNull same.symm⟩
  · rw [shape]
    rfl
  · have path := right.path
    rw [split, List.isChain_append] at path
    rw [split, List.append_assoc, List.append_assoc, List.singleton_append,
      List.singleton_append, List.isChain_append_cons_cons, List.isChain_pair]
    refine ⟨?_, ⟨_, Function.update_self _ _ _, rfl⟩, ?_⟩
    · refine isChain_imp_sources path.1 fun task inside task' link => ?_
      obtain ⟨t', found', next⟩ := link
      rw [List.dropLast_concat] at inside
      have other : task ≠ last := nodup.2.2 task inside last (List.mem_singleton_self last)
      exact ⟨t', (Function.update_of_ne other _ _).trans found', next⟩
    · obtain ⟨t', found', next⟩ := leads
      have other : newTask ≠ last := fun same => fresh (same ▸ isLast)
      exact ⟨t', (Function.update_of_ne other _ _).trans found', next⟩

/-- **`submit` puts the new task at the end** of the queue. -/
theorem submit_keeps (right : RunQueue s live) {newTask : Ptr} (notNull : newTask ≠ nullptr)
    (fresh : newTask ∉ live) (fn kthreadExit : UInt32) :
    ∃ s', s.submit fn kthreadExit newTask = some (s.pid_cnt_, s') ∧ RunQueue s' (live ++ [newTask]) := by
  obtain ⟨s', pushed, right'⟩ := pushBack_keeps (create_keeps right fresh fn kthreadExit) notNull fresh
    ⟨_, Function.update_self _ _ _, rfl⟩
  refine ⟨s', ?_, right'⟩
  simp only [submit, if_pos notNull, pushed, Option.bind_eq_bind, Option.bind_some, Option.pure_def]

/-- A link set leaves the rest of a task alone. -/
theorem setNext_task {s' : TaskScheduler} {target other : Ptr} {t : TaskStruct}
    (ran : s.setNext task target = some s') (found : s.tasks other = some t) :
    ∃ t', s'.tasks other = some t' ∧ t'.context = t.context ∧ t'.stack = t.stack := by
  obtain ⟨linked, foundLinked, same⟩ := Option.bind_eq_some_iff.mp ran
  cases same
  by_cases isOther : other = task
  · subst isOther
    rw [foundLinked] at found
    cases found
    exact ⟨_, Function.update_self _ _ _, rfl, rfl⟩
  · exact ⟨t, (Function.update_of_ne isOther _ _).trans found, rfl, rfl⟩

/-- The task that `submit` leaves behind. -/
theorem submit_task {s' : TaskScheduler} {fn kthreadExit pid : UInt32} {newTask : Ptr}
    (ran : s.submit fn kthreadExit newTask = some (pid, s')) :
    s'.running_ = s.running_ ∧ ∃ t, s'.tasks newTask = some t
      ∧ t.context = ⟨newTask + STACK_SIZE - 16, 0, 0, 0, 0, 0x200⟩
      ∧ t.stack = [fn, kthreadExit, 0, pid] := by
  unfold submit at ran
  split at ran
  · obtain ⟨pushed, push, same⟩ := Option.bind_eq_some_iff.mp ran
    cases same
    obtain ⟨cur, _, linked⟩ := Option.bind_eq_some_iff.mp push
    obtain ⟨t, found, context, stack⟩ := setNext_task linked
      (show (s.create fn kthreadExit newTask).tasks newTask = some _ from Function.update_self _ _ _)
    obtain ⟨_, _, same⟩ := Option.bind_eq_some_iff.mp linked
    cases same
    exact ⟨rfl, t, found, context, stack⟩
  · cases ran

/-- **`schedule` goes on to the next task** of the queue, if there is another one. -/
theorem schedule_spec (right : RunQueue s live) :
    s.schedule = some (none, s) ∨ ∃ target ∈ live, target ≠ s.running_
      ∧ s.schedule = some (some (s.running_, target), { s with running_ := target })
      ∧ RunQueue { s with running_ := target } live := by
  obtain ⟨_, inside, t, found, rfl⟩ := right.next right.running
  obtain ⟨t', found'⟩ := right.deref inside
  have notNull : s.running_ ≠ nullptr := fun same => right.notNull (same ▸ right.running)
  by_cases alone : s.running_ = t.next
  · refine Or.inl ?_
    simp [schedule, changeTaskTo, notNull, found, alone.symm]
  · refine Or.inr ⟨t.next, inside, fun same => alone same.symm, ?_, right.nodup, right.notNull,
      right.head, right.cycle, inside⟩
    simp only [schedule, if_pos notNull, found, changeTaskTo, Option.bind_eq_bind, Option.bind_some,
      if_pos alone, found', Option.pure_def]

/-- **`schedule` moves `running_` along** the queue. -/
theorem schedule_keeps (right : RunQueue s live) :
    ∃ switched s', s.schedule = some (switched, s') ∧ RunQueue s' live := by
  rcases schedule_spec right with stays | ⟨target, _, _, moves, right'⟩
  · exact ⟨none, s, stays, right⟩
  · exact ⟨_, _, moves, right'⟩

/-- The task that `kill` of the pid should find: the first of the queue with that pid. -/
def victimOf (s : TaskScheduler) (live : List Ptr) (p : UInt32) : Option Ptr :=
  live.find? fun task => pidOf s task = some p

/-- The first task of several does not lead to itself. -/
theorem RunQueue.notAlone {rest : List Ptr} (right : RunQueue s (task :: task' :: rest)) :
    ∃ t, s.tasks task = some t ∧ t.next ≠ s.runnable_tasks_ := by
  have right' : RunQueue s ([] ++ task :: task' :: rest) := right
  obtain ⟨t, found, next⟩ := right'.link
  exact ⟨t, found, next ▸ right'.notHead⟩

/-- **`exit` takes a task out** that is not the first one. -/
theorem exit_keeps {first : Ptr} {between : List Ptr}
    (right : RunQueue s (first :: between ++ task :: back)) (notRunning : task ≠ s.running_) :
    ∃ s', s.exit task = some s' ∧ RunQueue s' (first :: between ++ back) := by
  have isFirst : s.runnable_tasks_ = first := (Option.some.inj right.head).symm
  obtain ⟨head, foundHead, notAlone⟩ : ∃ t, s.tasks first = some t ∧ t.next ≠ s.runnable_tasks_ := by
    cases between with
    | nil => exact right.notAlone
    | cons second between => exact right.notAlone
  have enough : between.length < kPointers := by
    have bound := right.length_lt
    rw [List.length_append, List.length_cons] at bound
    omega
  have walked := beforeTask_spec between [] first head.next kPointers right ⟨head, foundHead, rfl⟩ enough
  obtain ⟨init, prev, split, isPrev⟩ : ∃ init prev, first :: between = init ++ [prev] ∧
      (first :: between).getLast (List.cons_ne_nil _ _) = prev :=
    ⟨_, _, (List.dropLast_concat_getLast _).symm, rfl⟩
  obtain ⟨c, found⟩ := right.deref (by simp : task ∈ _)
  obtain ⟨t, foundPrev⟩ := right.deref (by rw [split]; simp : prev ∈ _)
  have nodup := right.nodup
  have kept : (first :: between ++ back).Sublist (first :: between ++ task :: back) :=
    (List.sublist_cons_self task back).append_left _
  refine ⟨kfree { s with
    tasks := Function.update s.tasks prev (some { t with next := c.next }) } task, ?_,
    runQueue_of_path (nodup.sublist kept) (fun null => right.notNull (kept.mem null)) right.head ?_ ?_⟩
  · rw [isPrev, ← isFirst] at walked
    rw [← isFirst] at foundHead
    simp only [TaskScheduler.exit, found, foundHead, Option.bind_eq_bind, Option.bind_some,
      if_neg notAlone, walked, setNext_spec foundPrev, Option.pure_def]
  · rw [split, List.append_assoc, List.singleton_append, List.nodup_append, List.nodup_cons,
      List.nodup_cons] at nodup
    obtain ⟨_, ⟨notPrev, notTask, _⟩, apart⟩ := nodup
    -- A link of any other task is as it was.
    have same : ∀ other, other ≠ prev → other ≠ task → ∀ target, Follows s.tasks other target →
        Follows (Function.update (Function.update s.tasks prev (some { t with next := c.next })) task
          none) other target := by
      rintro other notPrev notTask target ⟨t', found', next⟩
      refine ⟨t', ?_, next⟩
      rw [Function.update_of_ne notTask, Function.update_of_ne notPrev, found']
    have path := right.path
    rw [split, List.append_assoc, List.append_assoc, List.singleton_append, List.cons_append,
      List.isChain_append_cons_cons] at path
    obtain ⟨before, _, behind⟩ := path
    obtain ⟨target, rest, shape⟩ : ∃ target rest, back ++ [s.runnable_tasks_] = target :: rest := by
      cases back with
      | nil => exact ⟨_, _, rfl⟩
      | cons target back => exact ⟨_, _, rfl⟩
    rw [shape, List.isChain_cons_cons] at behind
    obtain ⟨⟨c', found', rfl⟩, behind⟩ := behind
    rw [found] at found'
    cases found'
    rw [split, List.append_assoc, List.append_assoc, List.singleton_append]
    change List.IsChain _ (init ++ prev :: (back ++ [s.runnable_tasks_]))
    rw [shape, List.isChain_append_cons_cons]
    refine ⟨?_, ⟨{ t with next := c.next }, ?_, rfl⟩, ?_⟩
    · refine isChain_imp_sources before fun other inside target => ?_
      rw [List.dropLast_concat] at inside
      exact same other (apart other inside prev List.mem_cons_self)
        (apart other inside task (List.mem_cons_of_mem _ List.mem_cons_self)) target
    · have other : prev ≠ task := fun same => notPrev (same ▸ List.mem_cons_self)
      exact (Function.update_of_ne other _ _).trans (Function.update_self _ _ _)
    · refine isChain_imp_sources behind fun other inside target => ?_
      rw [← shape, List.dropLast_concat] at inside
      exact same other (fun same => notPrev (same ▸ List.mem_cons_of_mem _ inside))
        (fun same => notTask (same ▸ inside)) target
  · have member := right.running
    simp only [List.mem_append, List.mem_cons] at member ⊢
    exact member.imp_right fun either => either.resolve_left fun same => notRunning same.symm

/-- **`kill` takes the task out**, when it is neither the first, nor the last, nor running. -/
theorem kill_keeps (right : RunQueue s live) {p : UInt32} (victim : victimOf s live p = some task)
    (notFirst : task ≠ s.runnable_tasks_) (notLast : live.getLast? ≠ some task)
    (notRunning : task ≠ s.running_) :
    ∃ s', s.kill p = some s' ∧ RunQueue s' (live.erase task) := by
  obtain ⟨isPid, front, back, rfl, others⟩ := List.find?_eq_some_iff_append.mp victim
  have isPid : pidOf s task = some p := of_decide_eq_true isPid
  have others : ∀ other ∈ front, pidOf s other ≠ some p := fun other inside same => by
    have differs := others other inside
    simp [same] at differs
  match front, back with
  | [], _ => exact absurd (Option.some.inj right.head) notFirst
  | _, [] => exact absurd List.getLast?_concat notLast
  | first :: between, next :: back =>
    have isFirst : s.runnable_tasks_ = first := (Option.some.inj right.head).symm
    have enough : (between ++ [task]).length < kPointers := by
      have bound := right.length_lt
      rw [List.length_append, List.length_cons] at bound
      rw [List.length_append, List.length_singleton]
      omega
    have shape : first :: between ++ task :: next :: back
        = [] ++ (first :: (between ++ [task])) ++ next :: back := by simp
    have isLast : (first :: (between ++ [task])).getLast (List.cons_ne_nil _ _) = task := by
      rw [List.getLast_cons (by simp), List.getLast_concat]
    have found := findFrom_spec (between ++ [task]) [] first kPointers (shape ▸ right)
      (fun other inside => others other (by
        rwa [← List.cons_append, List.dropLast_concat] at inside)) (isLast.symm ▸ isPid) enough
    rw [isLast] at found
    obtain ⟨s', ran, right'⟩ := exit_keeps right notRunning
    have notInside : task ∉ first :: between := by
      intro inside
      have nodup := right.nodup
      rw [List.nodup_append] at nodup
      exact nodup.2.2 task inside task List.mem_cons_self rfl
    refine ⟨s', ?_, ?_⟩
    · simp only [kill, findTask, isFirst, found, Option.bind_eq_bind, Option.bind_some, ran]
    · rwa [List.erase_append_right _ notInside, List.erase_cons_head]

/-! ### Runs -/

inductive Op where
  /-- `submit`, with the address that `kmalloc` answers. -/
  | submit (fn : UInt32) (newTask : Ptr)
  | schedule
  | kill (p : UInt32)

/-- `kthread_exit`, as an address. -/
def kthreadExit : UInt32 := 0x00101000

/-- An operation, with the tasks that should be live after it. -/
def step (s : TaskScheduler × List Ptr) : Op → Option (TaskScheduler × List Ptr)
  | .submit fn newTask =>
    (s.1.submit fn kthreadExit newTask).map fun (_, s') => (s', s.2 ++ [newTask])
  | .schedule => s.1.schedule.map fun (_, s') => (s', s.2)
  | .kill p => do
    let s' ← s.1.kill p
    let task ← victimOf s.1 s.2 p
    return (s', s.2.erase task)

/-- `kmalloc` succeeds, with memory that no live task uses, and only live tasks are killed. -/
def MayDo (s : TaskScheduler × List Ptr) : Op → Prop
  | .submit _ newTask => newTask ≠ nullptr ∧ newTask ∉ s.2
  | .schedule => True
  | .kill p => (victimOf s.1 s.2 p).isSome

/-- The task killed is neither the first of the queue, nor the last, nor the running one. -/
def KillsInside (s : TaskScheduler × List Ptr) : Op → Prop
  | .kill p => ∀ task ∈ victimOf s.1 s.2 p,
      task ≠ s.1.runnable_tasks_ ∧ s.2.getLast? ≠ some task ∧ task ≠ s.1.running_
  | _ => True

instance (s : TaskScheduler × List Ptr) : ∀ op, Decidable (MayDo s op)
  | .submit _ _ => inferInstanceAs (Decidable (_ ∧ _))
  | .schedule => inferInstanceAs (Decidable True)
  | .kill _ => inferInstanceAs (Decidable (_ = true))

instance (s : TaskScheduler × List Ptr) : ∀ op, Decidable (KillsInside s op)
  | .submit _ _ | .schedule => inferInstanceAs (Decidable True)
  | .kill p => inferInstanceAs (Decidable (∀ task ∈ victimOf s.1 s.2 p, _ ∧ _ ∧ _))

/-- The run queue is right as long as there are tasks. -/
def QueueRight (s : TaskScheduler × List Ptr) : Prop := s.2 ≠ [] → RunQueue s.1 s.2

theorem start_right {kernStack : Ptr} (notNull : kernStack ≠ nullptr) :
    RunQueue (TaskScheduler.start kernStack) [kernStack] := by
  refine runQueue_of_path (List.nodup_singleton _) ?_ rfl ?_ (List.mem_singleton_self _)
  · exact fun same => notNull (List.mem_singleton.mp same).symm
  · have link : Follows (TaskScheduler.start kernStack).tasks kernStack kernStack := by
      simp [Follows, TaskScheduler.start]
    exact List.isChain_pair.mpr link

/-- **The run queue stays right along every run that kills inside the queue**, and every operation
comes back. -/
theorem runQueue_along_safe_kills {kernStack : Ptr} (notNull : kernStack ≠ nullptr) (ops : List Op) :
    Along step (fun s op => MayDo s op ∧ KillsInside s op) QueueRight
      (TaskScheduler.start kernStack, [kernStack]) ops := by
  have implies : ∀ s : TaskScheduler × List Ptr, RunQueue s.1 s.2 → QueueRight s :=
    fun _ right _ => right
  refine along_of_invariant (fun s => RunQueue s.1 s.2) ?_ implies ops _ (start_right notNull)
  rintro ⟨s, live⟩ op right ⟨may, inside⟩
  cases op with
  | submit fn newTask =>
    obtain ⟨s', ran, right'⟩ := submit_keeps right may.1 may.2 fn kthreadExit
    exact ⟨(s', live ++ [newTask]), by simp only [step, ran, Option.map_some], right'⟩
  | schedule =>
    obtain ⟨switched, s', ran, right'⟩ := schedule_keeps right
    exact ⟨(s', live), by simp only [step, ran, Option.map_some], right'⟩
  | kill p =>
    obtain ⟨task, victim⟩ := Option.isSome_iff_exists.mp may
    obtain ⟨notFirst, notLast, notRunning⟩ := inside task victim
    obtain ⟨s', ran, right'⟩ := kill_keeps right victim notFirst notLast notRunning
    refine ⟨(s', live.erase task), ?_, right'⟩
    dsimp only at victim
    simp only [step, ran, victim, Option.bind_eq_bind, Option.bind_some, Option.pure_def]

/-- The second of three threads is killed while the first task runs. -/
theorem runQueue_along_kthreads :
    Along step (fun s op => MayDo s op ∧ KillsInside s op) QueueRight
      (TaskScheduler.start 0x00108000, [0x00108000])
      [.submit 1 0xD0000004, .submit 2 0xD0001008, .submit 3 0xD000200C, .kill 2, .schedule,
        .submit 4 0xD0001008] :=
  runQueue_along_safe_kills (by decide) _

/-- **What the other kills do.** The task submitted last is not found, and the null pointer is
dereferenced. A first task that is killed is still `runnable_tasks_`, and a running one is still
`running_`. After the only task has been killed, `submit` looks for the end of the queue in it. -/
theorem other_kills_break_queue :
    ¬ Along step MayDo QueueRight (TaskScheduler.start 0x00108000, [0x00108000])
      [.submit 1 0xD0000004, .kill 1] ∧
    ¬ Along step MayDo QueueRight (TaskScheduler.start 0x00108000, [0x00108000])
      [.submit 1 0xD0000004, .submit 2 0xD0001008, .kill 0] ∧
    ¬ Along step MayDo QueueRight (TaskScheduler.start 0x00108000, [0x00108000])
      [.submit 1 0xD0000004, .submit 2 0xD0001008, .schedule, .kill 1] ∧
    ¬ Along step MayDo QueueRight (TaskScheduler.start 0x00108000, [0x00108000])
      [.kill 0, .submit 1 0xD0000004] := by
  refine ⟨fun along => ?_, fun along => ?_, fun along => ?_, fun along => ?_⟩
  · have ran := along.runs (by decide +kernel)
    revert ran
    decide +kernel
  · have run : (([.submit 1 0xD0000004, .submit 2 0xD0001008, .kill 0] : List Op).foldlM step
        (TaskScheduler.start 0x00108000, [0x00108000])).map (fun s =>
          (s.1.tasks s.1.runnable_tasks_, s.2)) = some (none, [0xD0000004, 0xD0001008]) := by
      decide +kernel
    obtain ⟨last, ran, values⟩ := Option.map_eq_some_iff.mp run
    simp only [Prod.mk.injEq] at values
    have right := along.at_end (by decide +kernel) ran (by rw [values.2]; exact List.cons_ne_nil _ _)
    obtain ⟨t, found⟩ := right.deref (List.mem_of_head? right.head)
    rw [values.1] at found
    cases found
  · have run : (([.submit 1 0xD0000004, .submit 2 0xD0001008, .schedule, .kill 1] : List Op).foldlM
        step (TaskScheduler.start 0x00108000, [0x00108000])).map (fun s => (s.1.running_, s.2))
        = some (0xD0000004, [0x00108000, 0xD0001008]) := by
      decide +kernel
    obtain ⟨last, ran, values⟩ := Option.map_eq_some_iff.mp run
    simp only [Prod.mk.injEq] at values
    have right := along.at_end (by decide +kernel) ran (by rw [values.2]; exact List.cons_ne_nil _ _)
    have running := right.running
    rw [values.1, values.2] at running
    revert running
    decide
  · have ran := along.runs (by decide +kernel)
    revert ran
    decide +kernel

end Sprite.Sched

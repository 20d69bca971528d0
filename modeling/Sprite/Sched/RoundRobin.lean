/-
**Round robin.**

Without `kill` the queue only grows at its end, and `running_` goes round it.

* `Numbered` — the invariant: the queue is right, and the pids are the places in it.
* `RunQueue.follows` — the link from each place to the next, the last one to the first.
* `schedule_next` — `schedule` moves `running_` on by one place.
* `schedules_spec` — the tasks that so many calls of `schedule` make running.
* `round_robin` — **every run of `submit` and `schedule`**: the order of the queue, the pids, the contexts
  that are switched, and that no task waits for more than one round.
-/
import Mathlib.Data.List.Rotate
import Sprite.Sched.RunQueue

namespace Sprite.Sched

open TaskScheduler

variable {s s' : TaskScheduler} {live : List Ptr} {task target : Ptr} {i : Nat}

/-! ### Places in the queue -/

/-- **The link of the task at each place** leads to the task at the next one, round the queue. -/
theorem RunQueue.follows (right : RunQueue s live) (here : live[i]? = some task) :
    ∃ next, live[(i + 1) % live.length]? = some next ∧ Follows s.tasks task next := by
  obtain ⟨inside, isTask⟩ := List.getElem?_eq_some_iff.mp here
  have path := List.isChain_iff_getElem.mp right.path i
    (by rw [List.length_append, List.length_singleton]; omega)
  rw [List.getElem_append_left inside, isTask] at path
  rcases Nat.lt_or_ge (i + 1) live.length with further | last
  · rw [List.getElem_append_left further] at path
    exact ⟨_, by rw [Nat.mod_eq_of_lt further, List.getElem?_eq_getElem further], path⟩
  · have isLast : i + 1 = live.length := Nat.le_antisymm inside last
    have head : live[(i + 1) % live.length]? = some s.runnable_tasks_ := by
      rw [isLast, Nat.mod_self, ← List.head?_eq_getElem?]
      exact right.head
    rw [List.getElem_concat_length isLast] at path
    exact ⟨_, head, path⟩

/-- Only one task leads to itself when it is the only one. -/
theorem RunQueue.next_eq_iff (right : RunQueue s live) (here : live[i]? = some task)
    (there : live[(i + 1) % live.length]? = some target) : task = target ↔ live.length = 1 := by
  obtain ⟨inside, isTask⟩ := List.getElem?_eq_some_iff.mp here
  obtain ⟨inside', isTarget⟩ := List.getElem?_eq_some_iff.mp there
  rw [← isTask, ← isTarget, right.nodup.getElem_inj_iff]
  rcases Nat.lt_or_ge (i + 1) live.length with further | last
  · rw [Nat.mod_eq_of_lt further]
    omega
  · have isLast : i + 1 = live.length := Nat.le_antisymm inside last
    rw [isLast, Nat.mod_self]
    omega

/-- **`schedule` goes on by one place**, and switches the contexts of the two tasks if there are two. -/
theorem schedule_next (right : RunQueue s live) (here : live[i]? = some s.running_) :
    ∃ target, live[(i + 1) % live.length]? = some target ∧
      s.schedule = some (if live.length = 1 then none else some (s.running_, target),
        { s with running_ := target }) ∧
      RunQueue { s with running_ := target } live := by
  obtain ⟨target, there, t, found, rfl⟩ := right.follows here
  have inside : t.next ∈ live := List.mem_of_getElem? there
  obtain ⟨t', found'⟩ := right.deref inside
  have notNull : s.running_ ≠ nullptr := fun same => right.notNull (same ▸ right.running)
  refine ⟨t.next, there, ?_, right.nodup, right.notNull, right.head, right.cycle, inside⟩
  by_cases alone : s.running_ = t.next
  · have one : live.length = 1 := (right.next_eq_iff here there).mp alone
    simp only [schedule, if_pos notNull, found, changeTaskTo, Option.bind_eq_bind, Option.bind_some,
      ← alone, ne_eq, not_true_eq_false, if_false, if_pos one]
  · have several : ¬ live.length = 1 := fun one => alone ((right.next_eq_iff here there).mpr one)
    simp only [schedule, if_pos notNull, found, changeTaskTo, Option.bind_eq_bind, Option.bind_some,
      if_pos alone, found', Option.pure_def, if_neg several]

/-- So many calls of `schedule`, and the tasks that they have made running, one after the other. -/
def TaskScheduler.schedules : Nat → TaskScheduler → Option (List Ptr × TaskScheduler)
  | 0, s => some ([], s)
  | k + 1, s => do
    let (_, s) ← s.schedule
    let (turns, s') ← schedules k s
    return (s.running_ :: turns, s')

/-- **Consecutive calls of `schedule`** make the tasks running in the order of the queue. -/
theorem schedules_spec (k : Nat) : ∀ {s : TaskScheduler} {i : Nat}, RunQueue s live →
    live[i]? = some s.running_ → ∃ turns s', s.schedules k = some (turns, s') ∧ turns.length = k ∧
      ∀ j < k, turns[j]? = live[(i + 1 + j) % live.length]? := by
  induction k with
  | zero => exact fun _ _ => ⟨[], _, rfl, rfl, fun j impossible => absurd impossible (Nat.not_lt_zero j)⟩
  | succ k ih =>
    intro s i right here
    obtain ⟨target, there, ran, right'⟩ := schedule_next right here
    obtain ⟨turns, s', rest, length, places⟩ := ih right' there
    refine ⟨target :: turns, s', ?_, by rw [List.length_cons, length], fun j below => ?_⟩
    · simp only [schedules, ran, Option.bind_eq_bind, Option.bind_some, rest, Option.pure_def]
    · cases j with
      | zero => exact there.symm
      | succ j =>
        rw [List.getElem?_cons_succ, places j (Nat.lt_of_succ_lt_succ below), Nat.add_assoc,
          Nat.mod_add_mod, Nat.add_comm 1 j]

/-- **In as many calls as there are tasks**, each of them becomes running once. -/
theorem schedules_all (right : RunQueue s live) :
    ∃ turns s', s.schedules live.length = some (turns, s') ∧ turns.Perm live := by
  obtain ⟨i, inside, isRunning⟩ := List.getElem_of_mem right.running
  have here : live[i]? = some s.running_ := by rw [List.getElem?_eq_getElem inside, isRunning]
  obtain ⟨turns, s', ran, length, places⟩ := schedules_spec live.length right here
  refine ⟨turns, s', ran, ?_⟩
  have rotated : turns = live.rotate (i + 1) := by
    refine List.ext_getElem? fun j => ?_
    rcases Nat.lt_or_ge j live.length with below | beyond
    · rw [places j below, List.getElem?_rotate below, Nat.add_comm j]
    · rw [List.getElem?_eq_none (by omega), List.getElem?_eq_none (by rw [List.length_rotate]; exact beyond)]
  rw [rotated]
  exact List.rotate_perm live (i + 1)

/-! ### The pids -/

/-- Setting a link changes no pid. -/
theorem setNext_pid (ran : s.setNext task target = some s') :
    s'.pid_cnt_ = s.pid_cnt_ ∧ ∀ other, pidOf s' other = pidOf s other := by
  obtain ⟨linked, found, same⟩ := Option.bind_eq_some_iff.mp ran
  cases same
  refine ⟨rfl, fun other => ?_⟩
  unfold pidOf
  by_cases isTask : other = task
  · rw [isTask, found]
    simp only [Function.update_self, Option.map_some]
  · simp only [Function.update_of_ne isTask]

/-- **`submit` gives the next pid** to the new task, and leaves the pids of the others. -/
theorem submit_pid {fn kthreadExit pid : UInt32} {newTask : Ptr}
    (ran : s.submit fn kthreadExit newTask = some (pid, s')) :
    s'.pid_cnt_ = s.pid_cnt_ + 1 ∧ pidOf s' newTask = some s.pid_cnt_ ∧
      ∀ other, other ≠ newTask → pidOf s' other = pidOf s other := by
  unfold submit at ran
  split at ran
  · obtain ⟨pushed, push, same⟩ := Option.bind_eq_some_iff.mp ran
    cases same
    obtain ⟨cur, _, linked⟩ := Option.bind_eq_some_iff.mp push
    obtain ⟨count, pids⟩ := setNext_pid linked
    refine ⟨count, ?_, fun other isOther => ?_⟩
    · have new : (s.create fn kthreadExit newTask).tasks newTask = some _ := Function.update_self _ _ _
      rw [pids, pidOf, new, Option.map_some]
    · have old : (s.create fn kthreadExit newTask).tasks other = s.tasks other :=
        Function.update_of_ne isOther _ _
      rw [pids, pidOf, old, pidOf]
  · cases ran

/-- **The invariant**: the queue is right, and the pid of each task is its place in it. -/
structure Numbered (s : TaskScheduler) (live : List Ptr) : Prop where
  right : RunQueue s live
  count : s.pid_cnt_ = UInt32.ofNat live.length
  pids : ∀ i task, live[i]? = some task → pidOf s task = some (UInt32.ofNat i)

theorem start_numbered {kernStack : Ptr} (notNull : kernStack ≠ nullptr) :
    Numbered (TaskScheduler.start kernStack) [kernStack] := by
  refine ⟨start_right notNull, rfl, fun i task here => ?_⟩
  cases i with
  | zero =>
    cases here
    simp [pidOf, TaskScheduler.start]
  | succ i => cases here

theorem Numbered.submit (numbered : Numbered s live) {newTask : Ptr} (notNull : newTask ≠ nullptr)
    (fresh : newTask ∉ live) (fn kthreadExit : UInt32) :
    ∃ s', s.submit fn kthreadExit newTask = some (s.pid_cnt_, s') ∧ Numbered s' (live ++ [newTask]) := by
  obtain ⟨s', ran, right'⟩ := submit_keeps numbered.right notNull fresh fn kthreadExit
  obtain ⟨count, pid, others⟩ := submit_pid ran
  refine ⟨s', ran, right', ?_, fun i task here => ?_⟩
  · rw [count, numbered.count, List.length_append, List.length_singleton, UInt32.ofNat_add]
    rfl
  · rcases Nat.lt_trichotomy i live.length with below | rfl | beyond
    · rw [List.getElem?_append_left below] at here
      have isOther : task ≠ newTask := fun same => fresh (same ▸ List.mem_of_getElem? here)
      rw [others task isOther, numbered.pids i task here]
    · rw [List.getElem?_concat_length] at here
      cases here
      rw [pid, numbered.count]
    · rw [List.getElem?_eq_none (by rw [List.length_append, List.length_singleton]; exact beyond)] at here
      cases here

theorem Numbered.schedule (numbered : Numbered s live) :
    ∃ switched s', s.schedule = some (switched, s') ∧ Numbered s' live := by
  obtain ⟨i, inside, isRunning⟩ := List.getElem_of_mem numbered.right.running
  obtain ⟨target, _, ran, right'⟩ :=
    schedule_next numbered.right (by rw [List.getElem?_eq_getElem inside, isRunning])
  exact ⟨_, _, ran, right', numbered.count, numbered.pids⟩

/-- The pids are distinct, as there are fewer tasks than pointers. -/
theorem Numbered.distinct (numbered : Numbered s live) : (live.map (pidOf s)).Nodup := by
  have few := numbered.right.length_lt
  rw [List.nodup_iff_getElem?_ne_getElem?]
  intro i j before inside
  rw [List.length_map] at inside
  rw [List.getElem?_map, List.getElem?_map, List.getElem?_eq_getElem inside,
    List.getElem?_eq_getElem (Nat.lt_trans before inside), Option.map_some, Option.map_some,
    numbered.pids i _ (List.getElem?_eq_getElem _), numbered.pids j _ (List.getElem?_eq_getElem _)]
  intro same
  simp only [Option.some.injEq] at same
  have number := congrArg UInt32.toNat same
  have size : kPointers = UInt32.size := rfl
  rw [UInt32.toNat_ofNat_of_lt' (by omega), UInt32.toNat_ofNat_of_lt' (by omega)] at number
  omega

/-! ### Runs -/

inductive Call where
  /-- `submit`, with the address that `kmalloc` answers. -/
  | submit (fn : UInt32) (newTask : Ptr)
  | schedule

/-- The task that a call submits. -/
def Call.newTask : Call → Option Ptr
  | .submit _ newTask => some newTask
  | .schedule => none

def Call.step (s : TaskScheduler) : Call → Option TaskScheduler
  | .submit fn newTask => (s.submit fn kthreadExit newTask).map Prod.snd
  | .schedule => s.schedule.map Prod.snd

/-- The tasks submitted, in this order. -/
def submitted (calls : List Call) : List Ptr := calls.filterMap Call.newTask

/-- **Every run keeps the invariant**, with the submitted tasks behind those that were there. -/
theorem Numbered.run (calls : List Call) : ∀ {s : TaskScheduler} {live : List Ptr}, Numbered s live →
    (live ++ submitted calls).Nodup → nullptr ∉ submitted calls →
    ∃ s', calls.foldlM Call.step s = some s' ∧ Numbered s' (live ++ submitted calls) := by
  induction calls with
  | nil =>
    intro s live numbered _ _
    refine ⟨s, rfl, ?_⟩
    rwa [submitted, List.filterMap_nil, List.append_nil]
  | cons call calls ih =>
    intro s live numbered nodup notNull
    cases call with
    | submit fn newTask =>
      have more : submitted (.submit fn newTask :: calls) = newTask :: submitted calls := rfl
      rw [more] at nodup notNull ⊢
      have fresh : newTask ∉ live := fun member =>
        (List.nodup_append.mp nodup).2.2 newTask member newTask List.mem_cons_self rfl
      obtain ⟨s₁, ran, numbered₁⟩ :=
        numbered.submit (fun null => notNull (null ▸ List.mem_cons_self)) fresh fn kthreadExit
      have regroup : live ++ newTask :: submitted calls = (live ++ [newTask]) ++ submitted calls := by simp
      rw [regroup] at nodup ⊢
      obtain ⟨s', rest, numbered'⟩ :=
        ih numbered₁ nodup fun member => notNull (List.mem_cons_of_mem _ member)
      refine ⟨s', ?_, numbered'⟩
      rw [List.foldlM_cons, Call.step, ran]
      exact rest
    | schedule =>
      have same : submitted (.schedule :: calls) = submitted calls := rfl
      rw [same] at nodup notNull ⊢
      obtain ⟨switched, s₁, ran, numbered₁⟩ := numbered.schedule
      obtain ⟨s', rest, numbered'⟩ := ih numbered₁ nodup notNull
      refine ⟨s', ?_, numbered'⟩
      rw [List.foldlM_cons, Call.step, ran]
      exact rest

/-- **Round robin** over these tasks, in this order. -/
structure RoundRobin (s : TaskScheduler) (live : List Ptr) : Prop where
  queue : RunQueue s live
  pids : (live.map (pidOf s)).Nodup
  moves : ∀ i, live[i]? = some s.running_ → ∃ target, live[(i + 1) % live.length]? = some target ∧
    s.schedule = some (if live.length = 1 then none else some (s.running_, target),
      { s with running_ := target })
  turns : ∃ turns s', s.schedules live.length = some (turns, s') ∧ turns.Perm live

/-- **Every run of `submit` and `schedule`** comes back, and goes round the first task and the submitted
ones, in the order of submission, when `kmalloc` answers memory that is not in use. -/
theorem round_robin {kernStack : Ptr} (calls : List Call) (nodup : (kernStack :: submitted calls).Nodup)
    (notNull : nullptr ∉ kernStack :: submitted calls) :
    ∃ s, calls.foldlM Call.step (TaskScheduler.start kernStack) = some s ∧
      RoundRobin s (kernStack :: submitted calls) := by
  have first : kernStack ≠ nullptr := fun null => notNull (null ▸ List.mem_cons_self)
  obtain ⟨s, ran, numbered⟩ := (start_numbered first).run calls nodup fun member =>
    notNull (List.mem_cons_of_mem _ member)
  refine ⟨s, ran, numbered.right, numbered.distinct, fun i here => ?_, schedules_all numbered.right⟩
  obtain ⟨target, there, moved, _⟩ := schedule_next numbered.right here
  exact ⟨target, there, moved⟩

/-- Two threads are submitted while the tasks take turns. -/
theorem threads_join_the_round :
    ∃ s, ([.schedule, .submit 1 0xD0000004, .schedule, .submit 2 0xD0001008, .schedule] : List Call).foldlM
        Call.step (TaskScheduler.start 0x00108000) = some s ∧
      RoundRobin s [0x00108000, 0xD0000004, 0xD0001008] :=
  round_robin _ (by decide) (by decide)

end Sprite.Sched

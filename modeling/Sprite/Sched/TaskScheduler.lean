/-
**The task scheduler**, after `src/include/scheduler.h` and `src/include/task.h`.

Tasks are addressed by 32-bit pointers, and the null pointer is 0. What is not a task, because it is
null, was never allocated or has been freed, is `none`: a function that dereferences it does not come
back, which is what `none` as its answer says. The loops over the list are given as many steps as
there are pointers; a loop that has not ended by then goes round for ever.

* `submit`, `schedule`, `kill` — the operations.
* `findTask`, `exit` — what `kill` is made of.
-/
import Mathlib.Algebra.Group.Nat.Defs
import Mathlib.Logic.Function.Basic

namespace Sprite.Sched

abbrev Ptr := UInt32

def nullptr : Ptr := 0

def STACK_SIZE : UInt32 := 0x1000

inductive TaskState where
  | uninit
  | sleeping
  | runnable
  | zombie
  deriving DecidableEq

structure TaskContext where
  esp : UInt32
  ebp : UInt32
  ebx : UInt32
  esi : UInt32
  edi : UInt32
  eflags : UInt32
  deriving DecidableEq

/-- A task, with the words that `submit` has put on its stack, from `esp` upwards. -/
structure TaskStruct where
  state : TaskState
  pid : UInt32
  kstack : Ptr
  context : TaskContext
  next : Ptr
  stack : List UInt32
  deriving DecidableEq

structure TaskScheduler where
  tasks : Ptr → Option TaskStruct
  runnable_tasks_ : Ptr
  running_ : Ptr
  waiting_tasks_ : Ptr
  pid_cnt_ : UInt32

/-- A loop that has not ended after as many steps as there are pointers does not end. -/
def kPointers : Nat := 2 ^ 32

namespace TaskScheduler

/-- The constructor: the code that runs already becomes the first task, on the kernel stack. -/
def start (kernStack : Ptr) : TaskScheduler where
  tasks := Function.update (fun _ => none) kernStack (some {
    state := .runnable
    pid := 0
    kstack := kernStack
    context := ⟨0, 0, 0, 0, 0, 0⟩
    next := kernStack
    stack := [] })
  runnable_tasks_ := kernStack
  running_ := kernStack
  waiting_tasks_ := nullptr
  pid_cnt_ := 1

/-- `task->next = target`. -/
def setNext (s : TaskScheduler) (task target : Ptr) : Option TaskScheduler := do
  let t ← s.tasks task
  return { s with tasks := Function.update s.tasks task (some { t with next := target }) }

/-- `while (cur->next != runnable_tasks_) cur = cur->next;`. -/
def lastFrom (s : TaskScheduler) : Nat → Ptr → Option Ptr
  | 0, _ => none
  | fuel + 1, cur => do
    let t ← s.tasks cur
    if t.next ≠ s.runnable_tasks_ then lastFrom s fuel t.next else return cur

/-- The first part of `submit`: the task and its stack are set up. A thread that returns goes to
`kthreadExit`, with its pid as the argument. -/
def create (s : TaskScheduler) (fn kthreadExit : UInt32) (newTask : Ptr) : TaskScheduler :=
  let pid := s.pid_cnt_
  { s with
    tasks := Function.update s.tasks newTask (some {
      state := .runnable
      pid := pid
      kstack := s.running_
      context := ⟨newTask + STACK_SIZE - 16, 0, 0, 0, 0, 0x200⟩
      next := s.runnable_tasks_
      stack := [fn, kthreadExit, 0, pid] })
    pid_cnt_ := pid + 1 }

/-- The second part of `submit`: the task is linked behind the last one. -/
def pushBack (s : TaskScheduler) (newTask : Ptr) : Option TaskScheduler := do
  let cur ← s.lastFrom kPointers s.runnable_tasks_
  s.setNext cur newTask

/-- `submit(fn)`, where `kmalloc` answers `newTask`. -/
def submit (s : TaskScheduler) (fn kthreadExit : UInt32) (newTask : Ptr) :
    Option (UInt32 × TaskScheduler) :=
  if newTask ≠ nullptr then do
    let s' ← (s.create fn kthreadExit newTask).pushBack newTask
    return (s.pid_cnt_, s')
  else none

/-- The answer of `schedule` is the pair of tasks whose contexts are switched, if any. -/
def changeTaskTo (s : TaskScheduler) (target : Ptr) : Option (Option (Ptr × Ptr) × TaskScheduler) :=
  if s.running_ ≠ target then do
    let last := s.running_
    let s := { s with running_ := target }
    let _ ← s.tasks last
    let _ ← s.tasks s.running_
    return (some (last, s.running_), s)
  else some (none, s)

def schedule (s : TaskScheduler) : Option (Option (Ptr × Ptr) × TaskScheduler) :=
  if s.running_ ≠ nullptr then do
    let t ← s.tasks s.running_
    s.changeTaskTo t.next
  else some (none, s)

/-- The loop of `find_task`. -/
def findFrom (s : TaskScheduler) (p : UInt32) : Nat → Ptr → Option Ptr
  | 0, _ => none
  | fuel + 1, res => do
    let t ← s.tasks res
    if t.pid = p then return res
    let t' ← s.tasks t.next
    if t'.next ≠ s.runnable_tasks_ then findFrom s p fuel t.next else return nullptr

def findTask (s : TaskScheduler) (p : UInt32) : Option Ptr :=
  s.findFrom p kPointers s.runnable_tasks_

/-- `while (cur != task) { cur = cur->next; prev = prev->next; }`. -/
def beforeTask (s : TaskScheduler) (task : Ptr) : Nat → Ptr → Ptr → Option (Ptr × Ptr)
  | 0, _, _ => none
  | fuel + 1, prev, cur =>
    if cur ≠ task then do
      let c ← s.tasks cur
      let p ← s.tasks prev
      beforeTask s task fuel p.next c.next
    else some (prev, cur)

/-- `kfree(task)`: nothing may use the task from here on. -/
def kfree (s : TaskScheduler) (task : Ptr) : TaskScheduler :=
  { s with tasks := Function.update s.tasks task none }

def exit (s : TaskScheduler) (task : Ptr) : Option TaskScheduler := do
  let _ ← s.tasks task
  let head ← s.tasks s.runnable_tasks_
  if head.next = s.runnable_tasks_ then do
    let s ← s.setNext s.runnable_tasks_ nullptr
    return ({ s with running_ := nullptr } : TaskScheduler).kfree task
  else do
    let (prev, cur) ← s.beforeTask task kPointers s.runnable_tasks_ head.next
    let c ← s.tasks cur
    let s ← s.setNext prev c.next
    return s.kfree task

def kill (s : TaskScheduler) (p : UInt32) : Option TaskScheduler := do
  let task ← s.findTask p
  s.exit task

end TaskScheduler

end Sprite.Sched

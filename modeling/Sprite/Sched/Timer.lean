/-
**The timer interrupt**, after `src/lib/isr.s`, `src/lib/idt.cc`, `src/lib/timer.cc`,
`src/lib/kthread.cc` and `src/include/scheduler.h`.

The registers and the bytes of memory are in `Cpu`, the list of tasks in `TaskScheduler`. The contexts
and the stacks of the tasks are read from the bytes. Between the call of `irq_dispatcher` and that of
`switch_to` runs what a compiler has made of five C functions. What they decide is modelled here; how
they use registers and stack is a parameter, of which only the calling convention is known.

* `tick`, `submit` — a timer interrupt from its first push to its `iret`, and a new thread.
* `Compiled`, `Cdecl` — the compiled functions and their calling convention.
* `leave_right` — when `irq_dispatcher` returns, the interrupted code goes on with all its registers.
* `tick_alone` — **a tick** when there is no other thread.
-/
import Sprite.Sched.Switch

namespace Sprite.Sched

open X86 Words

/-! ### Compiled code -/

/-- The compiled code of `irq_dispatcher`, `timer_callback`, `kthread_schedule`, `schedule` and
`change_task_to`: the addresses in it that matter, how deep its stack gets, where its variables are,
and what it does in its three stretches. -/
structure Compiled where
  /-- Behind the call of `irq_dispatcher`. -/
  dispatcherReturn : UInt32
  /-- Behind the call of `switch_to`. -/
  changeReturn : UInt32
  /-- The `ret` of `switch_to`. -/
  switchRet : UInt32
  kthreadExit : UInt32
  depth : Nat
  statics : Set UInt32
  /-- From the entry of `irq_dispatcher` to the entry of `switch_to(last, target)`. -/
  descend : UInt32 → UInt32 → Cpu → Cpu
  /-- From behind the call of `switch_to` to behind the call of `irq_dispatcher`. -/
  ascend : Cpu → Cpu
  /-- From the entry of `irq_dispatcher` to behind its call, where no other task is chosen. -/
  stay : Cpu → Cpu

/-- What a call of `irq_dispatcher` may write: its frames, its argument and its variables. -/
def callArea (code : Compiled) (e : Cpu) : Set UInt32 :=
  between (e.regs.esp.toNat - code.depth) (e.regs.esp.toNat + 8) ∪ code.statics

/-- The stack has room for the call. -/
structure HasRoom (code : Compiled) (e : Cpu) : Prop where
  deep : code.depth ≤ e.regs.esp.toNat
  fits : e.regs.esp.toNat + 8 ≤ 2 ^ 32
  clear : Disjoint (between (e.regs.esp.toNat - code.depth) (e.regs.esp.toNat + 8)) code.statics

/-- The call entered in the state `e` has returned to the state `a`; `memory` is what its last stretch
started with. -/
structure Returned (code : Compiled) (e : Cpu) (memory : Memory) (a : Cpu) : Prop where
  esp : a.regs.esp = e.regs.esp + 4
  eip : a.regs.eip = e.top
  masked : Masked a
  within : Within (callArea code e) memory a.memory

/-- The call entered in the state `e` is at the entry of `switch_to(last, target)`. -/
structure Descended (code : Compiled) (last target : UInt32) (e d : Cpu) : Prop where
  deep : e.regs.esp.toNat ≤ d.regs.esp.toNat + code.depth
  below : d.regs.esp.toNat + 12 ≤ e.regs.esp.toNat
  stack : OnStack d [code.changeReturn, last, target]
  masked : Masked d
  within : Within (callArea code e) e.memory d.memory

/-- Behind its call of `switch_to` the code finds its frames and the registers a function saves. -/
structure Resumed (e d r : Cpu) : Prop where
  esp : r.regs.esp = d.regs.esp + 4
  ebp : r.regs.ebp = d.regs.ebp
  ebx : r.regs.ebx = d.regs.ebx
  esi : r.regs.esi = d.regs.esi
  edi : r.regs.edi = d.regs.edi
  masked : Masked r
  frames : ∀ place ∈ between (d.regs.esp.toNat + 4) (e.regs.esp.toNat + 8),
    r.memory place = d.memory place

/-- **The calling convention.** Arguments are on the stack, above the return address. A function
returns with the stack pointer behind its return address, and it writes its frames, its arguments and
its variables only. Nothing in these functions enables interrupts. -/
structure Cdecl (code : Compiled) : Prop where
  descend : ∀ e last target, Masked e → HasRoom code e →
    Descended code last target e (code.descend last target e)
  ascend : ∀ e last target r, Masked e → HasRoom code e →
    Resumed e (code.descend last target e) r → Returned code e r.memory (code.ascend r)
  stay : ∀ e, Masked e → HasRoom code e → Returned code e e.memory (code.stay e)

/-! ### The kernel -/

structure Kernel where
  cpu : Cpu
  sched : TaskScheduler

/-- `&task->context`. -/
def contextOfTask (task : Ptr) : UInt32 := task + 12

/-- The first argument of a function, where it is entered. -/
def argument (e : Cpu) : UInt32 := load32 e.memory (e.regs.esp + 4)

/-- `regs->int_no`, where `irq_dispatcher(regs)` is entered. -/
def intNo (e : Cpu) : UInt32 := load32 e.memory (argument e + 36)

/-- The end of `irq_common_stub`. Code that comes back to another place is not followed. -/
def leave (code : Compiled) (a : Cpu) : Option Cpu :=
  if a.regs.eip = code.dispatcherReturn then
    match runMasked (irqCommonStubEnd ++ [.iret]) a with
    | ([], c) => some c
    | _ => none
  else none

/-- From the entry of `switch_to` to the next instruction that runs with interrupts enabled. That is
the `ret` of `switch_to`, if the context that is loaded has IF set. -/
def switched (code : Compiled) (d : Cpu) : Option Cpu :=
  match runMasked switchTo d with
  | ([], r) => if r.regs.eip = code.changeReturn then leave code (code.ascend r) else none
  | ([.ret], y) => some { y with regs := { y.regs with eip := code.switchRet } }
  | _ => none

namespace Kernel

/-- A timer interrupt: the stub, `irq_dispatcher`, `timer_callback`, `kthread_schedule`, and what they
come back to. -/
def tick (code : Compiled) (k : Kernel) : Option Kernel :=
  match runMasked (irq0 ++ irqCommonStub) (interrupt KERNEL_CS k.cpu) with
  | ([], c) =>
    let e := call code.dispatcherReturn c
    if intNo e = 32 then
      match k.sched.schedule with
      | some (none, sched) => (leave code (code.stay e)).map fun cpu => ⟨cpu, sched⟩
      | some (some (last, target), sched) =>
        (switched code (code.descend (contextOfTask last) (contextOfTask target) e)).map
          fun cpu => ⟨cpu, sched⟩
      | none => none
    else none
  | _ => none

/-- The bytes of a new task: its context, and the words on its stack. -/
def layTask (memory : Memory) (newTask : Ptr) (t : TaskStruct) : Memory :=
  storeWords (storeWords memory (contextOfTask newTask) t.context.words) t.context.esp t.stack

/-- `kthread(fn)`, where `kmalloc` answers `newTask`. The registers are those of the running thread,
which goes on. -/
def submit (code : Compiled) (k : Kernel) (fn : UInt32) (newTask : Ptr) : Option (UInt32 × Kernel) := do
  let submitted ← k.sched.submit fn code.kthreadExit newTask
  let t ← submitted.2.tasks newTask
  return (submitted.1, ⟨{ k.cpu with memory := layTask k.cpu.memory newTask t }, submitted.2⟩)

end Kernel

/-! ### Where a thread can be interrupted -/

/-- The bytes of a task: its `task_struct` at the bottom, its stack above. -/
def region (task : Ptr) : Set UInt32 := between task.toNat (task.toNat + 4096)

/-- A thread may be interrupted by the timer: interrupts are enabled, the data selectors are equal,
and the stack pointer is in its stack, with room for the interrupt above its `task_struct`. -/
structure Preemptible (code : Compiled) (task : Ptr) (c : Cpu) : Prop where
  enabled : ¬ Masked c
  one : OneSelector c.regs
  room : task.toNat + 40 + (64 + code.depth + 4) ≤ c.regs.esp.toNat
  top : c.regs.esp.toNat ≤ task.toNat + 4096

instance (code : Compiled) (task : Ptr) (c : Cpu) : Decidable (Preemptible code task c) :=
  decidable_of_iff
    (¬ Masked c ∧ OneSelector c.regs ∧ task.toNat + 40 + (64 + code.depth + 4) ≤ c.regs.esp.toNat
      ∧ c.regs.esp.toNat ≤ task.toNat + 4096)
    ⟨fun may => ⟨may.1, may.2.1, may.2.2.1, may.2.2.2⟩,
      fun pre => ⟨pre.enabled, pre.one, pre.room, pre.top⟩⟩

/-- The bytes of a task are in memory, apart from the variables of the kernel. -/
structure Placed (code : Compiled) (task : Ptr) : Prop where
  fits : task.toNat + 4096 ≤ 2 ^ 32
  clear : Disjoint (region task) code.statics

variable {code : Compiled} {task : Ptr} {c e a : Cpu} {memory : Memory}

/-! ### Entry and exit of a tick -/

theorem Preemptible.entered (pre : Preemptible code task c) :
    Entered code.dispatcherReturn c (entered code.dispatcherReturn c) := by
  have room := pre.room
  exact enter_spec (by omega)

theorem Preemptible.hasRoom (pre : Preemptible code task c) (placed : Placed code task)
    (entry : Entered code.dispatcherReturn c e) : HasRoom code e := by
  have room := pre.room
  have top := pre.top
  have fits := placed.fits
  have esp := entry.esp
  refine ⟨by omega, by omega, placed.clear.mono_left (between_subset ?_ ?_)⟩
  all_goals omega

/-- A call of `irq_dispatcher` stays in the interrupted stack and the variables of the kernel. -/
theorem Preemptible.callArea_subset (pre : Preemptible code task c)
    (entry : Entered code.dispatcherReturn c e) :
    callArea code e ⊆ between (task.toNat + 44) (c.regs.esp.toNat - 56) ∪ code.statics := by
  have room := pre.room
  have esp := entry.esp
  refine Set.union_subset_union_left _ (between_subset ?_ ?_)
  all_goals omega

/-- What a tick may write, as far as it runs on the stack of one thread. -/
def tickArea (code : Compiled) (task : Ptr) : Set UInt32 := region task ∪ code.statics

theorem Preemptible.callArea_tickArea (pre : Preemptible code task c)
    (entry : Entered code.dispatcherReturn c e) : callArea code e ⊆ tickArea code task := by
  have top := pre.top
  refine (pre.callArea_subset entry).trans (Set.union_subset_union_left _ (between_subset ?_ ?_))
  all_goals omega

/-- Bytes of the stack above the call are not in its area. -/
theorem Preemptible.notMem_callArea (pre : Preemptible code task c) (placed : Placed code task)
    (entry : Entered code.dispatcherReturn c e) {place : UInt32}
    (above : place ∈ between (c.regs.esp.toNat - 56) (task.toNat + 4096)) :
    place ∉ callArea code e := by
  have room := pre.room
  intro inside
  rcases pre.callArea_subset entry inside with below | static
  · exact absurd below.2 (Nat.not_lt_of_le above.1)
  · refine Set.disjoint_left.mp placed.clear ?_ static
    exact ⟨by have low := above.1; omega, above.2⟩

/-- **The end of the stub**, when `irq_dispatcher` has returned: the interrupted code goes on with
all its registers. -/
theorem leave_right (pre : Preemptible code task c) (placed : Placed code task)
    (entry : Entered code.dispatcherReturn c e) (returned : Returned code e memory a)
    (frame : ∀ place ∈ between (c.regs.esp.toNat - 56) (task.toNat + 4096),
      memory place = e.memory place) :
    leave code a = some ⟨c.regs, a.memory⟩ := by
  have room := pre.room
  have top := pre.top
  have fits := placed.fits
  have esp := entry.esp
  have small := c.regs.esp.toNat_lt
  have up : a.regs.esp.toNat = e.regs.esp.toNat + 4 := by
    rw [returned.esp]
    exact toNat_add_four (by omega)
  have up' : (a.regs.esp + 4).toNat = c.regs.esp.toNat - 56 := by
    rw [toNat_add_four (by omega)]
    omega
  have back : a.regs.eip = code.dispatcherReturn := returned.eip.trans entry.stack.spelled.1
  have bytes : 4 * (ptRegs c.regs).length = 56 := rfl
  have frameWords : Spelled a.memory (a.regs.esp + 4) (ptRegs c.regs) := by
    have words : Spelled e.memory (a.regs.esp + 4) (ptRegs c.regs) := by
      rw [returned.esp]
      exact entry.stack.spelled.2.2
    refine words.congr _ (by rw [bytes]; omega) fun place inside => ?_
    have inFrame : place ∈ between (c.regs.esp.toNat - 56) (task.toNat + 4096) := by
      have low := inside.1
      have high := inside.2
      rw [bytes] at high
      exact ⟨by omega, by omega⟩
    exact (returned.within place (pre.notMem_callArea placed entry inFrame)).trans
      (frame place inFrame)
  have stack : OnStack a (a.top :: ptRegs c.regs) := by
    refine ⟨?_, rfl, frameWords⟩
    rw [List.length_cons, Nat.mul_succ, bytes]
    omega
  unfold leave
  rw [if_pos back, leave_spec pre.one returned.masked stack (by omega)]

/-- `irq_dispatcher` finds the number of the timer interrupt. -/
theorem intNo_entered (pre : Preemptible code task c) (entry : Entered code.dispatcherReturn c e) :
    intNo e = 32 := by
  have room := pre.room
  have arg : argument e = c.regs.esp - 56 := entry.stack.spelled.get 1 rfl
  have number : load32 e.memory (e.regs.esp + 44) = 32 := entry.stack.spelled.get 11 rfl
  have place : c.regs.esp - 56 = e.regs.esp + 8 := by
    have small := c.regs.esp.toNat_lt
    rw [← UInt32.toNat_inj, UInt32.toNat_sub, UInt32.toNat_add, entry.esp]
    simp only [UInt32.reduceToNat]
    omega
  unfold intNo
  rw [arg, place, UInt32.add_assoc]
  exact number

/-- The stack above the stack pointer is as it was, up to its end. -/
def StackKept (task : Ptr) (c : Cpu) (memory : Memory) : Prop :=
  ∀ place ∈ between c.regs.esp.toNat (task.toNat + 4096), memory place = c.memory place

/-- Neither does the call touch what lies above the interrupted stack pointer. -/
theorem stackKept_of_returned (pre : Preemptible code task c) (placed : Placed code task)
    (entry : Entered code.dispatcherReturn c e) (returned : Returned code e memory a)
    (frame : ∀ place ∈ between (c.regs.esp.toNat - 56) (task.toNat + 4096),
      memory place = e.memory place) :
    StackKept task c a.memory := by
  intro place inside
  have above := between_subset (Nat.sub_le _ 56) le_rfl inside
  rw [returned.within place (pre.notMem_callArea placed entry above), frame place above]
  exact entry.within place fun below => absurd inside.1 (Nat.not_le_of_lt below.2)

/-- The way in stays in the interrupted stack. -/
theorem Preemptible.within_entered (pre : Preemptible code task c)
    (entry : Entered code.dispatcherReturn c e) : Within (tickArea code task) c.memory e.memory := by
  have room := pre.room
  have top := pre.top
  refine entry.within.mono ((between_subset ?_ ?_).trans Set.subset_union_left)
  all_goals omega

/-! ### The cases of a tick -/

variable {k : Kernel} {sched : TaskScheduler}

/-- A tick after which no other task is chosen. -/
theorem tick_stay (pre : Preemptible code task k.cpu)
    (scheduled : k.sched.schedule = some (none, sched)) :
    k.tick code = (leave code (code.stay (entered code.dispatcherReturn k.cpu))).map
      fun cpu => ⟨cpu, sched⟩ := by
  unfold Kernel.tick
  rw [(stub_runs k.cpu).1]
  show (if intNo (entered code.dispatcherReturn k.cpu) = 32 then _ else _) = _
  rw [if_pos (intNo_entered pre pre.entered), scheduled]
  rfl

/-- A tick after which another task is chosen. -/
theorem tick_switch (pre : Preemptible code task k.cpu) {last target : Ptr}
    (scheduled : k.sched.schedule = some (some (last, target), sched)) :
    k.tick code = (switched code (code.descend (contextOfTask last) (contextOfTask target)
      (entered code.dispatcherReturn k.cpu))).map fun cpu => ⟨cpu, sched⟩ := by
  unfold Kernel.tick
  rw [(stub_runs k.cpu).1]
  show (if intNo (entered code.dispatcherReturn k.cpu) = 32 then _ else _) = _
  rw [if_pos (intNo_entered pre pre.entered), scheduled]
  rfl

/-- **A thread is alone**: the tick comes back to it at once. -/
theorem tick_alone (cdecl : Cdecl code) (pre : Preemptible code task k.cpu)
    (placed : Placed code task) (scheduled : k.sched.schedule = some (none, sched)) :
    ∃ memory, k.tick code = some ⟨⟨k.cpu.regs, memory⟩, sched⟩ ∧ StackKept task k.cpu memory
      ∧ Within (tickArea code task) k.cpu.memory memory := by
  have entry := pre.entered
  have returned := cdecl.stay _ entry.masked (pre.hasRoom placed entry)
  refine ⟨(code.stay (entered code.dispatcherReturn k.cpu)).memory, ?_,
    stackKept_of_returned pre placed entry returned fun _ _ => rfl,
    (pre.within_entered entry).trans (returned.within.mono (pre.callArea_tickArea entry))⟩
  rw [tick_stay pre scheduled, leave_right pre placed entry returned fun _ _ => rfl, Option.map_some]

end Sprite.Sched

/-
**Preemption is transparent.**

Threads are submitted, run and are interrupted by the timer, in any order. Beside the kernel, a run
keeps for each thread what it was doing when it was last interrupted, and what it was submitted with.

* `Observed.step`, `Observed.Legal` — the events, and when each may happen.
* `Observed.Right` — **a thread that a tick goes on with** continues where it was interrupted, or
  starts.
* `Observed.Sound` — the invariant: every thread that does not run waits, or has not run yet.
* `preemption_transparent` — every run.
-/
import Sprite.Lib.Runs
import Sprite.Sched.RunQueue
import Sprite.Sched.Threads

namespace Sprite.Sched

open Runs X86 Words

structure Observed where
  kernel : Kernel
  live : List Ptr
  /-- The processor when a thread was last interrupted. -/
  seen : Ptr → Option Cpu
  /-- The entry function and the pid of a thread that has been submitted. -/
  given : Ptr → Option (UInt32 × UInt32)
  /-- The thread that the last event has gone on with, if that was a tick. -/
  resumed : Option Ptr

/-- The running thread submits another one, or gets the processor and the memory into another state,
or is interrupted by the timer. -/
inductive Event where
  | submit (fn : UInt32) (newTask : Ptr)
  | work (cpu : Cpu)
  | tick

namespace Observed

def step (code : Compiled) (o : Observed) : Event → Option Observed
  | .submit fn newTask => (o.kernel.submit code fn newTask).map fun submitted =>
      { kernel := submitted.2
        live := o.live ++ [newTask]
        seen := Function.update o.seen newTask none
        given := Function.update o.given newTask (some (fn, submitted.1))
        resumed := none }
  | .work cpu => some { o with kernel := ⟨cpu, o.kernel.sched⟩, resumed := none }
  | .tick => (o.kernel.tick code).map fun kernel =>
      { o with
        kernel := kernel
        seen := Function.update o.seen o.kernel.sched.running_ (some o.kernel.cpu)
        resumed := some kernel.sched.running_ }

/-- What the running thread may write: its own stack, and what belongs to no thread. -/
def workArea (o : Observed) : Set UInt32 :=
  {place | ∀ task ∈ o.live, place ∈ region task →
    task = o.kernel.sched.running_ ∧ task.toNat + 40 ≤ place.toNat}

/-- A new task is one that `kmalloc` has answered, apart from those there are. A thread stays in its
stack. The timer interrupts a thread that has interrupts enabled. -/
def Legal (code : Compiled) (o : Observed) : Event → Prop
  | .submit _ newTask => newTask ≠ nullptr ∧ Placed code newTask
      ∧ ∀ task ∈ o.live, Disjoint (region newTask) (region task)
  | .work cpu => Within o.workArea o.kernel.cpu.memory cpu.memory
  | .tick => Preemptible code o.kernel.sched.running_ o.kernel.cpu

/-- A thread goes on where it was interrupted: with the same `eip`, flags, general registers and
selectors, and with the stack it had above its stack pointer. -/
def Continues (task : Ptr) (before after : Cpu) : Prop :=
  after.regs = before.regs ∧ StackKept task before after.memory

/-- How a thread goes on, if it was interrupted in the state `seen` or else has not run yet. -/
def GoesOn (code : Compiled) (task : Ptr) (cpu : Cpu) (given : Option (UInt32 × UInt32)) :
    Option Cpu → Prop
  | some before => Continues task before cpu
  | none => ∃ fn pid, given = some (fn, pid) ∧ Starts code task fn pid cpu

/-- **A thread that a tick goes on with** continues where it was interrupted, or starts. -/
def Right (code : Compiled) (o : Observed) : Prop :=
  ∀ task ∈ o.resumed, task = o.kernel.sched.running_
    ∧ GoesOn code task o.kernel.cpu (o.given task) (o.seen task)

/-- The code that runs already, before there are threads. -/
def boot (kernStack : Ptr) (cpu : Cpu) : Observed where
  kernel := ⟨cpu, TaskScheduler.start kernStack⟩
  live := [kernStack]
  seen := fun _ => none
  given := fun _ => none
  resumed := none

/-- What a thread that does not run is like. -/
def Parked (code : Compiled) (memory : Memory) (task : Ptr) (given : Option (UInt32 × UInt32)) :
    Option Cpu → Prop
  | some before => Waiting code memory task before
  | none => ∃ fn pid, given = some (fn, pid) ∧ Fresh code memory task fn pid

/-- **The invariant.** -/
structure Sound (code : Compiled) (o : Observed) : Prop where
  queue : RunQueue o.kernel.sched o.live
  placed : ∀ task ∈ o.live, Placed code task
  apart : ∀ task ∈ o.live, ∀ other ∈ o.live, task ≠ other → Disjoint (region task) (region other)
  parked : ∀ task ∈ o.live, task ≠ o.kernel.sched.running_ →
    Parked code o.kernel.cpu.memory task (o.given task) (o.seen task)
  right : Right code o

variable {code : Compiled} {o : Observed} {task : Ptr} {memory memory' : Memory}
  {given : Option (UInt32 × UInt32)} {seen : Option Cpu}

/-- A thread that does not run depends on its own bytes only. -/
theorem Parked.congr (parked : Parked code memory task given seen) (cdecl : Cdecl code)
    (placed : Placed code task) (same : ∀ place ∈ region task, memory' place = memory place) :
    Parked code memory' task given seen := by
  cases seen with
  | some before => exact Waiting.congr parked cdecl placed same
  | none =>
    obtain ⟨fn, pid, isGiven, fresh⟩ := parked
    exact ⟨fn, pid, isGiven, fresh.congr placed same⟩

/-- The first byte of a task is its own. -/
theorem mem_region (placed : Placed code task) : task ∈ region task := by
  have fits := placed.fits
  exact ⟨le_rfl, by omega⟩

/-! ### Work -/

theorem work_keeps (cdecl : Cdecl code) (sound : Sound code o) {cpu : Cpu}
    (legal : Within o.workArea o.kernel.cpu.memory cpu.memory) :
    Sound code { o with kernel := ⟨cpu, o.kernel.sched⟩, resumed := none } := by
  refine ⟨sound.queue, sound.placed, sound.apart, fun task inside other => ?_,
    fun _ impossible => absurd impossible (Option.not_mem_none _)⟩
  refine (sound.parked task inside other).congr cdecl (sound.placed task inside) fun place own => ?_
  exact legal place fun allowed => other (allowed task inside own).1

/-! ### Submits -/

theorem submit_spec (sound : Sound code o) (fn : UInt32) {newTask : Ptr} (notNull : newTask ≠ nullptr)
    (placed : Placed code newTask) (fresh : newTask ∉ o.live) :
    ∃ pid memory sched, o.kernel.submit code fn newTask
        = some (pid, ⟨⟨o.kernel.cpu.regs, memory⟩, sched⟩)
      ∧ RunQueue sched (o.live ++ [newTask]) ∧ sched.running_ = o.kernel.sched.running_
      ∧ Fresh code memory newTask fn pid ∧ Within (region newTask) o.kernel.cpu.memory memory := by
  obtain ⟨sched, ran, queue⟩ := submit_keeps sound.queue notNull fresh fn code.kthreadExit
  obtain ⟨running, t, found, context, stack⟩ := submit_task ran
  obtain ⟨laid, within⟩ := layTask_fresh placed context stack
  refine ⟨o.kernel.sched.pid_cnt_, Kernel.layTask o.kernel.cpu.memory newTask t, sched, ?_, queue,
    running, laid, within⟩
  unfold Kernel.submit
  rw [ran, Option.bind_eq_bind, Option.bind_some, found, Option.bind_eq_bind, Option.bind_some]
  rfl

theorem submit_step (cdecl : Cdecl code) (sound : Sound code o) {fn : UInt32} {newTask : Ptr}
    (legal : Legal code o (.submit fn newTask)) :
    ∃ next, o.step code (.submit fn newTask) = some next ∧ Sound code next := by
  obtain ⟨notNull, placed, apart⟩ := legal
  have fresh : newTask ∉ o.live := fun inside =>
    Set.disjoint_left.mp (apart newTask inside) (mem_region placed) (mem_region placed)
  obtain ⟨pid, memory, sched, ran, queue, running, laid, within⟩ :=
    submit_spec sound fn notNull placed fresh
  have stepped : o.step code (.submit fn newTask) = some
      { kernel := ⟨⟨o.kernel.cpu.regs, memory⟩, sched⟩
        live := o.live ++ [newTask]
        seen := Function.update o.seen newTask none
        given := Function.update o.given newTask (some (fn, pid))
        resumed := none } := by
    rw [step, ran, Option.map_some]
  refine ⟨_, stepped, queue, ?_, ?_, ?_,
    fun _ impossible => absurd impossible (Option.not_mem_none _)⟩
  · intro task inside
    rcases List.mem_append.mp inside with old | new
    · exact sound.placed task old
    · exact List.mem_singleton.mp new ▸ placed
  · intro task inside other inside' different
    rcases List.mem_append.mp inside with old | new
    · rcases List.mem_append.mp inside' with old' | new'
      · exact sound.apart task old other old' different
      · exact List.mem_singleton.mp new' ▸ (apart task old).symm
    · rcases List.mem_append.mp inside' with old' | new'
      · exact List.mem_singleton.mp new ▸ apart other old'
      · exact absurd ((List.mem_singleton.mp new).trans (List.mem_singleton.mp new').symm) different
  · intro task inside other
    dsimp only at other ⊢
    rw [running] at other
    rcases List.mem_append.mp inside with old | new
    · have different : task ≠ newTask := fun same => fresh (same ▸ old)
      rw [Function.update_of_ne different, Function.update_of_ne different]
      exact (sound.parked task old other).congr cdecl (sound.placed task old)
        (within.same (apart task old).symm)
    · cases List.mem_singleton.mp new
      rw [Function.update_self, Function.update_self]
      exact ⟨fn, pid, rfl, laid⟩

/-! ### Ticks -/

/-- The thread that runs is one of the live ones. -/
theorem Sound.runningPlaced (sound : Sound code o) : Placed code o.kernel.sched.running_ :=
  sound.placed _ sound.queue.running

/-- After a tick that has written the stacks of two threads only, the one that is left waits and the
one that is running goes on. -/
theorem sound_after_tick (cdecl : Cdecl code) (sound : Sound code o) {kernel : Kernel}
    (queue : RunQueue kernel.sched o.live)
    (within : Within (tickArea code o.kernel.sched.running_ ∪ tickArea code kernel.sched.running_)
      o.kernel.cpu.memory kernel.cpu.memory)
    (waits : o.kernel.sched.running_ ≠ kernel.sched.running_ →
      Waiting code kernel.cpu.memory o.kernel.sched.running_ o.kernel.cpu)
    (goesOn : GoesOn code kernel.sched.running_ kernel.cpu (o.given kernel.sched.running_)
      (Function.update o.seen o.kernel.sched.running_ (some o.kernel.cpu) kernel.sched.running_)) :
    Sound code { o with
      kernel := kernel
      seen := Function.update o.seen o.kernel.sched.running_ (some o.kernel.cpu)
      resumed := some kernel.sched.running_ } := by
  refine ⟨queue, sound.placed, sound.apart, fun task inside other => ?_, fun task isResumed => ?_⟩
  · by_cases isLast : task = o.kernel.sched.running_
    · subst isLast
      show Parked code kernel.cpu.memory _ _ (Function.update o.seen _ _ _)
      rw [Function.update_self]
      exact waits other
    · show Parked code kernel.cpu.memory _ _ (Function.update o.seen _ _ _)
      rw [Function.update_of_ne isLast]
      have placed := sound.placed task inside
      refine (sound.parked task inside isLast).congr cdecl placed (within.same ?_)
      exact Set.disjoint_union_right.mpr
        ⟨placed.apart (sound.apart task inside _ sound.queue.running isLast),
          placed.apart (sound.apart task inside _ queue.running other)⟩
  · cases Option.mem_some_iff.mp isResumed
    exact ⟨rfl, goesOn⟩

theorem tick_step (cdecl : Cdecl code) (sound : Sound code o)
    (legal : Preemptible code o.kernel.sched.running_ o.kernel.cpu) :
    ∃ next, o.step code .tick = some next ∧ Sound code next := by
  have placed := sound.runningPlaced
  -- What `step` makes of a tick that comes back.
  have stepped : ∀ kernel, o.kernel.tick code = some kernel → o.step code .tick = some { o with
      kernel := kernel
      seen := Function.update o.seen o.kernel.sched.running_ (some o.kernel.cpu)
      resumed := some kernel.sched.running_ } := by
    intro kernel ran
    rw [step, ran, Option.map_some]
  rcases schedule_spec sound.queue with stays | ⟨target, inside, other, moves, queue⟩
  · obtain ⟨memory, ran, kept, within⟩ := tick_alone cdecl legal placed stays
    refine ⟨_, stepped _ ran, sound_after_tick cdecl sound sound.queue
      (within.mono Set.subset_union_left) (fun different => absurd rfl different) ?_⟩
    rw [Function.update_self]
    exact ⟨rfl, kept⟩
  · have placed' := sound.placed target inside
    have apart := sound.apart target inside _ sound.queue.running other
    have parked := sound.parked target inside other
    cases isSeen : o.seen target with
    | some before =>
      rw [isSeen] at parked
      obtain ⟨memory, ran, kept, waits, within⟩ :=
        tick_resumes cdecl legal placed placed' apart moves parked
      refine ⟨_, stepped _ ran, sound_after_tick cdecl sound queue within (fun _ => waits) ?_⟩
      show GoesOn code target _ _ (Function.update o.seen _ _ target)
      rw [Function.update_of_ne other, isSeen]
      exact ⟨rfl, kept⟩
    | none =>
      rw [isSeen] at parked
      obtain ⟨fn, pid, isGiven, fresh⟩ := parked
      obtain ⟨cpu, ran, starts, waits, within⟩ :=
        tick_starts cdecl legal placed placed' apart moves fresh
      refine ⟨_, stepped _ ran, sound_after_tick cdecl sound queue within (fun _ => waits) ?_⟩
      show GoesOn code target _ _ (Function.update o.seen _ _ target)
      rw [Function.update_of_ne other, isSeen]
      exact ⟨fn, pid, isGiven, starts⟩

/-! ### Runs -/

theorem boot_sound {kernStack : Ptr} (notNull : kernStack ≠ nullptr) (placed : Placed code kernStack)
    (cpu : Cpu) : Sound code (boot kernStack cpu) := by
  refine ⟨start_right notNull, fun task inside => ?_, fun task inside other inside' different => ?_,
    fun task inside other => ?_, fun _ impossible => absurd impossible (Option.not_mem_none _)⟩
  · exact List.mem_singleton.mp inside ▸ placed
  · exact absurd ((List.mem_singleton.mp inside).trans (List.mem_singleton.mp inside').symm) different
  · exact absurd (List.mem_singleton.mp inside) other

/-- **Preemption is transparent** in every run from the start of the scheduler: no event stops the
kernel, and every thread that a tick goes on with continues with the registers and the stack it was
interrupted with, or starts at its entry function on a stack that returns to `kthread_exit` with its
pid. -/
theorem preemption_transparent (cdecl : Cdecl code) {kernStack : Ptr} (notNull : kernStack ≠ nullptr)
    (placed : Placed code kernStack) (cpu : Cpu) (events : List Event) :
    Along (step code) (Legal code) (Right code) (boot kernStack cpu) events := by
  refine along_of_invariant (Sound code) (fun o event sound legal => ?_)
    (fun _ sound => sound.right) events _ (boot_sound notNull placed cpu)
  cases event with
  | submit fn newTask => exact submit_step cdecl sound legal
  | work cpu => exact ⟨_, rfl, work_keeps cdecl sound legal⟩
  | tick => exact tick_step cdecl sound legal

end Observed

/-! ### Code that keeps to the convention -/

def dispatcherReturn : UInt32 := 0x00100040

def changeReturn : UInt32 := 0x00100080

/-- The five functions inlined into one frame: `push ebp; mov ebp, esp`, then the call of `switch_to`
with its arguments pushed, and behind it `leave; ret`. -/
def inlined : Compiled where
  dispatcherReturn := dispatcherReturn
  changeReturn := changeReturn
  switchRet := 0x001000C0
  kthreadExit := kthreadExit
  depth := 16
  statics := ∅
  descend last target e :=
    call changeReturn (run [.push .ebp, .mov .ebp .esp, .pushImm target, .pushImm last] e)
  ascend r := run [.mov .esp .ebp, .pop .ebp, .ret] r
  stay e := run [.ret] e

theorem inlined_descend (last target : UInt32) (e : Cpu) :
    (inlined.descend last target e).memory
        = (e.pushAll [e.regs.ebp, target, last, changeReturn]).memory
      ∧ (inlined.descend last target e).regs.esp
        = (e.pushAll [e.regs.ebp, target, last, changeReturn]).regs.esp
      ∧ (inlined.descend last target e).regs.ebp = e.regs.esp - 4
      ∧ (inlined.descend last target e).regs.eflags = e.regs.eflags := by
  simp only [inlined, call, run, List.foldl, exec, Cpu.push, Cpu.pushAll, Cpu.set, Registers.set,
    Registers.get, and_self]

theorem inlined_ascend (r : Cpu) :
    (inlined.ascend r).memory = r.memory ∧ (inlined.ascend r).regs.esp = r.regs.ebp + 4 + 4
      ∧ (inlined.ascend r).regs.eip = load32 r.memory (r.regs.ebp + 4)
      ∧ (inlined.ascend r).regs.eflags = r.regs.eflags := by
  simp only [inlined, run, List.foldl, exec, Cpu.pop, Cpu.drop, Cpu.top, Cpu.ret, Cpu.set,
    Registers.set, Registers.get, and_self]

theorem inlined_descended {e : Cpu} (masked : Masked e) (room : HasRoom inlined e)
    (last target : UInt32) : Descended inlined last target e (inlined.descend last target e) := by
  have deep : 16 ≤ e.regs.esp.toNat := room.deep
  obtain ⟨memory, esp, -, eflags⟩ := inlined_descend last target e
  have stack := OnStack.pushAll [e.regs.ebp, target, last, changeReturn] (onStack_nil e) deep
  have within : Within (between (e.regs.esp.toNat - 16) e.regs.esp.toNat) e.memory
      (inlined.descend last target e).memory :=
    within_pushAll [e.regs.ebp, target, last, changeReturn] deep
  have values : (inlined.descend last target e).regs.esp.toNat = e.regs.esp.toNat - 16 := by
    rw [esp]
    exact toNat_pushAll_esp [e.regs.ebp, target, last, changeReturn] deep
  have area : between (e.regs.esp.toNat - 16) e.regs.esp.toNat ⊆ callArea inlined e :=
    (between_subset le_rfl (Nat.le_add_right _ 8)).trans Set.subset_union_left
  have small := e.regs.esp.toNat_lt
  refine ⟨?_, ?_, ⟨?_, ?_⟩, ?_, within.mono area⟩
  · show e.regs.esp.toNat ≤ (inlined.descend last target e).regs.esp.toNat + 16
    omega
  · omega
  · show (inlined.descend last target e).regs.esp.toNat + 12 ≤ 2 ^ 32
    omega
  · rw [memory, esp]
    obtain ⟨first, second, third, -⟩ := stack.spelled
    exact ⟨first, second, third, True.intro⟩
  · unfold Masked
    rw [eflags]
    exact masked

theorem inlined_cdecl : Cdecl inlined where
  descend e last target masked room := inlined_descended masked room last target
  ascend e last target r masked room resumed := by
    have deep : 16 ≤ e.regs.esp.toNat := room.deep
    have fits := room.fits
    have reached := inlined_descended masked room last target
    have below := reached.below
    have ebp : r.regs.ebp = e.regs.esp - 4 := resumed.ebp
    -- The return address is above the frame, where nothing has been written.
    have address : load32 r.memory e.regs.esp = e.top := by
      refine load32_congr (by omega) fun place low high => ?_
      refine (resumed.frames place ⟨by omega, by omega⟩).trans ?_
      have within := within_pushAll [e.regs.ebp, target, last, changeReturn] (c := e) deep
      exact within place fun pushed => absurd low (Nat.not_le_of_lt pushed.2)
    obtain ⟨memory, esp, eip, eflags⟩ := inlined_ascend r
    rw [ebp, UInt32.sub_add_cancel] at esp eip
    refine ⟨esp, eip.trans address, ?_, ?_⟩
    · unfold Masked
      rw [eflags]
      exact resumed.masked
    · rw [memory]
      exact Within.refl _ _
  stay e masked room := ⟨rfl, rfl, masked, Within.refl _ _⟩

/-- The processor when the scheduler is set up, on the kernel stack at `0x00108000`. -/
def bootCpu : Cpu where
  regs :=
    { eax := 1, ecx := 2, edx := 3, ebx := 4, esp := 0x00108FF0, ebp := 6, esi := 7, edi := 8
      ds := 0x10, es := 0x10, fs := 0x10, gs := 0x10, ss := 0x10, cs := 0x08
      eip := 0x00100200, eflags := 0x202 }
  memory := fun _ => 0

/-- A thread is submitted, starts, and is interrupted at once; then the code that has submitted it
goes on. -/
theorem two_threads_take_turns :
    Permitted (Observed.step inlined) (Observed.Legal inlined) (Observed.boot 0x00108000 bootCpu)
        [.submit 0x00102000 0xD0000004, .tick, .tick]
      ∧ Along (Observed.step inlined) (Observed.Legal inlined) (Observed.Right inlined)
        (Observed.boot 0x00108000 bootCpu) [.submit 0x00102000 0xD0000004, .tick, .tick] := by
  refine ⟨⟨?_, fun first submitted => ?_⟩, Observed.preemption_transparent inlined_cdecl (by decide)
    ⟨by decide, Set.disjoint_empty _⟩ bootCpu _⟩
  · refine ⟨by decide, ⟨by decide, Set.disjoint_empty _⟩, fun task inside => ?_⟩
    cases List.mem_singleton.mp inside
    refine Set.disjoint_left.mpr fun place inNew inOld => ?_
    have low : 0xD0000004 ≤ place.toNat := inNew.1
    have high : place.toNat < 0x00109000 := inOld.2
    omega
  · have ticks : ∀ o ∈ Observed.step inlined (Observed.boot 0x00108000 bootCpu)
        (.submit 0x00102000 0xD0000004),
        Preemptible inlined o.kernel.sched.running_ o.kernel.cpu
          ∧ ∀ next ∈ Observed.step inlined o .tick,
            Preemptible inlined next.kernel.sched.running_ next.kernel.cpu := by
      decide +kernel
    obtain ⟨legal, again⟩ := ticks first submitted
    exact ⟨legal, fun second ticked => ⟨again second ticked, fun _ _ => True.intro⟩⟩

end Sprite.Sched

/-
**The threads that do not run.**

A thread that has been interrupted waits inside the call of `switch_to`, at the depth the interrupt
found its stack at; a thread that has not run yet has the frame that `submit` has made by hand. Both
are a matter of the bytes of the thread alone.

* `Waiting`, `Fresh`, `Starts` — the two kinds of threads, and how a new one starts.
* `suspend_spec`, `resume_spec`, `start_spec` — one half of `switch_to` each.
* `tick_resumes`, `tick_starts` — **a tick from one thread to another**.
* `layTask_fresh` — what `submit` leaves behind.
-/
import Sprite.Sched.Timer

namespace Sprite.Sched

open X86 Words

/-- **A thread that has been interrupted** in the state `c`: its context is that of the call of
`switch_to`, and from there upwards its stack is as it was. -/
structure Waiting (code : Compiled) (memory : Memory) (task : Ptr) (c : Cpu) : Prop where
  preemptible : Preemptible code task c
  kept : ∃ target,
    let d := code.descend (contextOfTask task) target (entered code.dispatcherReturn c)
    Spelled memory (contextOfTask task) (contextOf d.regs).words
      ∧ ∀ place ∈ between d.regs.esp.toNat (task.toNat + 4096), memory place = d.memory place

/-- **A thread that has not run yet**: the context and the stack that `submit` has made. -/
structure Fresh (code : Compiled) (memory : Memory) (task : Ptr) (fn pid : UInt32) : Prop where
  context : Spelled memory (contextOfTask task)
    (TaskContext.mk (task + STACK_SIZE - 16) 0 0 0 0 0x200).words
  stack : Spelled memory (task + STACK_SIZE - 16) [fn, code.kthreadExit, 0, pid]

/-- **A thread starts** at the `ret` of `switch_to`, which goes to its entry function. When that
returns, with the stack as it was, it returns to `kthread_exit` with the pid as the argument. -/
structure Starts (code : Compiled) (task : Ptr) (fn pid : UInt32) (c : Cpu) : Prop where
  eip : c.regs.eip = code.switchRet
  entry : c.ret.regs.eip = fn
  returns : ∀ c' : Cpu, c'.regs.esp = c.ret.regs.esp →
    (∀ place ∈ between c'.regs.esp.toNat (task.toNat + 4096), c'.memory place = c.memory place) →
    c'.ret.regs.eip = code.kthreadExit ∧ argument c'.ret = pid

variable {code : Compiled} {task : Ptr} {c d r x : Cpu} {memory memory' : Memory}

/-! ### The thread that is left -/

theorem toNat_contextOfTask (placed : Placed code task) :
    (contextOfTask task).toNat = task.toNat + 12 := by
  have fits := placed.fits
  unfold contextOfTask
  rw [UInt32.toNat_add, show (12 : UInt32).toNat = 12 from rfl]
  omega

/-- The call of `switch_to` is on the stack of the interrupted thread, above its `task_struct`. -/
theorem descend_spec (pre : Preemptible code task c) (cdecl : Cdecl code)
    (placed : Placed code task) {target : UInt32}
    (isDescended : d = code.descend (contextOfTask task) target (entered code.dispatcherReturn c)) :
    Descended code (contextOfTask task) target (entered code.dispatcherReturn c) d
      ∧ task.toNat + 44 ≤ d.regs.esp.toNat ∧ d.regs.esp.toNat + 76 ≤ c.regs.esp.toNat := by
  have room := pre.room
  have entry := pre.entered
  have esp := entry.esp
  have reached := cdecl.descend _ (contextOfTask task) target entry.masked (pre.hasRoom placed entry)
  rw [← isDescended] at reached
  have deep := reached.deep
  have below := reached.below
  exact ⟨reached, by omega, by omega⟩

/-- What a thread that waits needs is in its own bytes. -/
theorem Waiting.congr (waiting : Waiting code memory task c)
    (cdecl : Cdecl code) (placed : Placed code task)
    (same : ∀ place ∈ region task, memory' place = memory place) :
    Waiting code memory' task c := by
  have pre := waiting.preemptible
  have fits := placed.fits
  have place := toNat_contextOfTask placed
  obtain ⟨target, spelled, stack⟩ := waiting.kept
  obtain ⟨d, isDescended⟩ : ∃ d, d = code.descend (contextOfTask task) target
    (entered code.dispatcherReturn c) := ⟨_, rfl⟩
  obtain ⟨_, low, _⟩ := descend_spec pre cdecl placed isDescended
  rw [← isDescended] at spelled stack
  have bytes : 4 * (contextOf d.regs).words.length = 24 := rfl
  refine ⟨pre, target, ?_⟩
  rw [← isDescended]
  constructor
  · refine spelled.congr _ (by omega) fun other inside => same other ?_
    have start := inside.1
    have stop := inside.2
    exact ⟨by omega, by omega⟩
  · intro place inside
    have start := inside.1
    exact (same place ⟨by omega, inside.2⟩).trans (stack place inside)

theorem run_append (first second : List Instr) (c : Cpu) :
    run (first ++ second) c = run second (run first c) :=
  List.foldl_append

/-- **The interrupted thread is left** with its context stored and its stack as it is. -/
theorem suspend_spec (cdecl : Cdecl code) (pre : Preemptible code task c) (placed : Placed code task)
    (target : UInt32)
    (isDescended : d = code.descend (contextOfTask task) target (entered code.dispatcherReturn c)) :
    OnStack (run saveContext d) [code.changeReturn, contextOfTask task, target]
      ∧ Within (tickArea code task) c.memory (run saveContext d).memory
      ∧ Waiting code (run saveContext d).memory task c := by
  have entry := pre.entered
  have top := pre.top
  have place := toNat_contextOfTask placed
  obtain ⟨reached, low, high⟩ := descend_spec pre cdecl placed isDescended
  obtain ⟨sameEsp, spelled, within⟩ := saveContext_spec reached.stack (by omega)
  -- From its stack pointer upwards the stack is as `switch_to` found it.
  have kept : ∀ place ∈ between d.regs.esp.toNat (task.toNat + 4096),
      (run saveContext d).memory place = d.memory place := by
    intro place inside
    have start := inside.1
    refine within place fun written => ?_
    rcases written with context | flags
    · exact absurd context.2 (by omega)
    · exact absurd flags.2 (by omega)
  refine ⟨reached.stack.kept sameEsp fun place inside => kept place ?_, ?_, pre, target, ?_⟩
  · refine ⟨inside.1, inside.2.trans_le ?_⟩
    rw [show 4 * [code.changeReturn, contextOfTask task, target].length = 12 from rfl]
    omega
  · have saved : saveArea (contextOfTask task) d.regs ⊆ region task := by
      refine Set.union_subset (between_subset ?_ ?_) (between_subset ?_ ?_)
      all_goals omega
    exact ((pre.within_entered entry).trans (reached.within.mono (pre.callArea_tickArea entry))).trans
      (within.mono (saved.trans Set.subset_union_left))
  · rw [← isDescended]
    exact ⟨spelled, kept⟩

/-- `switch_to` is the first half, the second half, and `popf` and `ret`. -/
theorem runMasked_switchTo (masked : Masked d) :
    runMasked switchTo d = runMasked [.popf, .ret] (run loadContext (run saveContext d)) := by
  unfold switchTo
  rw [(runMasked_append (saveContext ++ loadContext) (by decide) [.popf, .ret] masked).1, run_append]

/-! ### The thread that the tick goes on with -/

/-- `popf` and `ret`, when the flags that are loaded keep interrupts disabled. -/
theorem runMasked_popf_masked (masked : Masked (exec .popf x)) :
    runMasked [.popf, .ret] x = ([], (exec .popf x).ret) := by
  rw [runMasked, if_pos masked, runMasked_last]
  rfl

/-- `popf`, when the flags that are loaded enable interrupts. -/
theorem runMasked_popf_enabled (enabled : ¬ Masked (exec .popf x)) :
    runMasked [.popf, .ret] x = ([.ret], exec .popf x) := by
  rw [runMasked, if_neg enabled]

/-- What `switch_to` brings back of a thread that waits: its context is loaded, and its stack is as
it was when `switch_to` was called. -/
theorem Waiting.loaded (waiting : Waiting code x.memory task c) (cdecl : Cdecl code)
    (placed : Placed code task) {back last : UInt32}
    (stack : OnStack x [back, last, contextOfTask task]) :
    ∃ target, ∃ d, d = code.descend (contextOfTask task) target (entered code.dispatcherReturn c)
      ∧ contextOf (exec .popf (run loadContext x)).regs = contextOf d.regs
      ∧ (∀ place ∈ between d.regs.esp.toNat (task.toNat + 4096),
          (exec .popf (run loadContext x)).memory place = d.memory place)
      ∧ Within (tickArea code task) x.memory (exec .popf (run loadContext x)).memory := by
  have top := waiting.preemptible.top
  obtain ⟨target, spelled, kept⟩ := waiting.kept
  obtain ⟨d, isDescended⟩ : ∃ d, d = code.descend (contextOfTask task) target
    (entered code.dispatcherReturn c) := ⟨_, rfl⟩
  obtain ⟨_, low, high⟩ := descend_spec waiting.preemptible cdecl placed isDescended
  rw [← isDescended] at spelled kept
  have room : 4 ≤ (contextOf d.regs).esp.toNat := by
    show 4 ≤ d.regs.esp.toNat
    omega
  obtain ⟨context, within⟩ := loadContext_spec stack spelled room
  refine ⟨target, d, isDescended, context, fun place inside => ?_, within.mono ?_⟩
  · rw [within place fun below => absurd inside.1 (Nat.not_le_of_lt below.2)]
    exact kept place inside
  · have pushed : between (d.regs.esp.toNat - 4) d.regs.esp.toNat ⊆ region task :=
      between_subset (by omega) (by omega)
    exact pushed.trans Set.subset_union_left

/-- From the `ret` of `switch_to` on, a thread whose call is as it was comes back to the interrupted
code. -/
theorem resumed_returns (cdecl : Cdecl code) (pre : Preemptible code task c)
    (placed : Placed code task) {target : UInt32} {y : Cpu}
    (isDescended : d = code.descend (contextOfTask task) target (entered code.dispatcherReturn c))
    (context : contextOf y.regs = contextOf d.regs)
    (kept : ∀ place ∈ between d.regs.esp.toNat (task.toNat + 4096), y.memory place = d.memory place) :
    Masked y ∧ y.ret.regs.eip = code.changeReturn
      ∧ leave code (code.ascend y.ret) = some ⟨c.regs, (code.ascend y.ret).memory⟩
      ∧ StackKept task c (code.ascend y.ret).memory
      ∧ Within (tickArea code task) y.memory (code.ascend y.ret).memory := by
  have top := pre.top
  have entry := pre.entered
  have entryEsp := entry.esp
  obtain ⟨reached, low, high⟩ := descend_spec pre cdecl placed isDescended
  simp only [contextOf, TaskContext.mk.injEq] at context
  obtain ⟨esp, ebp, ebx, esi, edi, eflags⟩ := context
  have masked : Masked y := by
    unfold Masked
    rw [eflags]
    exact reached.masked
  have stack : OnStack y [code.changeReturn, contextOfTask task, target] := by
    refine reached.stack.kept esp fun place inside => kept place ⟨inside.1, inside.2.trans_le ?_⟩
    rw [show 4 * [code.changeReturn, contextOfTask task, target].length = 12 from rfl]
    omega
  have resumed : Resumed (entered code.dispatcherReturn c) d y.ret := by
    refine ⟨congrArg (· + 4) esp, ebp, ebx, esi, edi, masked, fun place inside => kept place ?_⟩
    have start := inside.1
    have stop := inside.2
    exact ⟨by omega, by omega⟩
  have returned := cdecl.ascend _ (contextOfTask task) target y.ret entry.masked
    (pre.hasRoom placed entry) (isDescended ▸ resumed)
  have frame : ∀ place ∈ between (c.regs.esp.toNat - 56) (task.toNat + 4096),
      y.ret.memory place = (entered code.dispatcherReturn c).memory place := by
    intro place inside
    have start := inside.1
    exact (kept place ⟨by omega, inside.2⟩).trans
      (reached.within place (pre.notMem_callArea placed entry inside))
  exact ⟨masked, stack.spelled.1, leave_right pre placed entry returned frame,
    stackKept_of_returned pre placed entry returned frame,
    returned.within.mono (pre.callArea_tickArea entry)⟩

/-- **A thread that waits is resumed** with all its registers, and its stack is as it was. -/
theorem resume_spec (cdecl : Cdecl code) (waiting : Waiting code x.memory task c)
    (placed : Placed code task) {back last : UInt32}
    (stack : OnStack x [back, last, contextOfTask task]) :
    ∃ r memory, runMasked [.popf, .ret] (run loadContext x) = ([], r)
      ∧ r.regs.eip = code.changeReturn ∧ leave code (code.ascend r) = some ⟨c.regs, memory⟩
      ∧ StackKept task c memory ∧ Within (tickArea code task) x.memory memory := by
  obtain ⟨target, d, isDescended, context, kept, within⟩ := waiting.loaded cdecl placed stack
  obtain ⟨masked, eip, left, stackKept, within'⟩ :=
    resumed_returns cdecl waiting.preemptible placed isDescended context kept
  exact ⟨_, _, runMasked_popf_masked masked, eip, left, stackKept, within.trans within'⟩

theorem toNat_stackTop (placed : Placed code task) :
    (task + STACK_SIZE - 16).toNat = task.toNat + 4080 := by
  have fits := placed.fits
  rw [UInt32.toNat_sub, UInt32.toNat_add, show STACK_SIZE.toNat = 4096 from rfl,
    show (16 : UInt32).toNat = 16 from rfl]
  omega

/-- What a new thread needs is in its own bytes. -/
theorem Fresh.congr {fn pid : UInt32} (fresh : Fresh code memory task fn pid)
    (placed : Placed code task) (same : ∀ place ∈ region task, memory' place = memory place) :
    Fresh code memory' task fn pid := by
  have fits := placed.fits
  have place := toNat_contextOfTask placed
  have top := toNat_stackTop placed
  constructor
  · have bytes : 4 * (TaskContext.mk (task + STACK_SIZE - 16) 0 0 0 0 0x200).words.length = 24 := rfl
    refine fresh.context.congr _ (by omega) fun other inside => same other ?_
    have low := inside.1
    have high := inside.2
    exact ⟨by omega, by omega⟩
  · have bytes : 4 * [fn, code.kthreadExit, 0, pid].length = 16 := rfl
    refine fresh.stack.congr _ (by omega) fun other inside => same other ?_
    have low := inside.1
    have high := inside.2
    exact ⟨by omega, by omega⟩

/-- **A new thread starts** at its entry function, on the stack that `submit` has made. -/
theorem start_spec {fn pid : UInt32} (fresh : Fresh code x.memory task fn pid)
    (placed : Placed code task) {back last : UInt32}
    (stack : OnStack x [back, last, contextOfTask task]) :
    ∃ y, runMasked [.popf, .ret] (run loadContext x) = ([.ret], y)
      ∧ Starts code task fn pid { y with regs := { y.regs with eip := code.switchRet } }
      ∧ Within (tickArea code task) x.memory y.memory := by
  have fits := placed.fits
  have top := toNat_stackTop placed
  obtain ⟨context, within⟩ := loadContext_spec stack fresh.context (by
    show 4 ≤ (task + STACK_SIZE - 16).toNat
    omega)
  have inRegion : between ((task + STACK_SIZE - 16).toNat - 4) (task + STACK_SIZE - 16).toNat
      ⊆ region task := by
    refine between_subset ?_ ?_
    all_goals omega
  refine ⟨_, runMasked_popf_enabled ?_, ?_, within.mono (inRegion.trans Set.subset_union_left)⟩
  all_goals generalize exec .popf (run loadContext x) = y at context within
  all_goals
    simp only [contextOf, TaskContext.mk.injEq] at context
    obtain ⟨esp, -, -, -, -, eflags⟩ := context
  · unfold Masked
    rw [eflags]
    decide
  · have bytes : 4 * [fn, code.kthreadExit, 0, pid].length = 16 := rfl
    have words : Spelled y.memory y.regs.esp [fn, code.kthreadExit, 0, pid] := by
      rw [esp]
      refine fresh.stack.congr _ (by omega) fun place inside => within place fun below => ?_
      exact absurd inside.1 (Nat.not_le_of_lt below.2)
    refine ⟨rfl, words.1, fun c' sameEsp sameStack => ?_⟩
    have up : c'.regs.esp.toNat = task.toNat + 4084 := by
      rw [sameEsp]
      show (y.regs.esp + 4).toNat = task.toNat + 4084
      rw [esp, toNat_add_four (by omega)]
      omega
    have words' : Spelled c'.memory c'.regs.esp [code.kthreadExit, 0, pid] := by
      have bytes' : 4 * [code.kthreadExit, 0, pid].length = 12 := rfl
      have spelled : Spelled y.memory c'.regs.esp [code.kthreadExit, 0, pid] := by
        rw [sameEsp]
        exact words.2
      refine spelled.congr _ (by omega) fun place inside => sameStack place ⟨inside.1, ?_⟩
      have high := inside.2
      omega
    exact ⟨words'.1, words'.2.2.1⟩

/-! ### A tick from one thread to another -/

variable {k : Kernel} {sched : TaskScheduler} {last target : Ptr}

/-- The bytes of one thread are apart from what a tick writes on the stack of another. -/
theorem Placed.apart (placed : Placed code target) (apart : Disjoint (region target) (region last)) :
    Disjoint (region target) (tickArea code last) :=
  Set.disjoint_union_right.mpr ⟨apart, placed.clear⟩

theorem switched_returns (masked : Masked d)
    (runs : runMasked [.popf, .ret] (run loadContext (run saveContext d)) = ([], r))
    (eip : r.regs.eip = code.changeReturn) : switched code d = leave code (code.ascend r) := by
  unfold switched
  rw [runMasked_switchTo masked, runs]
  exact if_pos eip

theorem switched_starts (masked : Masked d)
    (runs : runMasked [.popf, .ret] (run loadContext (run saveContext d)) = ([.ret], r)) :
    switched code d = some { r with regs := { r.regs with eip := code.switchRet } } := by
  unfold switched
  rw [runMasked_switchTo masked, runs]

/-- **A tick from a running thread to one that waits**: the one waits then, and the other goes on
where it was interrupted. -/
theorem tick_resumes (cdecl : Cdecl code) (pre : Preemptible code last k.cpu)
    (placed : Placed code last) (placed' : Placed code target)
    (apart : Disjoint (region target) (region last))
    (scheduled : k.sched.schedule = some (some (last, target), sched))
    (waiting : Waiting code k.cpu.memory target c) :
    ∃ memory, k.tick code = some ⟨⟨c.regs, memory⟩, sched⟩ ∧ StackKept target c memory
      ∧ Waiting code memory last k.cpu
      ∧ Within (tickArea code last ∪ tickArea code target) k.cpu.memory memory := by
  obtain ⟨reached, _⟩ := descend_spec pre cdecl placed rfl
  obtain ⟨stack, saved, waits⟩ := suspend_spec cdecl pre placed (contextOfTask target) rfl
  have waiting' := waiting.congr cdecl placed' (saved.same (placed'.apart apart))
  obtain ⟨r, memory, runs, eip, left, stackKept, within⟩ := resume_spec cdecl waiting' placed' stack
  refine ⟨memory, ?_, stackKept, waits.congr cdecl placed (within.same (placed.apart apart.symm)),
    (saved.mono Set.subset_union_left).trans (within.mono Set.subset_union_right)⟩
  rw [tick_switch pre scheduled, switched_returns reached.masked runs eip, left, Option.map_some]

/-- **A tick from a running thread to a new one**: the one waits then, and the other starts. -/
theorem tick_starts (cdecl : Cdecl code) (pre : Preemptible code last k.cpu)
    (placed : Placed code last) (placed' : Placed code target)
    (apart : Disjoint (region target) (region last))
    (scheduled : k.sched.schedule = some (some (last, target), sched)) {fn pid : UInt32}
    (fresh : Fresh code k.cpu.memory target fn pid) :
    ∃ cpu, k.tick code = some ⟨cpu, sched⟩ ∧ Starts code target fn pid cpu
      ∧ Waiting code cpu.memory last k.cpu
      ∧ Within (tickArea code last ∪ tickArea code target) k.cpu.memory cpu.memory := by
  obtain ⟨reached, _⟩ := descend_spec pre cdecl placed rfl
  obtain ⟨stack, saved, waits⟩ := suspend_spec cdecl pre placed (contextOfTask target) rfl
  have fresh' := fresh.congr placed' (saved.same (placed'.apart apart))
  obtain ⟨y, runs, starts, within⟩ := start_spec fresh' placed' stack
  refine ⟨_, ?_, starts, waits.congr cdecl placed (within.same (placed.apart apart.symm)),
    (saved.mono Set.subset_union_left).trans (within.mono Set.subset_union_right)⟩
  rw [tick_switch pre scheduled, switched_starts reached.masked runs, Option.map_some]

/-! ### A new thread -/

/-- **The bytes of a new thread** are laid out for its first run, and no others are written. -/
theorem layTask_fresh (placed : Placed code task) {t : TaskStruct} {fn pid : UInt32}
    (context : t.context = ⟨task + STACK_SIZE - 16, 0, 0, 0, 0, 0x200⟩)
    (stack : t.stack = [fn, code.kthreadExit, 0, pid]) :
    Fresh code (Kernel.layTask memory task t) task fn pid
      ∧ Within (region task) memory (Kernel.layTask memory task t) := by
  have fits := placed.fits
  have place := toNat_contextOfTask placed
  have top := toNat_stackTop placed
  unfold Kernel.layTask
  rw [context, stack]
  dsimp only
  generalize isWords : (TaskContext.mk (task + STACK_SIZE - 16) 0 0 0 0 0x200).words = words
  have bytes : 4 * words.length = 24 := by rw [← isWords]; rfl
  have bytes' : 4 * [fn, code.kthreadExit, 0, pid].length = 16 := rfl
  have first := within_storeWords words memory (contextOfTask task) (by omega)
  have second := within_storeWords [fn, code.kthreadExit, 0, pid]
    (storeWords memory (contextOfTask task) words) (task + STACK_SIZE - 16) (by omega)
  refine ⟨⟨?_, spelled_storeWords _ _ _ (by omega)⟩, (first.mono ?_).trans (second.mono ?_)⟩
  · rw [isWords]
    refine (spelled_storeWords words memory _ (by omega)).congr _ (by omega) fun other inside => ?_
    refine second other fun above => ?_
    have low := above.1
    have high := inside.2
    omega
  all_goals exact between_subset (by omega) (by omega)

end Sprite.Sched

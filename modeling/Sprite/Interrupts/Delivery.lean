/-
**Interrupt delivery**, after `src/lib/isr.s` and `src/lib/idt.cc`.

An exception or an interrupt goes through its gate to a stub, which completes `pt_regs` on the stack of
the interrupted code and calls a dispatcher. The dispatcher and the handlers are compiled code, of which
only the calling convention is known; they may change `pt_regs`, which `iret` takes back.

* `PtRegs`, `PtRegs.resume` — the saved registers, and what goes on with them.
* `isrStub`, `irqStub` — the stubs, with and without an error code from the processor.
* `deliver` — one exception or interrupt, from the gate to the `iret`.
* `deliver_spec` — what the handler gets, and how the interrupted code goes on.
* `interrupts_delivered` — **every interrupt of every run** reaches the handler registered last.
-/
import Sprite.Interrupts.Lines
import Sprite.Interrupts.Descriptors
import Sprite.Sched.Switch

namespace Sprite.Interrupts

open Words X86 Runs
open Sprite.Sched (irqCommonStub irqCommonStubEnd OneSelector)

/-! ### Saved registers -/

/-- `pt_regs`, as far as the processor pushes it without a change of privilege. -/
structure PtRegs where
  ds : UInt32
  edi : UInt32
  esi : UInt32
  ebp : UInt32
  esp : UInt32
  ebx : UInt32
  edx : UInt32
  ecx : UInt32
  eax : UInt32
  int_no : UInt32
  err_code : UInt32
  eip : UInt32
  cs : UInt32
  eflags : UInt32
  deriving DecidableEq

namespace PtRegs

def words (f : PtRegs) : List UInt32 :=
  [f.ds, f.edi, f.esi, f.ebp, f.esp, f.ebx, f.edx, f.ecx, f.eax, f.int_no, f.err_code, f.eip, f.cs,
    f.eflags]

def read (memory : Memory) (regs : UInt32) : PtRegs where
  ds := load32 memory regs
  edi := load32 memory (regs + 4)
  esi := load32 memory (regs + 8)
  ebp := load32 memory (regs + 12)
  esp := load32 memory (regs + 16)
  ebx := load32 memory (regs + 20)
  edx := load32 memory (regs + 24)
  ecx := load32 memory (regs + 28)
  eax := load32 memory (regs + 32)
  int_no := load32 memory (regs + 36)
  err_code := load32 memory (regs + 40)
  eip := load32 memory (regs + 44)
  cs := load32 memory (regs + 48)
  eflags := load32 memory (regs + 52)

/-- The registers of the interrupted code, with its interrupt. -/
def capture (regs : Registers) (intNo errCode : UInt32) : PtRegs where
  ds := setLow16 regs.eax regs.ds
  edi := regs.edi
  esi := regs.esi
  ebp := regs.ebp
  esp := regs.esp - 20
  ebx := regs.ebx
  edx := regs.edx
  ecx := regs.ecx
  eax := regs.eax
  int_no := intNo
  err_code := errCode
  eip := regs.eip
  cs := regs.cs.toUInt32
  eflags := regs.eflags

/-- What goes on with saved registers, at a stack pointer that is not saved there. -/
def resume (f : PtRegs) (esp : UInt32) : Registers where
  eax := f.eax
  ecx := f.ecx
  edx := f.edx
  ebx := f.ebx
  esp := esp
  ebp := f.ebp
  esi := f.esi
  edi := f.edi
  ds := f.ds.toUInt16
  es := f.ds.toUInt16
  fs := f.ds.toUInt16
  gs := f.ds.toUInt16
  ss := f.ds.toUInt16
  cs := f.cs.toUInt16
  eip := f.eip
  eflags := f.eflags

/-- Saved registers that are left alone are those of the interrupted code. -/
theorem resume_capture {regs : Registers} (one : OneSelector regs) (intNo errCode : UInt32) :
    (capture regs intNo errCode).resume regs.esp = regs := by
  obtain ⟨es, fs, gs, ss⟩ := one
  cases regs
  simp_all [capture, resume, toUInt16_setLow16]

theorem read_of_spelled {memory : Memory} {regs : UInt32} {f : PtRegs}
    (spelled : Spelled memory regs f.words) : read memory regs = f := by
  have word := spelled.get
  have first := word 0 rfl
  rw [show (4 : UInt32) * UInt32.ofNat 0 = 0 from rfl, UInt32.add_zero] at first
  cases f
  simp only [read, mk.injEq]
  exact ⟨first, word 1 rfl, word 2 rfl, word 3 rfl, word 4 rfl, word 5 rfl, word 6 rfl, word 7 rfl,
    word 8 rfl, word 9 rfl, word 10 rfl, word 11 rfl, word 12 rfl, word 13 rfl⟩

end PtRegs

/-! ### The stubs -/

inductive Dispatcher where
  | isr | irq
  deriving DecidableEq

def Dispatcher.actions : Dispatcher → UInt32 → UInt32 → List Action
  | .isr => isrDispatcher
  | .irq => irqDispatcher

/-- `ISR_NOERRCODE`, up to its jump. -/
def isrNoErrCode (vector : UInt32) : List Instr := [.cli, .pushImm 0, .pushImm vector]

/-- `ISR_ERRCODE`, up to its jump. -/
def isrErrCode (vector : UInt32) : List Instr := [.cli, .pushImm vector]

/-- The vectors of the stubs that are `ISR_ERRCODE`. -/
def errCodeStubs : List Nat := [8, 10, 11, 12, 13, 14, 17]

/-- `isr_common_stub`, up to the call of `isr_dispatcher`: the same instructions as `irq_common_stub`. -/
def isrCommonStub : List Instr := irqCommonStub

/-- A stub up to its call. -/
structure Stub where
  code : List Instr
  dispatcher : Dispatcher

def isrStub (vector : Nat) : Stub where
  code := (if vector ∈ errCodeStubs then isrErrCode (UInt32.ofNat vector)
    else isrNoErrCode (UInt32.ofNat vector)) ++ isrCommonStub
  dispatcher := .isr

/-- `IRQ line, vector`. -/
def irqStub (vector : Nat) : Stub where
  code := [.cli, .pushImm 0, .pushImm (UInt32.ofNat vector)] ++ irqCommonStub
  dispatcher := .irq

def stub (vector : Nat) : Stub := if vector < 32 then isrStub vector else irqStub vector

/-! ### The way of an interrupt -/

/-- The kernel's code: what lies at the entry points, where the stubs call from, how deep the stack of
a dispatcher with its handler gets, what they need left alone, and what they do up to the return. -/
structure Program where
  text : UInt32 → Option Stub
  back : Dispatcher → UInt32
  depth : Nat
  reserved : Set UInt32
  run : List Action → Cpu → Cpu

/-- What the dispatcher gets in `pt_regs` and does, what it leaves there, and what goes on. -/
structure Delivery where
  frame : PtRegs
  actions : List Action
  left : PtRegs
  cpu : Cpu

/-- From the entry of a dispatcher to the `iret`. Code that comes back to another place is not
followed. -/
def dispatch (p : Program) (s : Symbols) (d : Dispatcher) (e : Cpu) : Option Delivery :=
  let regs := load32 e.memory (e.regs.esp + 4)
  let frame := PtRegs.read e.memory regs
  let handler := load32 e.memory (slot s.interruptHandlers 4 frame.int_no.toNat)
  let actions := d.actions frame.int_no handler
  let a := p.run actions e
  if a.regs.eip = p.back d then
    match runMasked (irqCommonStubEnd ++ [.iret]) a with
    | ([], cpu) => some ⟨frame, actions, PtRegs.read a.memory regs, cpu⟩
    | _ => none
  else none

/-- From the gate to the entry of a dispatcher. -/
def enter (p : Program) (s : Symbols) (vector : UInt8) (errCode : UInt32) (c : Cpu) :
    Option (Dispatcher × Cpu) := do
  let gate ← gateAt c.memory s.idtEntries vector.toNat
  if gate.Interrupts then
    let stub ← p.text gate.offset
    match runMasked stub.code (trap gate.selector vector errCode c) with
    | ([], e) => some (stub.dispatcher, call (p.back stub.dispatcher) e)
    | _ => none
  else none

def deliver (p : Program) (s : Symbols) (vector : UInt8) (errCode : UInt32) (c : Cpu) : Option Delivery :=
  (enter p s vector errCode c).bind fun entered => dispatch p s entered.1 entered.2

/-- The stubs are linked at their entry points. -/
def Linked (p : Program) (s : Symbols) : Prop :=
  ∀ vector < 48, p.text (s.entryPoint vector) = some (stub vector)

/-- Both tables of interrupts. -/
def Symbols.tables (s : Symbols) : Set UInt32 := s.handlersArea ∪ s.idtArea

/-- The call entered in the state `e` has returned to the state `a`. -/
structure Returned (s : Symbols) (e a : Cpu) : Prop where
  esp : a.regs.esp = e.regs.esp + 4
  eip : a.regs.eip = e.top
  masked : Masked a
  same : ∀ place ∈ s.tables, a.memory place = e.memory place

/-- **The calling convention** of the dispatchers and the handlers they call: given a stack, they
return, with interrupts disabled, and leave the tables alone. They may write `pt_regs`. -/
structure Cdecl (p : Program) (s : Symbols) : Prop where
  returns : ∀ actions e, Masked e → p.depth ≤ e.regs.esp.toNat →
    Disjoint (between (e.regs.esp.toNat - p.depth) (e.regs.esp.toNat + 8)) p.reserved →
    Returned s e (p.run actions e)
  tables : s.tables ⊆ p.reserved

/-- The interrupted stack has room for the interrupt. -/
structure Interruptible (p : Program) (c : Cpu) : Prop where
  room : 64 + p.depth ≤ c.regs.esp.toNat
  clear : Disjoint (between (c.regs.esp.toNat - 64 - p.depth) c.regs.esp.toNat) p.reserved

variable {p : Program} {s : Symbols} {c e a : Cpu} {vector : UInt8} {errCode : UInt32}

/-! ### The way in -/

/-- The error code that a handler gets. -/
def codeFor (vector : UInt8) (errCode : UInt32) : UInt32 := if PushesErrorCode vector then errCode else 0

/-- What is on the stack where a dispatcher is entered. -/
def pushedFor (back : UInt32) (vector : UInt8) (errCode : UInt32) (regs : Registers) : List UInt32 :=
  back :: (regs.esp - 56) :: (PtRegs.capture regs (UInt32.ofNat vector.toNat) (codeFor vector errCode)).words

theorem stub_quiet (vector : Nat) : ∀ instr ∈ (stub vector).code, instr.Quiet := by
  unfold stub isrStub irqStub isrErrCode isrNoErrCode isrCommonStub irqCommonStub
  split_ifs <;> simp [Instr.Quiet]

/-- The stubs that leave out the error code are those of the exceptions that push one. -/
theorem mem_errCodeStubs (vector : UInt8) : vector.toNat ∈ errCodeStubs ↔ PushesErrorCode vector := by
  unfold errCodeStubs PushesErrorCode
  simp only [List.mem_cons, List.not_mem_nil, or_false]
  omega

/-- A stub pushes an error code unless the processor has. -/
theorem stub_code (vector : UInt8) : (stub vector.toNat).code
    = (if PushesErrorCode vector then isrErrCode (UInt32.ofNat vector.toNat)
        else isrNoErrCode (UInt32.ofNat vector.toNat)) ++ irqCommonStub := by
  unfold stub
  by_cases exception : vector.toNat < 32
  · rw [if_pos exception]
    exact congrArg (· ++ irqCommonStub) (if_congr (mem_errCodeStubs vector) rfl rfl)
  · have without : ¬ PushesErrorCode vector := by
      unfold PushesErrorCode
      omega
    rw [if_neg exception, if_neg without]
    rfl

/-- **The way in** completes `pt_regs`, whether the processor pushes an error code or not. -/
theorem entered_for (back : UInt32) (c : Cpu) (vector : UInt8) (errCode : UInt32) :
    (call back (run (stub vector.toNat).code (trap 0x08 vector errCode c))).memory
        = (c.pushAll (pushedFor back vector errCode c.regs).reverse).memory
      ∧ (call back (run (stub vector.toNat).code (trap 0x08 vector errCode c))).regs.esp
        = (c.pushAll (pushedFor back vector errCode c.regs).reverse).regs.esp := by
  rw [stub_code]
  by_cases pushes : PushesErrorCode vector
  · simp only [call, trap, if_pos pushes, run, isrErrCode, irqCommonStub, List.cons_append, List.nil_append,
      List.foldl, exec, interrupt, Cpu.push, Cpu.pusha, Cpu.pushAll, Cpu.set, Registers.set, Registers.get,
      Registers.getSel, Registers.setSel, Cpu.setFlags, pushedFor, PtRegs.words, PtRegs.capture, codeFor,
      List.reverse, List.reverseAux, X86.sub_sub, UInt32.reduceAdd, and_self]
  · simp only [call, trap, if_neg pushes, run, isrNoErrCode, irqCommonStub, List.cons_append,
      List.nil_append, List.foldl, exec, interrupt, Cpu.push, Cpu.pusha, Cpu.pushAll, Cpu.set,
      Registers.set, Registers.get, Registers.getSel, Registers.setSel, Cpu.setFlags, pushedFor,
      PtRegs.words, PtRegs.capture, codeFor, List.reverse, List.reverseAux, X86.sub_sub, UInt32.reduceAdd,
      and_self]

/-- What holds where a dispatcher is entered. -/
structure Entered (back : UInt32) (vector : UInt8) (errCode : UInt32) (c e : Cpu) : Prop where
  masked : Masked e
  esp : e.regs.esp.toNat = c.regs.esp.toNat - 64
  place : e.regs.esp = c.regs.esp - 64
  top : e.top = back
  argument : load32 e.memory (e.regs.esp + 4) = c.regs.esp - 56
  frame : PtRegs.read e.memory (c.regs.esp - 56)
    = PtRegs.capture c.regs (UInt32.ofNat vector.toNat) (codeFor vector errCode)
  within : Within (between (c.regs.esp.toNat - 64) c.regs.esp.toNat) c.memory e.memory

theorem enter_spec (errCode : UInt32) (gate : gateAt c.memory s.idtEntries vector.toNat
      = some ⟨s.entryPoint vector.toNat, 0x08, 0x8E⟩) (linked : Linked p s) (small : vector.toNat < 48)
    (room : 64 ≤ c.regs.esp.toNat) :
    ∃ e, enter p s vector errCode c = some ((stub vector.toNat).dispatcher, e)
      ∧ Entered (p.back (stub vector.toNat).dispatcher) vector errCode c e := by
  have runs := runMasked_append (stub vector.toNat).code (stub_quiet vector.toNat) []
    (masked_trap 0x08 vector errCode c)
  rw [List.append_nil] at runs
  obtain ⟨memory, esp⟩ := entered_for (p.back (stub vector.toNat).dispatcher) c vector errCode
  refine ⟨call (p.back (stub vector.toNat).dispatcher)
    (run (stub vector.toNat).code (trap 0x08 vector errCode c)), ?_, ?_⟩
  · unfold enter
    rw [gate]
    have open_ : Gate.Interrupts ⟨s.entryPoint vector.toNat, 0x08, 0x8E⟩ := by
      show (0x8E : UInt8) &&& 0x80 = 0x80 ∧ (0x8E : UInt8) &&& 0x1F = 0x0E
      decide
    simp only [Option.bind_eq_bind, Option.bind_some, if_pos open_, linked vector.toNat small, runs.1]
    rfl
  · have masked : Masked (call (p.back (stub vector.toNat).dispatcher)
        (run (stub vector.toNat).code (trap 0x08 vector errCode c))) := runs.2.call _
    generalize call (p.back (stub vector.toNat).dispatcher)
      (run (stub vector.toNat).code (trap 0x08 vector errCode c)) = e at memory esp masked
    have bytes : ∀ back, 4 * (pushedFor back vector errCode c.regs).reverse.length = 64 := fun _ => rfl
    have fits : 4 * (pushedFor (p.back (stub vector.toNat).dispatcher) vector errCode
      c.regs).reverse.length ≤ c.regs.esp.toNat := by rwa [bytes]
    have top := toNat_pushAll_esp _ fits
    have stack := OnStack.pushAll _ (onStack_nil c) fits
    have within := within_pushAll _ fits
    rw [bytes] at top within
    rw [List.reverse_reverse, List.append_nil] at stack
    have spelled := (stack.congr esp memory).spelled
    have value : e.regs.esp.toNat = c.regs.esp.toNat - 64 := (congrArg UInt32.toNat esp).trans top
    have place : e.regs.esp = c.regs.esp - 64 := by
      have low : (64 : UInt32) ≤ c.regs.esp := UInt32.le_iff_toNat_le.mpr room
      rw [← UInt32.toNat_inj, value, UInt32.toNat_sub_of_le _ _ low]
      rfl
    have frame : e.regs.esp + 4 + 4 = c.regs.esp - 56 := by
      rw [place, UInt32.add_assoc, ← UInt32.toNat_inj]
      have small := c.regs.esp.toNat_lt
      simp only [UInt32.toNat_add, UInt32.toNat_sub, UInt32.reduceToNat]
      omega
    obtain ⟨back, argument, saved⟩ := spelled
    rw [frame] at saved
    refine ⟨masked, value, place, back, argument, PtRegs.read_of_spelled saved, ?_⟩
    rw [memory]
    exact within

/-! ### The way out -/

/-- **The way out** takes `pt_regs` back as they are then. -/
theorem leave_frame (masked : Masked a) : runMasked (irqCommonStubEnd ++ [.iret]) a
    = ([], ⟨(PtRegs.read a.memory (a.regs.esp + 4)).resume (a.regs.esp + 60), a.memory⟩) := by
  rw [(runMasked_append irqCommonStubEnd (by decide) [.iret] masked).1, runMasked_last]
  simp only [run, irqCommonStubEnd, List.foldl, exec, Cpu.pop, Cpu.popa_eq, Cpu.drop, Cpu.top, Cpu.set,
    Cpu.iret_eq, Registers.set, Registers.get, Registers.setSel, Cpu.setFlags, UInt32.add_assoc,
    UInt32.reduceAdd, PtRegs.read, PtRegs.resume]

/-- What an exception or an interrupt does. -/
structure Delivered (s : Symbols) (handler : UInt32) (vector : UInt8) (errCode : UInt32) (c : Cpu)
    (d : Delivery) : Prop where
  frame : d.frame = PtRegs.capture c.regs (UInt32.ofNat vector.toNat) (codeFor vector errCode)
  actions : d.actions
    = (stub vector.toNat).dispatcher.actions (UInt32.ofNat vector.toNat) handler
  resumes : d.cpu.regs = d.left.resume c.regs.esp
  same : ∀ place ∈ s.tables, d.cpu.memory place = c.memory place

theorem toNat_ofNat_vector (vector : UInt8) : (UInt32.ofNat vector.toNat).toNat = vector.toNat := by
  have small := vector.toNat_lt
  exact UInt32.toNat_ofNat_of_lt' (by simp only [UInt32.size]; omega)

/-- **The call of a dispatcher**, and the end of the stub. -/
theorem dispatch_spec {d : Dispatcher} {regs handler : UInt32} {f : PtRegs} {actions : List Action}
    (argument : load32 e.memory (e.regs.esp + 4) = regs) (frame : PtRegs.read e.memory regs = f)
    (registered : load32 e.memory (slot s.interruptHandlers 4 f.int_no.toNat) = handler)
    (does : d.actions f.int_no handler = actions) (back : e.top = p.back d)
    (returned : Returned s e (p.run actions e)) (below : e.regs.esp + 8 = regs) :
    dispatch p s d e = some ⟨f, actions, PtRegs.read (p.run actions e).memory regs,
      ⟨(PtRegs.read (p.run actions e).memory regs).resume (e.regs.esp + 64), (p.run actions e).memory⟩⟩ := by
  have home : (p.run actions e).regs.eip = p.back d := returned.eip.trans back
  have place : (p.run actions e).regs.esp + 4 = regs := by
    rw [returned.esp, UInt32.add_assoc]
    exact below
  have top : (p.run actions e).regs.esp + 60 = e.regs.esp + 64 := by
    rw [returned.esp, UInt32.add_assoc]
    rfl
  simp only [dispatch, argument, frame, registered, does, if_pos home, leave_frame returned.masked, place, top]

/-- **One exception or interrupt**, from the gate to the `iret`. -/
theorem deliver_spec {handler : UInt32} (errCode : UInt32) (cdecl : Cdecl p s) (linked : Linked p s)
    (small : vector.toNat < 48) (gate : gateAt c.memory s.idtEntries vector.toNat
      = some ⟨s.entryPoint vector.toNat, 0x08, 0x8E⟩)
    (registered : ∀ memory, (∀ place ∈ s.tables, memory place = c.memory place) →
      load32 memory (slot s.interruptHandlers 4 vector.toNat) = handler)
    (may : Interruptible p c) :
    ∃ d, deliver p s vector errCode c = some d ∧ Delivered s handler vector errCode c d := by
  have room := may.room
  have tall := c.regs.esp.toNat_lt
  obtain ⟨e, entered, entry⟩ := enter_spec (p := p) errCode gate linked small (by omega)
  have esp := entry.esp
  have kept : ∀ place ∈ s.tables, e.memory place = c.memory place := fun place inside =>
    entry.within place fun pushed => Set.disjoint_left.mp may.clear
      (between_subset (by omega) le_rfl pushed) (cdecl.tables inside)
  have number : (PtRegs.capture c.regs (UInt32.ofNat vector.toNat) (codeFor vector errCode)).int_no.toNat
      = vector.toNat := toNat_ofNat_vector vector
  have returned := cdecl.returns
    ((stub vector.toNat).dispatcher.actions (UInt32.ofNat vector.toNat) handler) e entry.masked (by omega)
    (may.clear.mono_left (between_subset (by omega) (by omega)))
  have below : e.regs.esp + 8 = c.regs.esp - 56 := by
    rw [entry.place, UInt32.sub_eq_add_neg, UInt32.sub_eq_add_neg, UInt32.add_assoc]
    rfl
  have dispatched := dispatch_spec entry.argument entry.frame
    (by rw [number]; exact registered e.memory kept) rfl entry.top returned below
  have came : deliver p s vector errCode c = dispatch p s (stub vector.toNat).dispatcher e := by
    unfold deliver
    rw [entered]
    rfl
  refine ⟨_, came.trans dispatched, ⟨rfl, rfl, ?_, fun place inside => ?_⟩⟩
  · show PtRegs.resume _ (e.regs.esp + 64) = PtRegs.resume _ c.regs.esp
    rw [entry.place, UInt32.sub_add_cancel]
  · exact (returned.same place inside).trans (kept place inside)

/-! ### Runs -/

/-- `register_isr`. -/
def registerIsr (s : Symbols) (isrNum : UInt8) (handler : UInt32) (memory : Memory) : Memory :=
  store32 memory (slot s.interruptHandlers 4 isrNum.toNat) handler

/-- What is seen of an exception or an interrupt: the interrupted state, its vector and error code, and
what it did. -/
structure Sighting where
  before : Cpu
  vector : UInt8
  errCode : UInt32
  delivery : Delivery

/-- The processor, what has been registered for each vector, and the last event if it was an exception
or an interrupt. -/
structure Watched where
  cpu : Cpu
  registered : Nat → UInt32
  last : Option Sighting

/-- A handler is registered, the processor gets into another state, or an exception or an interrupt
comes. -/
inductive Happening where
  | register (isrNum : UInt8) (handler : UInt32)
  | work (cpu : Cpu)
  | interrupt (vector : UInt8) (errCode : UInt32)

namespace Watched

def step (p : Program) (s : Symbols) (w : Watched) : Happening → Option Watched
  | .register isrNum handler => some
      { cpu := { w.cpu with memory := registerIsr s isrNum handler w.cpu.memory }
        registered := Function.update w.registered isrNum.toNat handler
        last := none }
  | .work cpu => some { w with cpu := cpu, last := none }
  | .interrupt vector errCode => (deliver p s vector errCode w.cpu).map fun d =>
      { w with cpu := d.cpu, last := some ⟨w.cpu, vector, errCode, d⟩ }

/-- The running code leaves the tables alone, and there are stubs for 48 vectors. -/
def Legal (p : Program) (s : Symbols) (w : Watched) : Happening → Prop
  | .register _ _ => True
  | .work cpu => ∀ place ∈ s.tables, cpu.memory place = w.cpu.memory place
  | .interrupt vector _ => vector.toNat < 48 ∧ Interruptible p w.cpu

/-- **The handler registered last** gets the registers of the interrupted code, with the number of the
interrupt and the error code. The interrupted code goes on with what is left there: as it was, if it
is left alone. -/
def Right (w : Watched) : Prop :=
  ∀ seen ∈ w.last, seen.delivery.cpu = w.cpu
    ∧ seen.delivery.frame = PtRegs.capture seen.before.regs (UInt32.ofNat seen.vector.toNat)
        (codeFor seen.vector seen.errCode)
    ∧ seen.delivery.actions = (if seen.vector.toNat < 32 then isrDispatcher else irqDispatcher)
        (UInt32.ofNat seen.vector.toNat) (w.registered seen.vector.toNat)
    ∧ w.cpu.regs = seen.delivery.left.resume seen.before.regs.esp
    ∧ (OneSelector seen.before.regs → seen.delivery.left = seen.delivery.frame →
        w.cpu.regs = seen.before.regs)

/-- The machine after `init_idt`. -/
def start (s : Symbols) (c : Cpu) : Watched where
  cpu := { c with memory := initIdt s c.memory }
  registered := fun _ => 0
  last := none

/-- **The invariant**: the tables hold the gates and the handlers. -/
structure Sound (s : Symbols) (w : Watched) : Prop where
  gates : ∀ vector < 48, gateAt w.cpu.memory s.idtEntries vector = some ⟨s.entryPoint vector, 0x08, 0x8E⟩
  handlers : Laid wordBytes 4 INTERRUPT_NUM w.cpu.memory s.interruptHandlers w.registered
  right : w.Right

end Watched

variable {w : Watched} {memory memory' : Memory}

theorem gates_congr (placed : s.Placed) (same : ∀ place ∈ s.tables, memory' place = memory place)
    {vector : Nat} (small : vector < 48) :
    gateAt memory' s.idtEntries vector = gateAt memory s.idtEntries vector := by
  have inside : vector < INTERRUPT_NUM := lt_trans small (by decide)
  exact congrArg Gate.read (bytesAt_congr fun offset within =>
    same _ (Or.inr (slot_mem_tableArea placed.idt inside within)))

theorem handlers_congr (placed : s.Placed) (same : ∀ place ∈ s.tables, memory' place = memory place)
    {registered : Nat → UInt32} (laid : Laid wordBytes 4 INTERRUPT_NUM memory s.interruptHandlers registered) :
    Laid wordBytes 4 INTERRUPT_NUM memory' s.interruptHandlers registered :=
  laid.congr placed.handlers fun place inside => same place (Or.inl inside)

namespace Watched

/-- Registering a handler writes its entry. -/
theorem register_sound (placed : s.Placed) (sound : Sound s w) (isrNum : UInt8) (handler : UInt32) :
    Sound s ⟨{ w.cpu with memory := registerIsr s isrNum handler w.cpu.memory },
      Function.update w.registered isrNum.toNat handler, none⟩ := by
  have inside : isrNum.toNat < INTERRUPT_NUM := isrNum.toNat_lt
  have stored := sound.handlers.store placed.handlers (fun _ => rfl) inside handler
  have within := within_stores wordBytes placed.handlers (fun _ => rfl)
    (fun _ : Unit => isrNum.toNat) (fun _ => handler) [()] (fun _ _ => inside) w.cpu.memory
  have same : ∀ place ∈ s.idtArea, registerIsr s isrNum handler w.cpu.memory place = w.cpu.memory place := by
    unfold registerIsr
    rw [store32_eq_storeBytes]
    exact within.same placed.apart''.symm
  refine ⟨fun vector small => ?_, ?_, fun _ impossible => absurd impossible (Option.not_mem_none _)⟩
  · rw [← sound.gates vector small]
    exact congrArg Gate.read (bytesAt_congr fun offset within =>
      same _ (slot_mem_tableArea placed.idt (lt_trans small (by decide)) within))
  · show Laid wordBytes 4 INTERRUPT_NUM (store32 _ _ _) s.interruptHandlers _
    rw [store32_eq_storeBytes]
    exact stored

theorem work_sound (placed : s.Placed) (sound : Sound s w) {cpu : Cpu}
    (same : ∀ place ∈ s.tables, cpu.memory place = w.cpu.memory place) :
    Sound s { w with cpu := cpu, last := none } :=
  ⟨fun vector small => (gates_congr placed same small).trans (sound.gates vector small),
    handlers_congr placed same sound.handlers,
    fun _ impossible => absurd impossible (Option.not_mem_none _)⟩

theorem interrupt_sound (placed : s.Placed) (cdecl : Cdecl p s) (linked : Linked p s) (sound : Sound s w)
    {vector : UInt8} (errCode : UInt32) (small : vector.toNat < 48) (may : Interruptible p w.cpu) :
    ∃ d, deliver p s vector errCode w.cpu = some d
      ∧ Sound s { w with cpu := d.cpu, last := some ⟨w.cpu, vector, errCode, d⟩ } := by
  have inside : vector.toNat < INTERRUPT_NUM := lt_trans small (by decide)
  obtain ⟨d, came, delivered⟩ := deliver_spec errCode cdecl linked small
    (sound.gates vector.toNat small)
    (fun memory same => bytesAt_four ((handlers_congr placed same sound.handlers) vector.toNat inside)) may
  refine ⟨d, came, fun other small => ?_, handlers_congr placed delivered.same sound.handlers, ?_⟩
  · exact (gates_congr placed delivered.same small).trans (sound.gates other small)
  · rintro seen ⟨⟩
    refine ⟨rfl, delivered.frame, ?_, delivered.resumes, fun one alone => ?_⟩
    · have chosen : (stub vector.toNat).dispatcher.actions
          = if vector.toNat < 32 then isrDispatcher else irqDispatcher := by
        unfold stub
        split_ifs <;> rfl
      exact delivered.actions.trans (by rw [chosen])
    · refine delivered.resumes.trans ?_
      rw [show d.left = d.frame from alone, delivered.frame]
      exact PtRegs.resume_capture one _ _

end Watched

/-- **Every interrupt of every run** reaches the handler registered last, with the registers of the
interrupted code, and the interrupted code goes on. -/
theorem interrupts_delivered (placed : s.Placed) (cdecl : Cdecl p s) (linked : Linked p s) (c : Cpu)
    (happenings : List Happening) :
    Along (Watched.step p s) (Watched.Legal p s) Watched.Right (Watched.start s c) happenings := by
  refine along_of_invariant (Watched.Sound s) (fun w happening sound legal => ?_)
    (fun _ sound => sound.right) happenings _ ⟨fun vector small => ?_, handlers_initIdt placed c.memory,
      fun _ impossible => absurd impossible (Option.not_mem_none _)⟩
  · cases happening with
    | register isrNum handler => exact ⟨_, rfl, Watched.register_sound placed sound isrNum handler⟩
    | work cpu => exact ⟨_, rfl, Watched.work_sound placed sound legal⟩
    | interrupt vector errCode =>
      obtain ⟨d, came, kept⟩ :=
        Watched.interrupt_sound placed cdecl linked sound errCode legal.1 legal.2
      exact ⟨_, Option.map_eq_some_iff.mpr ⟨d, came, rfl⟩, kept⟩
  · refine (gateAt_initIdt placed c.memory (lt_trans small (by decide))).trans ?_
    rw [if_pos small]

/-! ### A small kernel -/

/-- Its dispatchers return at once. -/
def smallProgram : Program where
  text address :=
    if (address - 0xC0100000).toNat / 64 < 48 then some (stub ((address - 0xC0100000).toNat / 64)) else none
  back
    | .isr => 0xC0100C10
    | .irq => 0xC0100C50
  depth := 16
  reserved := between 0xC0110000 0xC0113000
  run _ e := e.ret

theorem smallProgram_linked : Linked smallProgram smallSymbols := by
  intro vector small
  have number : (smallSymbols.entryPoint vector - 0xC0100000).toNat / 64 = vector :=
    (by decide : ∀ vector < 48, (smallSymbols.entryPoint vector - 0xC0100000).toNat / 64 = vector) vector small
  show (if (smallSymbols.entryPoint vector - 0xC0100000).toNat / 64 < 48 then
    some (stub ((smallSymbols.entryPoint vector - 0xC0100000).toNat / 64)) else none) = _
  rw [number, if_pos small]

theorem smallProgram_cdecl : Cdecl smallProgram smallSymbols where
  returns _ _ masked _ _ := ⟨rfl, rfl, masked, fun _ _ => rfl⟩
  tables := Set.union_subset (between_subset (by decide) (by decide)) (between_subset (by decide) (by decide))

/-- The processor somewhere in the kernel. -/
def smallCpu : Cpu where
  regs :=
    { eax := 1, ecx := 2, edx := 3, ebx := 4, esp := 0x00108FF0, ebp := 6, esi := 7, edi := 8
      ds := 0x10, es := 0x10, fs := 0x10, gs := 0x10, ss := 0x10, cs := 0x08
      eip := 0x00100200, eflags := 0x202 }
  memory := fun _ => 0

/-- A handler for page faults is registered, and there is one. -/
theorem page_fault_delivered :
    Permitted (Watched.step smallProgram smallSymbols) (Watched.Legal smallProgram smallSymbols)
        (Watched.start smallSymbols smallCpu) [.register 14 0xC0102000, .interrupt 14 2]
      ∧ Along (Watched.step smallProgram smallSymbols) (Watched.Legal smallProgram smallSymbols)
        Watched.Right (Watched.start smallSymbols smallCpu) [.register 14 0xC0102000, .interrupt 14 2] := by
  refine ⟨⟨True.intro, fun next registered => ⟨⟨by decide, ?_⟩, fun _ _ => True.intro⟩⟩,
    interrupts_delivered smallSymbols_placed smallProgram_cdecl smallProgram_linked smallCpu _⟩
  cases registered
  refine ⟨by decide, Set.disjoint_left.mpr fun place inStack inTables => ?_⟩
  have low : 0xC0110000 ≤ place.toNat := inTables.1
  have high : place.toNat < 0x00108FF0 := inStack.2
  omega

end Sprite.Interrupts

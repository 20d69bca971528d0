/-
**Interrupt lines**, after `init_idt` and the dispatchers of `src/lib/idt.cc`.

`init_idt` sets up the two interrupt controllers, and `irq_dispatcher` tells them that an interrupt is
over: the second one when the interrupt is one of its lines, and the first one always, before it calls
the handler. A handler may switch to another thread, so the next interrupt can come before it returns.

* `setUpControllers`, `isrDispatcher`, `irqDispatcher` — what the source does.
* `Board.step` — lines that rise at any time, interrupts that the processor accepts between two
  dispatches, and one call of a dispatch after the other.
* `Stage` — the invariant: what is in service is what the rest of the dispatch takes out of it.
* `lines_refine_priorities` — **the sixteen lines are a set with priorities**: no request is lost,
  doubled or blocked by another interrupt.
-/
import Sprite.Lib.Pic
import Sprite.Lib.Runs

namespace Sprite.Interrupts

open Runs Pic

/-- What a dispatcher does: it writes to a port, calls a handler, or prints. -/
inductive Action where
  | outb (port : UInt16) (value : UInt8)
  | call (handler : UInt32)
  | printk (format : String) (n : UInt32)
  deriving DecidableEq

/-- `isr_dispatcher`, where `handler` is `interrupt_handlers[regs->int_no]`. -/
def isrDispatcher (intNo handler : UInt32) : List Action :=
  if handler ≠ 0 then [.call handler] else [.printk "Unhandled interrupt: %d\n" intNo]

/-- The call of a handler, if there is one. -/
def callTo (handler : UInt32) : List Action := if handler ≠ 0 then [.call handler] else []

/-- `irq_dispatcher`, where `handler` is `interrupt_handlers[regs->int_no]`. -/
def irqDispatcher (intNo handler : UInt32) : List Action :=
  (if 40 ≤ intNo then [.outb 0xA0 0x20] else []) ++ .outb 0x20 0x20 :: callTo handler

/-- The bytes that `init_idt` sends to the controllers. -/
def controllerWords : List (UInt16 × UInt8) :=
  [(0x20, 0x11), (0xA0, 0x11), (0x21, 0x20), (0xA1, 0x28), (0x21, 0x04), (0xA1, 0x02), (0x21, 0x01),
    (0xA1, 0x01), (0x21, 0x0), (0xA1, 0x0)]

def setUpControllers (p : Pair) : Option Pair :=
  controllerWords.foldlM (fun p word => p.outb word.1 word.2) p

/-- The controllers as `init_idt` leaves them: what was in service still is. -/
def controllers (p : Pair) : Pair where
  master := ⟨.ocw1, 0x20, 0x04, ∅, ∅, p.master.served⟩
  slave := ⟨.ocw1, 0x28, 0x02, ∅, ∅, p.slave.served⟩

theorem bitsOf_zero : bitsOf 0 = ∅ := by decide

theorem bitsOf_four : bitsOf 4 = {cascadeLine} := by decide

theorem setUpControllers_eq (p : Pair) : setUpControllers p = some (controllers p) := by
  have done : setUpControllers p = some
      ⟨⟨.ocw1, 0x20, 0x04, bitsOf 0, ∅, p.master.served⟩,
        ⟨.ocw1, 0x28, 0x02, bitsOf 0, ∅, p.slave.served⟩⟩ := rfl
  rw [done, bitsOf_zero]
  rfl

theorem ready_controllers (p : Pair) : Ready (controllers p) :=
  ⟨rfl, rfl, bitsOf_four, rfl, rfl, rfl, Finset.notMem_empty _⟩

/-! ### The board -/

structure Board where
  pair : Pair
  /-- `interrupt_handlers`. -/
  handlers : UInt8 → UInt32
  /-- What is left of the dispatch that is under way. -/
  todo : List Action

/-- A device raises its line, the processor accepts an interrupt, the dispatcher does its next action,
or a handler is registered. -/
inductive Event where
  | raise (line : Line)
  | accept
  | advance
  | register (isrNum : UInt8) (handler : UInt32)

inductive Answer where
  | quiet
  | vector (number : UInt8)
  | did (action : Action)

namespace Board

/-- Interrupts are disabled as long as a dispatch is under way. -/
def accept (b : Board) : Option (Answer × Board) :=
  if b.todo = [] then b.pair.acknowledge.map fun acknowledged =>
    (.vector acknowledged.1, { b with
      pair := acknowledged.2
      todo := irqDispatcher acknowledged.1.toUInt32 (b.handlers acknowledged.1) })
  else none

def advance (b : Board) : Option (Answer × Board) :=
  match b.todo with
  | [] => none
  | .outb port value :: rest => (b.pair.outb port value).map fun pair =>
      (.did (.outb port value), { b with pair := pair, todo := rest })
  | action :: rest => some (.did action, { b with todo := rest })

def step (b : Board) : Event → Option (Answer × Board)
  | .raise line => if line.Wired then some (.quiet, { b with pair := b.pair.raise line }) else none
  | .accept => b.accept
  | .advance => b.advance
  | .register isrNum handler =>
      if b.todo = [] then
        some (.quiet, { b with handlers := Function.update b.handlers isrNum handler })
      else none

/-- The machine after `init_idt`. -/
def start (pair : Pair) : Board := ⟨pair, fun _ => 0, []⟩

end Board

/-! ### What the controllers are for -/

/-- The lines that wait, and what is left of the dispatch that is under way. -/
structure Waiting where
  pending : Finset Line
  handlers : UInt8 → UInt32
  todo : List Action

namespace Waiting

def start : Waiting := ⟨∅, fun _ => 0, []⟩

def accepted (w : Waiting) (line : Line) : Waiting :=
  { w with
    pending := w.pending.erase line
    todo := irqDispatcher (UInt32.ofNat (32 + line.number)) (w.handlers (UInt8.ofNat (32 + line.number))) }

/-- **A set of lines with priorities.** An interrupt is accepted whenever a line waits and no dispatch
is under way, and it is one for the line of highest priority. -/
def machine : Machine Waiting Event Answer where
  legal
    | _, .raise line => line.Wired
    | w, .accept => w.todo = [] ∧ w.pending.Nonempty
    | w, .advance => w.todo ≠ []
    | w, .register _ _ => w.todo = []
  next
    | w, .raise line, answer, w' => answer = .quiet ∧ w' = { w with pending := insert line w.pending }
    | w, .accept, answer, w' => ∃ line ∈ w.pending, (∀ other ∈ w.pending, line.rank ≤ other.rank)
        ∧ answer = .vector (UInt8.ofNat (32 + line.number)) ∧ w' = w.accepted line
    | w, .advance, answer, w' => ∃ action rest, w.todo = action :: rest ∧ answer = .did action
        ∧ w' = { w with todo := rest }
    | w, .register isrNum handler, answer, w' => answer = .quiet
        ∧ w' = { w with handlers := Function.update w.handlers isrNum handler }

end Waiting

/-- The requests in the controllers are the lines that wait, and between two dispatches nothing is in
service. -/
structure Agree (b : Board) (w : Waiting) : Prop where
  raised : b.pair.raised = w.pending
  handlers : b.handlers = w.handlers
  todo : b.todo = w.todo
  idle : w.todo = [] → Idle b.pair

/-! ### The invariant -/

/-- **What is in service** is what the rest of a dispatch takes out of it. -/
inductive Stage (p : Pair) : List Action → Prop where
  | calling (handler : UInt32) (idle : Idle p) : Stage p (callTo handler)
  | called (idle : Idle p) : Stage p []
  | first (handler : UInt32) {line : Fin 8} (serving : p.master.served = {line})
      (clear : p.slave.served = ∅) : Stage p (.outb 0x20 0x20 :: callTo handler)
  | both (handler : UInt32) {line : Fin 8} (serving : Serving p (.slave line)) :
      Stage p (.outb 0xA0 0x20 :: .outb 0x20 0x20 :: callTo handler)

structure Stands (b : Board) (w : Waiting) : Prop where
  ready : Ready b.pair
  base : b.pair.master.base = 0x20
  base' : b.pair.slave.base = 0x28
  raised : b.pair.raised = w.pending
  handlers : b.handlers = w.handlers
  todo : b.todo = w.todo
  stage : Stage b.pair w.todo

variable {p : Pair} {b : Board} {w : Waiting}

theorem Stage.raise {todo : List Action} (stage : Stage p todo) (line : Line) :
    Stage (p.raise line) todo := by
  have master : (p.raise line).master.served = p.master.served := by cases line <;> rfl
  have slave : (p.raise line).slave.served = p.slave.served := by cases line <;> rfl
  cases stage with
  | calling handler idle => exact .calling handler ⟨master.trans idle.master, slave.trans idle.slave⟩
  | called idle => exact .called ⟨master.trans idle.master, slave.trans idle.slave⟩
  | first handler serving clear => exact .first handler (master.trans serving) (slave.trans clear)
  | both handler serving => exact .both handler ⟨master.trans serving.1, slave.trans serving.2⟩

/-- Nothing is left of a dispatch when nothing is in service. -/
theorem Stage.idle (stage : Stage p []) : Idle p := by
  generalize isEmpty : ([] : List Action) = todo at stage
  cases stage with
  | calling handler idle => exact idle
  | called idle => exact idle
  | first handler serving clear => exact (List.cons_ne_nil _ _ isEmpty.symm).elim
  | both handler serving => exact (List.cons_ne_nil _ _ isEmpty.symm).elim

theorem Stands.agree (stands : Stands b w) : Agree b w :=
  ⟨stands.raised, stands.handlers, stands.todo, fun done => (done ▸ stands.stage).idle⟩

/-- The vectors of the two controllers follow one another. -/
theorem vector_eq (base : p.master.base = 0x20) (base' : p.slave.base = 0x28) (line : Line) :
    p.vector line = UInt8.ofNat (32 + line.number) := by
  cases line with
  | master line =>
    show p.master.base + UInt8.ofNat line = UInt8.ofNat (32 + line)
    rw [base]
    revert line
    decide
  | slave line =>
    show p.slave.base + UInt8.ofNat line = UInt8.ofNat (32 + (8 + line))
    rw [base']
    revert line
    decide

theorem toUInt32_vector (line : Line) :
    (UInt8.ofNat (32 + line.number)).toUInt32 = UInt32.ofNat (32 + line.number) := by
  cases line with
  | master line =>
    revert line
    decide
  | slave line =>
    revert line
    decide

/-- The dispatch of a line starts with it in service. -/
theorem stage_accepted (line : Line) (handler : UInt32) (serving : Serving p line) :
    Stage p (irqDispatcher (UInt32.ofNat (32 + line.number)) handler) := by
  unfold irqDispatcher
  cases line with
  | master line =>
    have low : ∀ line : Fin 8, ¬ 40 ≤ UInt32.ofNat (32 + (Line.master line).number) := by decide
    rw [if_neg (low line)]
    exact .first handler serving.1 serving.2
  | slave line =>
    have high : ∀ line : Fin 8, 40 ≤ UInt32.ofNat (32 + (Line.slave line).number) := by decide
    rw [if_pos (high line)]
    exact .both handler serving

/-! ### The steps -/

theorem raise_stands (stands : Stands b w) {line : Line} (wired : line.Wired) :
    Stands { b with pair := b.pair.raise line } { w with pending := insert line w.pending } where
  ready := stands.ready.raise wired
  base := by
    have base := stands.base
    cases line <;> exact base
  base' := by
    have base := stands.base'
    cases line <;> exact base
  raised := by rw [Pair.raised_raise, stands.raised]
  handlers := stands.handlers
  todo := stands.todo
  stage := stands.stage.raise line

/-- **An interrupt is accepted** for the line of highest priority. -/
theorem accept_stands (stands : Stands b w) (done : w.todo = []) (waits : w.pending.Nonempty) :
    ∃ line ∈ w.pending, (∀ other ∈ w.pending, line.rank ≤ other.rank) ∧
      ∃ b', b.accept = some (.vector (UInt8.ofNat (32 + line.number)), b') ∧ Stands b' (w.accepted line) := by
  have idle : Idle b.pair := (done ▸ stands.stage).idle
  obtain ⟨line, inside, least, acknowledged⟩ :=
    acknowledge_spec stands.ready idle (by rw [stands.raised]; exact waits)
  rw [stands.raised] at inside least
  have vector := vector_eq stands.base stands.base' line
  refine ⟨line, inside, least, ⟨b.pair.serve line, b.handlers, irqDispatcher
    (UInt32.ofNat (32 + line.number)) (b.handlers (UInt8.ofNat (32 + line.number)))⟩, ?_, ?_⟩
  · unfold Board.accept
    rw [if_pos (stands.todo.trans done), acknowledged, Option.map_some, vector, toUInt32_vector]
  · have base := stands.base
    have base' := stands.base'
    refine ⟨stands.ready.serve line, ?_, ?_, ?_, stands.handlers, ?_, ?_⟩
    · cases line <;> exact base
    · cases line <;> exact base'
    · rw [Pair.raised_serve, stands.raised]
      rfl
    · rw [stands.handlers]
      rfl
    · exact stage_accepted line _ (Serving.of_idle idle line)

/-- **One action of a dispatch.** -/
theorem advance_stands (stands : Stands b w) (busy : w.todo ≠ []) :
    ∃ action rest, w.todo = action :: rest ∧
      ∃ b', b.advance = some (.did action, b') ∧ Stands b' { w with todo := rest } := by
  have ready := stands.ready
  have same := stands.todo
  have stage := stands.stage
  unfold Board.advance
  rw [same]
  generalize isTodo : w.todo = todo at busy stage same
  cases stage with
  | calling handler idle =>
    unfold callTo at busy ⊢
    split_ifs at busy ⊢ with registered
    · exact ⟨.call handler, [], rfl, ⟨b.pair, b.handlers, []⟩, rfl,
        ready, stands.base, stands.base', stands.raised, stands.handlers, rfl, .called idle⟩
    · exact absurd rfl busy
  | called idle => exact absurd rfl busy
  | first handler serving clear =>
    refine ⟨.outb 0x20 0x20, callTo handler, rfl,
      ⟨{ b.pair with master.served := ∅ }, b.handlers, callTo handler⟩, ?_, ?_⟩
    · show (b.pair.outb 0x20 0x20).map _ = _
      rw [outb_master ready serving]
      rfl
    · exact ⟨ready.served ∅ b.pair.slave.served, stands.base, stands.base', stands.raised,
        stands.handlers, rfl, .calling handler ⟨rfl, clear⟩⟩
  | both handler serving =>
    refine ⟨.outb 0xA0 0x20, .outb 0x20 0x20 :: callTo handler, rfl,
      ⟨{ b.pair with slave.served := ∅ }, b.handlers, .outb 0x20 0x20 :: callTo handler⟩, ?_, ?_⟩
    · show (b.pair.outb 0xA0 0x20).map _ = _
      rw [outb_slave ready serving]
      rfl
    · exact ⟨ready.served b.pair.master.served ∅, stands.base, stands.base', stands.raised,
        stands.handlers, rfl, .first handler serving.1 rfl⟩

theorem register_stands (stands : Stands b w) (isrNum : UInt8) (handler : UInt32) :
    Stands { b with handlers := Function.update b.handlers isrNum handler }
      { w with handlers := Function.update w.handlers isrNum handler } :=
  ⟨stands.ready, stands.base, stands.base', stands.raised, by rw [stands.handlers], stands.todo,
    stands.stage⟩

/-- **Every step** of the board is one of the set of lines. -/
theorem step_stands (stands : Stands b w) (event : Event) (legal : Waiting.machine.legal w event) :
    ∃ answer b' w', b.step event = some (answer, b') ∧ Waiting.machine.next w event answer w'
      ∧ Stands b' w' := by
  cases event with
  | raise line => exact ⟨_, _, _, if_pos legal, ⟨rfl, rfl⟩, raise_stands stands legal⟩
  | accept =>
    obtain ⟨line, inside, least, b', accepted, stands'⟩ := accept_stands stands legal.1 legal.2
    exact ⟨_, b', _, accepted, ⟨line, inside, least, rfl, rfl⟩, stands'⟩
  | advance =>
    obtain ⟨action, rest, isTodo, b', advanced, stands'⟩ := advance_stands stands legal
    exact ⟨_, b', _, advanced, ⟨action, rest, isTodo, rfl, rfl⟩, stands'⟩
  | register isrNum handler =>
    exact ⟨_, _, _, if_pos (stands.todo.trans legal), ⟨rfl, rfl⟩, register_stands stands isrNum handler⟩

/-- **The sixteen lines are a set with priorities**, from `init_idt` on, however lines rise between and
within dispatches. -/
theorem lines_refine_priorities (p : Pair) (idle : Idle p) (events : List Event) :
    ∃ pair, setUpControllers p = some pair ∧
      Refines Board.step Waiting.machine Agree (Board.start pair) Waiting.start events := by
  have stands : Stands (Board.start (controllers p)) Waiting.start :=
    ⟨ready_controllers p, rfl, rfl, rfl, rfl, rfl, .called ⟨idle.master, idle.slave⟩⟩
  exact ⟨controllers p, setUpControllers_eq p, refines_of_simulation Stands
    (fun _ _ event stands legal => step_stands stands event legal) (fun _ _ stands => stands.agree)
    events _ _ stands⟩

/-- Two controllers out of reset, and requests on both while a dispatch is under way. -/
theorem keyboard_and_disk_refine_priorities :
    ∃ pair, setUpControllers ⟨⟨.ocw1, 8, 4, ∅, ∅, ∅⟩, ⟨.ocw1, 0x70, 2, ∅, ∅, ∅⟩⟩ = some pair ∧
      Refines Board.step Waiting.machine Agree (Board.start pair) Waiting.start
        [.register 33 0xC0100000, .raise (.slave 6), .accept, .raise (.master 1), .advance, .advance,
          .accept, .advance, .advance] :=
  lines_refine_priorities _ ⟨rfl, rfl⟩ _

end Sprite.Interrupts

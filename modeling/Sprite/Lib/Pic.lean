/-
**The two cascaded interrupt controllers of a PC.**

Each 8259A has eight lines. A line that rises leaves a request, which goes into service when the
processor acknowledges an interrupt and leaves it at an end-of-interrupt command. The second controller
hangs on line 2 of the first. This is the part of the chip that edge-triggered, cascaded operation in
8086 mode uses: a command outside it answers `none`.

* `Chip.command`, `Chip.data` — the two ports of one controller.
* `Pair.outb`, `Pair.raise`, `Pair.acknowledge` — both of them, as they are wired.
* `Ready` — the two controllers are set up; `Pair.raised` — the lines that have a request.
* `acknowledge_spec` — **the two act as one**: with nothing in service, the request of highest priority
  goes into service, and there is one as long as a line has a request.
-/
import Mathlib.Data.Finset.Max
import Mathlib.Data.Fintype.Basic
import Mathlib.Data.Fin.Basic

namespace Pic

/-- The first element of a finite set. -/
def first {α : Type} [LinearOrder α] (s : Finset α) : Option α :=
  if nonempty : s.Nonempty then some (s.min' nonempty) else none

theorem first_eq_none {α : Type} [LinearOrder α] {s : Finset α} : first s = none ↔ s = ∅ := by
  unfold first
  split_ifs with nonempty
  · exact ⟨fun impossible => impossible.elim, fun empty => absurd empty nonempty.ne_empty⟩
  · exact ⟨fun _ => Finset.not_nonempty_iff_eq_empty.mp nonempty, fun _ => rfl⟩

/-- The first element is one of them, and none comes before it. -/
theorem first_spec {α : Type} [LinearOrder α] {s : Finset α} {a : α} (isFirst : first s = some a) :
    a ∈ s ∧ ∀ other ∈ s, a ≤ other := by
  unfold first at isFirst
  split_ifs at isFirst with nonempty
  rw [Option.some.injEq] at isFirst
  subst isFirst
  exact ⟨s.min'_mem nonempty, fun other inside => s.min'_le other inside⟩

theorem first_singleton {α : Type} [LinearOrder α] (a : α) : first {a} = some a := by
  unfold first
  rw [dif_pos (Finset.singleton_nonempty a), Finset.min'_singleton]

/-! ### One controller -/

/-- What a controller takes the next byte at its data port for. -/
inductive Expects where
  | icw2 | icw3 | icw4 | ocw1
  deriving DecidableEq

structure Chip where
  expects : Expects
  /-- The vector of the first line. -/
  base : UInt8
  /-- The third initialisation word: the lines with another controller, or the own number. -/
  cascade : UInt8
  masked : Finset (Fin 8)
  requested : Finset (Fin 8)
  served : Finset (Fin 8)

/-- The bits of a byte that are set. -/
def bitsOf (value : UInt8) : Finset (Fin 8) := Finset.univ.filter fun line => value.toNat.testBit line

namespace Chip

/-- A byte at the command port: the first initialisation word, which forgets requests and masks, or an
end of interrupt, which takes the line of highest priority out of service. -/
def command (value : UInt8) (c : Chip) : Option Chip :=
  if value = 0x11 then some { c with expects := .icw2, masked := ∅, requested := ∅ }
  else if value = 0x20 ∧ c.expects = .ocw1 then
    some { c with served := match first c.served with
      | some line => c.served.erase line
      | none => ∅ }
  else none

/-- A byte at the data port. -/
def data (value : UInt8) (c : Chip) : Option Chip :=
  match c.expects with
  | .icw2 => some { c with base := value &&& 0xF8, expects := .icw3 }
  | .icw3 => some { c with cascade := value, expects := .icw4 }
  | .icw4 => if value = 0x01 then some { c with expects := .ocw1 } else none
  | .ocw1 => some { c with masked := bitsOf value }

/-- The request that the controller passes on: of highest priority, and above what is in service. -/
def pending (c : Chip) : Option (Fin 8) :=
  first ((c.requested \ c.masked).filter fun line => ∀ other ∈ c.served, line < other)

/-- A request goes into service. -/
def serve (c : Chip) (line : Fin 8) : Chip :=
  { c with requested := c.requested.erase line, served := insert line c.served }

theorem pending_idle {c : Chip} (unmasked : c.masked = ∅) (idle : c.served = ∅) :
    c.pending = first c.requested := by
  unfold pending
  rw [unmasked, idle, Finset.sdiff_empty, Finset.filter_true_of_mem]
  exact fun line _ other inside => absurd inside (Finset.notMem_empty other)

end Chip

/-! ### Both controllers -/

structure Pair where
  master : Chip
  slave : Chip

/-- The line of the first controller that the second one hangs on. -/
def cascadeLine : Fin 8 := ⟨2, by decide⟩

inductive Line where
  | master (line : Fin 8)
  | slave (line : Fin 8)
  deriving DecidableEq

namespace Line

/-- A device can be on every line but that of the second controller. -/
def Wired (line : Line) : Prop := line ≠ .master cascadeLine

instance (line : Line) : Decidable line.Wired := inferInstanceAs (Decidable (_ ≠ _))

def number : Line → Nat
  | .master line => line
  | .slave line => 8 + line

/-- The smaller, the higher the priority. -/
def rank : Line → Nat
  | .master line => 16 * line
  | .slave line => 16 * cascadeLine + line

end Line

namespace Pair

def outb (port : UInt16) (value : UInt8) (p : Pair) : Option Pair :=
  if port = 0x20 then (p.master.command value).map fun chip => { p with master := chip }
  else if port = 0x21 then (p.master.data value).map fun chip => { p with master := chip }
  else if port = 0xA0 then (p.slave.command value).map fun chip => { p with slave := chip }
  else if port = 0xA1 then (p.slave.data value).map fun chip => { p with slave := chip }
  else none

/-- A line rises. -/
def raise (p : Pair) : Line → Pair
  | .master line => { p with master.requested := insert line p.master.requested }
  | .slave line => { p with slave.requested := insert line p.slave.requested }

/-- The first controller with what the second one puts on its line. -/
def wired (p : Pair) : Chip :=
  if p.slave.pending.isSome then { p.master with requested := insert cascadeLine p.master.requested }
  else p.master

/-- The processor acknowledges an interrupt: the vector it gets. -/
def acknowledge (p : Pair) : Option (UInt8 × Pair) := do
  let line ← p.wired.pending
  if line ∈ bitsOf p.master.cascade then
    if line.val = p.slave.cascade.toNat % 8 then
      let other ← p.slave.pending
      return (p.slave.base + UInt8.ofNat other,
        { p with master.served := insert line p.master.served, slave := p.slave.serve other })
    else none
  else return (p.master.base + UInt8.ofNat line, { p with master := p.master.serve line })

/-- The lines with a request. -/
def raised (p : Pair) : Finset Line :=
  p.master.requested.image .master ∪ p.slave.requested.image .slave

variable {p : Pair}

theorem mem_raised {line : Line} : line ∈ p.raised ↔ match line with
    | .master line => line ∈ p.master.requested
    | .slave line => line ∈ p.slave.requested := by
  unfold raised
  cases line <;> simp

theorem raised_raise (line : Line) : (p.raise line).raised = insert line p.raised := by
  ext other
  rw [Finset.mem_insert, mem_raised, mem_raised]
  cases line <;> cases other <;> simp [raise]

/-- A request goes into service, with that of the first controller for the second. -/
def serve (p : Pair) : Line → Pair
  | .master line => { p with master := p.master.serve line }
  | .slave line =>
    { p with master.served := insert cascadeLine p.master.served, slave := p.slave.serve line }

def vector (p : Pair) : Line → UInt8
  | .master line => p.master.base + UInt8.ofNat line
  | .slave line => p.slave.base + UInt8.ofNat line

theorem raised_serve (line : Line) : (p.serve line).raised = p.raised.erase line := by
  ext other
  rw [Finset.mem_erase, mem_raised, mem_raised]
  cases line <;> cases other <;> simp [serve, Chip.serve]

end Pair

/-- **The controllers are set up**: the second one hangs on its line, and no line is masked. -/
structure Ready (p : Pair) : Prop where
  master : p.master.expects = .ocw1
  slave : p.slave.expects = .ocw1
  hangs : bitsOf p.master.cascade = {cascadeLine}
  numbered : p.slave.cascade.toNat % 8 = cascadeLine
  unmasked : p.master.masked = ∅
  unmasked' : p.slave.masked = ∅
  free : Line.master cascadeLine ∉ p.raised

/-- Nothing is in service. -/
structure Idle (p : Pair) : Prop where
  master : p.master.served = ∅
  slave : p.slave.served = ∅

/-- A line that is in service, the lines of both controllers with it. -/
def Serving (p : Pair) : Line → Prop
  | .master line => p.master.served = {line} ∧ p.slave.served = ∅
  | .slave line => p.master.served = {cascadeLine} ∧ p.slave.served = {line}

variable {p : Pair}

theorem Ready.raise (ready : Ready p) {line : Line} (wired : line.Wired) : Ready (p.raise line) := by
  have free : Line.master cascadeLine ∉ (p.raise line).raised := by
    rw [Pair.raised_raise, Finset.mem_insert, not_or]
    exact ⟨wired.symm, ready.free⟩
  cases line <;> exact ⟨ready.master, ready.slave, ready.hangs, ready.numbered, ready.unmasked,
    ready.unmasked', free⟩

theorem Ready.serve (ready : Ready p) (line : Line) : Ready (p.serve line) := by
  have free : Line.master cascadeLine ∉ (p.serve line).raised := by
    rw [Pair.raised_serve]
    exact fun inside => ready.free (Finset.mem_of_mem_erase inside)
  cases line <;> exact ⟨ready.master, ready.slave, ready.hangs, ready.numbered, ready.unmasked,
    ready.unmasked', free⟩

/-- Only what is in service changes. -/
theorem Ready.served (ready : Ready p) (served served' : Finset (Fin 8)) :
    Ready ⟨{ p.master with served := served }, { p.slave with served := served' }⟩ :=
  ⟨ready.master, ready.slave, ready.hangs, ready.numbered, ready.unmasked, ready.unmasked', ready.free⟩

theorem Serving.of_idle (idle : Idle p) (line : Line) : Serving (p.serve line) line := by
  have none := idle.master
  have none' := idle.slave
  cases line with
  | master line =>
    refine ⟨?_, none'⟩
    show insert line p.master.served = {line}
    rw [none]
    rfl
  | slave line =>
    refine ⟨?_, ?_⟩
    · show insert cascadeLine p.master.served = {cascadeLine}
      rw [none]
      rfl
    · show insert line p.slave.served = {line}
      rw [none']
      rfl

/-- **The two controllers act as one.** With nothing in service, the request of highest priority goes
into service, and there is one as long as a line has a request. -/
theorem acknowledge_spec (ready : Ready p) (idle : Idle p) (some' : p.raised.Nonempty) :
    ∃ line ∈ p.raised, (∀ other ∈ p.raised, line.rank ≤ other.rank) ∧
      p.acknowledge = some (p.vector line, p.serve line) := by
  have below : p.slave.pending = first p.slave.requested := Chip.pending_idle ready.unmasked' idle.slave
  have notOwn : cascadeLine ∉ p.master.requested := fun inside =>
    ready.free (Pair.mem_raised.mpr inside)
  have masterBits : p.wired.masked = ∅ ∧ p.wired.served = ∅ := by
    unfold Pair.wired
    split_ifs <;> exact ⟨ready.unmasked, idle.master⟩
  have above : p.wired.pending = first p.wired.requested :=
    Chip.pending_idle masterBits.1 masterBits.2
  -- A request is one of the first controller or one that the second passes on.
  have mem_wired : ∀ line, line ∈ p.wired.requested ↔
      line ∈ p.master.requested ∨ line = cascadeLine ∧ p.slave.requested.Nonempty := by
    intro line
    unfold Pair.wired
    rw [below]
    cases chosen : first p.slave.requested with
    | none =>
      have empty := first_eq_none.mp chosen
      simp [empty]
    | some other =>
      have inside : p.slave.requested.Nonempty := ⟨other, (first_spec chosen).1⟩
      simp [inside, or_comm]
  have nonempty : p.wired.requested ≠ ∅ := by
    obtain ⟨line, inside⟩ := some'
    rw [Pair.mem_raised] at inside
    refine Finset.nonempty_iff_ne_empty.mp ?_
    cases line with
    | master line => exact ⟨line, (mem_wired line).mpr (Or.inl inside)⟩
    | slave line => exact ⟨cascadeLine, (mem_wired _).mpr (Or.inr ⟨rfl, line, inside⟩)⟩
  obtain ⟨line, chosen⟩ := Option.ne_none_iff_exists'.mp fun none => nonempty (first_eq_none.mp none)
  obtain ⟨inside, least⟩ := first_spec chosen
  unfold Pair.acknowledge
  rw [above, chosen, ready.hangs]
  by_cases isCascade : line = cascadeLine
  · -- The second controller says which of its lines it is.
    subst isCascade
    have behind : p.slave.requested.Nonempty := by
      rcases (mem_wired _).mp inside with own | ⟨-, behind⟩
      · exact absurd own notOwn
      · exact behind
    obtain ⟨other, chosen'⟩ := Option.ne_none_iff_exists'.mp fun none =>
      behind.ne_empty (first_eq_none.mp none)
    obtain ⟨inside', least'⟩ := first_spec chosen'
    refine ⟨.slave other, Pair.mem_raised.mpr inside', fun third raised => ?_, ?_⟩
    · have raised := Pair.mem_raised.mp raised
      have small := other.isLt
      cases third with
      | master third =>
        have later := least third ((mem_wired third).mpr (Or.inl raised))
        have different : third ≠ cascadeLine := fun same => notOwn (same ▸ raised)
        have values : cascadeLine.val ≤ third.val := later
        have values' : third.val ≠ cascadeLine.val := fun same => different (Fin.ext same)
        show 16 * cascadeLine.val + other.val ≤ 16 * third.val
        omega
      | slave third =>
        have later : other.val ≤ third.val := least' third raised
        show 16 * cascadeLine.val + other.val ≤ 16 * cascadeLine.val + third.val
        omega
    · simp only [Option.bind_eq_bind, Option.bind_some, Finset.mem_singleton, if_true, ready.numbered,
        below, chosen']
      rfl
  · have own : line ∈ p.master.requested := by
      rcases (mem_wired line).mp inside with own | ⟨same, -⟩
      · exact own
      · exact absurd same isCascade
    refine ⟨.master line, Pair.mem_raised.mpr own, fun third raised => ?_, ?_⟩
    · have raised := Pair.mem_raised.mp raised
      cases third with
      | master third =>
        have later : line.val ≤ third.val := least third ((mem_wired third).mpr (Or.inl raised))
        show 16 * line.val ≤ 16 * third.val
        omega
      | slave third =>
        have later : line.val ≤ cascadeLine.val :=
          least cascadeLine ((mem_wired _).mpr (Or.inr ⟨rfl, third, raised⟩))
        show 16 * line.val ≤ 16 * cascadeLine.val + third.val
        omega
    · simp only [Option.bind_eq_bind, Option.bind_some, Finset.mem_singleton, isCascade, if_false]
      rfl

/-! ### The end of an interrupt -/

/-- An end of interrupt at a controller with one line in service. -/
theorem Chip.command_end {c : Chip} {line : Fin 8} (ready : c.expects = .ocw1) (serving : c.served = {line}) :
    c.command 0x20 = some { c with served := ∅ } := by
  unfold Chip.command
  rw [if_neg (by decide), if_pos ⟨rfl, ready⟩, serving, first_singleton]
  simp

/-- The second controller, before the first. -/
theorem outb_slave (ready : Ready p) {line : Fin 8} (serving : Serving p (.slave line)) :
    p.outb 0xA0 0x20 = some { p with slave.served := ∅ } := by
  unfold Pair.outb
  rw [if_neg (by decide), if_neg (by decide), if_pos rfl, Chip.command_end ready.slave serving.2]
  rfl

/-- The first controller, at the end. -/
theorem outb_master (ready : Ready p) {line : Fin 8} (serving : p.master.served = {line}) :
    p.outb 0x20 0x20 = some { p with master.served := ∅ } := by
  unfold Pair.outb
  rw [if_pos rfl, Chip.command_end ready.master serving]
  rfl

end Pic

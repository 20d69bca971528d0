/-
**Runs of a step function that may stop.**

A step function answers `none` where the program it stands for does not come back: a failed
assertion, a bad dereference, an endless loop. Two ways of speaking about *every* run, whatever its
length, and the induction rule of each.

* `Along step ok P s ops` — as long as each operation is allowed by `ok`, no step stops and `P`
  holds in every state the run passes through. Rules: `along_of_invariant`, and with the converse
  `along_iff_permitted`.
* `Refines step M agree c a ops` — the abstract machine `M` can follow the concrete run, accepting
  each output, and `agree` relates the two states throughout. Rule: `refines_of_simulation`.
-/
import Mathlib.Logic.Basic
import Mathlib.Data.List.Basic

namespace Runs

universe u v w

/-! ### Safety along a run -/

section Safety

variable {State : Type u} {Op : Type v}

/-- Along the run over `ops` from a state, every allowed operation comes back and `P` holds in each
state passed through. The run is followed only as far as its operations are allowed. -/
def Along (step : State → Op → Option State) (ok : State → Op → Prop) (P : State → Prop) :
    State → List Op → Prop
  | state, [] => P state
  | state, op :: ops =>
      P state ∧ (ok state op → ∃ next, step state op = some next ∧ Along step ok P next ops)

variable {step : State → Op → Option State} {ok : State → Op → Prop} {P : State → Prop}

theorem Along.here {state : State} {ops : List Op} (along : Along step ok P state ops) : P state := by
  cases ops with
  | nil => exact along
  | cons op ops => exact along.1

/-- Following one allowed step of the run. -/
theorem Along.tail {state next : State} {op : Op} {ops : List Op}
    (along : Along step ok P state (op :: ops)) (allowed : ok state op)
    (stepped : step state op = some next) : Along step ok P next ops := by
  obtain ⟨other, same, rest⟩ := along.2 allowed
  rw [stepped] at same
  cases same
  exact rest

/-- **The invariant rule.** What every allowed step keeps holds along every run. -/
theorem along_of_invariant (I : State → Prop)
    (keeps : ∀ state op, I state → ok state op → ∃ next, step state op = some next ∧ I next)
    (implies : ∀ state, I state → P state) (ops : List Op) :
    ∀ state, I state → Along step ok P state ops := by
  induction ops with
  | nil => exact fun state holds => implies state holds
  | cons op ops ih =>
    intro state holds
    refine ⟨implies state holds, fun allowed => ?_⟩
    obtain ⟨next, stepped, kept⟩ := keeps state op holds allowed
    exact ⟨next, stepped, ih next kept⟩

/-- Each operation of a run is allowed in the state it is reached in. -/
def Permitted (step : State → Op → Option State) (ok : State → Op → Prop) : State → List Op → Prop
  | _, [] => True
  | state, op :: ops => ok state op ∧ ∀ next ∈ step state op, Permitted step ok next ops

instance Permitted.decidable [∀ state op, Decidable (ok state op)] :
    ∀ (state : State) (ops : List Op), Decidable (Permitted step ok state ops)
  | _, [] => inferInstanceAs (Decidable True)
  | state, _ :: ops =>
      have : ∀ next, Decidable (Permitted step ok next ops) := fun next => decidable next ops
      inferInstanceAs (Decidable (_ ∧ ∀ next ∈ step state _, Permitted step ok next ops))

/-- **The invariant rule for runs that come back.** -/
theorem Permitted.at_end {I : State → Prop}
    (keeps : ∀ state op next, I state → ok state op → step state op = some next → I next)
    {ops : List Op} : ∀ {state last : State}, Permitted step ok state ops → I state →
      ops.foldlM step state = some last → I last := by
  induction ops with
  | nil =>
    intro state last _ holds ran
    cases ran
    exact holds
  | cons op ops ih =>
    intro state last permitted holds ran
    rw [List.foldlM_cons] at ran
    obtain ⟨next, stepped, rest⟩ := Option.bind_eq_some_iff.mp ran
    exact ih (permitted.2 next stepped) (keeps state op next holds permitted.1 stepped) rest

/-- `P` holds where a permitted run ends. -/
theorem Along.at_end {ops : List Op} : ∀ {state last : State}, Along step ok P state ops →
    Permitted step ok state ops → ops.foldlM step state = some last → P last := by
  induction ops with
  | nil =>
    intro state last along _ ran
    cases ran
    exact along
  | cons op ops ih =>
    intro state last along permitted ran
    rw [List.foldlM_cons] at ran
    obtain ⟨next, stepped, rest⟩ := Option.bind_eq_some_iff.mp ran
    exact ih (along.tail permitted.1 stepped) (permitted.2 next stepped) rest

/-- A permitted run comes back. -/
theorem Along.runs {ops : List Op} : ∀ {state : State}, Along step ok P state ops →
    Permitted step ok state ops → (ops.foldlM step state).isSome := by
  induction ops with
  | nil => exact fun _ _ => rfl
  | cons op ops ih =>
    intro state along permitted
    obtain ⟨next, stepped, rest⟩ := along.2 permitted.1
    rw [List.foldlM_cons, stepped]
    exact ih rest (permitted.2 next stepped)

/-- **The invariant rule, exactly.** When an operation that is not allowed always leads to a state
without `P`, then a run comes back with `P` throughout if and only if each operation is allowed. -/
theorem along_iff_permitted (I : State → Prop)
    (keeps : ∀ state op, I state → ok state op → ∃ next, step state op = some next ∧ I next)
    (implies : ∀ state, I state → P state)
    (breaks : ∀ state op next, I state → ¬ ok state op → step state op = some next → ¬ P next)
    (ops : List Op) :
    ∀ state, I state → (Along step (fun _ _ => True) P state ops ↔ Permitted step ok state ops) := by
  induction ops with
  | nil => exact fun state holds => ⟨fun _ => trivial, fun _ => implies state holds⟩
  | cons op ops ih =>
    intro state holds
    constructor
    · intro along
      obtain ⟨next, stepped, rest⟩ := along.2 trivial
      have allowed : ok state op := by
        by_contra notAllowed
        exact breaks state op next holds notAllowed stepped rest.here
      refine ⟨allowed, fun next' stepped' => ?_⟩
      obtain ⟨other, reached, kept⟩ := keeps state op holds allowed
      rw [Option.mem_def.mp stepped', Option.some.injEq] at reached
      rw [Option.mem_def.mp stepped', Option.some.injEq] at stepped
      subst reached stepped
      exact (ih _ kept).mp rest
    · rintro ⟨allowed, rest⟩
      obtain ⟨next, stepped, kept⟩ := keeps state op holds allowed
      exact ⟨implies state holds, fun _ => ⟨next, stepped, (ih next kept).mpr (rest next stepped)⟩⟩

end Safety

/-! ### Refinement of an abstract machine -/

section Refinement

variable {Concrete : Type u} {Abstract : Type v} {Op Out : Type w}

/-- An abstract machine: which operations a client may ask for in a state, and which next states an
output may lead to. -/
structure Machine (Abstract : Type v) (Op Out : Type w) where
  legal : Abstract → Op → Prop
  next : Abstract → Op → Out → Abstract → Prop

/-- The concrete run over `ops` never stops on a legal operation, the machine accepts each of its
outputs, and `agree` relates the two states before and after every operation. -/
def Refines (step : Concrete → Op → Option (Out × Concrete)) (machine : Machine Abstract Op Out)
    (agree : Concrete → Abstract → Prop) : Concrete → Abstract → List Op → Prop
  | concrete, ideal, [] => agree concrete ideal
  | concrete, ideal, op :: ops =>
      agree concrete ideal ∧ (machine.legal ideal op →
        ∃ out concrete' ideal', step concrete op = some (out, concrete') ∧
          machine.next ideal op out ideal' ∧ Refines step machine agree concrete' ideal' ops)

variable {step : Concrete → Op → Option (Out × Concrete)} {machine : Machine Abstract Op Out}
  {agree : Concrete → Abstract → Prop}

/-- **The simulation rule.** A relation that every legal operation keeps carries the refinement
through runs of any length. -/
theorem refines_of_simulation (R : Concrete → Abstract → Prop)
    (simulates : ∀ concrete ideal op, R concrete ideal → machine.legal ideal op →
      ∃ out concrete' ideal', step concrete op = some (out, concrete') ∧
        machine.next ideal op out ideal' ∧ R concrete' ideal')
    (implies : ∀ concrete ideal, R concrete ideal → agree concrete ideal) (ops : List Op) :
    ∀ concrete ideal, R concrete ideal → Refines step machine agree concrete ideal ops := by
  induction ops with
  | nil => exact fun concrete ideal related => implies concrete ideal related
  | cons op ops ih =>
    intro concrete ideal related
    refine ⟨implies concrete ideal related, fun legal => ?_⟩
    obtain ⟨out, concrete', ideal', stepped, accepted, kept⟩ :=
      simulates concrete ideal op related legal
    exact ⟨out, concrete', ideal', stepped, accepted, ih concrete' ideal' kept⟩

end Refinement

end Runs

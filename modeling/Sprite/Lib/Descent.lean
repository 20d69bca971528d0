/-
**Descents that come to an end.**

A recursion along a relation ends when no chain of steps goes on for ever. On finitely many points a chain
that goes on for ever passes some point twice.

* `no_cycle_of_acc` — a point that every descent from it ends at reaches no cycle.
* `acc_iff_no_cycle` — **on a finite type that is all there is to it**.
-/
import Mathlib.Data.Fintype.EquivFin
import Mathlib.Logic.Relation

namespace Descent

variable {α : Type*} {r : α → α → Prop} {a b : α}

/-- A step down leads to a point from which every descent ends, too. -/
theorem acc_of_reaches (acc : Acc (Function.swap r) a) (reaches : Relation.ReflTransGen r a b) :
    Acc (Function.swap r) b := by
  induction reaches with
  | refl => exact acc
  | tail _ step ih => exact ih.inv step

/-- Nothing on the way down is passed twice. -/
theorem not_cycle_of_acc (acc : Acc (Function.swap r) a) : ¬ Relation.TransGen r a a := by
  have along : Acc (Relation.TransGen (Function.swap r)) a := acc.transGen
  induction along with
  | intro a _ ih =>
    intro cycle
    have back := Relation.transGen_swap.mpr cycle
    exact ih a back acc cycle

theorem no_cycle_of_acc (acc : Acc (Function.swap r) a) (reaches : Relation.ReflTransGen r a b) :
    ¬ Relation.TransGen r b b := not_cycle_of_acc (acc_of_reaches acc reaches)

/-- **Every descent from a point of finitely many ends** exactly when it reaches no cycle. -/
theorem acc_iff_no_cycle [Finite α] : Acc (Function.swap r) a ↔
    ∀ b, Relation.ReflTransGen r a b → ¬ Relation.TransGen r b b := by
  refine ⟨fun acc b => no_cycle_of_acc acc, fun acyclic => ?_⟩
  -- Among the points that are reached, steps down are a transitive relation without cycles.
  let down : {b // Relation.ReflTransGen r a b} → {b // Relation.ReflTransGen r a b} → Prop :=
    fun x y => Relation.TransGen r y.1 x.1
  have : IsTrans _ down := ⟨fun _ _ _ first second => second.trans first⟩
  have : Std.Irrefl down := ⟨fun x cycle => acyclic x.1 x.2 cycle⟩
  have ends : WellFounded down := Finite.wellFounded_of_trans_of_irrefl down
  have each : ∀ x : {b // Relation.ReflTransGen r a b}, Acc (Function.swap r) x.1 := by
    intro x
    induction x using ends.induction with
    | _ y deeper => exact ⟨_, fun z step => deeper ⟨z, y.2.tail step⟩ (.single step)⟩
  exact each ⟨a, .refl⟩

end Descent

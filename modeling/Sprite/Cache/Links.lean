/-
**Links that lead nowhere else.**

After a node has come back while it was being evicted, the queue is no longer a ring. What remains
true is enough for the operations to come back: the queue has a head, and every link of a cached node
leads to a cached node.

* `Queue.Closed` — that much.
* `Closed.requeue`, `Closed.popFront`, `pushBack_closed` — the operations come back, and keep it.
* `Tied.comeIn` — so does a new node, also the first of all.
* `Closed.recycle` — so does an eviction whose callback promotes the node being evicted.
-/
import Sprite.Cache.LRUCache

namespace Sprite.Cache.Queue

/-- The head is one of the nodes, and all links of the nodes lead to nodes. -/
structure Closed (q : Queue) (nodes : Ptr → Prop) : Prop where
  head : ∃ x, q.queue_ = some x ∧ nodes x
  next : ∀ x, nodes x → ∃ y, q.next x = some y ∧ nodes y
  prev : ∀ x, nodes x → ∃ y, q.prev x = some y ∧ nodes y

variable {q : Queue} {nodes : Ptr → Prop} {x y : Ptr} {count size : Nat}

/-- A link set to a node leads to a node. -/
theorem leads_update {links : Ptr → Option Ptr} {x : Ptr}
    (leads : ∀ x', nodes x' → x' ≠ x → ∃ y, links x' = some y ∧ nodes y) (target : nodes y) :
    ∀ x', nodes x' → ∃ y', Function.update links x (some y) x' = some y' ∧ nodes y' := by
  intro x' member
  by_cases here : x' = x
  · exact ⟨y, by rw [here, Function.update_self], target⟩
  · rw [Function.update_of_ne here]
    exact leads x' member here

/-- **Pushing a node back** comes back when the head has a predecessor; the links of the node itself
do not matter. -/
theorem pushBack_closed {head last : Ptr} (isHead : q.queue_ = some head) (inside : nodes head)
    (behind : q.prev head = some last) (inside' : nodes last) (member : nodes x)
    (next : ∀ x', nodes x' → x' ≠ x → ∃ y, q.next x' = some y ∧ nodes y)
    (prev : ∀ x', nodes x' → x' ≠ x → ∃ y, q.prev x' = some y ∧ nodes y)
    (counted : q.count_ = count) (room : count < size) :
    ∃ q', q.pushBack size x = some q' ∧ q'.Closed nodes ∧ q'.count_ = count + 1 := by
  unfold Queue.pushBack
  simp only [counted, if_pos room, isHead, behind, Option.bind_eq_bind, Option.bind_some]
  refine ⟨_, rfl, ⟨⟨head, rfl, inside⟩, ?_, ?_⟩, rfl⟩
  · refine leads_update (fun x' member' other => ?_) inside
    by_cases here : x' = last
    · exact ⟨x, by rw [here, Function.update_self], member⟩
    · rw [Function.update_of_ne here]
      exact next x' member' other
  · refine leads_update (fun x' member' _ => ?_) member
    exact leads_update prev inside' x' member'

/-- The first node of all. -/
theorem pushBack_first (empty : q.queue_ = none) (counted : q.count_ = 0) (room : 0 < size) :
    ∃ q', q.pushBack size x = some q' ∧ q'.Closed (· = x) ∧ q'.count_ = 1 := by
  unfold Queue.pushBack
  simp only [counted, if_pos room, empty]
  refine ⟨_, rfl, ⟨⟨x, rfl, rfl⟩, ?_, ?_⟩, rfl⟩
  · rintro _ rfl
    exact ⟨_, Function.update_self _ _ _, rfl⟩
  · rintro _ rfl
    exact ⟨_, Function.update_self _ _ _, rfl⟩

/-- **Promoting a node** comes back. -/
theorem Closed.requeue (closed : q.Closed nodes) (member : nodes x) (counted : q.count_ = count + 1)
    (room : count < size) :
    ∃ q', q.requeue size x = some q' ∧ q'.Closed nodes ∧ q'.count_ = count + 1 := by
  obtain ⟨head, isHead, inside⟩ := closed.head
  obtain ⟨before, behind, inside'⟩ := closed.prev x member
  obtain ⟨after, ahead, inside''⟩ := closed.next x member
  have nexts := leads_update (x := before) (fun x' member' _ => closed.next x' member') inside''
  obtain ⟨after', ahead', inside₁⟩ := nexts x member
  have prevs := leads_update (x := after') (fun x' member' _ => closed.prev x' member') inside'
  -- The head of what `pushBack` is applied to: the old one, or the node behind it.
  obtain ⟨head', isHead', inside₂⟩ : ∃ head', (if some head = some x then some after' else some head)
      = some head' ∧ nodes head' := by
    split
    · exact ⟨after', rfl, inside₁⟩
    · exact ⟨head, rfl, inside⟩
  obtain ⟨last, behind', inside₃⟩ := prevs head' inside₂
  obtain ⟨q', pushed, closed', counted'⟩ := pushBack_closed (q := ⟨some head', count,
    Function.update q.prev after' (some before), Function.update q.next before (some after)⟩)
    rfl inside₂ behind' inside₃ member (fun x' member' _ => nexts x' member')
    (fun x' member' _ => prevs x' member') rfl room
  refine ⟨q', ?_, closed', counted'⟩
  rw [← pushed]
  simp only [Queue.requeue, Queue.detach, behind, ahead, Option.bind_eq_bind, Option.bind_some, ahead',
    Option.pure_def, isHead, counted, decrement]
  congr 1
  rw [← isHead']
  split <;> rfl

/-- **Giving up the head** comes back. -/
theorem Closed.popFront (closed : q.Closed nodes) (counted : q.count_ = count + 1) :
    ∃ q', q.popFront = some q' ∧ q'.Closed nodes ∧ q'.count_ = count := by
  obtain ⟨head, isHead, inside⟩ := closed.head
  obtain ⟨last, behind, inside'⟩ := closed.prev head inside
  obtain ⟨successor, ahead, inside''⟩ := closed.next head inside
  unfold Queue.popFront
  simp only [isHead, ahead, behind, counted, Option.bind_eq_bind, Option.bind_some]
  refine ⟨_, rfl, ⟨⟨successor, rfl, inside''⟩, ?_, ?_⟩, rfl⟩
  · exact leads_update (fun x' member' _ => closed.next x' member') inside''
  · exact leads_update (fun x' member' _ => closed.prev x' member') inside'

/-- **An eviction** whose callback promotes the node being evicted comes back. -/
theorem Closed.recycle {z : Ptr} (closed : q.Closed nodes) (isHead : q.queue_ = some z)
    (counted : q.count_ = count + 2) (room : count + 2 ≤ size) :
    ∃ q₁ q₂ q₃ q₄, q.popFront = some q₁ ∧ q₁.requeue size z = some q₂ ∧
      Queue.pushBack { q₂ with next := Function.update q₂.next z none } size z = some q₃ ∧
      q₃.requeue size z = some q₄ ∧ q₄.Closed nodes ∧ q₄.count_ = count + 2 := by
  have member : nodes z := by
    obtain ⟨head, isHead', inside⟩ := closed.head
    rw [isHead] at isHead'
    cases isHead'
    exact inside
  obtain ⟨q₁, popped, closed₁, counted₁⟩ := closed.popFront counted
  obtain ⟨q₂, requeued, closed₂, counted₂⟩ := closed₁.requeue member counted₁ (by omega : count < size)
  obtain ⟨head, isHead₂, inside⟩ := closed₂.head
  obtain ⟨last, behind, inside'⟩ := closed₂.prev head inside
  obtain ⟨q₃, pushed, closed₃, counted₃⟩ := pushBack_closed
    (q := { q₂ with next := Function.update q₂.next z none }) isHead₂ inside behind inside' member
    (fun x' member' other => by
      obtain ⟨y, ahead, inside⟩ := closed₂.next x' member'
      exact ⟨y, (Function.update_of_ne other _ _).trans ahead, inside⟩)
    (fun x' member' _ => closed₂.prev x' member') counted₂ (by omega : count + 1 < size)
  obtain ⟨q₄, requeued', closed₄, counted₄⟩ :=
    closed₃.requeue member counted₃ (by omega : count + 1 < size)
  exact ⟨q₁, q₂, q₃, q₄, popped, requeued, pushed, requeued', closed₄, counted₄⟩

/-- The links are closed, or there are no nodes yet. -/
def Tied (q : Queue) (nodes : Ptr → Prop) : Prop :=
  q.Closed nodes ∨ q.queue_ = none ∧ q.count_ = 0 ∧ ∀ x, ¬ nodes x

/-- **A new node** comes in. -/
theorem Tied.comeIn (tied : q.Tied nodes) (fresh : ¬ nodes x) (counted : q.count_ = count)
    (room : count < size) :
    ∃ q₁ q₂, Queue.pushBack { q with
        prev := Function.update q.prev x none
        next := Function.update q.next x none } size x = some q₁ ∧
      q₁.requeue size x = some q₂ ∧ q₂.Closed (fun y => nodes y ∨ y = x) ∧ q₂.count_ = count + 1 := by
  have pushed : ∃ q₁, Queue.pushBack { q with
        prev := Function.update q.prev x none
        next := Function.update q.next x none } size x = some q₁ ∧
      q₁.Closed (fun y => nodes y ∨ y = x) ∧ q₁.count_ = count + 1 := by
    rcases tied with closed | ⟨empty, zero, none⟩
    · obtain ⟨head, isHead, inside⟩ := closed.head
      obtain ⟨last, behind, inside'⟩ := closed.prev head inside
      have other : head ≠ x := fun same => fresh (same ▸ inside)
      have widen : ∀ links : Ptr → Option Ptr, (∀ y, nodes y → ∃ y', links y = some y' ∧ nodes y') →
          ∀ y, nodes y ∨ y = x → y ≠ x →
            ∃ y', Function.update links x none y = some y' ∧ (nodes y' ∨ y' = x) := by
        intro links leads y member notX
        obtain ⟨y', link, inside⟩ := leads y (member.resolve_right notX)
        exact ⟨y', (Function.update_of_ne notX _ _).trans link, .inl inside⟩
      exact pushBack_closed (q := { q with
        prev := Function.update q.prev x none
        next := Function.update q.next x none }) isHead (.inl inside)
        ((Function.update_of_ne other _ _).trans behind) (.inl inside') (.inr rfl)
        (widen q.next closed.next) (widen q.prev closed.prev) counted room
    · have nobody : (fun y => nodes y ∨ y = x) = (· = x) := by
        funext y
        exact propext (or_iff_right (none y))
      obtain rfl : count = 0 := counted.symm.trans zero
      rw [nobody]
      exact pushBack_first empty zero room
  obtain ⟨q₁, pushed, closed₁, counted₁⟩ := pushed
  obtain ⟨q₂, requeued, closed₂, counted₂⟩ := closed₁.requeue (.inr rfl) counted₁ room
  exact ⟨q₁, q₂, pushed, requeued, closed₂, counted₂⟩

end Sprite.Cache.Queue

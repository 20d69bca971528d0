/-
**The queue operations on a ring.**

The queue of the cache is a list of distinct nodes, the least recently used one first, spelled out by
the links of the nodes from `queue_` on.

* `Queue.Spells` — the queue is that list.
* `Queue.Awaits` — the list, and a node outside it that is about to come in at the end. After the
  only node has been taken out, `queue_` still points to it; `pushBack` of that node copes.
* `Awaits.pushBack`, `Spells.popFront`, `Spells.takeOut` — what the operations do to the list.
* `Spells.requeue`, `Awaits.comeIn` — the way of `Promote` through them, and that of a node coming in.
* `evict_turned`, `Spells.reenter` — what becomes of a node that comes back while it is being given up.
-/
import Sprite.Cache.LRUCache
import Sprite.Lib.Rings

namespace Sprite.Cache.Queue

open Rings

/-- The queue spells the list: it is a ring that starts at `queue_`. -/
structure Spells (q : Queue) (l : List Ptr) : Prop where
  nodup : l.Nodup
  counted : q.count_ = l.length
  head : q.queue_ = l.head?
  closed : Ring q.next q.prev l

/-- The queue spells the list, up to `queue_` when the list is empty, and `x` is not in it. -/
structure Awaits (q : Queue) (l : List Ptr) (x : Ptr) : Prop where
  nodup : l.Nodup
  counted : q.count_ = l.length
  fresh : x ∉ l
  head : q.queue_ = l.head? ∨ l = [] ∧ q.queue_ = some x ∧ q.prev x = some x
  closed : Ring q.next q.prev l

variable {q : Queue} {l : List Ptr} {x : Ptr} {size : Nat}

theorem Spells.awaits (spells : q.Spells l) (fresh : x ∉ l) : q.Awaits l x :=
  ⟨spells.nodup, spells.counted, fresh, .inl spells.head, spells.closed⟩

/-- The links of a node outside the list may be set. -/
theorem Spells.frame (spells : q.Spells l) (fresh : x ∉ l) (before after : Option Ptr) :
    Spells { q with
      prev := Function.update q.prev x before
      next := Function.update q.next x after } l := by
  refine ⟨spells.nodup, spells.counted, spells.head, spells.closed.congr fun node inside => ?_⟩
  have other : node ≠ x := fun same => fresh (same ▸ inside)
  exact ⟨Function.update_of_ne other _ _, Function.update_of_ne other _ _⟩

/-- The node that comes in may be linked forward to anything. -/
theorem Awaits.frame (awaits : q.Awaits l x) (after : Option Ptr) :
    Awaits { q with next := Function.update q.next x after } l x := by
  refine ⟨awaits.nodup, awaits.counted, awaits.fresh, awaits.head,
    awaits.closed.congr fun node inside => ⟨?_, rfl⟩⟩
  have other : node ≠ x := fun same => awaits.fresh (same ▸ inside)
  exact Function.update_of_ne other _ _

/-! ### One operation -/

theorem Awaits.pushBack (awaits : q.Awaits l x) (room : l.length < size) :
    ∃ q', q.pushBack size x = some q' ∧ q'.Spells (l ++ [x]) := by
  have distinct : (l ++ [x]).Nodup :=
    List.nodup_append.mpr ⟨awaits.nodup, List.nodup_singleton x, fun node inside other isX same =>
      awaits.fresh (by rwa [← List.mem_singleton.mp isX, ← same])⟩
  have counted : q.count_ + 1 = (l ++ [x]).length := by
    rw [awaits.counted, List.length_append, List.length_singleton]
  unfold Queue.pushBack
  rw [if_pos (awaits.counted ▸ room)]
  cases isHead : l.head? with
  | none =>
    rw [List.head?_eq_none_iff] at isHead
    subst isHead
    rcases awaits.head with empty | ⟨_, dangling, own⟩
    · rw [empty]
      refine ⟨_, rfl, distinct, counted, rfl, ring_singleton.mpr ⟨?_, ?_⟩⟩
      · exact Function.update_self _ _ _
      · exact Function.update_self _ _ _
    · simp only [dangling, own, Option.bind_eq_bind, Option.bind_some]
      refine ⟨_, rfl, distinct, counted, rfl, ring_singleton.mpr ⟨?_, ?_⟩⟩
      · exact Function.update_self _ _ _
      · exact Function.update_self _ _ _
  | some first =>
    have head : q.queue_ = some first := by
      rcases awaits.head with head | ⟨empty, _⟩
      · rw [head, isHead]
      · rw [empty] at isHead
        cases isHead
    obtain ⟨last, tail⟩ : ∃ last, l.getLast? = some last := by
      cases l with
      | nil => cases isHead
      | cons node rest => exact ⟨_, List.getLast?_cons⟩
    have back : q.prev first = some last := ((chain_iff isHead tail).mp awaits.closed).2.2
    simp only [head, back, Option.bind_eq_bind, Option.bind_some]
    refine ⟨_, rfl, distinct, counted, ?_, ?_⟩
    · rw [List.head?_append, isHead]
      rfl
    · exact awaits.closed.link awaits.nodup awaits.fresh isHead tail

/-- The head is taken out. -/
theorem Spells.popFront {z : Ptr} (spells : q.Spells (z :: l)) :
    ∃ q', q.popFront = some q' ∧ q'.Awaits l z := by
  obtain ⟨fresh, distinct⟩ := List.nodup_cons.mp spells.nodup
  have isHead : q.queue_ = some z := spells.head
  have counted : decrement q.count_ = l.length := by rw [spells.counted]; rfl
  unfold Queue.popFront
  cases l with
  | nil =>
    obtain ⟨ahead, behind⟩ := ring_singleton.mp spells.closed
    simp only [isHead, ahead, behind, Option.bind_eq_bind, Option.bind_some]
    refine ⟨_, rfl, List.nodup_nil, counted, fresh, .inr ⟨rfl, rfl, ?_⟩, Cycle.Chain.nil _⟩
    exact Function.update_self _ _ _
  | cons first rest =>
    have tail : (first :: rest).getLast? = some _ := List.getLast?_cons
    obtain ⟨ahead, _, behind⟩ := spells.closed.neighbours rfl tail
    have unlinked := spells.closed.unlink distinct rfl tail
    rw [ahead.1] at unlinked
    simp only [isHead, ahead.1, behind.2, Option.bind_eq_bind, Option.bind_some]
    rw [behind.2] at unlinked
    exact ⟨_, rfl, distinct, counted, fresh, .inl rfl, unlinked⟩

/-- `detach`, and `queue_` moved on if it was the node detached. -/
theorem Spells.takeOut (spells : q.Spells l) (member : x ∈ l) :
    ∃ q', q.detach x = some q' ∧
      Awaits (if q'.queue_ = some x then { q' with queue_ := q'.next x } else q') (l.erase x) x := by
  obtain ⟨front, back, rfl⟩ := List.append_of_mem member
  have distinct := spells.nodup
  rw [List.nodup_append, List.nodup_cons] at distinct
  obtain ⟨_, ⟨notBack, _⟩, apart⟩ := distinct
  have notFront : x ∉ front := fun inside => apart x inside x List.mem_cons_self rfl
  have fresh : x ∉ front ++ back := by
    rw [List.mem_append]
    exact fun either => either.elim notFront notBack
  have shorter : (front ++ x :: back).erase x = front ++ back := by
    rw [List.erase_append_right _ notFront, List.erase_cons_head]
  have distinct : (front ++ back).Nodup := shorter ▸ spells.nodup.erase x
  have counted : decrement q.count_ = (front ++ back).length := by
    rw [spells.counted, List.length_append, List.length_cons, ← Nat.add_assoc, List.length_append]
    rfl
  have turned : Ring q.next q.prev (x :: (back ++ front)) := ring_rotate spells.closed
  rw [shorter]
  unfold Queue.detach
  cases rest : back ++ front with
  | nil =>
    obtain ⟨rfl, rfl⟩ := List.append_eq_nil_iff.mp rest
    obtain ⟨ahead, behind⟩ := ring_singleton.mp turned
    have isHead : q.queue_ = some x := spells.head
    simp only [behind, Option.bind_eq_bind, Option.bind_some, Function.update_self, ahead]
    refine ⟨_, rfl, ?_⟩
    rw [if_pos isHead]
    exact ⟨List.nodup_nil, counted, fresh,
      .inr ⟨rfl, Function.update_self _ _ _, Function.update_self _ _ _⟩, Cycle.Chain.nil _⟩
  | cons first others =>
    obtain ⟨last, tail⟩ : ∃ last, (back ++ front).getLast? = some last := by
      rw [rest]
      exact ⟨_, List.getLast?_cons⟩
    have head : (back ++ front).head? = some first := by rw [rest]; rfl
    obtain ⟨ahead, _, behind⟩ := turned.neighbours head tail
    have distinct' : (back ++ front).Nodup := List.nodup_append_comm.mp distinct
    have unlinked := ring_rotate (turned.unlink distinct' head tail)
    have kept : Function.update q.next last (q.next x) x = some first := by
      rw [Function.update_of_ne, ahead.1]
      intro same
      have inside := List.mem_of_getLast? tail
      rw [← same, List.mem_append] at inside
      exact inside.elim notBack notFront
    simp only [behind.2, Option.bind_eq_bind, Option.bind_some, kept]
    refine ⟨_, rfl, ?_⟩
    rw [behind.2] at unlinked
    cases front with
    | nil =>
      have isHead : q.queue_ = some x := spells.head
      rw [if_pos isHead]
      refine ⟨distinct, counted, fresh, .inl (kept.trans ?_), unlinked⟩
      rw [← head, List.append_nil, List.nil_append]
    | cons node nodes =>
      have isHead : q.queue_ = some node := spells.head
      have notX : q.queue_ ≠ some x := by
        rw [isHead]
        exact fun same => notFront (Option.some.inj same ▸ List.mem_cons_self)
      rw [if_neg notX]
      exact ⟨distinct, counted, fresh, .inl isHead, unlinked⟩

/-! ### The operations in sequence -/

/-- **`Promote` moves a node to the end.** -/
theorem Spells.requeue (spells : q.Spells l) (member : x ∈ l) (room : l.length ≤ size) :
    ∃ q', q.requeue size x = some q' ∧ q'.Spells (l.erase x ++ [x]) := by
  obtain ⟨taken, detached, awaits⟩ := spells.takeOut member
  have shorter : (l.erase x).length < size := by
    have nonempty := List.length_pos_of_mem member
    rw [List.length_erase_of_mem member]
    omega
  obtain ⟨q', pushed, spells'⟩ := awaits.pushBack shorter
  refine ⟨q', ?_, spells'⟩
  simp only [Queue.requeue, detached, Option.bind_eq_bind, Option.bind_some]
  exact pushed

theorem erase_concat (fresh : x ∉ l) : (l ++ [x]).erase x ++ [x] = l ++ [x] := by
  rw [List.erase_append_right _ fresh, List.erase_cons_head, List.append_nil]

/-- **A node that comes in** is pushed back, and promoted where it is. -/
theorem Awaits.comeIn (awaits : q.Awaits l x) (room : l.length < size) :
    ∃ q₁ q₂, q.pushBack size x = some q₁ ∧ q₁.requeue size x = some q₂ ∧ q₂.Spells (l ++ [x]) := by
  obtain ⟨q₁, pushed, spells₁⟩ := awaits.pushBack room
  have member : x ∈ l ++ [x] := List.mem_append_right _ (List.mem_singleton_self x)
  have room' : (l ++ [x]).length ≤ size := by
    rw [List.length_append, List.length_singleton]
    omega
  obtain ⟨q₂, requeued, spells₂⟩ := spells₁.requeue member room'
  rw [erase_concat awaits.fresh] at spells₂
  exact ⟨q₁, q₂, pushed, requeued, spells₂⟩

/-! ### The operations with their links -/

variable {q' : Queue} {z first last before y : Ptr} {count : Nat}

/-- A node has been linked in behind `last`, before the head. -/
structure Linked (q q' : Queue) (z first last : Ptr) (count : Nat) : Prop where
  head : q'.queue_ = some first
  counted : q'.count_ = count
  ahead : q'.next z = some first
  behind : q'.prev z = some last
  back : q'.prev first = some z
  toward : z ≠ last → q'.next last = some z
  next : ∀ x, x ≠ z → x ≠ last → q'.next x = q.next x
  prev : ∀ x, x ≠ z → x ≠ first → q'.prev x = q.prev x

theorem pushBack_linked (notFirst : z ≠ first) (head : q.queue_ = some first)
    (behind : q.prev first = some last) (counted : q.count_ = count) (room : count < size) :
    ∃ q', q.pushBack size z = some q' ∧ Linked q q' z first last (count + 1) := by
  unfold pushBack
  simp only [counted, if_pos room, head, behind, Option.bind_eq_bind, Option.bind_some]
  refine ⟨_, rfl, rfl, rfl, Function.update_self _ _ _, ?_, Function.update_self _ _ _, fun notLast => ?_,
    fun x other notLast => ?_, fun x other notFirst' => ?_⟩
  · exact (Function.update_of_ne notFirst _ _).trans (Function.update_self _ _ _)
  · exact (Function.update_of_ne (Ne.symm notLast) _ _).trans (Function.update_self _ _ _)
  · exact (Function.update_of_ne other _ _).trans (Function.update_of_ne notLast _ _)
  · exact (Function.update_of_ne notFirst' _ _).trans (Function.update_of_ne other _ _)

theorem detach_spec (behind : q.prev z = some before) (ahead : q.next z = some y) :
    q.detach z = some { q with
      count_ := decrement q.count_
      prev := Function.update q.prev y (some before)
      next := Function.update q.next before (some y) } := by
  have stays : Function.update q.next before (some y) z = some y := by
    by_cases own : z = before
    · rw [own, Function.update_self]
    · rw [Function.update_of_ne own, ahead]
  unfold detach
  simp only [behind, ahead, stays, Option.bind_eq_bind, Option.bind_some, Option.pure_def]

/-- A promotion of the node before the head leaves it there. -/
theorem requeue_linked (notFirst : z ≠ first) (head : q.queue_ = some first)
    (ahead : q.next z = some first) (behind : q.prev z = some before) (counted : q.count_ = count + 1)
    (room : count < size) :
    ∃ q', q.requeue size z = some q' ∧ Linked q q' z first before (count + 1) := by
  have notHead : some first ≠ some z := fun same => notFirst (Option.some.inj same).symm
  obtain ⟨q', pushed, linked⟩ := pushBack_linked (q := { q with
    count_ := count
    prev := Function.update q.prev first (some before)
    next := Function.update q.next before (some first) }) notFirst head (Function.update_self _ _ _) rfl room
  refine ⟨q', ?_, linked.head, linked.counted, linked.ahead, linked.behind, linked.back, linked.toward,
    fun x other notLast => ?_, fun x other notFirst' => ?_⟩
  · unfold requeue
    simp only [detach_spec behind ahead, head, if_neg notHead, counted, decrement, Option.bind_eq_bind,
      Option.bind_some]
    rw [← pushed, head]
  · exact (linked.next x other notLast).trans (Function.update_of_ne notLast _ _)
  · exact (linked.prev x other notFirst').trans (Function.update_of_ne notFirst' _ _)

/-! ### A node that is put in twice -/

/-- **An eviction whose callback promotes the node** moves the node behind the others, and makes it its
own predecessor. -/
structure Turned (q q' : Queue) (z first last : Ptr) : Prop where
  head : q'.queue_ = some first
  counted : q'.count_ = q.count_
  ahead : q'.next z = some first
  behind : q'.prev z = some z
  back : q'.prev first = some z
  toward : q'.next last = some z
  next : ∀ x, x ≠ z → x ≠ last → q'.next x = q.next x
  prev : ∀ x, x ≠ z → x ≠ first → q'.prev x = q.prev x

theorem evict_turned (head : q.queue_ = some z) (ahead : q.next z = some first)
    (behind : q.prev z = some last) (notFirst : z ≠ first) (notLast : z ≠ last)
    (counted : q.count_ = count + 2) (room : count + 2 ≤ size) :
    ∃ q₁ q₂ q₃ q₄, q.popFront = some q₁ ∧ q₁.requeue size z = some q₂ ∧
      Queue.pushBack { q₂ with next := Function.update q₂.next z none } size z = some q₃ ∧
      q₃.requeue size z = some q₄ ∧ Turned q q₄ z first last := by
  have popped : q.popFront = some
      { queue_ := some first
        count_ := count + 1
        prev := Function.update q.prev first (some last)
        next := Function.update q.next last (some first) } := by
    unfold popFront
    simp only [head, ahead, behind, counted, decrement, Option.bind_eq_bind, Option.bind_some,
      Option.pure_def]
  obtain ⟨q₂, requeued, linked₂⟩ := requeue_linked (q :=
      { queue_ := some first
        count_ := count + 1
        prev := Function.update q.prev first (some last)
        next := Function.update q.next last (some first) }) notFirst rfl
    ((Function.update_of_ne notLast _ _).trans ahead) ((Function.update_of_ne notFirst _ _).trans behind)
    rfl (Nat.lt_of_succ_lt room)
  obtain ⟨q₃, pushed, linked₃⟩ := pushBack_linked
    (q := { q₂ with next := Function.update q₂.next z none }) notFirst linked₂.head linked₂.back
    linked₂.counted room
  obtain ⟨q₄, requeued', linked₄⟩ :=
    requeue_linked notFirst linked₃.head linked₃.ahead linked₃.behind linked₃.counted room
  refine ⟨_, q₂, q₃, q₄, popped, requeued, pushed, requeued', linked₄.head,
    linked₄.counted.trans counted.symm, linked₄.ahead, linked₄.behind, linked₄.back, ?_,
    fun x other notLast' => ?_, fun x other notFirst' => ?_⟩
  · rw [linked₄.next last notLast.symm notLast.symm, linked₃.next last notLast.symm notLast.symm]
    exact (Function.update_of_ne notLast.symm _ _).trans (linked₂.toward notLast)
  · rw [linked₄.next x other other, linked₃.next x other other]
    refine (Function.update_of_ne other _ _).trans ((linked₂.next x other notLast').trans ?_)
    exact Function.update_of_ne notLast' _ _
  · rw [linked₄.prev x other notFirst', linked₃.prev x other notFirst']
    exact (linked₂.prev x other notFirst').trans (Function.update_of_ne notFirst' _ _)

/-- The head is another node, linked back to `before`; so is the node. -/
structure Hangs (q : Queue) (count : Nat) (z first before : Ptr) : Prop where
  head : q.queue_ = some first
  counted : q.count_ = count
  ahead : q.next z = some first
  behind : q.prev z = some before

/-- **A node that comes back while it is being given up** ends as its own predecessor. -/
theorem Spells.reenter (spells : q.Spells (z :: first :: l)) (room : l.length + 1 < size) :
    ∃ q₁ q₂ q₃ q₄, q.popFront = some q₁ ∧ q₁.requeue size z = some q₂ ∧
      Queue.pushBack { q₂ with next := Function.update q₂.next z none } size z = some q₃ ∧
      q₃.requeue size z = some q₄ ∧ q₄.Hangs (l.length + 2) z first z := by
  obtain ⟨fresh, _⟩ := List.nodup_cons.mp spells.nodup
  have tail : (first :: l).getLast? = some _ := List.getLast?_cons
  obtain ⟨ahead, _, behind⟩ := spells.closed.neighbours rfl tail
  have notFirst : z ≠ first := fun same => fresh (same ▸ List.mem_cons_self)
  have notLast : z ≠ _ := fun same => fresh (same ▸ List.mem_of_getLast? tail)
  obtain ⟨q₁, q₂, q₃, q₄, popped, requeued, pushed, requeued', turned⟩ :=
    evict_turned spells.head ahead.1 behind.2 notFirst notLast spells.counted room
  exact ⟨q₁, q₂, q₃, q₄, popped, requeued, pushed, requeued',
    turned.head, turned.counted.trans spells.counted, turned.ahead, turned.behind⟩

end Sprite.Cache.Queue

/-
**Evictions that turn the queue.**

A node that the callback promotes while it is being evicted is its own predecessor afterwards. The
forward links are right all the same, and so is the link from the head back to the last node, which is
all that the next eviction uses: the nodes are given up in turn. A promotion uses the link back of the
node promoted.

* `Turns`, `Spells.turns` — the nodes that evictions give up in turn; those of a ring are.
* `Turns.turn` — an eviction moves the head behind the others.
* `Turns.cut` — **a promotion of the node behind the head**, when it is its own predecessor, leaves only
  these two in turn.
-/
import Sprite.Cache.Queue

namespace Sprite.Cache.Queue

/-- **The nodes given up in turn**: the forward links go round them, and the head is linked back to the
last one. -/
structure Turns (q : Queue) (ring : List Ptr) : Prop where
  nodup : ring.Nodup
  head : q.queue_ = ring.head?
  chain : ring.IsChain fun x y => q.next x = some y
  closed : ∀ last ∈ ring.getLast?, ∀ first ∈ ring.head?,
    q.next last = some first ∧ q.prev first = some last

variable {q : Queue} {z first y : Ptr} {l : List Ptr} {count size : Nat}

theorem Spells.turns (spells : q.Spells l) : q.Turns l := by
  cases l with
  | nil => exact ⟨spells.nodup, spells.head, .nil, fun last impossible => by cases impossible⟩
  | cons z l =>
    have tail : (z :: l).getLast? = some _ := List.getLast?_cons
    obtain ⟨chain, back⟩ := (Rings.chain_iff rfl tail).mp spells.closed
    refine ⟨spells.nodup, spells.head, chain.imp fun _ _ link => link.1, fun last isLast first isFirst => ?_⟩
    cases tail.symm.trans isLast
    cases isFirst
    exact back

/-- **The nodes turn**: the head is given up, and comes behind the others. -/
theorem Turns.turn (turns : q.Turns (z :: first :: l)) (counted : q.count_ = count + 2)
    (room : count + 2 ≤ size) :
    ∃ q₁ q₂ q₃ q₄, q.popFront = some q₁ ∧ q₁.requeue size z = some q₂ ∧
      Queue.pushBack { q₂ with next := Function.update q₂.next z none } size z = some q₃ ∧
      q₃.requeue size z = some q₄ ∧ q₄.Turns (first :: l ++ [z]) ∧ q₄.count_ = q.count_ ∧
      q₄.prev z = some z ∧ ∀ x, x ≠ z → x ≠ first → q₄.prev x = q.prev x := by
  obtain ⟨fresh, distinct⟩ := List.nodup_cons.mp turns.nodup
  obtain ⟨ahead, chain⟩ := List.isChain_cons_cons.mp turns.chain
  obtain ⟨last, tail⟩ : ∃ last, (first :: l).getLast? = some last := ⟨_, List.getLast?_cons⟩
  have inside := List.mem_of_getLast? tail
  have notFirst : z ≠ first := fun same => fresh (same ▸ List.mem_cons_self)
  have notLast : z ≠ last := fun same => fresh (same ▸ inside)
  obtain ⟨_, behind⟩ := turns.closed last (by simpa using tail) z rfl
  obtain ⟨q₁, q₂, q₃, q₄, popped, requeued, pushed, requeued', turned⟩ :=
    evict_turned turns.head ahead behind notFirst notLast counted room
  refine ⟨q₁, q₂, q₃, q₄, popped, requeued, pushed, requeued', ⟨?_, turned.head, ?_, ?_⟩,
    turned.counted, turned.behind, turned.prev⟩
  · exact List.nodup_append.mpr ⟨distinct, List.nodup_singleton z, fun x member w isZ same =>
      fresh (by rwa [← List.mem_singleton.mp isZ, ← same])⟩
  · refine List.isChain_append.mpr ⟨?_, List.isChain_singleton z, fun x isLast w isZ => ?_⟩
    · refine Rings.isChain_imp_sources chain fun x member y link => ?_
      have other : x ≠ z := fun same => fresh (same ▸ List.mem_of_mem_dropLast member)
      rw [turned.next x other (Rings.last_notMem distinct tail x member), link]
    · obtain rfl : last = x := Option.some.inj (tail.symm.trans isLast)
      obtain rfl : z = w := Option.some.inj isZ
      exact turned.toward
  · intro x isLast y isFirst
    obtain rfl : z = x := by
      rw [List.getLast?_append, List.getLast?_singleton] at isLast
      exact Option.some.inj isLast
    obtain rfl : first = y := Option.some.inj isFirst
    exact ⟨turned.ahead, turned.back⟩

/-- **A promotion cuts the others off**: the node behind the head, when it is its own predecessor, comes
before the head and leaves out what was between. -/
theorem Turns.cut (turns : q.Turns (z :: y :: l)) (own : q.prev y = some y) (more : l ≠ [])
    (counted : q.count_ = count + 1) (room : count < size) :
    ∃ q', q.requeue size y = some q' ∧ q'.Turns [z, y] ∧ q'.count_ = count + 1 := by
  obtain ⟨fresh, distinct⟩ := List.nodup_cons.mp turns.nodup
  obtain ⟨w, l, rfl⟩ := List.exists_cons_of_ne_nil more
  obtain ⟨_, chain⟩ := List.isChain_cons_cons.mp turns.chain
  obtain ⟨ahead, _⟩ := List.isChain_cons_cons.mp chain
  obtain ⟨last, tail⟩ : ∃ last, (w :: l).getLast? = some last := ⟨_, List.getLast?_cons⟩
  have inside := List.mem_of_getLast? tail
  have notHead : y ≠ z := fun same => fresh (same ▸ List.mem_cons_self)
  have notNext : z ≠ w := by
    rintro rfl
    exact fresh (List.mem_cons_of_mem y List.mem_cons_self)
  have notLast : z ≠ last := fun same => fresh (List.mem_cons_of_mem y (same ▸ inside))
  have link : q.next z = some y := (List.isChain_cons_cons.mp turns.chain).1
  obtain ⟨_, behind⟩ := turns.closed last (by simpa using tail) z rfl
  have head : q.queue_ = some z := turns.head
  have notHead' : some z ≠ some y := fun same => notHead (Option.some.inj same).symm
  obtain ⟨q', pushed, linked⟩ := pushBack_linked (q := { q with
    count_ := count
    prev := Function.update q.prev w (some y)
    next := Function.update q.next y (some w) }) notHead head
    ((Function.update_of_ne notNext _ _).trans behind) rfl room
  refine ⟨q', ?_, ⟨?_, linked.head, ?_, ?_⟩, linked.counted⟩
  · unfold requeue
    simp only [detach_spec own ahead, head, if_neg notHead', counted, decrement, Option.bind_eq_bind,
      Option.bind_some]
    rw [← pushed, head]
  · exact List.nodup_cons.mpr ⟨fun member => notHead (List.mem_singleton.mp member).symm,
      List.nodup_singleton y⟩
  · refine List.isChain_cons_cons.mpr ⟨?_, List.isChain_singleton y⟩
    exact (linked.next z notHead.symm notLast).trans ((Function.update_of_ne notHead.symm _ _).trans link)
  · intro x isLast first isFirst
    obtain rfl : y = x := Option.some.inj isLast
    obtain rfl : z = first := Option.some.inj isFirst
    exact ⟨linked.ahead, linked.back⟩

end Sprite.Cache.Queue

/-
**Circular lists.**

A ring is a list of distinct nodes, closed up: each node is related to the one behind it and the last
one to the first. The nodes carry the links, the list is what they spell.

* `chain_rotate` — where the list starts does not matter.
* `chain_iff` — a ring is a chain whose last node is linked to its first.
* `Ring` — doubly linked: `next` and `prev` are each other's inverse along the list.
* `Ring.unlink`, `Ring.link` — taking the first node out, and putting one in between the last node
  and the first, each by the four pointer writes that do it.
* `Ring.around` — every node of a ring has neighbours that know it.
-/
import Mathlib.Data.List.Cycle
import Mathlib.Logic.Function.Basic

namespace Rings

variable {Node : Type*} {R S : Node → Node → Prop}

/-! ### Closed chains -/

theorem chain_rotate {front back : List Node} :
    Cycle.Chain R (front ++ back : List Node) ↔ Cycle.Chain R (back ++ front : List Node) := by
  have same : ((front ++ back : List Node) : Cycle Node) = (back ++ front : List Node) :=
    Cycle.coe_eq_coe.mpr List.isRotated_append
  rw [same]

/-- A ring is a chain whose last node is linked to its first. -/
theorem chain_iff {ring : List Node} {first last : Node} (head : ring.head? = some first)
    (tail : ring.getLast? = some last) :
    Cycle.Chain R (ring : Cycle Node) ↔ ring.IsChain R ∧ R last first := by
  cases ring with
  | nil => cases head
  | cons node rest =>
    cases head
    rw [Cycle.chain_coe_cons, ← List.cons_append, List.isChain_append, tail]
    simp

/-- A relation needs to be kept only between a node that is not the last and one that is not the
first. -/
theorem isChain_imp_ends {chain : List Node} (linked : chain.IsChain R)
    (keeps : ∀ node ∈ chain.dropLast, ∀ node' ∈ chain.tail, R node node' → S node node') :
    chain.IsChain S := by
  induction chain with
  | nil => exact .nil
  | cons node rest ih =>
    cases rest with
    | nil => exact .singleton node
    | cons node' rest =>
      rw [List.isChain_cons_cons] at linked ⊢
      refine ⟨keeps _ (by simp) _ (by simp) linked.1, ih linked.2 ?_⟩
      intro left inside right behind
      exact keeps left (by simp [inside]) right (List.mem_of_mem_tail behind)

/-- A chain of one-way links depends on the links of all nodes but the last. -/
theorem isChain_imp_sources {chain : List Node} (linked : chain.IsChain R)
    (keeps : ∀ node ∈ chain.dropLast, ∀ node', R node node' → S node node') : chain.IsChain S :=
  isChain_imp_ends linked fun node inside node' _ => keeps node inside node'

theorem last_notMem {chain : List Node} (nodup : chain.Nodup) {last : Node}
    (tail : chain.getLast? = some last) : ∀ node ∈ chain.dropLast, node ≠ last := by
  obtain ⟨init, rfl⟩ := List.getLast?_eq_some_iff.mp tail
  intro node inside same
  rw [List.dropLast_concat] at inside
  rw [List.nodup_append] at nodup
  exact nodup.2.2 node inside last (List.mem_singleton_self last) same

theorem first_notMem {chain : List Node} (nodup : chain.Nodup) {first : Node}
    (head : chain.head? = some first) : ∀ node ∈ chain.tail, node ≠ first := by
  cases chain with
  | nil => cases head
  | cons node rest =>
    cases head
    rintro other inside rfl
    exact (List.nodup_cons.mp nodup).1 inside

/-! ### Doubly linked rings -/

/-- `node'` comes behind `node`, and both know it. -/
def Linked (next prev : Node → Option Node) (node node' : Node) : Prop :=
  next node = some node' ∧ prev node' = some node

/-- The links spell the list, and close it. -/
def Ring (next prev : Node → Option Node) (ring : List Node) : Prop :=
  Cycle.Chain (Linked next prev) (ring : Cycle Node)

variable {next prev : Node → Option Node} {ring : List Node} {node first last : Node}

theorem ring_singleton : Ring next prev [node] ↔ next node = some node ∧ prev node = some node := by
  rw [Ring, chain_iff rfl rfl]
  simp [Linked]

theorem ring_rotate {front back : List Node} (closed : Ring next prev (front ++ back)) :
    Ring next prev (back ++ front) :=
  chain_rotate.mp closed

/-- Links of other nodes do not matter. -/
theorem Ring.congr {next' prev' : Node → Option Node} (closed : Ring next prev ring)
    (same : ∀ node ∈ ring, next' node = next node ∧ prev' node = prev node) :
    Ring next' prev' ring := by
  cases head : ring.head? with
  | none =>
    rw [List.head?_eq_none_iff] at head
    rw [head]
    exact Cycle.Chain.nil _
  | some first =>
    have keeps : ∀ left ∈ ring, ∀ right ∈ ring, Linked next prev left right →
        Linked next' prev' left right := fun left inside right inside' link => by
      unfold Linked
      rwa [(same left inside).1, (same right inside').2]
    obtain ⟨last, tail⟩ : ∃ last, ring.getLast? = some last := by
      cases ring with
      | nil => cases head
      | cons node rest => exact ⟨_, List.getLast?_cons⟩
    obtain ⟨chain, back⟩ := (chain_iff head tail).mp closed
    refine (chain_iff head tail).mpr ⟨?_, ?_⟩
    · exact chain.imp_of_mem_imp fun left right inside inside' => keeps left inside right inside'
    · exact keeps last (List.mem_of_getLast? tail) first (List.mem_of_head? head) back

/-- The neighbours of the first node. -/
theorem Ring.neighbours (closed : Ring next prev (node :: ring)) (head : ring.head? = some first)
    (tail : ring.getLast? = some last) :
    Linked next prev node first ∧ ring.IsChain (Linked next prev) ∧ Linked next prev last node := by
  have tail' : (node :: ring).getLast? = some last := by
    cases ring with
    | nil => cases head
    | cons other rest => rwa [List.getLast?_cons_cons]
  obtain ⟨chain, back⟩ := (chain_iff rfl tail').mp closed
  rw [List.isChain_cons] at chain
  exact ⟨chain.1 first head, chain.2, back⟩

variable [DecidableEq Node]

/-- **Taking the first node out.** -/
theorem Ring.unlink (closed : Ring next prev (node :: ring)) (nodup : ring.Nodup)
    (head : ring.head? = some first) (tail : ring.getLast? = some last) :
    Ring (Function.update next last (next node)) (Function.update prev first (prev node)) ring := by
  obtain ⟨ahead, chain, behind⟩ := closed.neighbours head tail
  rw [Ring, chain_iff head tail]
  constructor
  · refine isChain_imp_ends chain fun left inside right after link => ?_
    unfold Linked
    rw [Function.update_of_ne (last_notMem nodup tail left inside),
      Function.update_of_ne (first_notMem nodup head right after)]
    exact link
  · unfold Linked
    rw [Function.update_self, Function.update_self]
    exact ⟨ahead.1, behind.2⟩

/-- **Putting a node in** between the last node and the first. -/
theorem Ring.link (closed : Ring next prev ring) (nodup : ring.Nodup) (fresh : node ∉ ring)
    (head : ring.head? = some first) (tail : ring.getLast? = some last) :
    Ring (Function.update (Function.update next last (some node)) node (some first))
      (Function.update (Function.update prev node (some last)) first (some node))
      (ring ++ [node]) := by
  have isFirst : first ∈ ring := List.mem_of_head? head
  have isLast : last ∈ ring := List.mem_of_getLast? tail
  have head' : (ring ++ [node]).head? = some first := by simp [head]
  have tail' : (ring ++ [node]).getLast? = some node := by simp
  obtain ⟨chain, _⟩ := (chain_iff head tail).mp closed
  rw [Ring, chain_iff head' tail', List.isChain_append]
  refine ⟨⟨?_, List.IsChain.singleton node, ?_⟩, ?_⟩
  · refine isChain_imp_ends chain fun left inside right after link => ?_
    have leftNe : left ≠ node := fun same => fresh (same ▸ List.mem_of_mem_dropLast inside)
    have rightNe : right ≠ node := fun same => fresh (same ▸ List.mem_of_mem_tail after)
    unfold Linked
    rw [Function.update_of_ne leftNe, Function.update_of_ne (last_notMem nodup tail left inside),
      Function.update_of_ne (first_notMem nodup head right after), Function.update_of_ne rightNe]
    exact link
  · intro left isLeft right isRight
    cases tail.symm.trans isLeft
    cases isRight
    have lastNe : last ≠ node := fun same => fresh (same ▸ isLast)
    have firstNe : node ≠ first := fun same => fresh (same ▸ isFirst)
    unfold Linked
    rw [Function.update_of_ne lastNe, Function.update_self, Function.update_of_ne firstNe,
      Function.update_self]
    exact ⟨rfl, rfl⟩
  · unfold Linked
    rw [Function.update_self, Function.update_self]
    exact ⟨rfl, rfl⟩

omit [DecidableEq Node]

/-- Each node of a ring has a neighbour on either side. -/
theorem Ring.around (closed : Ring next prev ring) (member : node ∈ ring) :
    ∃ before ∈ ring, ∃ after ∈ ring,
      Linked next prev before node ∧ Linked next prev node after := by
  obtain ⟨front, back, rfl⟩ := List.append_of_mem member
  have turned : Ring next prev (node :: (back ++ front)) := ring_rotate closed
  cases split : back ++ front with
  | nil =>
    rw [split, ring_singleton] at turned
    exact ⟨node, member, node, member, turned, turned⟩
  | cons after rest =>
    rw [split] at turned
    have tail : (after :: rest).getLast? = some _ := List.getLast?_cons
    obtain ⟨ahead, _, behind⟩ := turned.neighbours rfl tail
    have inside : ∀ other ∈ after :: rest, other ∈ front ++ node :: back := by
      intro other other_mem
      rw [← split] at other_mem
      simp only [List.mem_append, List.mem_cons] at other_mem ⊢
      tauto
    exact ⟨_, inside _ (List.mem_of_getLast? tail), after, inside _ List.mem_cons_self, behind,
      ahead⟩

/-- Back and forth leads home. -/
theorem Ring.prev_next (closed : Ring next prev ring) (member : node ∈ ring) :
    ∃ before ∈ ring, prev node = some before ∧ next before = some node := by
  obtain ⟨before, inside, _, _, behind, _⟩ := closed.around member
  exact ⟨before, inside, behind.2, behind.1⟩

end Rings

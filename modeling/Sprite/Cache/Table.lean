/-
**The hash table of the cache.**

Lookups are right in every cache that satisfies `Indexed`. An eviction nulls a slot without a marker,
which is sound because it happens in a full table that is filled again at once: the new entry goes to
the slot just nulled, with the node just freed (`Set_full`).

* `Holds` — the cache holds a key, in a node.
* `Indexed` — probing finds what the cache holds, and the pool is empty between operations.
* `Get_hit`, `Get_miss`, `Set_room`, `Set_full` — the operations, given what the queue does.
* `Indexed.requeued`, `Indexed.entered`, `Indexed.replaced` — each of them keeps the table indexed.
-/
import Sprite.Cache.LRUCache

namespace Sprite.Cache

open Probing LRUCache

variable {T : Type} {N : Nat} [NeZero N] {Outside : Type}

/-- The cache holds the key, in the node. -/
def LRUCache.Holds (c : LRUCache T N) (k : Key) (node : Ptr) : Prop :=
  ∃ slot, c.table_ slot = some node ∧ c.key node = k

/-- What is true of the table and the pool between operations. -/
structure Indexed (c : LRUCache T N) : Prop where
  complete : Complete c.table_ c.key hash
  counted : c.count_ = (occupied c.table_).card
  unspent : c.free_ = none
  made : ∀ slot node, c.table_ slot = some node → node < c.made

variable {c : LRUCache T N} {k : Key} {node : Ptr}

theorem fresh_indexed (links : Ptr → Option Ptr) (key : Ptr → Key) (value : Ptr → T) :
    Indexed (LRUCache.fresh N links key value) where
  complete := ⟨fun _ _ _ _ stored => (by cases stored), fun _ _ stored => (by cases stored)⟩
  counted := by simp [LRUCache.fresh, occupied]
  unspent := rfl
  made := fun _ _ stored => by cases stored

theorem Indexed.holds_unique (indexed : Indexed c) {node' : Ptr} (holds : c.Holds k node)
    (holds' : c.Holds k node') : node = node' := by
  obtain ⟨slot, stored, isKey⟩ := holds
  obtain ⟨slot', stored', isKey'⟩ := holds'
  have same := indexed.complete.unique _ _ _ _ stored stored' (isKey.trans isKey'.symm)
  rw [same, stored'] at stored
  exact (Option.some.inj stored).symm

theorem Indexed.slot_unique (indexed : Indexed c) {slot slot' : Fin N}
    (stored : c.table_ slot = some node) (stored' : c.table_ slot' = some node) : slot = slot' :=
  indexed.complete.unique _ _ _ _ stored stored' rfl

theorem Indexed.holds_lt (indexed : Indexed c) (holds : c.Holds k node) : node < c.made := by
  obtain ⟨slot, stored, _⟩ := holds
  exact indexed.made slot node stored

theorem Indexed.count_le (indexed : Indexed c) : c.count_ ≤ N := by
  rw [indexed.counted]
  exact (Finset.card_le_univ _).trans_eq (Fintype.card_fin N)

/-- While a key is still missing there is room, if all keys would fit. -/
theorem Indexed.room (indexed : Indexed c) {keys : Finset Key} (known : ∀ k node, c.Holds k node → k ∈ keys)
    (member : k ∈ keys) (absent : ∀ node, ¬ c.Holds k node) : c.count_ < keys.card := by
  rw [indexed.counted, ← Finset.card_erase_add_one member]
  refine Nat.lt_succ_of_le (indexed.complete.card_le fun slot node stored => ?_)
  refine Finset.mem_erase.mpr ⟨?_, known _ node ⟨slot, stored, rfl⟩⟩
  rintro rfl
  exact absent node ⟨slot, stored, rfl⟩

/-! ### Lookup -/

/-- A lookup that hits: the entry's node is promoted. -/
theorem Get_hit (complete : Complete c.table_ c.key hash) (holds : c.Holds k node) {q : Queue}
    (requeued : c.toQueue.requeue N node = some q) :
    c.Get k = some (some node, { c with toQueue := q }) := by
  obtain ⟨slot, stored, rfl⟩ := holds
  simp only [LRUCache.Get, complete.scan_hit stored, stored, LRUCache.Promote,
    Option.bind_eq_bind, Option.bind_some, requeued, Option.pure_def]

/-- A lookup that misses leaves the cache as it is. -/
theorem Get_miss (absent : ∀ node, ¬ c.Holds k node) : c.Get k = some (none, c) := by
  unfold LRUCache.Get
  split
  · rfl
  · rename_i slot result
    rw [scan_miss (fun slot node stored isKey => absent node ⟨slot, stored, isKey⟩) result]

theorem Indexed.requeued (indexed : Indexed c) {q : Queue} (same : q.count_ = c.count_) :
    Indexed { c with toQueue := q } :=
  ⟨indexed.complete, same.trans indexed.counted, indexed.unspent, indexed.made⟩

/-! ### Entering a key into a cache with room -/

/-- With room, `Set` makes a node for the key, in the first empty slot. -/
theorem Set_room (indexed : Indexed c) (room : c.count_ < N) (outside : Outside)
    (cb_ : Option (UncacheCallback T N Outside)) {q₁ q₂ : Queue}
    (pushed : Queue.pushBack { c.toQueue with
      prev := Function.update c.prev c.made none
      next := Function.update c.next c.made none } N c.made = some q₁)
    (requeued : q₁.requeue N c.made = some q₂) :
    ∃ slot, scan (fun slot => (c.table_ slot).isNone) N (hash k) = some slot ∧
      World.Set cb_ k none ⟨c, outside⟩ = some (c.made, ⟨{ c with
        toQueue := q₂
        table_ := Function.update c.table_ slot (some c.made)
        key := Function.update c.key c.made k
        made := c.made + 1 }, outside⟩) := by
  have left : (occupied c.table_).card < N := indexed.counted ▸ room
  obtain ⟨empty, isEmpty⟩ := exists_empty left
  have isNone : (c.table_ empty).isNone = true := by
    rw [isEmpty]
    rfl
  obtain ⟨slot, result⟩ : ∃ slot, scan (fun slot => (c.table_ slot).isNone) N (hash k) = some slot :=
    scan_isSome isNone (hash k)
  refine ⟨slot, result, ?_⟩
  simp only [World.Set, World.makeRoom, LRUCache.count, if_neg (Nat.not_le.mpr room), World.enter,
    Option.bind_eq_bind, Option.bind_some, result, LRUCache.alloc, indexed.unspent, pushed,
    LRUCache.Promote, Function.update_self, requeued, Option.pure_def]

theorem Indexed.entered (indexed : Indexed c) (absent : ∀ node, ¬ c.Holds k node) {slot : Fin N}
    (result : scan (fun slot => (c.table_ slot).isNone) N (hash k) = some slot) {q : Queue}
    (counted : q.count_ = c.count_ + 1) :
    Indexed { c with
      toQueue := q
      table_ := Function.update c.table_ slot (some c.made)
      key := Function.update c.key c.made k
      made := c.made + 1 } := by
  have fresh : ∀ slot, c.table_ slot ≠ some c.made := fun slot stored =>
    Nat.lt_irrefl _ (indexed.made slot _ stored)
  have empty : c.table_ slot = none := by
    obtain ⟨_, _, _, isNone, _⟩ := scan_eq_some.mp result
    exact Option.isNone_iff_eq_none.mp isNone
  refine ⟨?_, ?_, indexed.unspent, ?_⟩
  · exact indexed.complete.insert (fun slot node stored isKey => absent node ⟨slot, stored, isKey⟩)
      fresh result
  · rw [counted, indexed.counted]
    exact (occupied_update_some empty).symm
  · intro slot' node' stored
    by_cases here : slot' = slot
    · simp only [here, Function.update_self, Option.some.injEq] at stored
      cases stored
      exact Nat.lt_succ_self _
    · simp only [Function.update_of_ne here] at stored
      exact Nat.lt_succ_of_lt (indexed.made slot' node' stored)

/-- What the cache holds after a key was entered with a new node. -/
theorem Indexed.holds_entered (indexed : Indexed c) {slot : Fin N} (empty : c.table_ slot = none)
    (q : Queue) (k' : Key) (node' : Ptr) :
    LRUCache.Holds { c with
      toQueue := q
      table_ := Function.update c.table_ slot (some c.made)
      key := Function.update c.key c.made k
      made := c.made + 1 } k' node' ↔ k' = k ∧ node' = c.made ∨ c.Holds k' node' := by
  have other : ∀ slot' node', c.table_ slot' = some node' → slot' ≠ slot ∧ node' ≠ c.made := by
    intro slot' node' stored
    refine ⟨?_, Nat.ne_of_lt (indexed.made slot' node' stored)⟩
    rintro rfl
    rw [stored] at empty
    cases empty
  constructor
  · rintro ⟨slot', stored, isKey⟩
    by_cases here : slot' = slot
    · simp only [here, Function.update_self, Option.some.injEq] at stored
      cases stored
      simp only [Function.update_self] at isKey
      exact .inl ⟨isKey.symm, rfl⟩
    · simp only [Function.update_of_ne here] at stored
      simp only [Function.update_of_ne (other _ _ stored).2] at isKey
      exact .inr ⟨slot', stored, isKey⟩
  · rintro (⟨rfl, rfl⟩ | ⟨slot', stored, isKey⟩)
    · exact ⟨slot, Function.update_self _ _ _, Function.update_self _ _ _⟩
    · obtain ⟨slotNe, nodeNe⟩ := other _ _ stored
      refine ⟨slot', ?_, ?_⟩
      · simp only [Function.update_of_ne slotNe, stored]
      · simp only [Function.update_of_ne nodeNe, isKey]

/-! ### Entering a key into a full cache -/

/-- In a full table one of whose slots has been nulled, that slot is found from anywhere. -/
theorem scan_nulled (full : ∀ slot, (c.table_ slot).isSome) (nulled home : Fin N) :
    scan (fun slot => (Function.update c.table_ nulled none slot).isNone) N home = some nulled := by
  have isNulled : (Function.update c.table_ nulled none nulled).isNone = true := by
    rw [Function.update_self]
    rfl
  obtain ⟨slot, result⟩ : ∃ slot, scan (fun slot => (Function.update c.table_ nulled none slot).isNone)
      N home = some slot := scan_isSome isNulled home
  obtain ⟨_, _, _, isNone, _⟩ := scan_eq_some.mp result
  by_cases here : slot = nulled
  · rw [result, here]
  · rw [Function.update_of_ne here, Option.isNone_iff_eq_none] at isNone
    have used := full slot
    rw [isNone] at used
    cases used

theorem Indexed.full (indexed : Indexed c) (all : c.count_ = N) (slot : Fin N) :
    (c.table_ slot).isSome :=
  full_of_card (indexed.counted.symm.trans all) slot

/-- With no room, `Set` calls the callback for the front node, and uses that node and its slot for
the new key. The callback has to come back and to leave the table alone. -/
theorem Set_full (indexed : Indexed c) (full : c.count_ = N) {z : Ptr} {victim : Key}
    (isFront : c.queue_ = some z) (holds : c.Holds victim z) {outside outside' : Outside}
    {cb_ : Option (UncacheCallback T N Outside)} {q₁ q₂ q₃ q₄ : Queue} {value' : Ptr → T}
    (popped : c.toQueue.popFront = some q₁)
    (called : World.runCallback cb_ victim z ⟨{ c with toQueue := q₁ }, outside⟩
      = some ⟨{ c with toQueue := q₂, value := value' }, outside'⟩)
    (pushed : Queue.pushBack { q₂ with next := Function.update q₂.next z none } N z = some q₃)
    (requeued : q₃.requeue N z = some q₄) :
    World.Set cb_ k none ⟨c, outside⟩ = some (z, ⟨{ c with
      toQueue := q₄
      value := value'
      key := Function.update c.key z k }, outside'⟩) := by
  obtain ⟨slot, stored, rfl⟩ := holds
  have refilled : Function.update (Function.update c.table_ slot none) slot (some z) = c.table_ := by
    rw [Function.update_idem, ← stored, Function.update_eq_self]
  have erased : World.erase cb_ (c.key z) ⟨{ c with toQueue := q₁ }, outside⟩ = some ⟨{ c with
      toQueue := { q₂ with next := Function.update q₂.next z none }
      value := value'
      free_ := some z
      table_ := Function.update c.table_ slot none }, outside'⟩ := by
    simp only [indexed.unspent] at called
    simp only [World.erase, indexed.complete.scan_hit stored, stored, World.free,
      Option.bind_eq_bind, Option.bind_some, called, Option.pure_def, indexed.unspent]
  simp only [World.Set, World.makeRoom, LRUCache.count, full, le_refl, if_pos,
    Queue.front, isFront, popped, Option.bind_eq_bind, Option.bind_some, erased, World.enter,
    scan_nulled (indexed.full full), LRUCache.alloc, Function.update_self, refilled, pushed,
    LRUCache.Promote, requeued, Option.pure_def]
  simp only [indexed.unspent]

theorem Indexed.replaced (indexed : Indexed c) (full : c.count_ = N)
    {z : Ptr} (only : ∀ node, c.Holds k node → node = z) {q : Queue}
    (counted : q.count_ = c.count_) (value' : Ptr → T) :
    Indexed { c with toQueue := q, value := value', key := Function.update c.key z k } := by
  refine ⟨Complete.of_full (indexed.full full) ?_, counted.trans indexed.counted, indexed.unspent,
    indexed.made⟩
  intro slot slot' node node' stored stored' sameKey
  dsimp only at stored stored' sameKey
  by_cases here : node = z <;> by_cases there : node' = z
  · rw [here] at stored
    rw [there] at stored'
    exact indexed.slot_unique stored stored'
  · rw [here, Function.update_self, Function.update_of_ne there] at sameKey
    exact absurd (only node' ⟨slot', stored', sameKey.symm⟩) there
  · rw [there, Function.update_self, Function.update_of_ne here] at sameKey
    exact absurd (only node ⟨slot, stored, sameKey⟩) here
  · rw [Function.update_of_ne here, Function.update_of_ne there] at sameKey
    exact indexed.complete.unique _ _ _ _ stored stored' sameKey

omit [NeZero N] in
/-- What the cache holds after a node was used for another key. -/
theorem holds_replaced {z : Ptr} {victim : Key} (holds : c.Holds victim z) (q : Queue)
    (value' : Ptr → T) (k' : Key) (node' : Ptr) :
    LRUCache.Holds { c with toQueue := q, value := value', key := Function.update c.key z k }
      k' node' ↔ k' = k ∧ node' = z ∨ node' ≠ z ∧ c.Holds k' node' := by
  obtain ⟨slot, stored, _⟩ := holds
  by_cases here : node' = z
  · subst here
    simp only [LRUCache.Holds, Function.update_self]
    constructor
    · rintro ⟨_, _, rfl⟩
      exact .inl ⟨rfl, trivial⟩
    · rintro (⟨rfl, _⟩ | ⟨impossible, _⟩)
      · exact ⟨slot, stored, rfl⟩
      · exact absurd rfl impossible
  · simp only [LRUCache.Holds, Function.update_of_ne here]
    constructor
    · exact fun holds => .inr ⟨here, holds⟩
    · rintro (⟨_, impossible⟩ | ⟨_, holds⟩)
      · exact absurd impossible here
      · exact holds

end Sprite.Cache

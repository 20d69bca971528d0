/-
**Who owns the nodes of the cache**, also when keys are allocated again that are still cached.

`Set` does not look for the key it enters. Entering a key that is cached gives it a second slot,
except where the cache is full and the entry it gives up is the one of that key.

* `Owned` — each node is in the pool, or in one slot and once on the ring; no key has two slots.
* `Session.Right` — that, and `Get` right after `Alloc` answers the same buffer.
* `right_along_iff` — **every run, exactly**: it is right if and only if no key gets a second slot.
* `same_key_twice` — a key allocated twice.
-/
import Sprite.Cache.Refinement

namespace Sprite.Cache

open Runs

variable {T : Type} {N : Nat} [NeZero N] {Outside : Type}

/-- The nodes that can be reached from a pointer, one behind the other. -/
def Chained (next : Ptr → Option Ptr) : Option Ptr → List Ptr → Prop
  | none, pool => pool = []
  | some _, [] => False
  | some x, node :: pool => node = x ∧ Chained next (next x) pool

/-- **Each node has one owner**: the pool, or one slot of the table and one place on the ring. No key
is in two slots. -/
structure Owned (c : LRUCache T N) : Prop where
  unique : ∀ slot slot' node node', c.table_ slot = some node → c.table_ slot' = some node' →
    c.key node = c.key node' → slot = slot'
  owner : ∃ ring pool, c.toQueue.Spells ring ∧ Chained c.next c.free_ pool ∧ ∀ node < c.made,
    (node ∈ pool ∧ node ∉ ring ∧ ∀ slot, c.table_ slot ≠ some node) ∨
      (node ∉ pool ∧ ring.count node = 1 ∧ ∃! slot, c.table_ slot = some node)

/-- The cache in use, and the key and the buffer of an `Alloc` that has just come back. -/
structure Session (T : Type) (N : Nat) (Outside : Type) where
  world : World T N Outside
  allocated : Option (Key × Ptr)

/-- What is remembered of an operation. -/
def justAllocated : Op → Option Ptr → Option (Key × Ptr)
  | .alloc k, some b => some (k, b)
  | _, _ => none

namespace Session

def start (N : Nat) (links : Ptr → Option Ptr) (key : Ptr → Key) (value : Ptr → T)
    (outside : Outside) : Session T N Outside where
  world := ⟨LRUCache.fresh N links key value, outside⟩
  allocated := none

def step (effect : Option (Effect T Outside)) (s : Session T N Outside) (op : Op) :
    Option (Session T N Outside) :=
  (Cache.step effect s.world op).map fun (answer, world) =>
    { world, allocated := justAllocated op answer }

/-- The nodes are owned, and the key just allocated is found in its buffer. -/
structure Right (s : Session T N Outside) : Prop where
  owned : Owned s.world.cache
  found : ∀ k b, s.allocated = some (k, b) → ∃ world, s.world.Get k = some (some b, world)

/-- The key gets no second slot: it is not cached, or the cache is full and the entry it gives up is
that of the key. -/
def NoSecondSlot (s : Session T N Outside) : Op → Prop
  | .get _ => True
  | .alloc k => (∀ node, ¬ s.world.cache.Holds k node) ∨
      s.world.cache.count = N ∧ ∃ z, s.world.cache.front = some z ∧ s.world.cache.key z = k

end Session

/-! ### One operation -/

/-- The invariant: the cache mirrors a list of entries with all nodes that were made, the key just
allocated among them. -/
def Kept (s : Session T N Outside) : Prop :=
  ∃ entries, Mirrors s.world.cache entries ∧
    (∀ node < s.world.cache.made, node ∈ entries.map Prod.snd) ∧
    ∀ k b, s.allocated = some (k, b) → (k, b) ∈ entries

section Step

variable {c : LRUCache T N} {entries : List (Key × Ptr)} {effect : Option (Effect T Outside)}
  {s : Session T N Outside} {k : Key}

theorem Mirrors.owned (mirrors : Mirrors c entries)
    (all : ∀ node < c.made, node ∈ entries.map Prod.snd) : Owned c where
  unique := mirrors.indexed.complete.unique
  owner := by
    refine ⟨_, [], mirrors.spells, ?_, fun node made => Or.inr ⟨List.not_mem_nil, ?_, ?_⟩⟩
    · rw [mirrors.indexed.unspent]
      rfl
    · exact List.count_eq_one_of_mem mirrors.spells.nodup (all node made)
    · obtain ⟨⟨k, _⟩, member, rfl⟩ := List.mem_map.mp (all node made)
      obtain ⟨slot, stored, _⟩ := (mirrors.holds k _).mpr member
      exact ⟨slot, stored, fun slot' stored' => mirrors.indexed.slot_unique stored' stored⟩

theorem Kept.right (kept : Kept s) : s.Right := by
  obtain ⟨entries, mirrors, all, allocated⟩ := kept
  refine ⟨mirrors.owned all, fun k b last => ?_⟩
  obtain ⟨q, got, _⟩ := mirrors.get_hit (allocated k b last)
  refine ⟨⟨{ s.world.cache with toQueue := q }, s.world.outside⟩, ?_⟩
  simp only [World.Get, got, Option.bind_eq_bind, Option.bind_some, Option.pure_def]

theorem Kept.get (kept : Kept s) (k : Key) : ∃ next, s.step effect (.get k) = some next ∧ Kept next := by
  obtain ⟨entries, mirrors, all, _⟩ := kept
  by_cases present : ∃ b, (k, b) ∈ entries
  · obtain ⟨b, member⟩ := present
    obtain ⟨q, got, mirrors'⟩ := mirrors.get_hit member
    refine ⟨⟨⟨{ s.world.cache with toQueue := q }, s.world.outside⟩, none⟩, ?_, _, mirrors', ?_, ?_⟩
    · simp only [Session.step, Cache.step, World.Get, got, Option.bind_eq_bind, Option.bind_some,
        Option.pure_def, Option.map_some, justAllocated]
    · intro node made
      have moved := (List.perm_cons_erase member).map Prod.snd
      have inside := moved.mem_iff.mp (all node made)
      rw [List.map_append, List.mem_append]
      exact (List.mem_cons.mp inside).symm.imp id List.mem_singleton.mpr
    · exact fun k b last => absurd last.symm (Option.some_ne_none _)
  · have missed := mirrors.get_miss fun b member => present ⟨b, member⟩
    refine ⟨⟨s.world, none⟩, ?_, entries, mirrors, all,
      fun k b last => absurd last.symm (Option.some_ne_none _)⟩
    simp only [Session.step, Cache.step, World.Get, missed, Option.bind_eq_bind, Option.bind_some,
      Option.pure_def, Option.map_some, justAllocated]

theorem step_alloc {b : Ptr} {world : World T N Outside}
    (ran : s.world.Alloc (effect.map Effect.callback) k = some (b, world)) :
    s.step effect (.alloc k) = some ⟨world, some (k, b)⟩ := by
  rw [Session.step, Cache.step, ran]
  rfl

theorem Kept.alloc (kept : Kept s) (single : s.NoSecondSlot (.alloc k)) :
    ∃ next, s.step effect (.alloc k) = some next ∧ Kept next := by
  obtain ⟨entries, mirrors, all, _⟩ := kept
  by_cases room : s.world.cache.count_ < N
  · have absent : ∀ b, (k, b) ∉ entries := by
      rcases single with absent | ⟨full, _⟩
      · exact fun b member => absent b ((mirrors.holds k b).mpr member)
      · exact absurd full (Nat.ne_of_lt room)
    obtain ⟨c', ran, _, made, mirrors'⟩ :=
      mirrors.alloc_room absent room (effect.map Effect.callback) s.world.outside
    refine ⟨_, step_alloc ran, _, mirrors', fun node lt => ?_, ?_⟩
    · rw [List.map_append, List.mem_append]
      dsimp only at lt
      rw [made] at lt
      rcases Nat.lt_succ_iff_lt_or_eq.mp lt with earlier | rfl
      · exact .inl (all node earlier)
      · exact .inr List.mem_cons_self
    · rintro k' b' same
      cases same
      exact List.mem_append_right _ List.mem_cons_self
  · obtain ⟨victim, b, rest, rfl, full⟩ := mirrors.exists_victim room
    have holds : s.world.cache.Holds victim b := (mirrors.holds victim b).mpr List.mem_cons_self
    obtain ⟨notRest, _⟩ := List.nodup_cons.mp mirrors.spells.nodup
    have absent : ∀ b', (k, b') ∉ rest := by
      intro b' member
      have held := (mirrors.holds k b').mpr (List.mem_cons_of_mem _ member)
      rcases single with absent | ⟨_, z, isFront, isKey⟩
      · exact absent b' held
      · have same : z = b := Option.some.inj (isFront.symm.trans mirrors.spells.head)
        subst same
        obtain ⟨slot, stored, _⟩ := holds
        have again := mirrors.indexed.holds_unique held ⟨slot, stored, isKey⟩
        subst again
        exact notRest (List.mem_map.mpr ⟨_, member, rfl⟩)
    obtain ⟨c', ran, _, made, mirrors'⟩ := mirrors.alloc_full absent full
      (Effect.called effect s.world.cache victim b s.world.outside)
    refine ⟨_, step_alloc ran, _, mirrors', fun node lt => ?_, ?_⟩
    · dsimp only at lt
      rw [made] at lt
      have inside := all node lt
      rw [List.map_cons, List.mem_cons] at inside
      rw [List.map_append, List.mem_append]
      exact inside.symm.imp id List.mem_singleton.mpr
    · rintro k' b' same
      cases same
      exact List.mem_append_right _ List.mem_cons_self

/-- **A second slot**: entering a key that is cached leaves it in two slots. -/
theorem not_right_of_second_slot (kept : Kept s) (double : ¬ s.NoSecondSlot (.alloc k))
    {next : Session T N Outside} (stepped : s.step effect (.alloc k) = some next) : ¬ next.Right := by
  obtain ⟨entries, mirrors, _, _⟩ := kept
  obtain ⟨present, notFront⟩ := not_or.mp double
  obtain ⟨b, held⟩ := not_forall_not.mp present
  intro right
  have held' := held
  obtain ⟨slot, stored, isKey⟩ := held'
  by_cases room : s.world.cache.count_ < N
  · obtain ⟨slot', q, result, _, ran⟩ :=
      mirrors.alloc_enters room (effect.map Effect.callback) k s.world.outside
    obtain ⟨_, _, _, isNone, _⟩ := Probing.scan_eq_some.mp result
    have other : slot ≠ slot' := by
      rintro rfl
      rw [stored] at isNone
      cases isNone
    have older : b ≠ s.world.cache.made := Nat.ne_of_lt (mirrors.indexed.holds_lt held)
    cases Option.some.inj (stepped.symm.trans (step_alloc ran))
    refine other (right.owned.unique slot slot' b s.world.cache.made ?_ ?_ ?_)
    · exact (Function.update_of_ne other _ _).trans stored
    · exact Function.update_self _ _ _
    · dsimp only
      rw [Function.update_of_ne older, Function.update_self, isKey]
  · obtain ⟨victim, z, rest, rfl, full⟩ := mirrors.exists_victim room
    obtain ⟨slot', stored', isVictim⟩ := (mirrors.holds victim z).mpr List.mem_cons_self
    obtain ⟨q, _, ran⟩ := mirrors.alloc_recycles full
      (Effect.called effect s.world.cache victim z s.world.outside) k
    have other : b ≠ z := by
      rintro rfl
      exact notFront ⟨full, b, mirrors.spells.head, isKey⟩
    cases Option.some.inj (stepped.symm.trans (step_alloc ran))
    have same := right.owned.unique slot slot' b z stored stored' (by
      dsimp only
      rw [Function.update_of_ne other, Function.update_self, isKey])
    rw [same, stored'] at stored
    exact other (Option.some.inj stored).symm

end Step

/-! ### Every run -/

/-- **Ownership, exactly.** A run of lookups and allocations with arbitrary keys comes back, owns its
nodes throughout and finds what was just allocated if and only if no key gets a second slot. -/
theorem right_along_iff (effect : Option (Effect T Outside)) (links : Ptr → Option Ptr)
    (key : Ptr → Key) (value : Ptr → T) (outside : Outside) (ops : List Op) :
    Along (Session.step effect) (fun _ _ => True) Session.Right
        (Session.start N links key value outside) ops
      ↔ Permitted (Session.step effect) Session.NoSecondSlot
          (Session.start N links key value outside) ops := by
  refine along_iff_permitted Kept (fun s op kept single => ?_) (fun s kept => kept.right)
    (fun s op next kept double stepped => ?_) ops _ ?_
  · cases op with
    | get k => exact kept.get k
    | alloc k => exact kept.alloc single
  · cases op with
    | get k => exact absurd trivial double
    | alloc k => exact not_right_of_second_slot kept double stepped
  · exact ⟨[], fresh_mirrors links key value, fun _ made => absurd made (Nat.not_lt_zero _),
      fun _ _ last => absurd last.symm (Option.some_ne_none _)⟩

/-- The first operations of `test_cache`, up to the second `Set` of 0: the entry then given up is that
of 0 itself. -/
theorem test_cache_right_iff :
    Along (Session.step (none : Option (Effect UInt32 Unit))) (fun _ _ => True) Session.Right
        (Session.start 3 (fun _ => none) (fun _ => 0) (fun _ => 0) ())
        [.alloc 0, .alloc 1, .get 0, .alloc 2, .get 1, .get 0, .get 2, .alloc 4, .get 1, .alloc 0]
      ↔ Permitted (Session.step none) Session.NoSecondSlot
        (Session.start 3 (fun _ => none) (fun _ => 0) (fun _ => (0 : UInt32)) ())
        [.alloc 0, .alloc 1, .get 0, .alloc 2, .get 1, .get 0, .get 2, .alloc 4, .get 1, .alloc 0] :=
  right_along_iff none _ _ _ _ _

/-- **A key allocated twice** is in two slots, as long as there is room. -/
theorem same_key_twice :
    ¬ Along (Session.step none) (fun _ _ => True) Session.Right
      (Session.start 3 (fun _ => none) (fun _ => 0) (fun _ => (0 : UInt32)) ())
      [.alloc 0, .alloc 0] := by
  intro along
  have run : ([Op.alloc 0, .alloc 0].foldlM (Session.step none)
      (Session.start 3 (fun _ => none) (fun _ => 0) (fun _ => (0 : UInt32)) ())).map (fun s =>
        (s.world.cache.table_ 0, s.world.cache.table_ 1, s.world.cache.key 0, s.world.cache.key 1))
      = some (some 0, some 1, 0, 0) := by decide
  obtain ⟨last, ran, values⟩ := Option.map_eq_some_iff.mp run
  simp only [Prod.mk.injEq] at values
  obtain ⟨stored, stored', first, second⟩ := values
  have right := along.at_end ⟨trivial, fun _ _ => ⟨trivial, fun _ _ => trivial⟩⟩ ran
  exact absurd (right.owned.unique 0 1 0 1 stored stored' (first.trans second.symm)) (by decide)

end Sprite.Cache

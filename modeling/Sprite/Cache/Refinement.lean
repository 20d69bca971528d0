/-
**The cache is an LRU map**, as long as its callback does not call back into it.

* `idealLRU` — the map of capacity `N`: a list of keys with their buffers, the least recently used
  one first.
* `Mirrors` — the cache stands for such a list: the table holds its entries, the queue is its order.
* `Mirrors.get_hit`, `Mirrors.get_miss`, `Mirrors.alloc_room`, `Mirrors.alloc_full` — the operations,
  the first three under any callback.
* `cache_refines_ideal` — **the refinement**, over runs of any length.
-/
import Sprite.Cache.Queue
import Sprite.Cache.Table
import Sprite.Lib.Runs

namespace Sprite.Cache

open Rings

variable {T : Type} {N : Nat} [NeZero N] {Outside : Type}

/-! ### The ideal map -/

/-- What a callback does that does not call back into the cache: it works on the buffers and on
whatever else there is. -/
abbrev Effect (T Outside : Type) := Key → Ptr → (Ptr → T) → Outside → (Ptr → T) × Outside

/-- The effect as a callback of the cache. -/
def Effect.callback (effect : Effect T Outside) : UncacheCallback T N Outside := fun k node w =>
  let (value, outside) := effect k node w.cache.value w.outside
  some ⟨{ w.cache with value := value }, outside⟩

/-- A callback need not be there. -/
def Effect.run (effect : Option (Effect T Outside)) (k : Key) (b : Ptr) (value : Ptr → T)
    (outside : Outside) : (Ptr → T) × Outside :=
  match effect with
  | some effect => effect k b value outside
  | none => (value, outside)

/-- An ideal LRU map: the entries with their buffers, the least recently used one first, the
contents of all buffers, and what the callback works on besides. -/
structure IdealLRU (T Outside : Type) where
  entries : List (Key × Ptr)
  value : Ptr → T
  outside : Outside

inductive Op where
  | get (k : Key)
  | alloc (k : Key)

namespace IdealLRU

/-- The entry becomes the most recently used one. -/
def touch (s : IdealLRU T Outside) (k : Key) (b : Ptr) : IdealLRU T Outside :=
  { s with entries := s.entries.erase (k, b) ++ [(k, b)] }

/-- The least recently used entry goes, after one call of the callback for it. -/
def evict (effect : Option (Effect T Outside)) (s : IdealLRU T Outside) : IdealLRU T Outside :=
  match s.entries with
  | [] => s
  | (victim, b) :: rest =>
    let (value, outside) := Effect.run effect victim b s.value s.outside
    ⟨rest, value, outside⟩

/-- The map with room for one more entry. -/
def madeRoom (size : Nat) (effect : Option (Effect T Outside)) (s : IdealLRU T Outside) :
    IdealLRU T Outside :=
  if s.entries.length < size then s else s.evict effect

end IdealLRU

/-- The LRU map of capacity `size`. Only keys that are not in it may be allocated. -/
def idealLRU (size : Nat) (effect : Option (Effect T Outside)) :
    Runs.Machine (IdealLRU T Outside) Op (Option Ptr) where
  legal s op := match op with
    | .get _ => True
    | .alloc k => ∀ b, (k, b) ∉ s.entries
  next s op out s' := match op, out with
    | .get k, none => (∀ b, (k, b) ∉ s.entries) ∧ s' = s
    | .get k, some b => (k, b) ∈ s.entries ∧ s' = s.touch k b
    | .alloc _, none => False
    | .alloc k, some b =>
        let kept := s.madeRoom size effect
        b ∉ kept.entries.map Prod.snd ∧ s' = { kept with entries := kept.entries ++ [(k, b)] }

/-- One operation of the cache, with the buffer it answers. -/
def step (effect : Option (Effect T Outside)) (w : World T N Outside) :
    Op → Option (Option Ptr × World T N Outside)
  | .get k => w.Get k
  | .alloc k => (w.Alloc (effect.map Effect.callback) k).map fun (b, w) => (some b, w)

/-- What a client sees of the cache agrees with the map. -/
def Agree (w : World T N Outside) (s : IdealLRU T Outside) : Prop :=
  w.cache.count = s.entries.length ∧ s.entries.length ≤ N ∧
    (∀ k b, w.cache.Holds k b ↔ (k, b) ∈ s.entries) ∧
    w.cache.value = s.value ∧ w.outside = s.outside

/-! ### The cache as a list of entries -/

/-- The table holds the entries, and the queue is their order. -/
structure Mirrors (c : LRUCache T N) (entries : List (Key × Ptr)) : Prop where
  indexed : Indexed c
  spells : c.toQueue.Spells (entries.map Prod.snd)
  holds : ∀ k b, c.Holds k b ↔ (k, b) ∈ entries

variable {c : LRUCache T N} {entries : List (Key × Ptr)} {k : Key} {b : Ptr}

theorem Mirrors.counted (mirrors : Mirrors c entries) : c.count_ = entries.length := by
  rw [mirrors.spells.counted, List.length_map]

theorem Mirrors.length_le (mirrors : Mirrors c entries) : entries.length ≤ N := by
  rw [← mirrors.counted]
  exact mirrors.indexed.count_le

theorem fresh_mirrors (links : Ptr → Option Ptr) (key : Ptr → Key) (value : Ptr → T) :
    Mirrors (LRUCache.fresh N links key value) [] where
  indexed := fresh_indexed links key value
  spells := ⟨List.nodup_nil, rfl, rfl, Cycle.Chain.nil _⟩
  holds k b := by
    constructor
    · rintro ⟨_, stored, _⟩
      cases stored
    · intro inside
      cases inside

/-- Erasing an element of a list with distinct images erases its image. -/
theorem map_erase_of_nodup {α β : Type} [BEq α] [LawfulBEq α] [BEq β] [LawfulBEq β] {f : α → β}
    {l : List α} {a : α} (distinct : (l.map f).Nodup) (member : a ∈ l) :
    (l.erase a).map f = (l.map f).erase (f a) := by
  obtain ⟨front, back, rfl⟩ := List.append_of_mem member
  rw [List.map_append, List.map_cons, List.nodup_append] at distinct
  have notFront : f a ∉ front.map f := fun inside =>
    distinct.2.2 (f a) inside (f a) List.mem_cons_self rfl
  have notFront' : a ∉ front := fun inside => notFront (List.mem_map_of_mem inside)
  rw [List.erase_append_right _ notFront', List.erase_cons_head, List.map_append, List.map_append,
    List.map_cons, List.erase_append_right _ notFront, List.erase_cons_head]

theorem Mirrors.keys_nodup (mirrors : Mirrors c entries) : (entries.map Prod.fst).Nodup := by
  refine List.Nodup.map_on ?_ (List.Nodup.of_map _ mirrors.spells.nodup)
  rintro ⟨k, b⟩ member ⟨_, b'⟩ member' rfl
  rw [mirrors.indexed.holds_unique ((mirrors.holds k b).mpr member) ((mirrors.holds k b').mpr member')]

/-- The keys after a lookup that hits. -/
theorem Mirrors.keys_moved (mirrors : Mirrors c entries) (member : (k, b) ∈ entries) :
    (entries.erase (k, b) ++ [(k, b)]).map Prod.fst = (entries.map Prod.fst).erase k ++ [k] := by
  rw [List.map_append, map_erase_of_nodup mirrors.keys_nodup member]
  rfl

/-- **A lookup that hits** answers the buffer, and makes its entry the most recently used. -/
theorem Mirrors.get_hit (mirrors : Mirrors c entries) (member : (k, b) ∈ entries) :
    ∃ q, c.Get k = some (some b, { c with toQueue := q }) ∧
      Mirrors { c with toQueue := q } (entries.erase (k, b) ++ [(k, b)]) := by
  have inQueue : b ∈ entries.map Prod.snd := List.mem_map.mpr ⟨_, member, rfl⟩
  have room : (entries.map Prod.snd).length ≤ N := by
    rw [List.length_map]
    exact mirrors.length_le
  obtain ⟨q, requeued, spells⟩ := mirrors.spells.requeue inQueue room
  have moved : (entries.erase (k, b) ++ [(k, b)]).map Prod.snd
      = (entries.map Prod.snd).erase b ++ [b] := by
    rw [List.map_append, map_erase_of_nodup mirrors.spells.nodup member]
    rfl
  have same : q.count_ = c.count_ := by
    have nonempty := List.length_pos_of_mem inQueue
    rw [spells.counted, mirrors.spells.counted, List.length_append, List.length_erase_of_mem inQueue,
      List.length_singleton, Nat.sub_add_cancel nonempty]
  refine ⟨q, Get_hit mirrors.indexed.complete ((mirrors.holds k b).mpr member) requeued,
    mirrors.indexed.requeued same, moved ▸ spells, fun k' b' => ?_⟩
  refine (mirrors.holds k' b').trans ?_
  have split := (List.perm_cons_erase member).mem_iff (a := (k', b'))
  rw [split, List.mem_cons, List.mem_append, List.mem_singleton, or_comm]

/-- **A lookup that misses** changes nothing. -/
theorem Mirrors.get_miss (mirrors : Mirrors c entries) (absent : ∀ b, (k, b) ∉ entries) :
    c.Get k = some (none, c) :=
  Get_miss fun b holds => absent b ((mirrors.holds k b).mp holds)

theorem Mirrors.absent (mirrors : Mirrors c entries) (absent : ∀ b, (k, b) ∉ entries) (b : Ptr) :
    ¬ c.Holds k b :=
  fun holds => absent b ((mirrors.holds k b).mp holds)

/-- With room, `Alloc` makes a node and enters it in the first empty slot, also for a key that the
cache holds. -/
theorem Mirrors.alloc_enters (mirrors : Mirrors c entries) (room : c.count_ < N)
    (cb_ : Option (UncacheCallback T N Outside)) (k : Key) (outside : Outside) :
    ∃ slot q, Probing.scan (fun slot => (c.table_ slot).isNone) N (LRUCache.hash k) = some slot ∧
      q.Spells (entries.map Prod.snd ++ [c.made]) ∧
      World.Alloc cb_ k ⟨c, outside⟩ = some (c.made, ⟨{ c with
        toQueue := q
        table_ := Function.update c.table_ slot (some c.made)
        key := Function.update c.key c.made k
        made := c.made + 1 }, outside⟩) := by
  have fresh : c.made ∉ entries.map Prod.snd := by
    intro inside
    obtain ⟨⟨k', b'⟩, member, rfl⟩ := List.mem_map.mp inside
    exact Nat.lt_irrefl _ (mirrors.indexed.holds_lt ((mirrors.holds k' _).mpr member))
  have awaits := (mirrors.spells.frame fresh none none).awaits fresh
  have room' : (entries.map Prod.snd).length < N := mirrors.spells.counted ▸ room
  obtain ⟨q₁, q₂, pushed, requeued, spells⟩ := awaits.comeIn room'
  obtain ⟨slot, result, ran⟩ := Set_room (k := k) mirrors.indexed room outside cb_ pushed requeued
  exact ⟨slot, q₂, result, spells, ran⟩

/-- **With room, a key gets a new buffer**, whatever the callback. -/
theorem Mirrors.alloc_room (mirrors : Mirrors c entries) (absent : ∀ b, (k, b) ∉ entries)
    (room : c.count_ < N) (cb_ : Option (UncacheCallback T N Outside)) (outside : Outside) :
    ∃ c', World.Alloc cb_ k ⟨c, outside⟩ = some (c.made, ⟨c', outside⟩) ∧ c'.value = c.value ∧
      c'.made = c.made + 1 ∧ Mirrors c' (entries ++ [(k, c.made)]) := by
  obtain ⟨slot, q, result, spells, ran⟩ := mirrors.alloc_enters room cb_ k outside
  obtain ⟨_, _, _, isNone, _⟩ := Probing.scan_eq_some.mp result
  refine ⟨_, ran, rfl, rfl, mirrors.indexed.entered (mirrors.absent absent) result ?_, ?_,
    fun k' b' => ?_⟩
  · rw [spells.counted, List.length_append, ← mirrors.spells.counted]
    rfl
  · rwa [List.map_append]
  · rw [mirrors.indexed.holds_entered (Option.isNone_iff_eq_none.mp isNone) _, mirrors.holds k' b',
      List.mem_append, List.mem_singleton, Prod.mk.injEq, or_comm]

/-- In a full cache, `Alloc` uses the node and the slot of the least recently used entry, also for a
key that the cache holds. -/
theorem Mirrors.alloc_recycles {victim : Key} (mirrors : Mirrors c ((victim, b) :: entries))
    (full : c.count_ = N) {cb_ : Option (UncacheCallback T N Outside)} {outside outside' : Outside}
    {value' : Ptr → T}
    (called : ∀ q, World.runCallback cb_ victim b ⟨{ c with toQueue := q }, outside⟩
      = some ⟨{ c with toQueue := q, value := value' }, outside'⟩) (k : Key) :
    ∃ q, q.Spells (entries.map Prod.snd ++ [b]) ∧
      World.Alloc cb_ k ⟨c, outside⟩ = some (b, ⟨{ c with
        toQueue := q
        value := value'
        key := Function.update c.key b k }, outside'⟩) := by
  have holds : c.Holds victim b := (mirrors.holds victim b).mpr List.mem_cons_self
  obtain ⟨q₁, popped, awaits⟩ := mirrors.spells.popFront
  have room : (entries.map Prod.snd).length < N := by
    have length := mirrors.length_le
    rw [List.length_cons] at length
    rwa [List.length_map]
  obtain ⟨q₃, q₄, pushed, requeued, spells⟩ := (awaits.frame none).comeIn room
  exact ⟨q₄, spells, Set_full (k := k) mirrors.indexed full mirrors.spells.head holds popped
    (called q₁) pushed requeued⟩

/-- **A full cache gives up its least recently used entry**, after one call of the callback. The new
key may be that of the entry given up. -/
theorem Mirrors.alloc_full {victim : Key} (mirrors : Mirrors c ((victim, b) :: entries))
    (absent : ∀ b', (k, b') ∉ entries) (full : c.count_ = N)
    {cb_ : Option (UncacheCallback T N Outside)} {outside outside' : Outside} {value' : Ptr → T}
    (called : ∀ q, World.runCallback cb_ victim b ⟨{ c with toQueue := q }, outside⟩
      = some ⟨{ c with toQueue := q, value := value' }, outside'⟩) :
    ∃ c', World.Alloc cb_ k ⟨c, outside⟩ = some (b, ⟨c', outside'⟩) ∧ c'.value = value' ∧
      c'.made = c.made ∧ Mirrors c' (entries ++ [(k, b)]) := by
  have holds : c.Holds victim b := (mirrors.holds victim b).mpr List.mem_cons_self
  obtain ⟨fresh, _⟩ := List.nodup_cons.mp mirrors.spells.nodup
  obtain ⟨q, spells, ran⟩ := mirrors.alloc_recycles full called k
  have counted : q.count_ = c.count_ := by
    rw [spells.counted, mirrors.counted, List.length_append, List.length_map, List.length_cons]
    rfl
  have only : ∀ node, c.Holds k node → node = b := by
    intro node held
    rcases List.mem_cons.mp ((mirrors.holds k node).mp held) with same | inside
    · exact (Prod.mk.inj same).2
    · exact absurd inside (absent node)
  refine ⟨_, ran, rfl, rfl, mirrors.indexed.replaced full only counted value', ?_, fun k' b' => ?_⟩
  · rwa [List.map_append]
  · have split : b' ≠ b ∧ c.Holds k' b' ↔ (k', b') ∈ entries := by
      rw [mirrors.holds k' b', List.mem_cons, Prod.mk.injEq]
      constructor
      · rintro ⟨other, ⟨_, same⟩ | inside⟩
        · exact absurd same other
        · exact inside
      · intro inside
        refine ⟨?_, .inr inside⟩
        rintro rfl
        exact fresh (List.mem_map.mpr ⟨_, inside, rfl⟩)
    rw [holds_replaced holds, split, List.mem_append, List.mem_singleton, Prod.mk.injEq, or_comm]

/-- A full cache has an entry to give up. -/
theorem Mirrors.exists_victim (mirrors : Mirrors c entries) (full : ¬ c.count_ < N) :
    ∃ victim b rest, entries = (victim, b) :: rest ∧ c.count_ = N := by
  have counted : c.count_ = N := Nat.le_antisymm mirrors.indexed.count_le (Nat.not_lt.mp full)
  cases entries with
  | nil =>
    have positive := NeZero.ne N
    rw [← counted, mirrors.counted] at positive
    exact absurd rfl positive
  | cons entry rest => exact ⟨entry.1, entry.2, rest, rfl, counted⟩

omit [NeZero N] in
/-- The callback of an effect leaves the cache alone but for the values. -/
theorem Effect.called (effect : Option (Effect T Outside)) (c : LRUCache T N) (victim : Key) (b : Ptr)
    (outside : Outside) (q : Queue) :
    World.runCallback (effect.map Effect.callback) victim b ⟨{ c with toQueue := q }, outside⟩
      = some ⟨{ c with
          toQueue := q
          value := (Effect.run effect victim b c.value outside).1 },
        (Effect.run effect victim b c.value outside).2⟩ := by
  cases effect with
  | none => rfl
  | some effect => rfl

/-! ### The refinement -/

/-- The relation of the simulation. -/
structure Simulated (w : World T N Outside) (s : IdealLRU T Outside) : Prop where
  mirrors : Mirrors w.cache s.entries
  value : w.cache.value = s.value
  outside : w.outside = s.outside

theorem Simulated.agree {w : World T N Outside} {s : IdealLRU T Outside} (related : Simulated w s) :
    Agree w s :=
  ⟨related.mirrors.counted, related.mirrors.length_le, related.mirrors.holds, related.value,
    related.outside⟩

theorem get_simulates (effect : Option (Effect T Outside)) {w : World T N Outside}
    {s : IdealLRU T Outside} (related : Simulated w s) (k : Key) :
    ∃ out w' s', step effect w (.get k) = some (out, w') ∧
      (idealLRU N effect).next s (.get k) out s' ∧ Simulated w' s' := by
  by_cases present : ∃ b, (k, b) ∈ s.entries
  · obtain ⟨b, member⟩ := present
    obtain ⟨q, got, mirrors⟩ := related.mirrors.get_hit member
    refine ⟨some b, ⟨{ w.cache with toQueue := q }, w.outside⟩, s.touch k b, ?_, ⟨member, rfl⟩,
      mirrors, related.value, related.outside⟩
    simp only [step, World.Get, got, Option.bind_eq_bind, Option.bind_some, Option.pure_def]
  · have absent : ∀ b, (k, b) ∉ s.entries := fun b member => present ⟨b, member⟩
    refine ⟨none, w, s, ?_, ⟨absent, rfl⟩, related⟩
    simp only [step, World.Get, related.mirrors.get_miss absent, Option.bind_eq_bind,
      Option.bind_some, Option.pure_def]

theorem alloc_simulates (effect : Option (Effect T Outside)) {w : World T N Outside}
    {s : IdealLRU T Outside} (related : Simulated w s) (k : Key)
    (absent : ∀ b, (k, b) ∉ s.entries) :
    ∃ out w' s', step effect w (.alloc k) = some (out, w') ∧
      (idealLRU N effect).next s (.alloc k) out s' ∧ Simulated w' s' := by
  obtain ⟨c, outside⟩ := w
  obtain ⟨entries, value, outside'⟩ := s
  obtain ⟨mirrors, sameValue, sameOutside⟩ := related
  dsimp only at mirrors sameValue sameOutside absent
  subst sameValue sameOutside
  by_cases room : c.count_ < N
  · obtain ⟨c', ran, value, _, mirrors'⟩ :=
      mirrors.alloc_room absent room (effect.map Effect.callback) outside
    have kept : IdealLRU.madeRoom N effect ⟨entries, c.value, outside⟩
        = ⟨entries, c.value, outside⟩ := if_pos (mirrors.counted ▸ room)
    have fresh := mirrors'.spells.nodup
    rw [List.map_append, List.nodup_append] at fresh
    refine ⟨some c.made, ⟨c', outside⟩, ⟨entries ++ [(k, c.made)], c.value, outside⟩, ?_, ?_,
      mirrors', value, rfl⟩
    · rw [step, ran]
      rfl
    · refine ⟨?_, by rw [kept]⟩
      rw [kept]
      exact fun inside => fresh.2.2 _ inside _ (List.mem_singleton_self _) rfl
  · obtain ⟨victim, b, rest, rfl, full⟩ := mirrors.exists_victim room
    have kept : IdealLRU.madeRoom N effect ⟨(victim, b) :: rest, c.value, outside⟩
        = ⟨rest, (Effect.run effect victim b c.value outside).1,
          (Effect.run effect victim b c.value outside).2⟩ :=
      if_neg (mirrors.counted ▸ room)
    obtain ⟨c', ran, value, _, mirrors'⟩ := mirrors.alloc_full
      (fun b' inside => absent b' (List.mem_cons_of_mem _ inside)) full
      (Effect.called effect c victim b outside)
    have fresh := mirrors'.spells.nodup
    rw [List.map_append, List.nodup_append] at fresh
    refine ⟨some b, ⟨c', _⟩, ⟨rest ++ [(k, b)], _, (Effect.run effect victim b c.value outside).2⟩,
      ?_, ?_, mirrors', value, rfl⟩
    · rw [step, ran]
      rfl
    · refine ⟨?_, by rw [kept]⟩
      rw [kept]
      exact fun inside => fresh.2.2 _ inside _ (List.mem_singleton_self _) rfl

/-- **The cache refines the LRU map** of its capacity, over every sequence of lookups and of
allocations of keys that are not cached, from a fresh cache on. -/
theorem cache_refines_ideal (effect : Option (Effect T Outside)) (links : Ptr → Option Ptr)
    (key : Ptr → Key) (value : Ptr → T) (outside : Outside) (ops : List Op) :
    Runs.Refines (step effect) (idealLRU N effect) Agree
      ⟨LRUCache.fresh N links key value, outside⟩ ⟨[], value, outside⟩ ops := by
  refine Runs.refines_of_simulation Simulated ?_ (fun _ _ => Simulated.agree) ops _ _
    ⟨fresh_mirrors links key value, rfl, rfl⟩
  intro w s op related legal
  cases op with
  | get k => exact get_simulates effect related k
  | alloc k => exact alloc_simulates effect related k legal

/-- The run of `test_cache`: three nodes, and a callback that keeps a log of the evicted keys. -/
theorem test_cache_refines_ideal :
    Runs.Refines (step (some fun k _ value log => (value, k :: log)))
      (idealLRU 3 (some fun k _ value log => (value, k :: log))) Agree
      ⟨LRUCache.fresh 3 (fun _ => none) (fun _ => 0) (fun _ => (0 : UInt32)), ([] : List Key)⟩
      ⟨[], fun _ => 0, []⟩
      [.alloc 0, .alloc 1, .get 0, .alloc 2, .get 1, .get 0, .get 2, .alloc 4, .get 1] :=
  cache_refines_ideal _ _ _ _ _ _

end Sprite.Cache

/-
**Clearing the cache.**

`clear` gives all nodes back and empties the table, the queue and the pool. It leaves `count_` alone:
a cache that has been cleared counts what it held before, takes itself for full too early, and then
finds no node to give up.

* `seen` — what a client can tell of a run: hits, counts, evicted keys, and where the code stops.
* `Mirrors.cleared` — the nodes are deleted once each, and what `clear` leaves.
* `Alike.seen_eq` — caches with the same keys in the same order look the same for ever.
* `clear_resets_iff` — **every history, exactly**: it resets what never held anything.
* `cleared_cache_stops` — a cache of one node.
-/
import Sprite.Cache.Refinement

namespace Sprite.Cache

open Runs Rings LRUCache

variable {T : Type} {N : Nat} [NeZero N]

/-- A callback that takes down the keys evicted. -/
def noting : Effect T (List Key) := fun k _ value evicted => (value, evicted ++ [k])

/-- What a client sees of an operation that comes back. -/
structure Seen where
  hit : Bool
  count : Nat
  evicted : List Key
  deriving DecidableEq

/-- What a client sees of a run; `none` where an assertion fails. -/
def seen (w : World T N (List Key)) : List Op → List (Option Seen)
  | [] => []
  | op :: ops =>
    match step (some noting) w op with
    | none => [none]
    | some (answer, w) => some ⟨answer.isSome, w.cache.count, w.outside⟩ :: seen w ops

/-- One operation, without what it answers. -/
def advance (w : World T N (List Key)) (op : Op) : Option (World T N (List Key)) :=
  (step (some noting) w op).map Prod.snd

/-- Only keys that are not cached are allocated. -/
def Uncached (w : World T N (List Key)) : Op → Prop
  | .get _ => True
  | .alloc k => ∀ node, ¬ w.cache.Holds k node

/-- **The cache is as good as new**: no sequence of operations tells it from one that has just been
constructed. -/
def AsNew (c : LRUCache T N) : Prop :=
  ∀ links key (value : Ptr → T) ops, Permitted advance Uncached ⟨LRUCache.fresh N links key value, []⟩ ops →
    (c.count, seen ⟨c, []⟩ ops)
      = ((LRUCache.fresh N links key value).count, seen ⟨LRUCache.fresh N links key value, []⟩ ops)

/-! ### Caches with the same keys -/

section Alike

variable {c : LRUCache T N} {entries : List (Key × Ptr)} {w w' : World T N (List Key)}

/-- Two caches that hold the same keys, with the same ones used least recently, and the same notes. -/
def Alike (w w' : World T N (List Key)) : Prop :=
  ∃ entries entries', Mirrors w.cache entries ∧ Mirrors w'.cache entries' ∧
    entries.map Prod.fst = entries'.map Prod.fst ∧ w.outside = w'.outside

theorem alike_of_mirrors {c c' : LRUCache T N} {entries entries' : List (Key × Ptr)}
    (mirrors : Mirrors c entries) (mirrors' : Mirrors c' entries')
    (keys : entries.map Prod.fst = entries'.map Prod.fst) (evicted : List Key) :
    Alike ⟨c, evicted⟩ ⟨c', evicted⟩ :=
  ⟨entries, entries', mirrors, mirrors', keys, rfl⟩

theorem Alike.count_eq (alike : Alike w w') : w.cache.count_ = w'.cache.count_ := by
  obtain ⟨entries, entries', mirrors, mirrors', keys, _⟩ := alike
  have lengths := congrArg List.length keys
  rw [List.length_map, List.length_map] at lengths
  rw [mirrors.counted, mirrors'.counted, lengths]

theorem advance_eq {op : Op} {answer : Option Ptr} {next : World T N (List Key)}
    (ran : step (some noting) w op = some (answer, next)) : advance w op = some next := by
  rw [advance, ran]
  rfl

/-- **One operation** looks the same on both caches. -/
theorem Alike.step (alike : Alike w w') (op : Op) (legal : Uncached w' op) :
    ∃ answer next answer' next', Cache.step (some noting) w op = some (answer, next) ∧
      Cache.step (some noting) w' op = some (answer', next') ∧ answer.isSome = answer'.isSome ∧
      Alike next next' := by
  obtain ⟨c, evicted⟩ := w
  obtain ⟨c', evicted'⟩ := w'
  have counts := alike.count_eq
  obtain ⟨entries, entries', mirrors, mirrors', keys, same⟩ := alike
  dsimp only at mirrors mirrors' same counts
  subst same
  cases op with
  | get k =>
    by_cases present : k ∈ entries.map Prod.fst
    · have present' := keys ▸ present
      obtain ⟨⟨_, b⟩, member, rfl⟩ := List.mem_map.mp present
      obtain ⟨⟨k, b'⟩, member', sameKey⟩ := List.mem_map.mp present'
      dsimp only at sameKey
      subst sameKey
      obtain ⟨q, got, moved⟩ := mirrors.get_hit member
      obtain ⟨q', got', moved'⟩ := mirrors'.get_hit member'
      refine ⟨some b, ⟨{ c with toQueue := q }, evicted⟩, some b', ⟨{ c' with toQueue := q' }, evicted⟩,
        ?_, ?_, rfl, alike_of_mirrors moved moved' ?_ evicted⟩
      · simp only [Cache.step, World.Get, got, Option.bind_eq_bind, Option.bind_some, Option.pure_def]
      · simp only [Cache.step, World.Get, got', Option.bind_eq_bind, Option.bind_some, Option.pure_def]
      · rw [mirrors.keys_moved member, mirrors'.keys_moved member', keys]
    · have present' := keys ▸ present
      have missed := mirrors.get_miss fun b member => present (List.mem_map.mpr ⟨_, member, rfl⟩)
      have missed' := mirrors'.get_miss fun b member => present' (List.mem_map.mpr ⟨_, member, rfl⟩)
      refine ⟨none, ⟨c, evicted⟩, none, ⟨c', evicted⟩, ?_, ?_, rfl,
        alike_of_mirrors mirrors mirrors' keys evicted⟩
      · simp only [Cache.step, World.Get, missed, Option.bind_eq_bind, Option.bind_some,
          Option.pure_def]
      · simp only [Cache.step, World.Get, missed', Option.bind_eq_bind, Option.bind_some,
          Option.pure_def]
  | alloc k =>
    have absent' : ∀ b, (k, b) ∉ entries' := fun b member => legal b ((mirrors'.holds k b).mpr member)
    have absent : ∀ b, (k, b) ∉ entries := by
      intro b member
      have inside : k ∈ entries.map Prod.fst := List.mem_map.mpr ⟨_, member, rfl⟩
      rw [keys] at inside
      obtain ⟨⟨_, b'⟩, member', rfl⟩ := List.mem_map.mp inside
      exact absent' b' member'
    by_cases room : c.count_ < N
    · obtain ⟨next, ran, _, _, moved⟩ :=
        mirrors.alloc_room absent room (some (Effect.callback noting)) evicted
      obtain ⟨next', ran', _, _, moved'⟩ :=
        mirrors'.alloc_room absent' (counts ▸ room) (some (Effect.callback noting)) evicted
      refine ⟨some c.made, ⟨next, evicted⟩, some c'.made, ⟨next', evicted⟩, ?_, ?_, rfl,
        alike_of_mirrors moved moved' ?_ evicted⟩
      · rw [Cache.step, Option.map_some, ran, Option.map_some]
      · rw [Cache.step, Option.map_some, ran', Option.map_some]
      · rw [List.map_append, List.map_append, keys]
        rfl
    · obtain ⟨victim, b, rest, rfl, full⟩ := mirrors.exists_victim room
      obtain ⟨victim', b', rest', rfl, full'⟩ := mirrors'.exists_victim (counts ▸ room)
      obtain ⟨rfl, sameRest⟩ := List.cons.inj keys
      obtain ⟨next, ran, _, _, moved⟩ := mirrors.alloc_full
        (fun b member => absent b (List.mem_cons_of_mem _ member)) full
        (Effect.called (some noting) c victim b evicted)
      obtain ⟨next', ran', _, _, moved'⟩ := mirrors'.alloc_full
        (fun b member => absent' b (List.mem_cons_of_mem _ member)) full'
        (Effect.called (some noting) c' victim b' evicted)
      refine ⟨some b, ⟨next, evicted ++ [victim]⟩, some b', ⟨next', evicted ++ [victim]⟩, ?_, ?_, rfl,
        alike_of_mirrors moved moved' ?_ _⟩
      · rw [Cache.step, ran]
        rfl
      · rw [Cache.step, ran']
        rfl
      · rw [List.map_append, List.map_append, sameRest]
        rfl

/-- **Caches with the same keys look the same for ever.** -/
theorem Alike.seen_eq (ops : List Op) : ∀ {w w' : World T N (List Key)}, Alike w w' →
    Permitted advance Uncached w' ops → seen w ops = seen w' ops := by
  induction ops with
  | nil => exact fun _ _ => rfl
  | cons op ops ih =>
    intro w w' alike permitted
    obtain ⟨answer, next, answer', next', ran, ran', hits, alike'⟩ := alike.step op permitted.1
    have rest := ih alike' (permitted.2 next' (advance_eq ran'))
    have counts : next.cache.count = next'.cache.count := alike'.count_eq
    obtain ⟨_, _, _, _, _, evicted⟩ := alike'
    simp only [seen, ran, ran', hits, counts, evicted, rest]

end Alike

/-! ### What `clear` does -/

section Clear

variable {c : LRUCache T N} {entries : List (Key × Ptr)}

/-- The loop goes once round the ring. -/
theorem deleteRing_chain {next prev : Ptr → Option Ptr} {queue_ last : Ptr} (rest : List Ptr) :
    ∀ (iter : Ptr) (steps : Nat) (deleted : List Ptr), (iter :: rest).IsChain (Linked next prev) →
      (iter :: rest).getLast? = some last → next last = some queue_ → (iter :: rest).Nodup →
      queue_ ∉ rest → (∀ node ∈ iter :: rest, node ∉ deleted) → rest.length < steps →
      ∃ deleted', deleteRing next queue_ steps iter deleted = some deleted' := by
  induction rest with
  | nil =>
    intro iter steps deleted _ tail home _ _ fresh enough
    obtain ⟨steps, rfl⟩ := Nat.exists_eq_succ_of_ne_zero (Nat.ne_of_gt (Nat.zero_lt_of_lt enough))
    obtain rfl : iter = last := Option.some.inj tail
    refine ⟨iter :: deleted, ?_⟩
    rw [deleteRing, if_neg (fresh iter List.mem_cons_self), if_pos home]
  | cons node rest ih =>
    intro iter steps deleted chain tail home distinct notHome fresh enough
    obtain ⟨steps, rfl⟩ := Nat.exists_eq_succ_of_ne_zero (Nat.ne_of_gt (Nat.zero_lt_of_lt enough))
    obtain ⟨link, chain'⟩ := List.isChain_cons_cons.mp chain
    obtain ⟨notLater, distinct'⟩ := List.nodup_cons.mp distinct
    have onward : next iter ≠ some queue_ := by
      rw [link.1]
      rintro same
      exact notHome (Option.some.inj same ▸ List.mem_cons_self)
    rw [deleteRing, if_neg (fresh iter List.mem_cons_self), if_neg onward, link.1]
    refine ih node steps (iter :: deleted) chain' (by simpa using tail) home distinct'
      (fun later => notHome (List.mem_cons_of_mem _ later)) (fun node' member => ?_)
      (Nat.lt_of_succ_lt_succ enough)
    rw [List.mem_cons, not_or]
    exact ⟨fun same => notLater (same ▸ member), fresh node' (List.mem_cons_of_mem _ member)⟩

/-- **`clear` comes back**, deletes each node of the ring once, and leaves the count. -/
theorem Mirrors.cleared (mirrors : Mirrors c entries) :
    c.clear = some { c with table_ := fun _ => none, queue_ := none, free_ := none } := by
  have spells := mirrors.spells
  unfold LRUCache.clear
  cases entries with
  | nil =>
    have empty : c.queue_ = none := spells.head
    simp only [empty, mirrors.indexed.unspent, Option.bind_eq_bind, Option.bind_some, deletePool,
      Option.pure_def]
  | cons entry rest =>
    have isHead : c.queue_ = some entry.2 := spells.head
    have tail : (entry.2 :: rest.map Prod.snd).getLast? = some _ := List.getLast?_cons
    obtain ⟨chain, home, _⟩ := (chain_iff rfl tail).mp spells.closed
    have distinct := List.nodup_cons.mp spells.nodup
    -- The nodes of the ring are among those made.
    have few : (rest.map Prod.snd).length < c.made := by
      have below : ∀ node ∈ (entry :: rest).map Prod.snd, node ∈ List.range c.made := by
        intro node member
        obtain ⟨⟨k, _⟩, inside, rfl⟩ := List.mem_map.mp member
        exact List.mem_range.mpr (mirrors.indexed.holds_lt ((mirrors.holds k _).mpr inside))
      have fewer := (spells.nodup.subperm below).length_le
      rw [List.length_range, List.map_cons, List.length_cons] at fewer
      exact fewer
    obtain ⟨deleted, ran⟩ := deleteRing_chain (rest.map Prod.snd) entry.2 c.made [] chain tail home
      spells.nodup distinct.1 (fun _ _ => List.not_mem_nil) few
    simp only [isHead, ran, mirrors.indexed.unspent, Option.bind_eq_bind, Option.bind_some,
      deletePool, Option.pure_def]

/-- A cleared cache that counts nothing is like a fresh one. -/
theorem cleared_mirrors (c : LRUCache T N) (empty : c.count_ = 0) :
    Mirrors ({ c with table_ := fun _ => none, queue_ := none, free_ := none } : LRUCache T N) [] where
  indexed := by
    have new : Indexed (LRUCache.fresh N c.next c.key c.value) := fresh_indexed c.next c.key c.value
    exact ⟨new.complete, empty.trans new.counted, rfl,
      fun _ _ stored => absurd stored.symm (Option.some_ne_none _)⟩
  spells := ⟨List.nodup_nil, empty, rfl, Cycle.Chain.nil _⟩
  holds k b := by
    constructor
    · rintro ⟨_, stored, _⟩
      cases stored
    · intro inside
      cases inside

end Clear

/-! ### Every history -/

/-- Lookups, and allocations of keys that are not cached, lead from one cache that mirrors a list to
another. -/
theorem mirrors_along (ops : List Op) : ∀ (w : World T N (List Key)) entries, Mirrors w.cache entries →
    Permitted advance Uncached w ops →
      ∃ last entries', ops.foldlM advance w = some last ∧ Mirrors last.cache entries' := by
  induction ops with
  | nil => exact fun w entries mirrors _ => ⟨w, entries, rfl, mirrors⟩
  | cons op ops ih =>
    intro w entries mirrors permitted
    have alike : Alike w w := ⟨entries, entries, mirrors, mirrors, rfl, rfl⟩
    obtain ⟨answer, next, _, _, ran, _, _, entries', _, mirrors', _⟩ := alike.step op permitted.1
    obtain ⟨last, entries'', rest, kept⟩ :=
      ih next entries' mirrors' (permitted.2 next (advance_eq ran))
    refine ⟨last, entries'', ?_, kept⟩
    rw [List.foldlM_cons, advance_eq ran]
    exact rest

/-- **Clearing resets the cache, exactly** when nothing was ever allocated in it: after every history
of lookups and allocations of keys that are not cached, `clear` comes back, and what it leaves is as
good as new if and only if the count was 0. -/
theorem clear_resets_iff (links : Ptr → Option Ptr) (key : Ptr → Key) (value : Ptr → T)
    (before : List Op)
    (legal : Permitted advance Uncached ⟨LRUCache.fresh N links key value, []⟩ before) :
    ∃ w c, before.foldlM advance ⟨LRUCache.fresh N links key value, []⟩ = some w ∧
      w.cache.clear = some c ∧ (AsNew c ↔ w.cache.count = 0) := by
  obtain ⟨w, entries, ran, mirrors⟩ := mirrors_along before _ [] (fresh_mirrors links key value) legal
  refine ⟨w, _, ran, mirrors.cleared, fun asNew => ?_, fun empty links' key' value' ops permitted => ?_⟩
  · exact congrArg Prod.fst (asNew links key value [] trivial)
  · have alike := alike_of_mirrors (cleared_mirrors w.cache empty) (fresh_mirrors links' key' value') rfl []
    exact Prod.ext empty (alike.seen_eq ops permitted)

theorem clear_resets_small_cache :
    ∃ w c, [Op.get 0].foldlM advance
        ⟨LRUCache.fresh 3 (fun _ => none) (fun _ => 0) (fun _ => (0 : UInt32)), []⟩ = some w ∧
      w.cache.clear = some c ∧ (AsNew c ↔ w.cache.count = 0) :=
  clear_resets_iff _ _ _ _ ⟨trivial, fun _ _ => trivial⟩

/-- **A cleared cache stops**: one node was allocated, `clear` leaves the count at 1, and the next
allocation takes the cache for full and finds the list empty. -/
theorem cleared_cache_stops :
    ∃ w c, [Op.alloc 0].foldlM advance
        ⟨LRUCache.fresh 1 (fun _ => none) (fun _ => 0) (fun _ => (0 : UInt32)), []⟩ = some w ∧
      w.cache.clear = some c ∧ c.count = 1 ∧ seen ⟨c, []⟩ [.alloc 1] = [none] ∧ ¬ AsNew c := by
  have run : ([Op.alloc 0].foldlM advance
      ⟨LRUCache.fresh 1 (fun _ => none) (fun _ => 0) (fun _ => (0 : UInt32)), []⟩).bind (fun w =>
        w.cache.clear.map fun c => (c.count, seen ⟨c, []⟩ [.alloc 1])) = some (1, [none]) := by
    decide
  obtain ⟨w, ran, rest⟩ := Option.bind_eq_some_iff.mp run
  obtain ⟨c, cleared, values⟩ := Option.map_eq_some_iff.mp rest
  obtain ⟨count, stops⟩ := Prod.mk.inj values
  refine ⟨w, c, ran, cleared, count, stops, fun asNew => ?_⟩
  have same := congrArg Prod.fst (asNew (fun _ => none) (fun _ => 0) (fun _ => 0) [] trivial)
  have zero : (1 : Nat) = 0 := count.symm.trans same
  exact absurd zero (by decide)

end Sprite.Cache

/-
**What the cache keeps.**

`read_block` asks for a key and allocates it when it is missing. Under this use the cache holds exactly
the keys used last, so that a lookup hits if and only if fewer than `N` other keys have been asked for
since the last time. A larger cache therefore never misses where a smaller one hits.

* `fetch`, `fetches` — lookups that allocate what is missing.
* `KeepsRecent` — the invariant: the queue is the keys used last, in the order of their last use.
* `hits_iff_recent` — **which lookups hit**, in every run.
-/
import Sprite.Cache.Refinement
import Sprite.Lib.Recency

namespace Sprite.Cache

open Recency

variable {T : Type} {N : Nat} [NeZero N] {Outside : Type}

/-- A lookup, and an allocation if it misses: whether it hits. -/
def fetch (effect : Option (Effect T Outside)) (w : World T N Outside) (k : Key) :
    Option (Bool × World T N Outside) := do
  let (found, w) ← step effect w (.get k)
  match found with
  | some _ => return (true, w)
  | none =>
      let (_, w) ← step effect w (.alloc k)
      return (false, w)

def fetches (effect : Option (Effect T Outside)) (w : World T N Outside) :
    List Key → Option (List Bool × World T N Outside)
  | [] => some ([], w)
  | k :: keys => do
      let (hit, w) ← fetch effect w k
      let (hits, w) ← fetches effect w keys
      return (hit :: hits, w)

/-- **The invariant**: the cache holds the keys used last, in the order of their last use. -/
def KeepsRecent (trace : List Key) (w : World T N Outside) : Prop :=
  ∃ entries, Mirrors w.cache entries ∧ entries.map Prod.fst = trace.foldl (touch N) []

variable {w : World T N Outside} {trace : List Key} {k : Key}

/-- The keys that the cache holds are the recent ones. -/
theorem KeepsRecent.mem_iff (kept : KeepsRecent trace w) : (∃ b, w.cache.Holds k b) ↔ Recent N trace k := by
  obtain ⟨entries, mirrors, keys⟩ := kept
  rw [← mem_rtake_iff, ← foldl_touch (Nat.pos_of_ne_zero (NeZero.ne N)), ← keys]
  simp [mirrors.holds]

omit [NeZero N] in
theorem madeRoom_entries (size : Nat) (effect : Option (Effect T Outside)) (s : IdealLRU T Outside) :
    (s.madeRoom size effect).entries = if s.entries.length < size then s.entries else s.entries.tail := by
  obtain ⟨entries, value, outside⟩ := s
  unfold IdealLRU.madeRoom
  split_ifs
  · rfl
  · cases entries <;> rfl

/-- **One lookup** that allocates what is missing. -/
theorem fetch_keeps (effect : Option (Effect T Outside)) (kept : KeepsRecent trace w) (k : Key) :
    ∃ hit w', fetch effect w k = some (hit, w') ∧ KeepsRecent (trace ++ [k]) w' ∧
      (hit = true ↔ Recent N trace k) := by
  rw [← kept.mem_iff]
  obtain ⟨entries, mirrors, keys⟩ := kept
  have next : (trace ++ [k]).foldl (touch N) [] = touch N (entries.map Prod.fst) k := by
    rw [List.foldl_concat, keys]
  by_cases present : ∃ b, (k, b) ∈ entries
  · obtain ⟨b, member⟩ := present
    obtain ⟨q, got, mirrors'⟩ := mirrors.get_hit member
    refine ⟨true, ⟨{ w.cache with toQueue := q }, w.outside⟩, ?_, ⟨_, mirrors', ?_⟩, ?_⟩
    · simp [fetch, step, World.Get, got]
    · rw [next, mirrors.keys_moved member, touch, if_pos (List.mem_map_of_mem member)]
    · exact iff_of_true rfl ⟨b, (mirrors.holds k b).mpr member⟩
  · have absent : ∀ b, (k, b) ∉ entries := fun b member => present ⟨b, member⟩
    have missing : k ∉ entries.map Prod.fst := by simpa using absent
    have related : Simulated w ⟨entries, w.cache.value, w.outside⟩ := ⟨mirrors, rfl, rfl⟩
    obtain ⟨out, w', s', allocated, accepted, related'⟩ := alloc_simulates effect related k absent
    refine ⟨false, w', ?_, ⟨_, related'.mirrors, ?_⟩, ?_⟩
    · have got : step effect w (.get k) = some (none, w) := by
        simp [step, World.Get, mirrors.get_miss absent]
      rw [fetch, got, Option.bind_eq_bind, Option.bind_some]
      dsimp only
      rw [allocated]
      rfl
    · cases out with
      | none => exact accepted.elim
      | some b =>
        obtain ⟨-, rfl⟩ := accepted
        rw [next, touch, if_neg missing, List.length_map, madeRoom_entries, List.map_append, apply_ite
          (List.map Prod.fst), List.map_tail]
        rfl
    · refine iff_of_false Bool.false_ne_true ?_
      rintro ⟨b, holds⟩
      exact absent b ((mirrors.holds k b).mp holds)

/-- **A run of lookups** from any trace on. -/
theorem fetches_keep (effect : Option (Effect T Outside)) (keys : List Key) :
    ∀ {trace : List Key} {w : World T N Outside}, KeepsRecent trace w →
    ∃ hits w', fetches effect w keys = some (hits, w') ∧ KeepsRecent (trace ++ keys) w' ∧
      hits.length = keys.length ∧ ∀ i k, keys[i]? = some k →
        (hits[i]? = some true ↔ Recent N (trace ++ keys.take i) k) := by
  induction keys with
  | nil =>
    intro trace w kept
    exact ⟨[], w, rfl, by rwa [List.append_nil], rfl, fun i k found => by simp at found⟩
  | cons key keys ih =>
    intro trace w kept
    obtain ⟨hit, w₁, fetched, kept₁, isHit⟩ := fetch_keeps effect kept key
    obtain ⟨hits, w₂, ran, kept₂, length, areHits⟩ := ih kept₁
    refine ⟨hit :: hits, w₂, ?_, ?_, ?_, fun i k found => ?_⟩
    · simp [fetches, fetched, ran]
    · rwa [List.append_assoc] at kept₂
    · rw [List.length_cons, List.length_cons, length]
    · cases i with
      | zero =>
        cases found
        simpa using isHit
      | succ i =>
        have later := areHits i k (by simpa using found)
        rwa [List.append_assoc] at later

theorem fresh_kept (links : Ptr → Option Ptr) (key : Ptr → Key) (value : Ptr → T) (outside : Outside) :
    KeepsRecent [] (⟨LRUCache.fresh N links key value, outside⟩ : World T N Outside) :=
  ⟨[], fresh_mirrors links key value, rfl⟩

/-- **Which lookups hit**, in every run from a fresh cache on: those of keys that have been asked for
before, with fewer than `N` others since. What a smaller cache finds, a larger one finds as well. -/
theorem hits_iff_recent {M : Nat} [NeZero M] (larger : N ≤ M) (effect : Option (Effect T Outside))
    (links : Ptr → Option Ptr) (key : Ptr → Key) (value : Ptr → T) (outside : Outside) (keys : List Key) :
    ∃ hits hits' w w', fetches effect ⟨LRUCache.fresh N links key value, outside⟩ keys = some (hits, w) ∧
      fetches effect ⟨LRUCache.fresh M links key value, outside⟩ keys = some (hits', w') ∧
      hits.length = keys.length ∧
      (∀ i k, keys[i]? = some k → (hits[i]? = some true ↔ Recent N (keys.take i) k)) ∧
      ∀ i : Nat, hits[i]? = some true → hits'[i]? = some true := by
  obtain ⟨hits, w, ran, -, length, exactly⟩ :=
    fetches_keep effect keys (fresh_kept (N := N) links key value outside)
  obtain ⟨hits', w', ran', -, -, exactly'⟩ :=
    fetches_keep effect keys (fresh_kept (N := M) links key value outside)
  refine ⟨hits, hits', w, w', ran, ran', length, exactly, fun i isHit => ?_⟩
  obtain ⟨inside, -⟩ := List.getElem?_eq_some_iff.mp isHit
  obtain ⟨k, found⟩ : ∃ k, keys[i]? = some k := ⟨_, List.getElem?_eq_getElem (length ▸ inside)⟩
  exact (exactly' i _ found).mpr (((exactly i _ found).mp isHit).mono larger)

/-- Three keys by turns. -/
def turns : List Key := [1, 2, 3, 1, 1, 2]

/-- Two nodes and three. -/
theorem two_and_three_nodes :
    ∃ hits hits' w w',
      fetches none ⟨LRUCache.fresh 2 (fun _ => none) (fun _ => 0) (fun _ => ()), ()⟩ turns = some (hits, w) ∧
      fetches none ⟨LRUCache.fresh 3 (fun _ => none) (fun _ => 0) (fun _ => ()), ()⟩ turns = some (hits', w') ∧
      hits.length = turns.length ∧
      (∀ i k, turns[i]? = some k → (hits[i]? = some true ↔ Recent 2 (turns.take i) k)) ∧
      ∀ i : Nat, hits[i]? = some true → hits'[i]? = some true :=
  hits_iff_recent (N := 2) (M := 3) (by decide) none _ _ _ () turns

end Sprite.Cache

/-
**The queue of the block cache.**

As long as nothing is evicted, the queue of the block cache is a ring of the cached blocks in the
order of their last use. `uncache` puts the node being evicted back into the ring it has just left,
and the eviction then puts it in once more: after the first eviction the node is its own predecessor.

* `QueueRight` — the queue against the order in which an LRU cache would hold the blocks.
* `queue_right_along_runs` — **every run that evicts nothing**.
* `eviction_breaks_queue` — every eviction of at least two blocks breaks the ring.
* `third_block_breaks_queue` — with two nodes, the third block does.
-/
import Sprite.Cache.Refinement
import Sprite.Fs.Consistent

namespace Sprite.Fs

open Cache Ide Runs

variable {N : Nat} [NeZero N]

/-- The calls of the block layer. -/
inductive Call where
  | getBlock (bno : UInt32)
  | readBlock (bno : UInt32)
  | writeBlock (bno : UInt32)

/-- A call after `init_fs` has installed `uncache`. -/
def perform (w : FsWorld N) : Call → Option (FsWorld N)
  | .getBlock bno => (getBlock (some uncache) bno w).map Prod.snd
  | .readBlock bno => (readBlock (some uncache) bno w).map Prod.snd
  | .writeBlock bno => (writeBlock bno w).map Prod.snd

/-- The blocks an LRU cache with `size` nodes holds after a call, the least recently used first. -/
def orderAfter (size : Nat) (order : List Key) : Call → List Key
  | .getBlock bno | .readBlock bno =>
    if bno ∈ order then order.erase bno ++ [bno]
    else if order.length < size then order ++ [bno]
    else order.tail ++ [bno]
  | .writeBlock bno => if bno ∈ order then order.erase bno ++ [bno] else order

/-- A call, with the order that the queue should have. -/
def step (s : FsWorld N × List Key) (call : Call) : Option (FsWorld N × List Key) :=
  (perform s.1 call).map fun w => (w, orderAfter N s.2 call)

/-- **The queue is a ring of the cached nodes**, each once, in the order of their last use. -/
def QueueRight (s : FsWorld N × List Key) : Prop :=
  ∃ ring, s.1.cache.toQueue.Spells ring ∧ ring.map s.1.cache.key = s.2 ∧
    ∀ node, node ∈ ring ↔ ∃ slot, s.1.cache.table_ slot = some node

/-- The block of a call that may move it passes the range assertion of the driver, which stops the
kernel otherwise. -/
def OnDisk (s : FsWorld N × List Key) : Call → Prop
  | .getBlock _ => True
  | .readBlock bno | .writeBlock bno =>
    secnoOk s.1.outside (blockToSector bno) (blockToSector 1) = true

/-- The call does not miss on a full cache. -/
def EvictsNothing (s : FsWorld N × List Key) : Call → Prop
  | .getBlock bno | .readBlock bno =>
    (∃ slot, ∃ node ∈ s.1.cache.table_ slot, s.1.cache.key node = bno) ∨ s.1.cache.count < N
  | .writeBlock _ => True

instance (s : FsWorld N × List Key) : ∀ call, Decidable (OnDisk s call)
  | .getBlock _ => inferInstanceAs (Decidable True)
  | .readBlock _ | .writeBlock _ => inferInstanceAs (Decidable (_ = true))

instance (s : FsWorld N × List Key) : ∀ call, Decidable (EvictsNothing s call)
  | .getBlock _ | .readBlock _ =>
    inferInstanceAs (Decidable ((∃ slot, ∃ node ∈ s.1.cache.table_ slot, _ = _) ∨ _ < _))
  | .writeBlock _ => inferInstanceAs (Decidable True)

/-! ### Runs without evictions -/

/-- The invariant: the cache mirrors some entries, whose keys are in the order of use. -/
structure InOrder (s : FsWorld N × List Key) : Prop where
  mirrored : ∃ entries, Mirrors s.1.cache entries ∧ entries.map Prod.fst = s.2
  valid : s.1.outside.valid = 1

theorem InOrder.right {s : FsWorld N × List Key} (inv : InOrder s) : QueueRight s := by
  obtain ⟨entries, mirrors, order⟩ := inv.mirrored
  refine ⟨entries.map Prod.snd, mirrors.spells, ?_, fun node => ?_⟩
  · rw [List.map_map, ← order]
    refine List.map_congr_left fun ⟨k, b⟩ member => ?_
    obtain ⟨_, _, isKey⟩ := (mirrors.holds k b).mpr member
    exact isKey
  · constructor
    · intro inside
      obtain ⟨⟨k, b⟩, member, rfl⟩ := List.mem_map.mp inside
      obtain ⟨slot, stored, _⟩ := (mirrors.holds k b).mpr member
      exact ⟨slot, stored⟩
    · rintro ⟨slot, stored⟩
      exact List.mem_map.mpr ⟨_, (mirrors.holds _ node).mp ⟨slot, stored, rfl⟩, rfl⟩

theorem InOrder.counted {s : FsWorld N × List Key} (inOrder : InOrder s) :
    s.1.cache.count_ = s.2.length := by
  obtain ⟨entries, mirrors, sameOrder⟩ := inOrder.mirrored
  rw [mirrors.counted, ← sameOrder, List.length_map]

theorem InOrder.cached_mem {s : FsWorld N × List Key} {bno : UInt32} (inOrder : InOrder s) (cached : Cached s.1 bno) :
    bno ∈ s.2 := by
  obtain ⟨entries, mirrors, sameOrder⟩ := inOrder.mirrored
  obtain ⟨node, holds⟩ := cached
  rw [← sameOrder]
  exact List.mem_map.mpr ⟨_, (mirrors.holds bno node).mp holds, rfl⟩

variable {c : LRUCache BlockBuffer N} {entries : List (Key × Ptr)} {bno : UInt32} {buff : Ptr}

/-- The values of the nodes do not matter to the cache. -/
theorem mirrors_value (mirrors : Mirrors c entries) (value : Ptr → BlockBuffer) :
    Mirrors { c with value := value } entries :=
  ⟨⟨mirrors.indexed.complete, mirrors.indexed.counted, mirrors.indexed.unspent,
    mirrors.indexed.made⟩, mirrors.spells, mirrors.holds⟩

theorem key_mem (member : (bno, buff) ∈ entries) : bno ∈ entries.map Prod.fst :=
  List.mem_map.mpr ⟨_, member, rfl⟩

/-- A lookup of a cached block, in the block layer's world. -/
theorem world_get_hit (mirrors : Mirrors c entries) (member : (bno, buff) ∈ entries) (d : Device) :
    ∃ q, World.Get bno ⟨c, d⟩ = some (some buff, ⟨{ c with toQueue := q }, d⟩) ∧
      Mirrors { c with toQueue := q } (entries.erase (bno, buff) ++ [(bno, buff)]) := by
  obtain ⟨q, got, mirrors'⟩ := mirrors.get_hit member
  refine ⟨q, ?_, mirrors'⟩
  simp only [World.Get, got, Option.bind_eq_bind, Option.bind_some, Option.pure_def]

theorem world_get_miss (mirrors : Mirrors c entries) (absent : ∀ buff, (bno, buff) ∉ entries)
    (d : Device) : World.Get bno ⟨c, d⟩ = some (none, ⟨c, d⟩) := by
  simp only [World.Get, mirrors.get_miss absent, Option.bind_eq_bind, Option.bind_some,
    Option.pure_def]

omit [NeZero N] in
/-- Reading a block into a buffer touches no more of the cache than its value. -/
theorem fill_returns (c : LRUCache BlockBuffer N) (buff : Ptr) {d : Device}
    (passes : secnoOk d (blockToSector bno) (blockToSector 1) = true) :
    ∃ value d', fill bno buff ⟨c, d⟩ = some ⟨{ c with value := value }, d'⟩ ∧ d'.valid = d.valid := by
  obtain ⟨⟨ret, mem, d'⟩, ran, valid⟩ := ideReadSecs_returns 0 (c.value buff).bytes passes
  refine ⟨Function.update c.value buff (BlockBuffer.ofBytes mem), d', ?_, valid⟩
  simp only [fill, ran, Option.bind_eq_bind, Option.bind_some, Option.pure_def]

/-- **A call that evicts nothing** keeps the queue in order, whether or not the device works. -/
theorem perform_keeps {s : FsWorld N × List Key} {call : Call} (inv : InOrder s)
    (onDisk : OnDisk s call) (evicts : EvictsNothing s call) :
    ∃ s', step s call = some s' ∧ InOrder s' := by
  obtain ⟨⟨c, d⟩, order⟩ := s
  obtain ⟨⟨entries, mirrors, sameOrder⟩, valid⟩ := inv
  dsimp only at mirrors sameOrder valid
  have sees : ∀ bno, (∃ buff, (bno, buff) ∈ entries) ∨ ∀ buff, (bno, buff) ∉ entries := fun bno =>
    (Classical.em _).imp_right fun absent buff member => absent ⟨buff, member⟩
  have room : ∀ bno, (∀ buff, (bno, buff) ∉ entries) →
      ((∃ slot, ∃ node ∈ c.table_ slot, c.key node = bno) ∨ c.count < N) → c.count_ < N := by
    rintro bno absent (⟨slot, node, stored, isKey⟩ | room)
    · exact absurd ((mirrors.holds bno node).mp ⟨slot, stored, isKey⟩) (absent node)
    · exact room
  have notUsed : ∀ bno, (∀ buff, (bno, buff) ∉ entries) → bno ∉ order := by
    rintro bno absent inside
    rw [← sameOrder] at inside
    obtain ⟨⟨_, buff⟩, member, rfl⟩ := List.mem_map.mp inside
    exact absent buff member
  have length : order.length = c.count_ := by
    rw [← sameOrder, List.length_map, mirrors.counted]
  cases call with
  | getBlock bno =>
    rcases sees bno with ⟨buff, member⟩ | absent
    · obtain ⟨q, got, mirrors'⟩ := world_get_hit mirrors member d
      refine ⟨(⟨{ c with toQueue := q }, d⟩, order.erase bno ++ [bno]), ?_, ⟨_, mirrors', ?_⟩, valid⟩
      · simp only [step, perform, getBlock, got, Option.bind_eq_bind, Option.bind_some, orderAfter,
          if_pos (sameOrder ▸ key_mem member), Option.pure_def, Option.map_some]
      · rw [mirrors.keys_moved member, sameOrder]
    · have left := room bno absent evicts
      obtain ⟨c', ran, _, _, mirrors'⟩ := mirrors.alloc_room absent left (some uncache) d
      refine ⟨(⟨c', d⟩, order ++ [bno]), ?_, ⟨_, mirrors', ?_⟩, valid⟩
      · simp only [step, perform, getBlock, world_get_miss mirrors absent d, Option.bind_eq_bind,
          Option.bind_some, ran, orderAfter, if_neg (notUsed bno absent), if_pos (length ▸ left),
          Option.map_some]
      · rw [List.map_append, sameOrder]
        rfl
  | readBlock bno =>
    rcases sees bno with ⟨buff, member⟩ | absent
    · obtain ⟨q, got, mirrors'⟩ := world_get_hit mirrors member d
      refine ⟨(⟨{ c with toQueue := q }, d⟩, order.erase bno ++ [bno]), ?_, ⟨_, mirrors', ?_⟩, valid⟩
      · simp only [step, perform, readBlock, got, Option.bind_eq_bind, Option.bind_some, orderAfter,
          if_pos (sameOrder ▸ key_mem member), Option.pure_def, Option.map_some]
      · rw [mirrors.keys_moved member, sameOrder]
    · have left := room bno absent evicts
      obtain ⟨c', ran, _, _, mirrors'⟩ := mirrors.alloc_room absent left (some uncache) d
      obtain ⟨value, d', filled, valid'⟩ := fill_returns c' c.made onDisk
      refine ⟨(⟨{ c' with value := value }, d'⟩, order ++ [bno]), ?_,
        ⟨_, mirrors_value mirrors' value, ?_⟩, valid'.trans valid⟩
      · simp only [step, perform, readBlock, world_get_miss mirrors absent d, Option.bind_eq_bind,
          Option.bind_some, ran, filled, orderAfter, if_neg (notUsed bno absent),
          if_pos (length ▸ left), Option.pure_def, Option.map_some]
      · rw [List.map_append, sameOrder]
        rfl
  | writeBlock bno =>
    rcases sees bno with ⟨buff, member⟩ | absent
    · obtain ⟨q, got, mirrors'⟩ := world_get_hit mirrors member d
      obtain ⟨⟨ret, d'⟩, ran, valid'⟩ := ideWriteSecs_returns 0 (c.value buff).bytes onDisk
      refine ⟨(⟨{ c with toQueue := q }, d'⟩, order.erase bno ++ [bno]), ?_, ⟨_, mirrors', ?_⟩,
        valid'.trans valid⟩
      · simp only [step, perform, writeBlock, got, Option.bind_eq_bind, Option.bind_some, ran,
          orderAfter, if_pos (sameOrder ▸ key_mem member), Option.pure_def, Option.map_some]
      · rw [mirrors.keys_moved member, sameOrder]
    · refine ⟨(⟨c, d⟩, order), ?_, ⟨entries, mirrors, sameOrder⟩, valid⟩
      simp only [step, perform, writeBlock, world_get_miss mirrors absent d, Option.bind_eq_bind,
        Option.bind_some, orderAfter, if_neg (notUsed bno absent), Option.pure_def, Option.map_some]

/-- After the reading of the super block its node is the only one. -/
theorem beforeInstall_inOrder (links : Ptr → Option Ptr) (key : Ptr → Key)
    (value : Ptr → BlockBuffer) {d : Device} (valid : d.valid = 1) :
    ∃ w, beforeInstall ⟨LRUCache.fresh N links key value, d⟩ = some w ∧
      InOrder (w, [kSuperBlockBNO]) := by
  have mirrors : Mirrors (LRUCache.fresh N links key value) [] := fresh_mirrors links key value
  have absent : ∀ buff, (kSuperBlockBNO, buff) ∉ ([] : List (Key × Ptr)) := fun _ => List.not_mem_nil
  have passes : secnoOk d (blockToSector kSuperBlockBNO) (blockToSector 1) = true :=
    secnoOk_iff.mpr ⟨valid, by decide, by decide⟩
  have room : (LRUCache.fresh N links key value).count_ < N := Nat.pos_of_neZero N
  obtain ⟨c', ran, _, _, mirrors'⟩ := mirrors.alloc_room absent room none d
  obtain ⟨value', d', filled, valid'⟩ := fill_returns c' 0 passes
  refine ⟨⟨{ c' with value := value' }, d'⟩, ?_, ⟨_, mirrors_value mirrors' value', rfl⟩,
    valid'.trans valid⟩
  simp only [beforeInstall, readBlock, world_get_miss mirrors absent d, Option.bind_eq_bind,
    Option.bind_some, ran, Option.pure_def]
  rw [show (LRUCache.fresh N links key value).made = 0 from rfl, filled]
  rfl

/-- **The queue stays right along every run that evicts nothing**, from where the callback is
installed on. -/
theorem queue_right_along_runs (links : Ptr → Option Ptr) (key : Ptr → Key)
    (value : Ptr → BlockBuffer) {d : Device} (valid : d.valid = 1) (calls : List Call) :
    ∃ w, beforeInstall ⟨LRUCache.fresh N links key value, d⟩ = some w ∧
      Along step (fun s call => OnDisk s call ∧ EvictsNothing s call) QueueRight
        (w, [kSuperBlockBNO]) calls := by
  obtain ⟨w, started, inOrder⟩ := beforeInstall_inOrder links key value valid (N := N)
  refine ⟨w, started, ?_⟩
  exact along_of_invariant InOrder (fun s call inv allowed => perform_keeps inv allowed.1 allowed.2)
    (fun s inv => inv.right) calls _ inOrder

/-! ### The first eviction -/

omit [NeZero N] in
/-- A node that is its own predecessor, but not its own successor. -/
theorem not_right_of_hangs {s : FsWorld N × List Key} {count : Nat} {z first : Ptr}
    (hangs : s.1.cache.toQueue.Hangs count z first z) (other : z ≠ first) {slot : Fin N}
    (stored : s.1.cache.table_ slot = some z) : ¬ QueueRight s := by
  rintro ⟨ring, spells, _, all⟩
  obtain ⟨before, _, behind, ahead⟩ := spells.closed.prev_next ((all z).mpr ⟨slot, stored⟩)
  cases hangs.behind.symm.trans behind
  cases hangs.ahead.symm.trans ahead
  exact other rfl

/-- An allocation that evicts takes the node of the block used least recently, which hangs on itself
afterwards. -/
theorem evicting_alloc {victim second : Key} {z first : Ptr} {rest : List (Key × Ptr)}
    (mirrors : Mirrors c ((victim, z) :: (second, first) :: rest)) (full : c.count_ = N) {d : Device}
    (onDisk : secnoOk d (blockToSector victim) (blockToSector 1) = true) (bno : UInt32) :
    ∃ slot q d', World.Alloc (some uncache) bno ⟨c, d⟩
        = some (z, ⟨{ c with toQueue := q, key := Function.update c.key z bno }, d'⟩) ∧
      d'.valid = d.valid ∧ q.Hangs N z first z ∧ z ≠ first ∧ c.table_ slot = some z := by
  have length : rest.length + 2 = N := by rw [← full, mirrors.counted]; rfl
  have holds : c.Holds victim z := (mirrors.holds victim z).mpr List.mem_cons_self
  have other : z ≠ first := fun same =>
    (List.nodup_cons.mp mirrors.spells.nodup).1 (same ▸ List.mem_cons_self)
  have room : (rest.map Prod.snd).length + 1 < N := by
    rw [List.length_map, ← length]
    exact Nat.lt_succ_self _
  obtain ⟨q₁, q₂, q₃, q₄, popped, requeued, pushed, requeued', hangs⟩ :=
    mirrors.spells.reenter room
  obtain ⟨⟨ret, d'⟩, ran, valid⟩ := ideWriteSecs_returns 0 (c.value z).bytes onDisk
  have called := uncache_promotes mirrors.indexed.complete holds requeued ran
  obtain ⟨slot, stored, _⟩ := id holds
  rw [List.length_map, length] at hangs
  exact ⟨slot, q₄, d', Set_full mirrors.indexed full mirrors.spells.head holds popped called pushed
    requeued', valid, hangs, other, stored⟩

/-- **Every eviction breaks the ring**, when the cache has two nodes or more. -/
theorem eviction_breaks_queue {s : FsWorld N × List Key} {call : Call} (inv : InOrder s)
    (two : 2 ≤ N) (onDisk : OnDisk s call) (cached : ∀ bno buff, s.1.cache.Holds bno buff →
      secnoOk s.1.outside (blockToSector bno) (blockToSector 1) = true)
    (evicts : ¬ EvictsNothing s call) : ∃ s', step s call = some s' ∧ ¬ QueueRight s' := by
  obtain ⟨⟨c, d⟩, order⟩ := s
  obtain ⟨⟨entries, mirrors, _⟩, _⟩ := inv
  dsimp only at mirrors cached
  have misses : ∀ bno, ¬ ((∃ slot, ∃ node ∈ c.table_ slot, c.key node = bno) ∨ c.count < N) →
      (∀ buff, (bno, buff) ∉ entries) ∧ ∃ z first slot q key d', World.Alloc (some uncache) bno ⟨c, d⟩
          = some (z, ⟨{ c with toQueue := q, key := key }, d'⟩) ∧
        d'.valid = d.valid ∧ q.Hangs N z first z ∧ z ≠ first ∧ c.table_ slot = some z := by
    intro bno evicts
    refine ⟨fun buff member => evicts (.inl ?_), ?_⟩
    · obtain ⟨slot, stored, isKey⟩ := (mirrors.holds bno buff).mpr member
      exact ⟨slot, buff, stored, isKey⟩
    · have full : c.count_ = N :=
        Nat.le_antisymm mirrors.indexed.count_le (Nat.not_lt.mp fun room => evicts (.inr room))
      have length : entries.length = N := by rw [← mirrors.counted, full]
      match entries, mirrors, length with
      | (victim, z) :: (_, first) :: rest, mirrors, _ =>
        have holds : c.Holds victim z := (mirrors.holds victim z).mpr List.mem_cons_self
        obtain ⟨slot, q, d', result⟩ := evicting_alloc mirrors full (cached victim z holds) bno
        exact ⟨z, first, slot, q, _, d', result⟩
      | [], _, length | [_], _, length =>
        simp only [List.length_nil, List.length_cons] at length
        omega
  cases call with
  | getBlock bno =>
    obtain ⟨absent, z, first, slot, q, key, d', ran, _, hangs, other, stored⟩ := misses bno evicts
    refine ⟨(⟨{ c with toQueue := q, key := key }, d'⟩,
      orderAfter N order (.getBlock bno)), ?_, not_right_of_hangs hangs other stored⟩
    simp only [step, perform, getBlock, world_get_miss mirrors absent d, Option.bind_eq_bind,
      Option.bind_some, ran, Option.map_some]
  | readBlock bno =>
    obtain ⟨absent, z, first, slot, q, key, d', ran, valid, hangs, other, stored⟩ := misses bno evicts
    have passes : secnoOk d' (blockToSector bno) (blockToSector 1) = true := by
      rw [secnoOk, valid]
      exact onDisk
    obtain ⟨value', d'', filled, _⟩ :=
      fill_returns { c with toQueue := q, key := key } z passes
    refine ⟨(⟨{ c with toQueue := q, value := value', key := key }, d''⟩,
      orderAfter N order (.readBlock bno)), ?_, not_right_of_hangs hangs other stored⟩
    simp only [step, perform, readBlock, world_get_miss mirrors absent d, Option.bind_eq_bind,
      Option.bind_some, ran, filled, Option.pure_def, Option.map_some]
  | writeBlock bno => exact absurd trivial evicts

/-! ### A run -/

/-- An empty cache of two nodes, and a disk of zeroes. -/
def smallWorld : FsWorld 2 where
  cache := LRUCache.fresh 2 (fun _ => none) (fun _ => 0) fun _ => ⟨fun _ => 0, 0, 0⟩
  outside := { numbered with disk := fun _ _ => 0 }

/-- Within its capacity the queue stays right. -/
theorem small_queue_right : ∃ w, beforeInstall smallWorld = some w ∧
    Along step (fun s call => OnDisk s call ∧ EvictsNothing s call) QueueRight
      (w, [kSuperBlockBNO]) [.readBlock 2, .readBlock 1, .writeBlock 2, .getBlock 1] :=
  queue_right_along_runs _ _ _ rfl _

/-- **The third block breaks the queue** of a cache of two nodes. -/
theorem third_block_breaks_queue : ∃ w, beforeInstall smallWorld = some w ∧
    ¬ Along step OnDisk QueueRight (w, [kSuperBlockBNO]) [.readBlock 2, .readBlock 3] := by
  have run : ((beforeInstall smallWorld).bind fun w =>
      ([.readBlock 2, .readBlock 3] : List Call).foldlM step (w, [kSuperBlockBNO])).map (fun s =>
        (s.1.cache.queue_, s.1.cache.next 0, s.1.cache.prev 0, s.1.cache.table_ 1))
      = some (some 1, some 1, some 0, some 0) := by decide +kernel
  have permitted : (beforeInstall smallWorld).map (fun w =>
      decide (Permitted step OnDisk (w, [kSuperBlockBNO]) [.readBlock 2, .readBlock 3]))
      = some true := by decide +kernel
  obtain ⟨last, ran, values⟩ := Option.map_eq_some_iff.mp run
  obtain ⟨w, started, ran⟩ := Option.bind_eq_some_iff.mp ran
  rw [started] at permitted
  simp only [Prod.mk.injEq] at values
  obtain ⟨head, ahead, behind, stored⟩ := values
  refine ⟨w, started, fun along => ?_⟩
  have right := along.at_end (of_decide_eq_true (Option.some.inj permitted)) ran
  exact not_right_of_hangs ⟨head, rfl, ahead, behind⟩ (by decide) stored right

end Sprite.Fs

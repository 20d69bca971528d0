/-
**Reads that turn the block cache.**

A full cache gives up its nodes in turn, as long as the blocks read are new. After one full turn every
node but the head is its own predecessor. The next read of the block in the node behind the head then
promotes this node, which cuts off all the others: two nodes are left for all blocks to come.

* `turn_read`, `turn_step` — a read that misses on a full cache.
* `readAll_turns` — **a turn**: as many new blocks as there are nodes.
* `cut_read`, `turn_leaves_two` — the read that leaves two nodes.
* `third_takes_first` — the third block after it comes into the buffer of the first.
-/
import Sprite.Cache.Turning
import Sprite.Fs.Queue
import Sprite.Fs.Persistence
import Sprite.Fs.Walk

namespace Sprite.Fs

open Cache Ide

variable {N : Nat} [NeZero N] {content : UInt32 → Block} {w : FsWorld N} {bno : UInt32}
  {z first y : Ptr} {l : List Ptr}

/-- A full cache whose nodes are given up in turn. -/
structure Turning (content : UInt32 → Block) (w : FsWorld N) (ring : List Ptr) : Prop where
  coherent : Coherent w content
  full : w.cache.count_ = N
  turns : w.cache.toQueue.Turns ring

/-- **A read that misses** takes the head. -/
theorem turn_read (two : 2 ≤ N) (turning : Turning content w (z :: first :: l)) (fits : FitsDisk bno)
    (absent : ¬ Cached w bno) :
    ∃ w', readBlock (some uncache) bno w = some (z, w') ∧ Turning content w' (first :: l ++ [z]) ∧
      w'.cache.Holds bno z ∧ Keeps w.cache w'.cache bno ∧ w'.cache.prev z = some z ∧
      ∀ x, x ≠ z → x ≠ first → w'.cache.prev x = w.cache.prev x := by
  obtain ⟨node, w', ran, holds, _, coherent', _, keeps⟩ :=
    turning.coherent.read_keeps two fits (.inl rfl)
  obtain ⟨c, d⟩ := w
  obtain ⟨coherent, full, turns⟩ := turning
  dsimp only at full turns
  obtain ⟨count, counted⟩ : ∃ count, c.count_ = count + 2 := ⟨N - 2, by omega⟩
  obtain ⟨victim, held⟩ : ∃ victim, c.Holds victim z := by
    have closed : c.toQueue.Closed (Stored c) := by
      refine coherent.tied.resolve_right fun empty => ?_
      have zero := empty.2.1
      dsimp only at zero
      omega
    obtain ⟨head, isHead, inside⟩ := closed.head
    obtain rfl : z = head := Option.some.inj (turns.head.symm.trans isHead)
    exact stored_iff.mp inside
  obtain ⟨fitsVictim, _⟩ := coherent.cached victim z held
  obtain ⟨⟨ret, d'⟩, wrote, valid⟩ := ideWriteSecs_returns 0 (c.value z).bytes
    (secnoOk_of_fits coherent.valid fitsVictim)
  obtain ⟨q₁, q₂, q₃, q₄, popped, requeued, pushed, requeued', turns', count', own, others⟩ :=
    turns.turn counted (by omega : count + 2 ≤ N)
  have called : World.runCallback (some uncache) victim z ⟨{ c with toQueue := q₁ }, d⟩
      = some ⟨{ c with toQueue := q₂, value := c.value }, d'⟩ :=
    uncache_promotes coherent.indexed.complete held requeued wrote
  have alloc := Set_full (k := bno) coherent.indexed full turns.head held popped called pushed requeued'
  have passes : secnoOk d' (blockToSector bno) (blockToSector 1) = true :=
    secnoOk_of_fits (valid.trans coherent.valid) fits
  obtain ⟨value, d'', filled, _⟩ :=
    fill_returns { c with toQueue := q₄, key := Function.update c.key z bno } z passes
  have missed : World.Get bno ⟨c, d⟩ = some (none, ⟨c, d⟩) := get_miss fun node holds => absent ⟨node, holds⟩
  have ran' : readBlock (some uncache) bno ⟨c, d⟩ = some (z, ⟨{ c with
      toQueue := q₄
      key := Function.update c.key z bno
      value := value }, d''⟩) := by
    simp only [readBlock, missed, Option.bind_eq_bind, Option.bind_some, World.Alloc, alloc, filled,
      Option.pure_def]
  obtain ⟨rfl, rfl⟩ := Prod.mk.inj (Option.some.inj (ran.symm.trans ran'))
  exact ⟨_, ran, ⟨coherent', count'.trans full, turns'⟩, holds, keeps, own, others⟩

omit [NeZero N] in
/-- Another block is still new after a read. -/
theorem absent_after {w' : FsWorld N} {other : UInt32} (keeps : Keeps w.cache w'.cache bno)
    (absent : ¬ Cached w other) (apart : other ≠ bno) : ¬ Cached w' other := by
  rintro ⟨node, held⟩
  rcases keeps.cached other node held with same | known
  · exact apart same
  · exact absent known

/-- The nodes but the head are their own predecessors. -/
def Own (w : FsWorld N) (nodes : List Ptr) : Prop :=
  ∀ x ∈ nodes, w.cache.queue_ ≠ some x → w.cache.prev x = some x

/-- **One read of a turn**: the node given up is the only one that changes hands. -/
theorem turn_step (two : 2 ≤ N) {old new : List Ptr} (turning : Turning content w (z :: old ++ new))
    (many : old ++ new ≠ []) (own : Own w new) (fits : FitsDisk bno) (absent : ¬ Cached w bno) :
    ∃ w', readBlock (some uncache) bno w = some (z, w') ∧ Turning content w' (old ++ (new ++ [z])) ∧
      Own w' (new ++ [z]) ∧ w'.cache.Holds bno z ∧ Keeps w.cache w'.cache bno ∧
      ∀ k x, w.cache.Holds k x → x ≠ z → w'.cache.Holds k x := by
  obtain ⟨first, l, rest⟩ := List.exists_cons_of_ne_nil many
  rw [List.cons_append, rest] at turning
  obtain ⟨notOld, _⟩ := List.nodup_cons.mp turning.turns.nodup
  rw [← rest] at notOld
  obtain ⟨w', ran, turning', holds, keeps, ownZ, others⟩ := turn_read two turning fits absent
  have head : w.cache.queue_ = some z := turning.turns.head
  have head' : w'.cache.queue_ = some first := turning'.turns.head
  rw [← rest, List.append_assoc] at turning'
  refine ⟨w', ran, turning', fun x member notHead => ?_, holds, keeps, fun k x held other => ?_⟩
  · rcases List.mem_append.mp member with inside | isZ
    · have other : x ≠ z := fun same => notOld (List.mem_append_right old (same ▸ inside))
      have notFirst : x ≠ first := fun same => notHead (head'.trans (congrArg some same.symm))
      have before : w.cache.queue_ ≠ some x := by
        rw [head]
        exact fun same => other (Option.some.inj same).symm
      exact (others x other notFirst).trans (own x inside before)
    · obtain rfl := List.mem_singleton.mp isZ
      exact ownZ
  · rcases keeps.holds k x held with same | ⟨_, _, taken⟩
    · exact same
    · exact absurd (turning'.coherent.holds_unique taken holds) other

/-- **A turn**: new blocks come into the nodes, one after the other. -/
theorem readAll_turns (two : 2 ≤ N) (old : List Ptr) : ∀ (new : List Ptr) (reads : List UInt32)
    (w : FsWorld N), Turning content w (old ++ new) → 2 ≤ (old ++ new).length → Own w new →
    old.length = reads.length → reads.Nodup → (∀ bno ∈ reads, FitsDisk bno ∧ ¬ Cached w bno) →
    ∃ w', readAll w reads = some w' ∧ Turning content w' (new ++ old) ∧ Own w' (new ++ old) ∧
      (∀ k, Cached w' k → Cached w k ∨ k ∈ reads) ∧
      (∀ k x, w.cache.Holds k x → x ∉ old → w'.cache.Holds k x) ∧
      reads.Forall₂ (fun bno x => w'.cache.Holds bno x) old := by
  induction old with
  | nil =>
    intro new reads w turning _ own length _ _
    obtain rfl := List.eq_nil_of_length_eq_zero length.symm
    rw [List.append_nil]
    exact ⟨w, rfl, turning, own, fun _ => .inl, fun _ _ holds _ => holds, .nil⟩
  | cons z old ih =>
    intro new reads w turning many own length distinct fresh
    obtain ⟨bno, reads, rfl⟩ := List.exists_cons_of_length_eq_add_one length.symm
    obtain ⟨later, distinct'⟩ := List.nodup_cons.mp distinct
    obtain ⟨fits, absent⟩ := fresh bno List.mem_cons_self
    have many₁ : 2 ≤ (old ++ (new ++ [z])).length := by
      rw [← List.append_assoc, List.length_append, List.length_singleton]
      rwa [List.cons_append, List.length_cons] at many
    have notAlone : old ++ new ≠ [] := by
      intro empty
      rw [List.cons_append, empty] at many
      exact absurd many (by rw [List.length_singleton]; decide)
    have zNotOld : z ∉ old := fun inside =>
      (List.nodup_cons.mp turning.turns.nodup).1 (List.mem_append_left new inside)
    obtain ⟨w₁, ran, turning₁, own₁, holds₁, keeps, stays⟩ :=
      turn_step two turning notAlone own fits absent
    have fresh₁ : ∀ b ∈ reads, FitsDisk b ∧ ¬ Cached w₁ b := by
      intro b member
      obtain ⟨fitsB, absentB⟩ := fresh b (List.mem_cons_of_mem bno member)
      exact ⟨fitsB, absent_after keeps absentB fun same => later (same ▸ member)⟩
    obtain ⟨w', ran', turning', own', known, kept, held⟩ := ih (new ++ [z]) reads w₁ turning₁ many₁ own₁
      (Nat.succ.inj length) distinct' fresh₁
    refine ⟨w', ?_, by rwa [List.append_assoc] at turning', by rwa [List.append_assoc] at own',
      fun k cached => ?_, fun k x holds other => ?_, .cons (kept bno z holds₁ zNotOld) held⟩
    · rw [readAll_cons, ran]
      exact ran'
    · rcases known k cached with ⟨node, held⟩ | inside
      · rcases keeps.cached k node held with rfl | known
        · exact .inr List.mem_cons_self
        · exact .inl known
      · exact .inr (List.mem_cons_of_mem bno inside)
    · rw [List.mem_cons, not_or] at other
      exact kept k x (stays k x holds other.1) other.2

/-- **A read that leaves two nodes**: the block is in the node behind the head. -/
theorem cut_read (turning : Turning content w (z :: y :: l)) (more : l ≠ [])
    (own : Own w (z :: y :: l)) (holds : w.cache.Holds bno y) :
    ∃ w', readBlock (some uncache) bno w = some (y, w') ∧ Turning content w' [z, y] ∧
      ∀ k, Cached w' k → Cached w k := by
  obtain ⟨c, d⟩ := w
  obtain ⟨coherent, full, turns⟩ := turning
  dsimp only at full turns holds
  have distinct := (List.nodup_cons.mp turns.nodup).1
  have head : c.queue_ = some z := turns.head
  have ownY : c.prev y = some y := by
    refine own y (List.mem_cons_of_mem z List.mem_cons_self) fun isHead => distinct ?_
    obtain rfl : z = y := Option.some.inj (head.symm.trans isHead)
    exact List.mem_cons_self
  obtain ⟨count, counted⟩ : ∃ count, c.count_ = count + 1 :=
    Nat.exists_eq_succ_of_ne_zero (full.symm ▸ NeZero.ne N)
  obtain ⟨q, requeued, turns', count'⟩ := turns.cut ownY more counted (by omega : count < N)
  have got : World.Get bno ⟨c, d⟩ = some (some y, ⟨{ c with toQueue := q }, d⟩) := by
    simp only [World.Get, Get_hit coherent.indexed.complete holds requeued, Option.bind_eq_bind,
      Option.bind_some, Option.pure_def]
  have ran : readBlock (some uncache) bno ⟨c, d⟩ = some (y, ⟨{ c with toQueue := q }, d⟩) := by
    simp only [readBlock, got, Option.bind_eq_bind, Option.bind_some, Option.pure_def]
  obtain ⟨q', got', consistent⟩ := coherent.consistent.get_hit holds
  rw [got] at got'
  cases got'
  exact ⟨_, ran, ⟨consistent.coherent coherent.quiet, count'.trans (counted.symm.trans full), turns'⟩,
    fun _ cached => cached⟩

/-- **Two nodes are left** when as many new blocks as there are nodes have been read in a full cache
whose queue is in order, and then the second one of them again. -/
theorem turn_leaves_two (three : 3 ≤ N) {order reads : List UInt32} {a b : UInt32}
    (inOrder : InOrder (w, order)) (coherent : Coherent w content) (full : order.length = N)
    (length : (a :: b :: reads).length = N) (distinct : (a :: b :: reads).Nodup)
    (fresh : ∀ bno ∈ a :: b :: reads, FitsDisk bno ∧ bno ∉ order) :
    ∃ z y w', readAll w (a :: b :: reads ++ [b]) = some w' ∧ Turning content w' [z, y] ∧
      ∀ k, Cached w' k → k ∈ order ∨ k ∈ a :: b :: reads := by
  have two : 2 ≤ N := Nat.le_of_succ_le three
  obtain ⟨entries, mirrors, sameOrder⟩ := inOrder.mirrored
  dsimp only at mirrors sameOrder
  have many : entries.length = N := by rw [← full, ← sameOrder, List.length_map]
  have turning : Turning content w (entries.map Prod.snd ++ []) := by
    rw [List.append_nil]
    exact ⟨coherent, mirrors.counted.trans many, mirrors.spells.turns⟩
  have own : Own w [] := fun _ impossible => absurd impossible List.not_mem_nil
  obtain ⟨w₁, ran, turning₁, own₁, known, _, held⟩ := readAll_turns two (entries.map Prod.snd) []
    (a :: b :: reads) w turning (by rw [List.append_nil, List.length_map, many]; exact two) own
    (by rw [List.length_map, many, length]) distinct
    fun bno member => ⟨(fresh bno member).1, fun cached => (fresh bno member).2 (inOrder.cached_mem cached)⟩
  match entries, many with
  | (_, z) :: (_, y) :: (_, x) :: rest, _ =>
    obtain ⟨_, held⟩ := List.forall₂_cons.mp held
    obtain ⟨holds, _⟩ := List.forall₂_cons.mp held
    obtain ⟨w', ran', turning', known'⟩ := cut_read turning₁ (List.cons_ne_nil _ _) own₁ holds
    refine ⟨z, y, w', ?_, turning', fun k cached => ?_⟩
    · rw [readAll_append, ran, Option.bind_some, readAll_cons, ran']
      rfl
    · exact (known k (known' k cached)).imp_left inOrder.cached_mem
  | [], few | [_], few | [_, _], few =>
    simp only [List.length_nil, List.length_cons] at few
    omega

/-- **The third block comes into the buffer of the first**, when two nodes are left. -/
theorem third_takes_first (two : 2 ≤ N) {a b c : UInt32} (turning : Turning content w [z, y])
    (distinct : [a, b, c].Nodup) (fresh : ∀ bno ∈ [a, b, c], FitsDisk bno ∧ ¬ Cached w bno) :
    ∃ w₁ w₃, readBlock (some uncache) a w = some (z, w₁) ∧ readAll w₁ [b, c] = some w₃ ∧
      w₃.cache.key z = c := by
  obtain ⟨⟨fitsA, absentA⟩, ⟨fitsB, absentB⟩, fitsC, absentC⟩ :
      (FitsDisk a ∧ ¬ Cached w a) ∧ (FitsDisk b ∧ ¬ Cached w b) ∧ FitsDisk c ∧ ¬ Cached w c := by
    simpa using fresh
  obtain ⟨⟨notB, notC⟩, notC'⟩ : (a ≠ b ∧ a ≠ c) ∧ b ≠ c := by
    simpa using distinct
  obtain ⟨w₁, ran₁, turning₁, _, keeps₁, _⟩ := turn_read two turning fitsA absentA
  have absentB₁ := absent_after keeps₁ absentB notB.symm
  have absentC₁ := absent_after keeps₁ absentC notC.symm
  obtain ⟨w₂, ran₂, turning₂, _, keeps₂, _⟩ := turn_read two turning₁ fitsB absentB₁
  have absentC₂ := absent_after keeps₂ absentC₁ notC'.symm
  obtain ⟨w₃, ran₃, _, holds₃, _⟩ := turn_read two turning₂ fitsC absentC₂
  obtain ⟨_, _, isKey⟩ := holds₃
  refine ⟨w₁, w₃, ran₁, ?_, isKey⟩
  simp only [readAll, List.foldlM_cons, List.foldlM_nil, ran₂, ran₃, Option.map_some,
    Option.bind_eq_bind, Option.bind_some, Option.pure_def]

end Sprite.Fs

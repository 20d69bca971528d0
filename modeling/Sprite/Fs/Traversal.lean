/-
**The order in which a traversal offers the entries.**

`traverse_dir` keeps three things in step: the number of the entry, the number of the zone and a pointer
into the buffer of the zone. The callback is any function with a state of its own. While it makes no
call of the cache it may still write into the buffers.

* `traverseDirWith` — `traverse_dir` for such a callback. `traverseDir_eq` says that the one for
  callbacks without a state is an instance.
* `Offered` — the entries in order, by their numbers alone.
* `nextZone_eq` — where the pointer is after an entry.
* `traverse_dir_in_order` — **every entry is offered in order, out of its zone**.
-/
import Sprite.Fs.Walk

namespace Sprite.Fs

open Cache Ide

/-- A callback of `traverse_dir`, with what it has captured. -/
abbrev Callback (σ : Type) (N : Nat) := Ptr → Nat → σ → FsWorld N → Except Halt (Bool × σ × FsWorld N)

variable {N : Nat} [NeZero N] {σ : Type}

/-- The loop of `traverse_dir`, for the entries still to be visited. -/
def traverseEntriesWith (dir : Memory) (m : Elsewhere) (cb : Callback σ N) :
    Nat → Nat → Ptr → Nat → σ → FsWorld N → Except Halt (InodePtr × σ × FsWorld N)
  | 0, _, _, _, s, w => return (none, s, w)
  | numEntries + 1, zoneCnt, zone, entry, s, w => do
    let (zoneCnt, zone, entry, w) ← nextZone dir zoneCnt zone entry w
    let (stop, s, w) ← cb zone entry s w
    if stop then
      let inode ← inodeTable (entryInode (entryBytes m w zone entry))
      return (some inode, s, w)
    else traverseEntriesWith dir m cb numEntries zoneCnt zone (entry + sizeofDirEntry) s w

def traverseDirWith (dir : Memory) (m : Elsewhere) (cb : Callback σ N) (s : σ) (w : FsWorld N) :
    Except Halt (InodePtr × σ × FsWorld N) :=
  if isDirectory (mode dir) then do
    let (zone, w) ← readZone dir 0 w
    traverseEntriesWith dir m cb (size dir / sizeofDirEntry) 0 zone 0 s w
  else return (none, s, w)

/-! ### Callbacks without a state -/

/-- A callback that has captured nothing. -/
def EntryCallback.stateless (cb : EntryCallback N) : Callback Unit N := fun zone entry s w =>
  (fun r => (r.1, s, r.2)) <$> cb zone entry w

theorem traverseEntries_with (dir : Memory) (m : Elsewhere) (cb : EntryCallback N) (count : Nat) :
    ∀ zoneCnt zone entry w, traverseEntries dir m cb count zoneCnt zone entry w
      = (fun r => (r.1, r.2.2)) <$> traverseEntriesWith dir m cb.stateless count zoneCnt zone entry () w := by
  induction count with
  | zero => exact fun _ _ _ _ => rfl
  | succ count ih =>
    intro zoneCnt zone entry w
    unfold traverseEntries traverseEntriesWith EntryCallback.stateless
    cases nextZone dir zoneCnt zone entry w with
    | error halt => rfl
    | ok r =>
      obtain ⟨zoneCnt', zone', entry', w'⟩ := r
      simp only [ok_bind]
      cases cb zone' entry' w' with
      | error halt => rfl
      | ok r =>
        obtain ⟨stop, w''⟩ := r
        cases stop with
        | false => exact ih _ _ _ _
        | true =>
          simp only [Functor.map, Except.map, ok_bind, if_pos]
          cases inodeTable (entryInode (entryBytes m w'' zone' entry')) with
          | error halt => rfl
          | ok inode => rfl

/-- **`traverse_dir` for a callback without a state** is an instance. -/
theorem traverseDir_eq (dir : Memory) (m : Elsewhere) (cb : EntryCallback N) (w : FsWorld N) :
    traverseDir dir m cb w = (fun r => (r.1, r.2.2)) <$> traverseDirWith dir m cb.stateless () w := by
  unfold traverseDir traverseDirWith
  by_cases isDir : isDirectory (mode dir) = true
  · rw [if_pos isDir, if_pos isDir]
    cases readZone dir 0 w with
    | error halt => rfl
    | ok r => exact traverseEntries_with dir m cb _ _ _ _ _
  · rw [if_neg isDir, if_neg isDir]
    rfl

/-! ### The entries by their numbers -/

/-- The buffer of the zone of entry `i`, which is the one of the entry before unless a zone begins. -/
def zoneOf (dir : Memory) (i : Nat) (zone : Ptr) (w : FsWorld N) : Except Halt (Ptr × FsWorld N) :=
  if i % 32 = 0 then readZone dir (i / 32) w else .ok (zone, w)

/-- **Entry `i` is offered to the callback**, in the buffer of its zone: the callback has been applied to
the entries before, one after the other, and has answered false to each. -/
inductive Offered (dir : Memory) (cb : Callback σ N) (s : σ) (w : FsWorld N) :
    Nat → Ptr → σ → FsWorld N → Prop
  | first {zone : Ptr} {w' : FsWorld N} : readZone dir 0 w = .ok (zone, w') →
      Offered dir cb s w 0 zone s w'
  | next {i : Nat} {zone zone' : Ptr} {s₁ s₂ : σ} {w₁ w₂ w₃ : FsWorld N} :
      Offered dir cb s w i zone s₁ w₁ → cb zone (32 * (i % 32)) s₁ w₁ = .ok (false, s₂, w₂) →
      zoneOf dir (i + 1) zone w₂ = .ok (zone', w₃) → Offered dir cb s w (i + 1) zone' s₂ w₃

/-- **After entry `i`** the traversal goes on with the zone of the next entry. -/
theorem nextZone_eq (dir : Memory) (i : Nat) (zone : Ptr) (w : FsWorld N) :
    nextZone dir (i / 32) zone (32 * (i % 32) + sizeofDirEntry) w
      = (fun r => ((i + 1) / 32, r.1, 32 * ((i + 1) % 32), r.2)) <$> zoneOf dir (i + 1) zone w := by
  unfold nextZone zoneOf sizeofDirEntry
  by_cases turns : (i + 1) % 32 = 0
  · have ended : kZoneSize ≤ 32 * (i % 32) + 32 := by
      unfold kZoneSize
      omega
    have number : i / 32 + 1 = (i + 1) / 32 := by omega
    rw [if_pos turns, if_pos ended, number, turns]
    cases readZone dir ((i + 1) / 32) w with
    | error halt => rfl
    | ok r => rfl
  · have inside : ¬ kZoneSize ≤ 32 * (i % 32) + 32 := by
      unfold kZoneSize
      omega
    have number : i / 32 = (i + 1) / 32 := by omega
    have offset : 32 * (i % 32) + 32 = 32 * ((i + 1) % 32) := by omega
    rw [if_neg turns, if_neg inside, number, offset]
    rfl

/-- What the traversal does from entry `i` on, when it is being offered and `rest` more follow. -/
def offerRest (dir : Memory) (m : Elsewhere) (cb : Callback σ N) (rest i : Nat) (zone : Ptr) (s : σ)
    (w : FsWorld N) : Except Halt (InodePtr × σ × FsWorld N) := do
  let (stop, s, w) ← cb zone (32 * (i % 32)) s w
  if stop then
    let inode ← inodeTable (entryInode (entryBytes m w zone (32 * (i % 32))))
    return (some inode, s, w)
  else traverseEntriesWith dir m cb rest (i / 32) zone (32 * (i % 32) + sizeofDirEntry) s w

theorem traverseEntriesWith_next (dir : Memory) (m : Elsewhere) (cb : Callback σ N) (rest i : Nat)
    (zone : Ptr) (s : σ) (w : FsWorld N) :
    traverseEntriesWith dir m cb (rest + 1) (i / 32) zone (32 * (i % 32) + sizeofDirEntry) s w
      = zoneOf dir (i + 1) zone w >>= fun r => offerRest dir m cb rest (i + 1) r.1 s r.2 := by
  rw [traverseEntriesWith, nextZone_eq]
  cases zoneOf dir (i + 1) zone w with
  | error halt => rfl
  | ok r => rfl

/-! ### Callbacks that make no call of the cache -/

/-- The worlds differ in nothing but the bytes of buffers. -/
def Rewrites (w w' : FsWorld N) : Prop :=
  ∃ value, w' = { w with cache := { w.cache with value := value } }

/-- **The callback makes no call of the cache**, nor of the disk. -/
def NoCacheCall (cb : Callback σ N) : Prop :=
  ∀ zone entry s w stop s' w', cb zone entry s w = .ok (stop, s', w') → Rewrites w w'

/-- The callback leaves the buffers alone, too. -/
def ReadOnly (cb : Callback σ N) : Prop :=
  ∀ zone entry s w stop s' w', cb zone entry s w = .ok (stop, s', w') → w' = w

variable {content : UInt32 → Block} {w w' w'' : FsWorld N}

omit [NeZero N] in
theorem Rewrites.refl (w : FsWorld N) : Rewrites w w := ⟨w.cache.value, rfl⟩

omit [NeZero N] in
theorem Rewrites.trans (first : Rewrites w w') (second : Rewrites w' w'') : Rewrites w w'' := by
  obtain ⟨value, rfl⟩ := first
  obtain ⟨value', rfl⟩ := second
  exact ⟨value', rfl⟩

open Classical in
/-- After writing into buffers, the contents are what the buffers hold now. -/
theorem Coherent.rewritten (coherent : Coherent w content) (rewrites : Rewrites w w') :
    ∃ content', Coherent w' content' := by
  obtain ⟨value, rfl⟩ := rewrites
  refine ⟨fun k => if held : ∃ node, w.cache.Holds k node then (value held.choose).data else content k,
    ⟨coherent.indexed.complete, coherent.indexed.counted, coherent.indexed.unspent,
      coherent.indexed.made⟩, coherent.tied, coherent.valid, coherent.quiet, fun k node holds => ?_,
    fun k fits absent => ?_⟩
  · have held : ∃ node, w.cache.Holds k node := ⟨node, holds⟩
    have same : held.choose = node := coherent.holds_unique held.choose_spec holds
    rw [dif_pos held, same]
    exact ⟨(coherent.cached k node holds).1, rfl⟩
  · have none : ¬ ∃ node, w.cache.Holds k node := not_exists.mpr absent
    rw [dif_neg none]
    exact coherent.uncached k fits absent

/-- **The buffer is the one that `read_zone` has answered for the zone**, and no call of the cache has been
made since. -/
def Answered (dir : Memory) (z : Nat) (zone : Ptr) (w : FsWorld N) : Prop :=
  ∃ w₁ w₂, readZone dir z w₁ = .ok (zone, w₂) ∧ Rewrites w₂ w

/-- It holds the block that the inode named for the zone at that time. -/
def Held (dir : Memory) (z : Nat) (zone : Ptr) (w : FsWorld N) : Prop :=
  ∃ content w₁ w₂, Coherent w₁ content ∧ readZone dir z w₁ = .ok (zone, w₂) ∧ Rewrites w₂ w ∧
    w.cache.Holds (zoneBlock content dir z) zone

/-- The bytes of entry `i`: those from `32 * (i % 32)` on in a block. -/
def EntryOf (m : Elsewhere) (i : Nat) (zone : Ptr) (w : FsWorld N) (data : Block) : Prop :=
  ∀ a < 32, entryBytes m w zone (32 * (i % 32)) a = blockBytes data (32 * (i % 32) + a)

omit [NeZero N] in
/-- An entry lies in the block that its buffer holds. -/
theorem entryOf_buffer (m : Elsewhere) (i : Nat) (zone : Ptr) (w : FsWorld N) :
    EntryOf m i zone w (w.cache.value zone).data := by
  intro a less
  have inside : 32 * (i % 32) + a < kBlockSize := by
    unfold kBlockSize
    omega
  rw [entryBytes, if_pos inside]
  exact bytes_eq rfl inside

section Order

variable {dir : Memory} {m : Elsewhere} {cb : Callback σ N} {s s' s₂ : σ} {i n : Nat} {zone zone' : Ptr}
  {w₂ w₃ : FsWorld N}

/-- The next entry is in the same buffer, or in the one of the next zone. -/
theorem zoneOf_cases (opened : zoneOf dir (i + 1) zone w₂ = .ok (zone', w₃)) :
    (i + 1) / 32 = i / 32 ∧ zone' = zone ∧ w₃ = w₂ ∨
      readZone dir ((i + 1) / 32) w₂ = .ok (zone', w₃) := by
  unfold zoneOf at opened
  by_cases turns : (i + 1) % 32 = 0
  · rw [if_pos turns] at opened
    exact .inr opened
  · rw [if_neg turns] at opened
    cases opened
    exact .inl ⟨by omega, rfl, rfl⟩

/-- **The buffer in which an entry is offered** is the one answered for its zone. -/
theorem Offered.answered (noCall : NoCacheCall cb) (offered : Offered dir cb s w i zone s' w') :
    Answered dir (i / 32) zone w' := by
  induction offered with
  | @first _ w' ran => exact ⟨w, w', ran, Rewrites.refl w'⟩
  | @next _ _ _ _ _ _ w₂ w₃ _ called opened ih =>
    rcases zoneOf_cases opened with ⟨sameZone, rfl, rfl⟩ | ran
    · obtain ⟨w₀, w₀', ran, rewrites⟩ := ih
      rw [sameZone]
      exact ⟨w₀, w₀', ran, rewrites.trans (noCall _ _ _ _ _ _ _ called)⟩
    · exact ⟨w₂, w₃, ran, Rewrites.refl w₃⟩

/-- The zone of an entry can be read. -/
theorem opens (dir : Memory) (two : 2 ≤ N) (coherent : Coherent w content) (near : i < maxEntries) :
    ∃ zone w', readZone dir (i / 32) w = .ok (zone, w') ∧
      w'.cache.Holds (zoneBlock content dir (i / 32)) zone ∧ Coherent w' content := by
  obtain ⟨zone, w', ran, holds, coherent', _⟩ := readZone_spec (B := Set.univ) coherent two dir
    (Nat.div_lt_of_lt_mul near : i / 32 < maxZones) fun b _ => Set.mem_univ b
  exact ⟨zone, w', ran, holds, coherent'⟩

/-- With a cache that holds the contents of the blocks, the buffer holds the block of the zone. -/
theorem Offered.held (two : 2 ≤ N) (coherent : Coherent w content) (noCall : NoCacheCall cb)
    (offered : Offered dir cb s w i zone s' w') : i < maxEntries →
    Held dir (i / 32) zone w' ∧ ∃ content', Coherent w' content' := by
  induction offered with
  | first ran =>
    intro near
    obtain ⟨zone₁, w₁, ran', holds, coherent'⟩ := opens dir two coherent near
    cases ran.symm.trans ran'
    exact ⟨⟨content, w, _, coherent, ran, Rewrites.refl _, holds⟩, content, coherent'⟩
  | @next i zone zone' s₁ s₂ w₁ w₂ w₃ _ called opened ih =>
    intro near
    obtain ⟨held, content₁, coherent₁⟩ := ih (Nat.lt_of_succ_lt near)
    have rewrites := noCall _ _ _ _ _ _ _ called
    obtain ⟨content₂, coherent₂⟩ := coherent₁.rewritten rewrites
    rcases zoneOf_cases opened with ⟨sameZone, rfl, rfl⟩ | ran
    · obtain ⟨before, w₀, w₀', coherent₀, ran, rewrites₀, holds⟩ := held
      refine ⟨?_, content₂, coherent₂⟩
      rw [sameZone]
      refine ⟨before, w₀, w₀', coherent₀, ran, rewrites₀.trans rewrites, ?_⟩
      obtain ⟨value, rfl⟩ := rewrites
      exact holds
    · obtain ⟨zone₃, w₃', ran', holds, coherent₃⟩ := opens dir two coherent₂ near
      cases ran.symm.trans ran'
      exact ⟨⟨content₂, w₂, w₃, coherent₂, ran, Rewrites.refl w₃, holds⟩, content₂, coherent₃⟩

/-- When the callback leaves the buffers alone they hold the image. -/
theorem Offered.unchanged (two : 2 ≤ N) (coherent : Coherent w content) (readOnly : ReadOnly cb)
    (offered : Offered dir cb s w i zone s' w') : i < maxEntries →
    w'.cache.Holds (zoneBlock content dir (i / 32)) zone ∧ Coherent w' content := by
  induction offered with
  | first ran =>
    intro near
    obtain ⟨zone₁, w₁, ran', holds, coherent'⟩ := opens dir two coherent near
    cases ran.symm.trans ran'
    exact ⟨holds, coherent'⟩
  | next _ called opened ih =>
    intro near
    obtain ⟨holds, coherent₁⟩ := ih (Nat.lt_of_succ_lt near)
    obtain rfl := readOnly _ _ _ _ _ _ _ called
    rcases zoneOf_cases opened with ⟨sameZone, rfl, rfl⟩ | ran
    · rw [sameZone]
      exact ⟨holds, coherent₁⟩
    · obtain ⟨zone₃, w₃', ran', holds₃, coherent₃⟩ := opens dir two coherent₁ near
      cases ran.symm.trans ran'
      exact ⟨holds₃, coherent₃⟩

/-! ### The end of a traversal -/

/-- `read_zone` does not come back, from the call for the first zone or for a later one of `n` entries. -/
def ZoneFails (dir : Memory) (cb : Callback σ N) (s : σ) (w : FsWorld N) (n : Nat) (halt : Halt) : Prop :=
  readZone dir 0 w = .error halt ∨ ∃ i zone s₁ w₁ s₂ w₂, i + 1 < n ∧ Offered dir cb s w i zone s₁ w₁ ∧
    cb zone (32 * (i % 32)) s₁ w₁ = .ok (false, s₂, w₂) ∧ zoneOf dir (i + 1) zone w₂ = .error halt

/-- **The traversal ends at entry `i`** of `n`: the callback stops it there, and the inode of the entry is
the answer; or it does not come back; or it answers false to the last entry, and null is the answer. -/
def EndsAt (dir : Memory) (m : Elsewhere) (cb : Callback σ N) (s : σ) (w : FsWorld N) (n i : Nat)
    (run : Except Halt (InodePtr × σ × FsWorld N)) : Prop :=
  ∃ zone s₁ w₁, Offered dir cb s w i zone s₁ w₁ ∧
    ((∃ s₂ w₂, cb zone (32 * (i % 32)) s₁ w₁ = .ok (true, s₂, w₂) ∧
        run = (fun inode => (some inode, s₂, w₂))
          <$> inodeTable (entryInode (entryBytes m w₂ zone (32 * (i % 32))))) ∨
      (∃ halt, cb zone (32 * (i % 32)) s₁ w₁ = .error halt ∧ run = .error halt) ∨
      ∃ s₂ w₂, i + 1 = n ∧ cb zone (32 * (i % 32)) s₁ w₁ = .ok (false, s₂, w₂) ∧
        run = .ok (none, s₂, w₂))

/-- From an entry that is being offered, with `rest` more behind it. -/
theorem Offered.ends (rest : Nat) : ∀ {i zone s₁ w₁}, i + 1 + rest = n →
    Offered dir cb s w i zone s₁ w₁ →
    (∃ k < n, EndsAt dir m cb s w n k (offerRest dir m cb rest i zone s₁ w₁)) ∨
      ∃ halt, ZoneFails dir cb s w n halt ∧ offerRest dir m cb rest i zone s₁ w₁ = .error halt := by
  induction rest with
  | zero =>
    intro i zone s₁ w₁ total offered
    refine .inl ⟨i, by omega, zone, s₁, w₁, offered, ?_⟩
    unfold offerRest
    cases called : cb zone (32 * (i % 32)) s₁ w₁ with
    | error halt => exact .inr (.inl ⟨halt, rfl, rfl⟩)
    | ok r =>
      obtain ⟨stop, s₂, w₂⟩ := r
      cases stop with
      | true => exact .inl ⟨s₂, w₂, rfl, rfl⟩
      | false => exact .inr (.inr ⟨s₂, w₂, total, rfl, rfl⟩)
  | succ rest ih =>
    intro i zone s₁ w₁ total offered
    cases called : cb zone (32 * (i % 32)) s₁ w₁ with
    | error halt =>
      refine .inl ⟨i, by omega, zone, s₁, w₁, offered, .inr (.inl ⟨halt, called, ?_⟩)⟩
      rw [offerRest, called, error_bind]
    | ok r =>
      obtain ⟨stop, s₂, w₂⟩ := r
      cases stop with
      | true =>
        refine .inl ⟨i, by omega, zone, s₁, w₁, offered, .inl ⟨s₂, w₂, called, ?_⟩⟩
        rw [offerRest, called]
        rfl
      | false =>
        have goesOn : offerRest dir m cb (rest + 1) i zone s₁ w₁
            = zoneOf dir (i + 1) zone w₂ >>= fun r => offerRest dir m cb rest (i + 1) r.1 s₂ r.2 := by
          rw [← traverseEntriesWith_next, offerRest, called]
          rfl
        cases opened : zoneOf dir (i + 1) zone w₂ with
        | error halt =>
          rw [goesOn, opened, error_bind]
          exact .inr ⟨halt, .inr ⟨i, zone, s₁, w₁, s₂, w₂, by omega, offered, called, opened⟩, rfl⟩
        | ok r =>
          rw [goesOn, opened, ok_bind]
          exact ih (by omega) (.next offered called opened)

/-- With a cache that holds the contents of the blocks, no zone that an inode can have fails. -/
theorem zones_come_back (two : 2 ≤ N) (coherent : Coherent w content) (noCall : NoCacheCall cb)
    (few : n ≤ maxEntries) (halt : Halt) : ¬ ZoneFails dir cb s w n halt := by
  rintro (failed | ⟨i, zone, s₁, w₁, s₂, w₂, below, offered, called, failed⟩)
  · obtain ⟨zone, w', ran, _⟩ := opens dir two coherent (by decide : 0 < maxEntries)
    cases failed.symm.trans ran
  · obtain ⟨_, content₁, coherent₁⟩ := offered.held two coherent noCall (by omega)
    obtain ⟨content₂, coherent₂⟩ := coherent₁.rewritten (noCall _ _ _ _ _ _ _ called)
    obtain ⟨zone', w₃, ran, _⟩ := opens dir two coherent₂ (by omega : i + 1 < maxEntries)
    unfold zoneOf at failed
    split at failed
    · cases failed.symm.trans ran
    · cases failed

end Order

/-- **`traverse_dir` offers the entries in order**, for every directory and every callback that makes no
call of the cache. Entry `i` is offered out of the buffer answered for zone `i / 32`. The first entry to
which the callback answers true is the one returned, and null when there is none. With a cache that
holds the contents of the blocks, and entries in zones that an inode can have, all zones are read, and
the bytes are those of the image when the callback writes none. -/
theorem traverse_dir_in_order {dir : Memory} (m : Elsewhere) (isDir : isDirectory (mode dir) = true)
    {cb : Callback σ N} (noCall : NoCacheCall cb) (s : σ) (w : FsWorld N) :
    (∀ i zone s' w', Offered dir cb s w i zone s' w' →
      Answered dir (i / 32) zone w' ∧ EntryOf m i zone w' (w'.cache.value zone).data) ∧
    ((∃ i < numEntries dir, EndsAt dir m cb s w (numEntries dir) i (traverseDirWith dir m cb s w)) ∨
      (numEntries dir = 0 ∧ ∃ w', traverseDirWith dir m cb s w = .ok (none, s, w')) ∨
      ∃ halt, ZoneFails dir cb s w (numEntries dir) halt ∧ traverseDirWith dir m cb s w = .error halt) ∧
    (2 ≤ N → numEntries dir ≤ maxEntries → ∀ content, Coherent w content →
      (∀ halt, ¬ ZoneFails dir cb s w (numEntries dir) halt) ∧
      ∀ i < numEntries dir, ∀ zone s' w', Offered dir cb s w i zone s' w' →
        Held dir (i / 32) zone w' ∧
        (ReadOnly cb → EntryOf m i zone w' (content (zoneBlock content dir (i / 32))))) := by
  refine ⟨fun i zone s' w' offered => ⟨offered.answered noCall, entryOf_buffer m i zone w'⟩, ?_,
    fun two few content coherent => ⟨zones_come_back two coherent noCall few,
      fun i below zone s' w' offered => ⟨?_, fun readOnly => ?_⟩⟩⟩
  · have started : traverseDirWith dir m cb s w
        = readZone dir 0 w >>= fun r => traverseEntriesWith dir m cb (numEntries dir) 0 r.1 0 s r.2 := by
      rw [traverseDirWith, if_pos isDir]
      rfl
    rw [started]
    cases opened : readZone dir 0 w with
    | error halt => exact .inr (.inr ⟨halt, .inl opened, rfl⟩)
    | ok r =>
      obtain ⟨zone, w'⟩ := r
      rw [ok_bind]
      cases total : numEntries dir with
      | zero => exact .inr (.inl ⟨rfl, w', rfl⟩)
      | succ rest =>
        have offers : traverseEntriesWith dir m cb (rest + 1) 0 zone 0 s w'
            = offerRest dir m cb rest 0 zone s w' := rfl
        rw [offers]
        rcases (Offered.first opened).ends rest (Nat.add_comm 1 rest) with ended | failed
        · exact .inl ended
        · exact .inr (.inr failed)
  · exact (offered.held two coherent noCall (Nat.lt_of_lt_of_le below few)).1
  · obtain ⟨holds, coherent'⟩ := offered.unchanged two coherent readOnly (Nat.lt_of_lt_of_le below few)
    rw [← (coherent'.cached _ zone holds).2]
    exact entryOf_buffer m i zone w'

/-- A callback that collects the first characters of the names. -/
def collect (m : Elsewhere) : Callback (List UInt8) 307 := fun zone entry names w =>
  return (false, names ++ [entryBytes m w zone entry nameOffset], w)

/-- The root directory with the entries `a` and `b`. -/
def twoNames : List UInt8 := [1, 0, 97] ++ List.replicate 29 0 ++ [1, 0, 98]

/-- Both names are collected, in order. -/
theorem two_names_in_order : ∃ g w, Booted 64 twoNames g w ∧ ∀ m, ∃ w',
    traverseDirWith (inodeAt g m (some kRootINO)) m (collect m) [] w = .ok (none, [97, 98], w') := by
  obtain ⟨g, w, booted⟩ := boots 64 twoNames
  refine ⟨g, w, booted, fun m => ?_⟩
  have two : numEntries (inodeAt g m (some kRootINO)) = 2 := booted.numEntries_eq m
  have readOnly : ReadOnly (collect m) := fun _ _ _ _ _ _ _ ran => by
    cases ran
    rfl
  have noCall : NoCacheCall (collect m) := fun _ _ _ w _ _ w' ran => by
    cases ran
    exact Rewrites.refl w
  obtain ⟨_, ended, onImage⟩ := traverse_dir_in_order m (booted.isDir m) noCall [] w
  obtain ⟨comesBack, inOrder⟩ := onImage (by decide) (by rw [two]; decide) _ booted.coherent
  have name : ∀ i < 2, ∀ zone s' w', Offered (inodeAt g m (some kRootINO)) (collect m) [] w i zone s' w' →
      entryBytes m w' zone (32 * (i % 32)) nameOffset = twoNames.getD (32 * i + 2) 0 := by
    intro i below zone s' w' offered
    obtain ⟨_, bytes⟩ := inOrder i (two ▸ below) zone s' w' offered
    refine Eq.trans ?_ (booted.dirEntry_eq m (by omega : 32 * i + 2 < 1024) (by omega))
    have inside : 32 * (i % 32) + 2 < kBlockSize := by
      unfold kBlockSize
      omega
    rw [dirEntry, record, if_pos inside]
    exact bytes readOnly 2 (by decide)
  rw [two] at ended comesBack
  obtain ⟨i, _, zone, s₁, w₁, offered, ended⟩ | ⟨impossible, _⟩ | ⟨halt, failed, _⟩ := ended
  rotate_left
  · cases impossible
  · exact absurd failed (comesBack halt)
  obtain ⟨_, _, ran, _⟩ | ⟨_, ran, _⟩ | ⟨s₂, w₂, last, ran, result⟩ := ended
  · cases ran
  · cases ran
  obtain rfl : i = 1 := by omega
  have second := name 1 (by decide) zone s₁ w₁ offered
  cases offered with
  | next offered' called opened =>
    have first := name 0 (by decide) _ _ _ offered'
    cases offered' with
    | first _ =>
      cases called
      cases opened
      cases ran
      rw [first, second] at result
      exact ⟨w₁, result⟩

end Sprite.Fs

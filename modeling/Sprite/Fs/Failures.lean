/-
**Disk errors in the block layer.**

None of the three functions looks at the status of a transfer: a failed read leaves whatever was in
the buffer under the block's name, a failed write is answered with `true`, and a failed write-back is
forgotten with the buffer it was for.

* `Served`, `NothingLost` — what the clients are owed.
* `served_along_harmless_errors` — **every run in which no transfer that matters fails** serves them.
* `write_served_iff` — a write is served exactly when its transfer succeeds.
* `errors_poison_blocks` — one failed transfer of each kind.
-/
import Sprite.Fs.Transparent

namespace Sprite.Fs

open Cache Ide Runs

variable {N : Nat} [NeZero N]

inductive Request where
  /-- `read_block(bno)`. -/
  | read (bno : UInt32)
  /-- `get_block(bno)`, and all bytes of the buffer set. -/
  | overwrite (bno : UInt32) (data : Block)
  /-- `write_block(bno)`. -/
  | write (bno : UInt32)

/-- The block of a request. -/
def Request.bno : Request → UInt32
  | .read bno | .overwrite bno _ | .write bno => bno

/-- The block layer, and what each block should hold: what a caller has put there last, or what the
disk held at the start. -/
abbrev Client (N : Nat) := FsWorld N × (UInt32 → Block)

def request (s : Client N) : Request → Option (Client N)
  | .read bno => (readBlock (some uncache) bno s.1).map fun (_, w) => (w, s.2)
  | .overwrite bno data => (getBlock (some uncache) bno s.1).map fun (buff, w) =>
    (setData w buff data, Function.update s.2 bno data)
  | .write bno => (writeBlock bno s.1).map fun (_, w) => (w, s.2)

/-! ### What is owed -/

/-- A read answers a buffer with what the block should hold, and a write answers `true` only if its
transfer has succeeded. -/
def Served (s : Client N) : Request → Prop
  | .read bno => ∃ buff w, readBlock (some uncache) bno s.1 = some (buff, w) ∧
      (w.cache.value buff).data = s.2 bno
  | .overwrite bno _ => (getBlock (some uncache) bno s.1).isSome
  | .write bno => ∃ answered w, writeBlock bno s.1 = some (answered, w) ∧
      (answered = true → nextFails s.1.outside = false ∧ blockOf w.outside.disk bno = s.2 bno)

/-- Every block can still be read back: from its buffer, or from the disk when it has none. -/
def NothingLost (s : Client N) : Prop :=
  ∀ k, FitsDisk k → (∃ node, s.1.cache.Holds k node ∧ (s.1.cache.value node).data = s.2 k) ∨
    ¬ Cached s.1 k ∧ blockOf s.1.outside.disk k = s.2 k

/-- No transfer that matters fails: the one that fills a buffer, the one of a `write_block`, and the
one that writes back a block given up whose buffer differs from the disk. -/
def NoHarm (s : Client N) : Request → Prop
  | .read bno => Cached s.1 bno ∨
      (N ≤ s.1.cache.count → VictimSafe s.1.cache s.1.outside) ∧ FillSucceeds s.1.cache s.1.outside
  | .overwrite bno _ => Cached s.1 bno ∨ (N ≤ s.1.cache.count → VictimSafe s.1.cache s.1.outside)
  | .write bno => Cached s.1 bno → nextFails s.1.outside = false

/-- A request for a block of the disk, which does not stop the kernel, and from which no harm comes. -/
def Allowed (s : Client N) (r : Request) : Prop := FitsDisk r.bno ∧ NoHarm s r

/-! ### The invariant -/

variable {s : Client N}

theorem nothingLost (consistent : Consistent s.1 s.2) : NothingLost s := by
  intro k fits
  by_cases present : Cached s.1 k
  · obtain ⟨node, holds⟩ := present
    exact .inl ⟨node, holds, (consistent.cached k node holds).2⟩
  · exact .inr ⟨present, consistent.uncached k fits fun node holds => present ⟨node, holds⟩⟩

/-- **One request** is served, and keeps the contents. -/
theorem request_served (consistent : Consistent s.1 s.2) (two : 2 ≤ N) {r : Request}
    (allowed : Allowed s r) :
    Served s r ∧ ∃ s', request s r = some s' ∧ Consistent s'.1 s'.2 := by
  obtain ⟨⟨c, d⟩, content⟩ := s
  obtain ⟨fits, noHarm⟩ := allowed
  cases r with
  | read bno =>
    have fits : FitsDisk bno := fits
    obtain ⟨node, c', d', ran, _, data, consistent', _⟩ := consistent.read two fits (.inl rfl)
      fun absent => noHarm.resolve_left fun ⟨node, holds⟩ => absent node holds
    refine ⟨⟨node, _, ran, data⟩, (⟨c', d'⟩, content), ?_, consistent'⟩
    simp only [request, ran, Option.map_some]
  | overwrite bno data =>
    have fits : FitsDisk bno := fits
    obtain ⟨node, c', d', ran, _, _, _, _, consistent'⟩ := consistent.get two fits
      fun absent => noHarm.resolve_left fun ⟨node, holds⟩ => absent node holds
    refine ⟨?_, (setData ⟨c', d'⟩ node data, Function.update content bno data), ?_, consistent' _⟩
    · simp only [Served, ran, Option.isSome_some]
    · simp only [request, ran, Option.map_some]
  | write bno =>
    by_cases present : Cached ⟨c, d⟩ bno
    · obtain ⟨node, holds⟩ := id present
      have succeeds := noHarm present
      obtain ⟨q, d', ran, consistent', _, _, written⟩ := consistent.write_cached holds succeeds
      refine ⟨⟨true, _, ran, fun _ => ⟨succeeds, written⟩⟩, (_, content), ?_, consistent'⟩
      simp only [request, ran, Option.map_some]
    · have ran := write_uncached (d := d) fun node holds => present ⟨node, holds⟩
      refine ⟨⟨false, _, ran, fun impossible => ?_⟩, (_, content), ?_, consistent⟩
      · cases impossible
      · simp only [request, ran, Option.map_some]

/-- A write is served exactly when its transfer succeeds. -/
theorem write_served_iff (consistent : Consistent s.1 s.2) {bno : UInt32} :
    Served s (.write bno) ↔ NoHarm s (.write bno) := by
  obtain ⟨⟨c, d⟩, content⟩ := s
  constructor
  · rintro ⟨answered, w, ran, served⟩ ⟨node, holds⟩
    obtain ⟨q, got, _⟩ := consistent.get_hit holds
    obtain ⟨d', transferred, _⟩ := ide_write_cut consistent.valid
      (consistent.cached bno node holds).1 (c.value node)
    refine (served ?_).1
    simp only [writeBlock, got, Option.bind_eq_bind, Option.bind_some, transferred, Option.pure_def,
      Option.some.injEq, Prod.mk.injEq] at ran
    exact ran.1.symm
  · intro noHarm
    by_cases present : Cached ⟨c, d⟩ bno
    · obtain ⟨node, holds⟩ := id present
      have succeeds := noHarm present
      obtain ⟨q, d', ran, _, _, _, written⟩ := consistent.write_cached holds succeeds
      exact ⟨true, _, ran, fun _ => ⟨succeeds, written⟩⟩
    · exact ⟨false, _, write_uncached fun node holds => present ⟨node, holds⟩,
        fun impossible => by cases impossible⟩

theorem fresh_consistent (links : Ptr → Option Ptr) (key : Ptr → Key) (value : Ptr → BlockBuffer)
    {d : Device} (valid : d.valid = 1) :
    Consistent ⟨LRUCache.fresh N links key value, d⟩ (blockOf d.disk) where
  indexed := fresh_indexed links key value
  tied := .inr ⟨rfl, rfl, fun _ ⟨_, stored⟩ => by cases stored⟩
  valid := valid
  cached := fun _ _ ⟨_, stored, _⟩ => by cases stored
  uncached := fun _ _ _ => rfl

/-- **Errors do no harm along every run in which no transfer that matters fails**: from the reading
of the super block on, every request is served and nothing is lost. -/
theorem served_along_harmless_errors (two : 2 ≤ N) (links : Ptr → Option Ptr) (key : Ptr → Key)
    (value : Ptr → BlockBuffer) {d : Device} (valid : d.valid = 1) (readable : nextFails d = false)
    (requests : List Request) :
    ∃ w, beforeInstall ⟨LRUCache.fresh N links key value, d⟩ = some w ∧
      Along request Allowed (fun s => NothingLost s ∧ ∀ r, Allowed s r → Served s r)
        (w, blockOf d.disk) requests := by
  have room : ¬ N ≤ (LRUCache.fresh N links key value).count := Nat.not_le.mpr (Nat.pos_of_neZero N)
  have fill : FillSucceeds (LRUCache.fresh N links key value) d := by
    unfold FillSucceeds
    rw [if_neg room]
    exact readable
  have uninstalled : (none : Option (UncacheCallback BlockBuffer N Device)) = some uncache ∨
      (LRUCache.fresh N links key value).count_ < N := .inr (Nat.pos_of_neZero N)
  have fits : FitsDisk kSuperBlockBNO := by decide
  obtain ⟨node, c', d', ran, _, _, consistent, _⟩ :=
    (fresh_consistent links key value valid).read two fits uninstalled
      fun _ => ⟨fun full => absurd full room, fill⟩
  refine ⟨⟨c', d'⟩, ?_, ?_⟩
  · simp only [beforeInstall, ran, Option.bind_eq_bind, Option.bind_some, Option.pure_def]
  · refine along_of_invariant (fun s => Consistent s.1 s.2) (fun s r inv allowed => ?_)
      (fun s inv => ⟨nothingLost inv, fun r allowed => ?_⟩) requests _ consistent
    · exact (request_served inv two allowed).2
    · exact (request_served inv two allowed).1

/-! ### Errors that matter -/

/-- The numbered disk behind a device with an error in the status number `t`, and an empty cache over
buffers of zeroes. -/
def flakyWorld (N t : Nat) : FsWorld N where
  cache := LRUCache.fresh N (fun _ => none) (fun _ => 0) fun _ => ⟨fun _ => 0, 0, 0⟩
  outside := { numbered with report := fun n => if n = t then 0x51 else 0x50 }

/-- Nothing goes wrong in a cache of two nodes: the only error hits the write-back of a block that is
on the disk already. -/
theorem flaky_run_served :
    ∃ w, beforeInstall (flakyWorld 2 7) = some w ∧
      Along request Allowed (fun s => NothingLost s ∧ ∀ r, Allowed s r → Served s r)
        (w, blockOf (flakyWorld 2 7).outside.disk) [.read 2, .read 3, .write 3] :=
  served_along_harmless_errors (by decide) _ _ _ rfl (by decide) _

theorem not_served_read {bno : UInt32} {x : UInt8}
    (ran : (readBlock (some uncache) bno s.1).map (fun p => (p.2.cache.value p.1).data 0) = some x)
    (differs : s.2 bno 0 ≠ x) : ¬ Served s (.read bno) := by
  rintro ⟨buff, w, ran', data⟩
  rw [ran', Option.map_some, Option.some.injEq, data] at ran
  exact differs ran

/-- **Errors that poison the block layer**, each of one transfer: a read of block 5 answers zeroes
instead of the disk's bytes, also the next time, with a device that works again; a write of block 1
answers `true`; and what has been put into block 2 is lost when the block is given up. -/
theorem errors_poison_blocks :
    (∃ w, beforeInstall (flakyWorld 307 4) = some w ∧
      ¬ Served (w, blockOf numbered.disk) (.read 5) ∧
      ∃ s, request (w, blockOf numbered.disk) (.read 5) = some s ∧ nextFails s.1.outside = false ∧
        ¬ Served s (.read 5)) ∧
    (∃ w, beforeInstall (flakyWorld 307 4) = some w ∧
      ∃ s, request (w, blockOf numbered.disk) (.overwrite 1 fun _ => 9) = some s ∧
        ¬ Served s (.write 1)) ∧
    (∃ w, beforeInstall (flakyWorld 2 10) = some w ∧
      ∃ s, [.overwrite 2 fun _ => 9, .read 3, .read 4].foldlM request (w, blockOf numbered.disk)
        = some s ∧ ¬ NothingLost s) := by
  refine ⟨?_, ?_, ?_⟩
  · have run : (beforeInstall (flakyWorld 307 4)).bind (fun w =>
        (readBlock (some uncache) 5 w).map fun p => ((p.2.cache.value p.1).data 0,
          nextFails p.2.outside,
          (readBlock (some uncache) 5 p.2).map fun q => (q.2.cache.value q.1).data 0))
        = some (0, false, some 0) := by decide +kernel
    have onDisk : blockOf numbered.disk 5 0 ≠ 0 := by decide
    obtain ⟨w, started, run⟩ := Option.bind_eq_some_iff.mp run
    obtain ⟨⟨buff, w'⟩, ran, values⟩ := Option.map_eq_some_iff.mp run
    simp only [Prod.mk.injEq] at values
    refine ⟨w, started, not_served_read (x := 0) ?_ onDisk, (w', blockOf numbered.disk), ?_,
      values.2.1, not_served_read (x := 0) values.2.2 onDisk⟩
    · rw [ran, Option.map_some, values.1]
    · rw [request, ran]
      rfl
  · have run : (beforeInstall (flakyWorld 307 4)).bind (fun w =>
        (getBlock (some uncache) 1 w).bind fun p =>
          (writeBlock 1 (setData p.2 p.1 fun _ => 9)).map fun q => (q.1, nextFails p.2.outside))
        = some (true, true) := by decide +kernel
    obtain ⟨w, started, run⟩ := Option.bind_eq_some_iff.mp run
    obtain ⟨⟨buff, w'⟩, ran, run⟩ := Option.bind_eq_some_iff.mp run
    obtain ⟨⟨answered, w''⟩, wrote, values⟩ := Option.map_eq_some_iff.mp run
    simp only [Prod.mk.injEq] at values
    refine ⟨w, started, (setData w' buff fun _ => 9,
      Function.update (blockOf numbered.disk) 1 fun _ => 9), ?_, ?_⟩
    · rw [request, ran]
      rfl
    · rintro ⟨answered', w₃, wrote', served⟩
      rw [wrote] at wrote'
      cases wrote'
      exact absurd ((served values.1).1.symm.trans values.2) (by decide)
  · have run : (beforeInstall (flakyWorld 2 10)).bind (fun w =>
        ([.overwrite 2 fun _ => 9, .read 3, .read 4].foldlM request (w, blockOf numbered.disk)).map
          fun s => (decide (∃ slot, ∃ node ∈ s.1.cache.table_ slot, s.1.cache.key node = 2),
            blockOf s.1.outside.disk 2 0, s.2 2 0))
        = some (false, 4, 9) := by decide +kernel
    obtain ⟨w, started, run⟩ := Option.bind_eq_some_iff.mp run
    obtain ⟨s, ran, values⟩ := Option.map_eq_some_iff.mp run
    simp only [Prod.mk.injEq, decide_eq_false_iff_not] at values
    refine ⟨w, started, s, ran, fun kept => ?_⟩
    rcases kept 2 (by decide) with ⟨node, ⟨slot, stored, isKey⟩, _⟩ | ⟨_, onDisk⟩
    · exact values.1 ⟨slot, node, stored, isKey⟩
    · rw [onDisk] at values
      exact absurd (values.2.1.symm.trans values.2.2) (by decide)

end Sprite.Fs

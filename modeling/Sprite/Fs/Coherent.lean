/-
**What the block layer stands for, on a device without errors.**

* `Coherent` — the cache and the disk together hold the given contents, and no transfer will fail.
* `Coherent.read`, `Coherent.get`, `Coherent.write` — the three functions keep the contents.
* `Coherent.modify` — writing to a buffer changes the content of its block.
-/
import Sprite.Fs.Consistent

namespace Sprite.Fs

open Cache Ide

variable {N : Nat} [NeZero N]

/-- **The cache and the disk hold the contents.** -/
structure Coherent (w : FsWorld N) (content : UInt32 → Block) : Prop where
  indexed : Indexed w.cache
  tied : w.cache.toQueue.Tied (Stored w.cache)
  valid : w.outside.valid = 1
  quiet : w.outside.Quiet
  cached : ∀ k node, w.cache.Holds k node → FitsDisk k ∧ (w.cache.value node).data = content k
  uncached : ∀ k, FitsDisk k → (∀ node, ¬ w.cache.Holds k node) →
    blockOf w.outside.disk k = content k

variable {w : FsWorld N} {c : LRUCache BlockBuffer N} {d : Device} {content : UInt32 → Block}
  {bno : UInt32} {node : Ptr}

theorem Coherent.consistent (coherent : Coherent w content) : Consistent w content :=
  ⟨coherent.indexed, coherent.tied, coherent.valid, coherent.cached, coherent.uncached⟩

theorem Consistent.coherent (consistent : Consistent w content) (quiet : w.outside.Quiet) :
    Coherent w content :=
  ⟨consistent.indexed, consistent.tied, consistent.valid, quiet, consistent.cached,
    consistent.uncached⟩

theorem Coherent.holds_unique (coherent : Coherent w content) {node' : Ptr}
    (holds : w.cache.Holds bno node) (holds' : w.cache.Holds bno node') : node = node' :=
  coherent.indexed.holds_unique holds holds'

/-- **Writing to a buffer** changes the content of its block. -/
theorem Coherent.modify (coherent : Coherent ⟨c, d⟩ content) (holds : c.Holds bno node)
    (buff : BlockBuffer) :
    Coherent ⟨{ c with value := Function.update c.value node buff }, d⟩
      (Function.update content bno buff.data) :=
  (coherent.consistent.modify holds buff).coherent coherent.quiet

omit [NeZero N] in
/-- Without errors every node may be given up. -/
theorem victimSafe_quiet (quiet : d.Quiet) : VictimSafe c d :=
  fun _ _ => .inl (nextFails_quiet quiet)

omit [NeZero N] in
theorem fillSucceeds_quiet (quiet : d.Quiet) : FillSucceeds c d := by
  unfold FillSucceeds
  split
  · exact nextFails_quiet (d := spent d) quiet
  · exact nextFails_quiet quiet

/-- **`read_block` answers the content of the block.** -/
theorem Coherent.read_keeps (coherent : Coherent w content) (two : 2 ≤ N) (fits : FitsDisk bno)
    {cb_ : Option (UncacheCallback BlockBuffer N Device)}
    (installed : cb_ = some uncache ∨ w.cache.count_ < N) :
    ∃ node w', readBlock cb_ bno w = some (node, w') ∧ w'.cache.Holds bno node ∧
      (w'.cache.value node).data = content bno ∧ Coherent w' content ∧
      Toward content w.outside w'.outside ∧ Keeps w.cache w'.cache bno := by
  obtain ⟨c, d⟩ := w
  obtain ⟨node, c', d', ran, holds, data, consistent, kept, toward, keeps⟩ :=
    coherent.consistent.read_keeps two fits installed
      fun _ => ⟨fun _ => victimSafe_quiet coherent.quiet, fillSucceeds_quiet coherent.quiet⟩
  exact ⟨node, ⟨c', d'⟩, ran, holds, data, consistent.coherent (kept.quiet coherent.quiet), toward,
    keeps⟩

theorem Coherent.read (coherent : Coherent w content) (two : 2 ≤ N) (fits : FitsDisk bno)
    {cb_ : Option (UncacheCallback BlockBuffer N Device)}
    (installed : cb_ = some uncache ∨ w.cache.count_ < N) :
    ∃ node w', readBlock cb_ bno w = some (node, w') ∧ w'.cache.Holds bno node ∧
      (w'.cache.value node).data = content bno ∧ Coherent w' content ∧
      Toward content w.outside w'.outside := by
  obtain ⟨node, w', ran, holds, data, coherent', toward, _⟩ :=
    coherent.read_keeps two fits installed
  exact ⟨node, w', ran, holds, data, coherent', toward⟩

/-- **`get_block` answers a buffer for the block**, whose content is what is put into it. -/
theorem Coherent.get (coherent : Coherent w content) (two : 2 ≤ N) (fits : FitsDisk bno) :
    ∃ node c' d', getBlock (some uncache) bno w = some (node, ⟨c', d'⟩) ∧ c'.Holds bno node ∧
      Toward content w.outside d' ∧
      ((∀ node, ¬ w.cache.Holds bno node) → N ≤ w.cache.count →
        ∃ k, Cached w k ∧ (c'.value node).data = content k) ∧
      ∀ buff, Coherent ⟨{ c' with value := Function.update c'.value node buff }, d'⟩
        (Function.update content bno buff.data) := by
  obtain ⟨c, d⟩ := w
  obtain ⟨node, c', d', ran, holds, kept, toward, stale, consistent⟩ :=
    coherent.consistent.get two fits fun _ _ => victimSafe_quiet coherent.quiet
  refine ⟨node, c', d', ran, holds, toward, fun absent full => ?_,
    fun buff => (consistent buff).coherent (kept.quiet coherent.quiet)⟩
  obtain ⟨k, node', held, data⟩ := stale absent full
  exact ⟨k, ⟨node', held⟩, data⟩

/-- **`write_block` of a cached block** brings its content to the disk. -/
theorem Coherent.write_cached (coherent : Coherent ⟨c, d⟩ content) (holds : c.Holds bno node) :
    ∃ q d', writeBlock bno ⟨c, d⟩ = some (true, ⟨{ c with toQueue := q }, d'⟩) ∧
      Coherent ⟨{ c with toQueue := q }, d'⟩ content ∧ Toward content d d' ∧
      blockOf d'.disk bno = content bno := by
  obtain ⟨q, d', ran, consistent, kept, toward, written⟩ :=
    coherent.consistent.write_cached holds (nextFails_quiet coherent.quiet)
  exact ⟨q, d', ran, consistent.coherent (kept.quiet coherent.quiet), toward, written⟩

/-- **`write_block` changes no content.** It answers whether the block is cached. -/
theorem Coherent.write (coherent : Coherent w content) (bno : UInt32) :
    ∃ written w', writeBlock bno w = some (written, w') ∧ Coherent w' content := by
  obtain ⟨c, d⟩ := w
  by_cases present : ∃ node, c.Holds bno node
  · obtain ⟨node, holds⟩ := present
    obtain ⟨q, d', ran, coherent', _⟩ := coherent.write_cached holds
    exact ⟨true, _, ran, coherent'⟩
  · exact ⟨false, ⟨c, d⟩, write_uncached fun node holds => present ⟨node, holds⟩, coherent⟩

end Sprite.Fs

/-
**The block cache is transparent.**

Whatever has been evicted and written back in between, reading a block through the cache gives what a
disk without a cache would hold. The clients of the block layer work on buffers: they overwrite the
whole of a buffer that `get_block` has answered, or change the last buffer answered in place until
the next call.

* `uncachedDisk` — the disk without a cache, as the clients change it.
* `block_cache_transparent` — **the block layer refines it**, with one buffer for a block at most.
-/
import Sprite.Fs.Coherent
import Sprite.Lib.Runs

namespace Sprite.Fs

open Cache Ide Runs

/-- What the clients of the block layer do. -/
inductive Access where
  /-- `read_block(bno)`. -/
  | read (bno : UInt32)
  /-- `get_block(bno)`, and all bytes of the buffer set. -/
  | overwrite (bno : UInt32) (data : Block)
  /-- The buffer answered last is changed in place. -/
  | modify (change : Block → Block)
  /-- `write_block(bno)`. -/
  | write (bno : UInt32)

/-! ### The disk without a cache -/

/-- The contents of the blocks, and the block whose buffer may be changed in place. -/
structure UncachedDisk where
  content : UInt32 → Block
  last : Option UInt32

/-- The disk without a cache. A read answers the bytes of the block. -/
def uncachedDisk : Machine UncachedDisk Access (Option Block) where
  legal s access := match access with
    | .read bno | .overwrite bno _ | .write bno => FitsDisk bno
    | .modify _ => s.last.isSome
  next s access out s' := match access, out with
    | .read bno, some data => data = s.content bno ∧ s' = { s with last := some bno }
    | .overwrite bno data, none => s' = ⟨Function.update s.content bno data, some bno⟩
    | .modify change, none => ∃ bno, s.last = some bno ∧
        s' = { s with content := Function.update s.content bno (change (s.content bno)) }
    | .write _, none => s' = { s with last := none }
    | _, _ => False

/-! ### The block layer -/

variable {N : Nat} [NeZero N]

/-- Bytes put into a buffer. -/
def setData (w : FsWorld N) (buff : Ptr) (data : Block) : FsWorld N :=
  { w with cache := { w.cache with
    value := Function.update w.cache.value buff { w.cache.value buff with data := data } } }

/-- An access through the cache, with the buffer answered last. -/
def access (s : FsWorld N × Option Ptr) : Access → Option (Option Block × FsWorld N × Option Ptr)
  | .read bno => do
    let (buff, w) ← readBlock (some uncache) bno s.1
    return (some (w.cache.value buff).data, w, some buff)
  | .overwrite bno data => do
    let (buff, w) ← getBlock (some uncache) bno s.1
    return (none, setData w buff data, some buff)
  | .modify change => do
    let buff ← s.2
    return (none, setData s.1 buff (change (s.1.cache.value buff).data), some buff)
  | .write bno => do
    let (_, w) ← writeBlock bno s.1
    return (none, w, none)

/-- No block has two buffers. -/
def OneBuffer (s : FsWorld N × Option Ptr) (_ : UncachedDisk) : Prop :=
  ∀ bno node node', s.1.cache.Holds bno node → s.1.cache.Holds bno node' → node = node'

/-- The relation of the simulation. -/
structure Mirrored (s : FsWorld N × Option Ptr) (ideal : UncachedDisk) : Prop where
  coherent : Coherent s.1 ideal.content
  last : ∀ bno, ideal.last = some bno → ∃ node, s.2 = some node ∧ s.1.cache.Holds bno node

/-- **One access** keeps the cache and the disk without a cache alike. -/
theorem access_simulates (two : 2 ≤ N) (s : FsWorld N × Option Ptr) (ideal : UncachedDisk)
    (op : Access) (related : Mirrored s ideal) (legal : uncachedDisk.legal ideal op) :
    ∃ out s' ideal', access s op = some (out, s') ∧ uncachedDisk.next ideal op out ideal' ∧
      Mirrored s' ideal' := by
  cases op with
  | read bno =>
    obtain ⟨node, w', ran, holds, data, coherent, _⟩ :=
      related.coherent.read two legal (.inl rfl)
    refine ⟨some (w'.cache.value node).data, (w', some node), { ideal with last := some bno }, ?_,
      ⟨data, rfl⟩, coherent, ?_⟩
    · simp only [access, ran, Option.bind_eq_bind, Option.bind_some, Option.pure_def]
    · rintro _ ⟨⟩
      exact ⟨node, rfl, holds⟩
  | overwrite bno data =>
    obtain ⟨node, c', d', ran, holds, _, _, coherent⟩ := related.coherent.get two legal
    refine ⟨none, (setData ⟨c', d'⟩ node data, some node),
      ⟨Function.update ideal.content bno data, some bno⟩, ?_, rfl, coherent _, ?_⟩
    · simp only [access, ran, Option.bind_eq_bind, Option.bind_some, Option.pure_def]
    · rintro _ ⟨⟩
      exact ⟨node, rfl, holds⟩
  | modify change =>
    obtain ⟨bno, isLast⟩ := Option.isSome_iff_exists.mp legal
    obtain ⟨node, answered, holds⟩ := related.last bno isLast
    obtain ⟨_, data⟩ := related.coherent.cached bno node holds
    refine ⟨none, (setData s.1 node (change (s.1.cache.value node).data), some node),
      { ideal with content := Function.update ideal.content bno (change (ideal.content bno)) }, ?_,
      ⟨bno, isLast, rfl⟩, ?_, ?_⟩
    · simp only [access, answered, Option.bind_eq_bind, Option.bind_some, Option.pure_def]
    · rw [← data]
      exact related.coherent.modify holds _
    · intro bno' isLast'
      cases isLast.symm.trans isLast'
      exact ⟨node, rfl, holds⟩
  | write bno =>
    obtain ⟨written, w', ran, coherent⟩ := related.coherent.write bno
    refine ⟨none, (w', none), { ideal with last := none }, ?_, rfl, coherent, fun _ impossible => ?_⟩
    · simp only [access, ran, Option.bind_eq_bind, Option.bind_some, Option.pure_def]
    · cases impossible

theorem fresh_coherent (links : Ptr → Option Ptr) (key : Ptr → Key) (value : Ptr → BlockBuffer)
    {d : Device} (valid : d.valid = 1) (quiet : d.Quiet) :
    Coherent ⟨LRUCache.fresh N links key value, d⟩ (blockOf d.disk) where
  indexed := fresh_indexed links key value
  tied := .inr ⟨rfl, rfl, fun _ ⟨_, stored⟩ => by cases stored⟩
  valid := valid
  quiet := quiet
  cached := fun _ _ ⟨_, stored, _⟩ => by cases stored
  uncached := fun _ _ _ => rfl

/-- `init_fs` up to where it installs the callback. -/
theorem beforeInstall_coherent (two : 2 ≤ N) (links : Ptr → Option Ptr) (key : Ptr → Key)
    (value : Ptr → BlockBuffer) {d : Device} (valid : d.valid = 1) (quiet : d.Quiet) :
    ∃ w, beforeInstall ⟨LRUCache.fresh N links key value, d⟩ = some w ∧
      Coherent w (blockOf d.disk) := by
  have fits : FitsDisk kSuperBlockBNO := by decide
  have room : (none : Option (UncacheCallback BlockBuffer N Device)) = some uncache ∨
      (LRUCache.fresh N links key value).count_ < N := .inr (Nat.pos_of_neZero N)
  obtain ⟨node, w, ran, _, _, coherent, _⟩ :=
    (fresh_coherent links key value valid quiet).read two fits room
  refine ⟨w, ?_, coherent⟩
  simp only [beforeInstall, ran, Option.bind_eq_bind, Option.bind_some, Option.pure_def]

/-- **The block cache is transparent**, over every run of accesses to blocks of the disk: any number
of blocks, evictions and modifications, on a device that reports no error. -/
theorem block_cache_transparent (two : 2 ≤ N) (links : Ptr → Option Ptr) (key : Ptr → Key)
    (value : Ptr → BlockBuffer) {d : Device} (valid : d.valid = 1) (quiet : d.Quiet)
    (ops : List Access) :
    ∃ w, beforeInstall ⟨LRUCache.fresh N links key value, d⟩ = some w ∧
      Refines access uncachedDisk OneBuffer (w, none) ⟨blockOf d.disk, none⟩ ops := by
  obtain ⟨w, ran, coherent⟩ := beforeInstall_coherent two links key value valid quiet
  refine ⟨w, ran, ?_⟩
  refine refines_of_simulation Mirrored (access_simulates two) ?_ ops _ _ ⟨coherent, ?_⟩
  · exact fun s _ related _ _ _ => related.coherent.holds_unique
  · intro _ impossible
    cases impossible

/-- The cache of the kernel over a numbered disk. -/
theorem kernel_cache_transparent :
    ∃ w, beforeInstall ⟨LRUCache.fresh 307 (fun _ => none) (fun _ => 0) (fun _ => ⟨fun _ => 0, 0, 0⟩),
        numbered⟩ = some w ∧
      Refines access uncachedDisk OneBuffer (w, none) ⟨blockOf numbered.disk, none⟩
        [.read 5, .modify (fun data => Function.update data 0 7), .overwrite 312 fun _ => 9, .write 5,
          .read 619, .read 5] :=
  block_cache_transparent (by decide) _ _ _ rfl numbered_quiet _

end Sprite.Fs

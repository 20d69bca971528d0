/-
**What the block layer stands for.**

Between calls every block has a content: what its buffer holds when it is cached, and what the disk
holds when it is not. The device may fail at any time.

* `ide_read_cut`, `ide_write_cut` — a block is two sectors, which one command moves.
* `Consistent` — the cache and the disk together hold the given contents.
* `Consistent.alloc` — a buffer for a block that is not cached, also when another block has to be
  written back for it.
* `Consistent.read`, `Consistent.get`, `Consistent.write` — the three functions keep the contents as
  long as no transfer that matters fails.
* `Consistent.modify` — writing to a buffer changes the content of its block.
-/
import Sprite.Cache.Links
import Sprite.Cache.Table
import Sprite.Fs.Block
import Sprite.Ide.Errors

namespace Sprite.Fs

open Cache Ide

/-- The bytes of a block. -/
abbrev Block := Fin 1024 → UInt8

instance blockNeZero : NeZero 1024 := ⟨Nat.succ_ne_zero 1023⟩

/-- A block of the disk: two sectors, one behind the other. -/
def blockOf (disk : Nat → Sector) (bno : UInt32) : Block := fun i =>
  disk (2 * bno.toNat + i.val / SECTSIZE) (Fin.ofNat 512 i.val)

/-- The block is one of the disk. -/
def FitsDisk (bno : UInt32) : Prop := 2 * bno.toNat + 2 ≤ MAX_DISK_NSECS.toNat

instance (bno : UInt32) : Decidable (FitsDisk bno) := inferInstanceAs (Decidable (_ ≤ _))

/-! ### A block is one command -/

section Transfer

variable {bno : UInt32} {d : Device}

/-- The next transfer of a block fails: one of the reports before its two sectors has an error. -/
def nextFails (d : Device) : Bool := d.errorAt 1 || d.errorAt 2

/-- The device as far as its reports go, after the next transfer of a block. -/
def spent (d : Device) : Device :=
  { d with answers := d.answers + if d.errorAt 1 = true then 2 else 3 }

theorem nextFails_quiet (quiet : d.Quiet) : nextFails d = false := by
  rw [nextFails, quiet.errorAt, quiet.errorAt]
  rfl

/-- Whether a transfer fails is told by the reports to come. -/
theorem nextFails_congr {d' : Device} (kept : d.Kept d') (answers : d'.answers = d.answers) :
    nextFails d' = nextFails d := by
  unfold nextFails Device.errorAt
  rw [kept.report, answers]

theorem blockToSector_toNat (fits : FitsDisk bno) : (blockToSector bno).toNat = 2 * bno.toNat := by
  have bound : MAX_DISK_NSECS.toNat = 2 ^ 28 := rfl
  have factor : kBlockSectorFactor.toNat = 2 := rfl
  unfold FitsDisk at fits
  rw [blockToSector, UInt32.toNat_mul, factor, Nat.mul_comm, Nat.mod_eq_of_lt (by omega)]

theorem secnoOk_of_fits (valid : d.valid = 1) (fits : FitsDisk bno) :
    secnoOk d (blockToSector bno) (blockToSector 1) = true := by
  have bound : MAX_DISK_NSECS.toNat = 2 ^ 28 := rfl
  have two : (blockToSector 1).toNat = 2 := rfl
  have sector := blockToSector_toNat fits
  unfold FitsDisk at fits
  refine secnoOk_iff.mpr ⟨valid, ?_, ?_⟩
  · rw [UInt32.lt_iff_toNat_lt, sector]
    omega
  · rw [UInt32.le_iff_toNat_le, UInt32.toNat_add, sector, two, Nat.mod_eq_of_lt (by omega)]
    exact fits

/-- A transfer of two sectors, as the reports have it. -/
theorem cut_block {d' : Device} {moved : Nat} (cut : d.answered.Cut d' moved 2) :
    (nextFails d = false ↔ moved = 2) ∧ status moved 2 = (if nextFails d = true then -1 else 0) ∧
      d.Kept d' ∧ d'.answers = (spent d).answers := by
  have first := d.errorAt_answered 0
  have second := d.errorAt_answered 1
  have answers : d'.answers = d.answers + 1 + min (moved + 1) 2 := cut.answers
  have kept : d.Kept d' := ⟨cut.valid, cut.report⟩
  have whole : status 2 2 = 0 := rfl
  unfold spent nextFails
  rcases Nat.lt_or_ge moved 2 with less | all
  · have error := cut.error less
    have failed : status moved 2 = -1 := if_neg (Nat.ne_of_lt less)
    rcases Nat.lt_or_ge moved 1 with none | one
    · obtain rfl : moved = 0 := by omega
      rw [first] at error
      rw [error, failed]
      exact ⟨iff_of_false (by simp) (by decide), rfl, kept, answers⟩
    · obtain rfl : moved = 1 := by omega
      have clear := cut.clear 0 (by omega)
      rw [first] at clear
      rw [second] at error
      rw [clear, error, failed]
      exact ⟨iff_of_false (by simp) (by decide), rfl, kept, answers⟩
  · obtain rfl : moved = 2 := Nat.le_antisymm cut.le all
    have clear := cut.clear 0 (by omega)
    have clear' := cut.clear 1 (by omega)
    rw [first] at clear
    rw [second] at clear'
    rw [clear, clear', whole]
    exact ⟨iff_of_true rfl rfl, rfl, kept, answers⟩

theorem ide_read_cut (valid : d.valid = 1) (fits : FitsDisk bno) (mem : Memory) :
    ∃ mem' d', ideReadSecs (blockToSector bno) 0 (blockToSector 1) mem d
        = some (if nextFails d = true then -1 else 0, mem', d') ∧
      (nextFails d = false → (BlockBuffer.ofBytes mem').data = blockOf d.disk bno) ∧
      d'.disk = d.disk ∧ d.Kept d' ∧ d'.answers = (spent d).answers := by
  obtain ⟨moved, d', ran, disk, cut⟩ := ideReadSecs_cut 0 mem (secnoOk_of_fits valid fits)
    (by decide) (by decide)
  obtain ⟨whole, answered, kept, answers⟩ := cut_block cut
  refine ⟨_, d', ran.trans (congrArg some (Prod.ext answered rfl)), fun fine => ?_, disk, kept, answers⟩
  obtain rfl := whole.mp fine
  funext i
  have small := i.isLt
  simp only [BlockBuffer.ofBytes, received, blockOf, blockToSector_toNat fits, SECTSIZE]
  rw [if_pos (by omega), Nat.sub_zero]

theorem ide_write_cut (valid : d.valid = 1) (fits : FitsDisk bno) (buff : BlockBuffer) :
    ∃ d', ideWriteSecs (blockToSector bno) 0 (blockToSector 1) buff.bytes d
        = some (if nextFails d = true then -1 else 0, d') ∧
      (nextFails d = false ∨ buff.data = blockOf d.disk bno → blockOf d'.disk bno = buff.data) ∧
      (∀ k, k ≠ bno → blockOf d'.disk k = blockOf d.disk k) ∧ d.Kept d' ∧
      d'.answers = (spent d).answers := by
  obtain ⟨moved, d', ran, disk, cut⟩ := ideWriteSecs_cut 0 buff.bytes (secnoOk_of_fits valid fits)
    (by decide) (by decide)
  obtain ⟨whole, answered, kept, answers⟩ := cut_block cut
  have byte : ∀ i : Fin 1024, i.val / 512 < moved → blockOf d'.disk bno i = buff.data i := by
    intro i inside
    have small := i.isLt
    simp only [disk, blockOf, deposited, blockToSector_toNat fits, SECTSIZE]
    have place : 0 + SECTSIZE * (2 * bno.toNat + i.val / 512 - 2 * bno.toNat)
        + (Fin.ofNat 512 i.val).val = i.val := by
      simp only [SECTSIZE, Fin.val_ofNat]
      omega
    rw [if_pos (by omega), sectorAt, place, BlockBuffer.bytes, dif_pos small]
  have rest : ∀ i : Fin 1024, ¬ i.val / 512 < moved → blockOf d'.disk bno i = blockOf d.disk bno i := by
    intro i outside
    simp only [disk, blockOf, deposited, blockToSector_toNat fits, SECTSIZE]
    rw [if_neg (by omega)]
  refine ⟨d', ran.trans (congrArg some (Prod.ext answered rfl)), ?_, ?_, kept, answers⟩
  · rintro (fine | clean)
    · obtain rfl := whole.mp fine
      exact funext fun i => byte i (by omega)
    · funext i
      by_cases inside : i.val / 512 < moved
      · exact byte i inside
      · rw [rest i inside, clean]
  · intro k other
    funext i
    have small := i.isLt
    have apart : k.toNat ≠ bno.toNat := fun same => other (UInt32.toNat_inj.mp same)
    have few : moved ≤ 2 := cut.le
    simp only [disk, blockOf, deposited, blockToSector_toNat fits, SECTSIZE]
    rw [if_neg (by omega)]

end Transfer

/-! ### The contents of the blocks -/

variable {N : Nat} [NeZero N]

/-- The node is in the table. -/
def Stored (c : LRUCache BlockBuffer N) (node : Ptr) : Prop := ∃ slot, c.table_ slot = some node

/-- The block is cached. -/
def Cached (w : FsWorld N) (bno : UInt32) : Prop := ∃ node, w.cache.Holds bno node

/-- **The cache and the disk hold the contents**, whatever becomes of later transfers. -/
structure Consistent (w : FsWorld N) (content : UInt32 → Block) : Prop where
  indexed : Indexed w.cache
  tied : w.cache.toQueue.Tied (Stored w.cache)
  valid : w.outside.valid = 1
  cached : ∀ k node, w.cache.Holds k node → FitsDisk k ∧ (w.cache.value node).data = content k
  uncached : ∀ k, FitsDisk k → (∀ node, ¬ w.cache.Holds k node) →
    blockOf w.outside.disk k = content k

/-- The disk has changed to the contents, where it has changed. -/
def Toward (content : UInt32 → Block) (d d' : Device) : Prop :=
  ∀ k, blockOf d'.disk k = blockOf d.disk k ∨ blockOf d'.disk k = content k

/-- Giving up the node at the head of the queue loses nothing: its block is on the disk already, or
the transfer that writes it back succeeds. -/
def VictimSafe (c : LRUCache BlockBuffer N) (d : Device) : Prop :=
  ∀ z, c.queue_ = some z → nextFails d = false ∨ (c.value z).data = blockOf d.disk (c.key z)

variable {w : FsWorld N} {c : LRUCache BlockBuffer N} {d d' : Device} {content : UInt32 → Block}
  {bno : UInt32} {node : Ptr}

theorem toward_refl (same : d'.disk = d.disk) : Toward content d d' :=
  fun _ => .inl (by rw [same])

theorem Toward.trans {d'' : Device} (first : Toward content d d') (second : Toward content d' d'') :
    Toward content d d'' := fun k =>
  (second k).elim (fun same => (first k).imp same.trans same.trans) .inr

omit [NeZero N] in
theorem stored_of_holds (holds : c.Holds bno node) : Stored c node := by
  obtain ⟨slot, stored, _⟩ := holds
  exact ⟨slot, stored⟩

omit [NeZero N] in
theorem stored_iff : Stored c node ↔ ∃ k, c.Holds k node := by
  constructor
  · rintro ⟨slot, stored⟩
    exact ⟨_, slot, stored, rfl⟩
  · rintro ⟨_, holds⟩
    exact stored_of_holds holds

omit [NeZero N] in
theorem key_unique {k k' : Key} (holds : c.Holds k node) (holds' : c.Holds k' node) :
    k = k' := by
  obtain ⟨_, _, rfl⟩ := holds
  obtain ⟨_, _, rfl⟩ := holds'
  rfl

/-- A cached block makes the count positive and the links closed. -/
theorem Consistent.closed (consistent : Consistent w content) (stored : Stored w.cache node) :
    w.cache.toQueue.Closed (Stored w.cache) ∧ ∃ count, w.cache.count_ = count + 1 := by
  refine ⟨consistent.tied.resolve_right fun empty => empty.2.2 node stored, ?_⟩
  obtain ⟨slot, inSlot⟩ := stored
  have positive : 0 < (Probing.occupied w.cache.table_).card :=
    Finset.card_pos.mpr ⟨slot, Probing.mem_occupied.mpr (by rw [inSlot]; rfl)⟩
  exact ⟨_, (consistent.indexed.counted.trans (Nat.sub_add_cancel positive).symm)⟩

/-- Any queue will do whose links are closed. -/
theorem Consistent.requeued (consistent : Consistent ⟨c, d⟩ content) {q : Queue}
    (closed : q.Closed (Stored c)) (same : q.count_ = c.count_) :
    Consistent ⟨{ c with toQueue := q }, d⟩ content :=
  ⟨consistent.indexed.requeued same, .inl closed, consistent.valid, consistent.cached,
    consistent.uncached⟩

/-- The device may be another one that holds what is not cached. -/
theorem Consistent.moved (consistent : Consistent ⟨c, d⟩ content) (kept : d.Kept d')
    (toward : Toward content d d') : Consistent ⟨c, d'⟩ content := by
  refine ⟨consistent.indexed, consistent.tied, kept.valid.trans consistent.valid,
    consistent.cached, fun k fits absent => ?_⟩
  exact (toward k).elim (fun same => same.trans (consistent.uncached k fits absent)) id

/-- **A lookup of a cached block** keeps the contents. -/
theorem Consistent.get_hit (consistent : Consistent ⟨c, d⟩ content) (holds : c.Holds bno node) :
    ∃ q, World.Get bno ⟨c, d⟩ = some (some node, ⟨{ c with toQueue := q }, d⟩) ∧
      Consistent ⟨{ c with toQueue := q }, d⟩ content := by
  obtain ⟨closed, count, counted⟩ := consistent.closed (stored_of_holds holds)
  have room : count < N := by
    have bound := consistent.indexed.count_le
    dsimp only at bound counted
    omega
  obtain ⟨q, requeued, closed', counted'⟩ := closed.requeue (stored_of_holds holds) counted room
  refine ⟨q, ?_, consistent.requeued closed' (counted'.trans counted.symm)⟩
  simp only [World.Get, Get_hit consistent.indexed.complete holds requeued, Option.bind_eq_bind,
    Option.bind_some, Option.pure_def]

theorem get_miss (absent : ∀ node, ¬ c.Holds bno node) :
    World.Get bno ⟨c, d⟩ = some (none, ⟨c, d⟩) := by
  simp only [World.Get, Get_miss absent, Option.bind_eq_bind, Option.bind_some, Option.pure_def]

/-- The callback of an eviction promotes the node that is being evicted. -/
theorem uncache_promotes (complete : Probing.Complete c.table_ c.key LRUCache.hash)
    (holds : c.Holds bno node) {q q' : Queue} (requeued : q.requeue N node = some q') {ret : Int}
    (ran : ideWriteSecs (blockToSector bno) 0 (blockToSector 1) (c.value node).bytes d
      = some (ret, d')) :
    uncache bno node ⟨{ c with toQueue := q }, d⟩ = some ⟨{ c with toQueue := q' }, d'⟩ := by
  have got : LRUCache.Get { c with toQueue := q } bno
      = some (some node, { c with toQueue := q' }) :=
    Get_hit (c := { c with toQueue := q }) complete holds requeued
  simp only [uncache, writeBlock, World.Get, got, Option.bind_eq_bind, Option.bind_some, ran,
    Option.pure_def]

/-- **Writing to a buffer** changes the content of its block. -/
theorem Consistent.modify (consistent : Consistent ⟨c, d⟩ content) (holds : c.Holds bno node)
    (buff : BlockBuffer) :
    Consistent ⟨{ c with value := Function.update c.value node buff }, d⟩
      (Function.update content bno buff.data) := by
  refine ⟨⟨consistent.indexed.complete, consistent.indexed.counted, consistent.indexed.unspent,
    consistent.indexed.made⟩, consistent.tied, consistent.valid, ?_, ?_⟩
  · intro k node' holds'
    refine ⟨(consistent.cached k node' holds').1, ?_⟩
    by_cases here : node' = node
    · subst here
      obtain rfl := key_unique holds holds'
      simp only [Function.update_self]
    · have other : k ≠ bno := by
        rintro rfl
        exact here (consistent.indexed.holds_unique holds' holds)
      simp only [Function.update_of_ne here, Function.update_of_ne other]
      exact (consistent.cached k node' holds').2
  · intro k fits absent
    have other : k ≠ bno := by
      rintro rfl
      exact absent node holds
    rw [Function.update_of_ne other]
    exact consistent.uncached k fits absent

/-! ### Buffers for new blocks -/

/-- A cache in which a node has been given to a new block, whatever is put into its buffer then. -/
theorem Consistent.takes (consistent : Consistent ⟨c, d⟩ content) {c' : LRUCache BlockBuffer N}
    (fits : FitsDisk bno) (indexed : Indexed c') (tied : c'.toQueue.Tied (Stored c'))
    (kept : d.Kept d') (value : c'.value = c.value)
    (holds : ∀ k node', c'.Holds k node' ↔
      k = bno ∧ node' = node ∨ node' ≠ node ∧ c.Holds k node')
    (disk : ∀ k, FitsDisk k → k ≠ bno → (∀ node', c.Holds k node' → node' = node) →
      blockOf d'.disk k = content k) (absent : ∀ node, ¬ c.Holds bno node) (buff : BlockBuffer) :
    Consistent ⟨{ c' with value := Function.update c'.value node buff }, d'⟩
      (Function.update content bno buff.data) := by
  refine ⟨⟨indexed.complete, indexed.counted, indexed.unspent, indexed.made⟩, tied,
    kept.valid.trans consistent.valid, ?_, ?_⟩
  · intro k node' holds'
    rcases (holds k node').mp holds' with ⟨rfl, rfl⟩ | ⟨other, held⟩
    · refine ⟨fits, ?_⟩
      simp only [Function.update_self]
    · have notNew : k ≠ bno := by
        rintro rfl
        exact absent node' held
      simp only [Function.update_of_ne other, Function.update_of_ne notNew, value]
      exact consistent.cached k node' held
  · intro k fits' notHeld
    have notNew : k ≠ bno := by
      rintro rfl
      exact notHeld node ((holds k node).mpr (.inl ⟨rfl, rfl⟩))
    rw [Function.update_of_ne notNew]
    refine disk k fits' notNew fun node' held => ?_
    by_contra other
    exact notHeld node' ((holds k node').mpr (.inr ⟨other, held⟩))

/-- What an allocation leaves behind: a node for the block, whatever is put into its buffer then. A
node that was taken from another block still has the content of that block in its buffer. -/
structure Allocated (c : LRUCache BlockBuffer N) (d : Device) (content : UInt32 → Block)
    (bno : UInt32) (node : Ptr) (c' : LRUCache BlockBuffer N) (d' : Device) : Prop where
  holds : c'.Holds bno node
  kept : d.Kept d'
  answers : d'.answers = (if N ≤ c.count then spent d else d).answers
  toward : Toward content d d'
  onDisk : blockOf d'.disk bno = content bno
  stale : N ≤ c.count → ∃ k node', c.Holds k node' ∧ (c'.value node).data = content k
  consistent : ∀ buff, Consistent ⟨{ c' with value := Function.update c'.value node buff }, d'⟩
    (Function.update content bno buff.data)

/-- What a call for a block leaves of the cache: every node keeps its block, unless the cache was full
and the block not in it, and no other block comes in. -/
structure Keeps (c c' : LRUCache BlockBuffer N) (bno : UInt32) : Prop where
  holds : ∀ k node, c.Holds k node →
    c'.Holds k node ∨ N ≤ c.count_ ∧ (∀ node', ¬ c.Holds bno node') ∧ c'.Holds bno node
  cached : ∀ k node, c'.Holds k node → k = bno ∨ ∃ node', c.Holds k node'

/-- While there is room, the buffer is a new node. -/
theorem Consistent.alloc_room (consistent : Consistent ⟨c, d⟩ content) (fits : FitsDisk bno)
    (absent : ∀ node, ¬ c.Holds bno node) {cb_ : Option (UncacheCallback BlockBuffer N Device)}
    (room : c.count_ < N) :
    ∃ node c' d', World.Alloc cb_ bno ⟨c, d⟩ = some (node, ⟨c', d'⟩) ∧
      Allocated c d content bno node c' d' ∧ Keeps c c' bno := by
  have fresh : ¬ Stored c c.made := by
    rintro ⟨slot, stored⟩
    exact Nat.lt_irrefl _ (consistent.indexed.made slot _ stored)
  obtain ⟨q₁, q₂, pushed, requeued, closed, counted⟩ := consistent.tied.comeIn fresh rfl room
  obtain ⟨slot, result, ran⟩ := Set_room (k := bno) consistent.indexed room d cb_ pushed requeued
  obtain ⟨_, _, _, isNone, _⟩ := Probing.scan_eq_some.mp result
  have holds := consistent.indexed.holds_entered (k := bno) (Option.isNone_iff_eq_none.mp isNone) q₂
  have other : ∀ k node', c.Holds k node' → node' ≠ c.made := fun k node' held =>
    Nat.ne_of_lt (consistent.indexed.holds_lt held)
  refine ⟨c.made, _, d, ran, ⟨(holds bno c.made).mpr (.inl ⟨rfl, rfl⟩), ⟨rfl, rfl⟩, ?_,
    toward_refl rfl, consistent.uncached bno fits absent,
    fun full => absurd room (Nat.not_lt.mpr full), ?_⟩, fun k node' held => ?_,
    fun k node' held => ?_⟩
  · exact (congrArg Device.answers (if_neg (Nat.not_le.mpr room))).symm
  refine consistent.takes fits (consistent.indexed.entered absent result counted) (.inl ?_)
    ⟨rfl, rfl⟩ rfl (fun k node' => ?_) (fun k fits' notNew only => ?_) absent
  · convert closed using 2 with y
    rw [stored_iff, stored_iff]
    simp only [holds]
    constructor
    · rintro ⟨k, ⟨_, rfl⟩ | held⟩
      · exact .inr rfl
      · exact .inl ⟨k, held⟩
    · rintro (⟨k, held⟩ | rfl)
      · exact ⟨k, .inr held⟩
      · exact ⟨bno, .inl ⟨rfl, rfl⟩⟩
  · rw [holds k node']
    exact or_congr_right ⟨fun held => ⟨other k node' held, held⟩, And.right⟩
  · exact consistent.uncached k fits' fun node' held => other k node' held (only node' held)
  · exact .inl ((holds k node').mpr (.inr held))
  · exact ((holds k node').mp held).imp And.left fun old => ⟨node', old⟩

/-- When the cache is full, the buffer is the node at the head, whose block is written back. -/
theorem Consistent.alloc_full (consistent : Consistent ⟨c, d⟩ content) (two : 2 ≤ N)
    (fits : FitsDisk bno) (absent : ∀ node, ¬ c.Holds bno node) (full : c.count_ = N)
    (safe : N ≤ c.count → VictimSafe c d) :
    ∃ node c' d', World.Alloc (some uncache) bno ⟨c, d⟩ = some (node, ⟨c', d'⟩) ∧
      Allocated c d content bno node c' d' ∧ Keeps c c' bno := by
  have closed : c.toQueue.Closed (Stored c) := by
    refine consistent.tied.resolve_right fun empty => ?_
    have zero := empty.2.1
    dsimp only at zero
    omega
  obtain ⟨z, isHead, inside⟩ := closed.head
  obtain ⟨victim, held⟩ := stored_iff.mp inside
  obtain ⟨count, counted⟩ : ∃ count, c.count_ = count + 2 := ⟨N - 2, by omega⟩
  obtain ⟨q₁, q₂, q₃, q₄, popped, requeued, pushed, requeued', closed', counted'⟩ :=
    closed.recycle isHead counted (by omega : count + 2 ≤ N)
  obtain ⟨fitsVictim, dirty⟩ := consistent.cached victim z held
  obtain ⟨d', ran, written, others, kept, answers⟩ :=
    ide_write_cut consistent.valid fitsVictim (c.value z)
  have called := uncache_promotes consistent.indexed.complete held requeued ran
  have holds := holds_replaced (k := bno) held q₄ c.value
  have notVictim : bno ≠ victim := by
    rintro rfl
    exact absent z held
  have saved : blockOf d'.disk victim = content victim := by
    obtain ⟨_, _, isKey⟩ := held
    refine (written ?_).trans dirty
    rw [← isKey]
    exact safe (Nat.le_of_eq full.symm) z isHead
  have toward : Toward content d d' := fun k => by
    by_cases isVictim : k = victim
    · exact .inr (isVictim ▸ saved)
    · exact .inl (others k isVictim)
  refine ⟨z, _, d', Set_full consistent.indexed full isHead held popped called pushed requeued',
    ⟨(holds bno z).mpr (.inl ⟨rfl, rfl⟩), kept, ?_, toward, ?_, fun _ => ⟨victim, z, held, dirty⟩, ?_⟩,
    fun k node' held' => ?_, fun k node' held' => ?_⟩
  · exact answers.trans (congrArg Device.answers (if_pos (Nat.le_of_eq full.symm))).symm
  · rw [others bno notVictim]
    exact consistent.uncached bno fits absent
  · refine consistent.takes fits (consistent.indexed.replaced full
      (fun node held => absurd held (absent node)) (counted'.trans counted.symm) c.value) (.inl closed') kept rfl holds
      (fun k fits' notNew only => ?_) absent
    by_cases isVictim : k = victim
    · rw [isVictim, saved]
    · rw [others k isVictim]
      refine consistent.uncached k fits' fun node' held' => ?_
      obtain rfl := only node' held'
      exact isVictim (key_unique held' held)
  · by_cases isHead' : node' = z
    · exact .inr ⟨Nat.le_of_eq full.symm, absent, (holds bno node').mpr (.inl ⟨rfl, isHead'⟩)⟩
    · exact .inl ((holds k node').mpr (.inr ⟨isHead', held'⟩))
  · exact ((holds k node').mp held').imp And.left fun old => ⟨node', old.2⟩

/-- **A buffer for a block that is not cached**: a new node while there is room, and otherwise the
node at the head, whose block is written back by the callback. -/
theorem Consistent.alloc_keeps (consistent : Consistent ⟨c, d⟩ content) (two : 2 ≤ N)
    (fits : FitsDisk bno) (absent : ∀ node, ¬ c.Holds bno node)
    {cb_ : Option (UncacheCallback BlockBuffer N Device)}
    (installed : cb_ = some uncache ∨ c.count_ < N) (safe : N ≤ c.count → VictimSafe c d) :
    ∃ node c' d', World.Alloc cb_ bno ⟨c, d⟩ = some (node, ⟨c', d'⟩) ∧
      Allocated c d content bno node c' d' ∧ Keeps c c' bno := by
  rcases Nat.lt_or_eq_of_le consistent.indexed.count_le with room | full
  · exact consistent.alloc_room fits absent room
  · obtain rfl := installed.resolve_right (Nat.not_lt.mpr (Nat.le_of_eq full.symm))
    exact consistent.alloc_full two fits absent full safe

theorem Consistent.alloc (consistent : Consistent ⟨c, d⟩ content) (two : 2 ≤ N)
    (fits : FitsDisk bno) (absent : ∀ node, ¬ c.Holds bno node)
    {cb_ : Option (UncacheCallback BlockBuffer N Device)}
    (installed : cb_ = some uncache ∨ c.count_ < N) (safe : N ≤ c.count → VictimSafe c d) :
    ∃ node c' d', World.Alloc cb_ bno ⟨c, d⟩ = some (node, ⟨c', d'⟩) ∧
      Allocated c d content bno node c' d' := by
  obtain ⟨node, c', d', ran, allocated, _⟩ := consistent.alloc_keeps two fits absent installed safe
  exact ⟨node, c', d', ran, allocated⟩

/-! ### The three functions -/

/-- No transfer that the call may cost a block fails: neither the one that writes back the node
given up, when the cache is full, nor the one that fills the buffer. -/
def FillSucceeds (c : LRUCache BlockBuffer N) (d : Device) : Prop :=
  nextFails (if N ≤ c.count then spent d else d) = false

/-- **`read_block` answers the content of the block.** -/
theorem Consistent.read_keeps (consistent : Consistent ⟨c, d⟩ content) (two : 2 ≤ N)
    (fits : FitsDisk bno) {cb_ : Option (UncacheCallback BlockBuffer N Device)}
    (installed : cb_ = some uncache ∨ c.count_ < N)
    (safe : (∀ node, ¬ c.Holds bno node) → (N ≤ c.count → VictimSafe c d) ∧ FillSucceeds c d) :
    ∃ node c' d', readBlock cb_ bno ⟨c, d⟩ = some (node, ⟨c', d'⟩) ∧ c'.Holds bno node ∧
      (c'.value node).data = content bno ∧ Consistent ⟨c', d'⟩ content ∧ d.Kept d' ∧
      Toward content d d' ∧ Keeps c c' bno := by
  by_cases present : ∃ node, c.Holds bno node
  · obtain ⟨node, holds⟩ := present
    obtain ⟨q, got, consistent'⟩ := consistent.get_hit holds
    refine ⟨node, { c with toQueue := q }, d, ?_, holds, (consistent.cached bno node holds).2,
      consistent', ⟨rfl, rfl⟩, toward_refl rfl, fun _ _ => .inl, fun _ node' held => .inr ⟨node', held⟩⟩
    simp only [readBlock, got, Option.bind_eq_bind, Option.bind_some, Option.pure_def]
  · have absent : ∀ node, ¬ c.Holds bno node := fun node holds => present ⟨node, holds⟩
    obtain ⟨victimSafe, fillSucceeds⟩ := safe absent
    obtain ⟨node, c', d', ran, allocated, keeps⟩ :=
      consistent.alloc_keeps two fits absent installed victimSafe
    have reports : nextFails d' = false := by
      refine (nextFails_congr ?_ allocated.answers).trans fillSucceeds
      split
      · exact ⟨allocated.kept.valid, allocated.kept.report⟩
      · exact allocated.kept
    obtain ⟨mem, d'', filled, data, disk, kept', _⟩ := ide_read_cut
      (allocated.kept.valid.trans consistent.valid) fits (c'.value node).bytes
    have data := data reports
    have consistent'' := allocated.consistent (BlockBuffer.ofBytes mem)
    have unchanged : Function.update content bno (BlockBuffer.ofBytes mem).data = content := by
      rw [data, allocated.onDisk, Function.update_eq_self]
    rw [unchanged] at consistent''
    refine ⟨node, { c' with value := Function.update c'.value node (BlockBuffer.ofBytes mem) }, d'',
      ?_, allocated.holds, ?_, consistent''.moved kept' (toward_refl disk),
      allocated.kept.trans kept', allocated.toward.trans (toward_refl disk), keeps.holds, keeps.cached⟩
    · simp only [readBlock, get_miss absent, Option.bind_eq_bind, Option.bind_some, ran, fill,
        filled, Option.pure_def]
    · simp only [Function.update_self, data, allocated.onDisk]

theorem Consistent.read (consistent : Consistent ⟨c, d⟩ content) (two : 2 ≤ N)
    (fits : FitsDisk bno) {cb_ : Option (UncacheCallback BlockBuffer N Device)}
    (installed : cb_ = some uncache ∨ c.count_ < N)
    (safe : (∀ node, ¬ c.Holds bno node) → (N ≤ c.count → VictimSafe c d) ∧ FillSucceeds c d) :
    ∃ node c' d', readBlock cb_ bno ⟨c, d⟩ = some (node, ⟨c', d'⟩) ∧ c'.Holds bno node ∧
      (c'.value node).data = content bno ∧ Consistent ⟨c', d'⟩ content ∧ d.Kept d' ∧
      Toward content d d' := by
  obtain ⟨node, c', d', ran, holds, data, consistent', kept, toward, _⟩ :=
    consistent.read_keeps two fits installed safe
  exact ⟨node, c', d', ran, holds, data, consistent', kept, toward⟩

/-- **`get_block` answers a buffer for the block**, whose content is what is put into it. -/
theorem Consistent.get (consistent : Consistent ⟨c, d⟩ content) (two : 2 ≤ N) (fits : FitsDisk bno)
    (safe : (∀ node, ¬ c.Holds bno node) → N ≤ c.count → VictimSafe c d) :
    ∃ node c' d', getBlock (some uncache) bno ⟨c, d⟩ = some (node, ⟨c', d'⟩) ∧ c'.Holds bno node ∧
      d.Kept d' ∧ Toward content d d' ∧
      ((∀ node, ¬ c.Holds bno node) → N ≤ c.count →
        ∃ k node', c.Holds k node' ∧ (c'.value node).data = content k) ∧
      ∀ buff, Consistent ⟨{ c' with value := Function.update c'.value node buff }, d'⟩
        (Function.update content bno buff.data) := by
  by_cases present : ∃ node, c.Holds bno node
  · obtain ⟨node, holds⟩ := present
    obtain ⟨q, got, consistent'⟩ := consistent.get_hit holds
    refine ⟨node, { c with toQueue := q }, d, ?_, holds, ⟨rfl, rfl⟩, toward_refl rfl,
      fun absent => absurd holds (absent node), consistent'.modify holds⟩
    simp only [getBlock, got, Option.bind_eq_bind, Option.bind_some, Option.pure_def]
  · have absent : ∀ node, ¬ c.Holds bno node := fun node holds => present ⟨node, holds⟩
    obtain ⟨node, c', d', ran, allocated⟩ :=
      consistent.alloc two fits absent (.inl rfl) (safe absent)
    refine ⟨node, c', d', ?_, allocated.holds, allocated.kept, allocated.toward,
      fun _ => allocated.stale, allocated.consistent⟩
    simp only [getBlock, get_miss absent, Option.bind_eq_bind, Option.bind_some, ran]

/-- **`write_block` of a cached block** brings its content to the disk, unless the transfer fails. -/
theorem Consistent.write_cached (consistent : Consistent ⟨c, d⟩ content) (holds : c.Holds bno node)
    (succeeds : nextFails d = false) :
    ∃ q d', writeBlock bno ⟨c, d⟩ = some (true, ⟨{ c with toQueue := q }, d'⟩) ∧
      Consistent ⟨{ c with toQueue := q }, d'⟩ content ∧ d.Kept d' ∧ Toward content d d' ∧
      blockOf d'.disk bno = content bno := by
  obtain ⟨q, got, consistent'⟩ := consistent.get_hit holds
  obtain ⟨fits, data⟩ := consistent.cached bno node holds
  obtain ⟨d', ran, written, others, kept, _⟩ :=
    ide_write_cut consistent.valid fits (c.value node)
  have saved : blockOf d'.disk bno = content bno := (written (.inl succeeds)).trans data
  have toward : Toward content d d' := fun k => by
    by_cases same : k = bno
    · exact .inr (same ▸ saved)
    · exact .inl (others k same)
  refine ⟨q, d', ?_, consistent'.moved kept toward, kept, toward, saved⟩
  simp only [writeBlock, got, Option.bind_eq_bind, Option.bind_some, ran, Option.pure_def]

/-- `write_block` of any other block does nothing. -/
theorem write_uncached (absent : ∀ node, ¬ c.Holds bno node) :
    writeBlock bno ⟨c, d⟩ = some (false, ⟨c, d⟩) := by
  simp only [writeBlock, get_miss absent, Option.bind_eq_bind, Option.bind_some,
    Option.pure_def]

end Sprite.Fs

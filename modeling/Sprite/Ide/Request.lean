/-
**Requests to the driver.**

`ide_request` compares the size of the buffer with `SECTSIZE * nsecs`, and the assertion behind it
compares `secno + nsecs` with the size of the disk. Both are 32-bit arithmetic. The second one does not
matter when the first one does not wrap; the first one wraps from 2^23 sectors on.

* `ideRequest` — the function; `recordRequest` — with the places in memory that sectors are moved to or
  from. `ideRequest_eq` says that they are the same function.
* `moveSectors_bounds`, `moveChunks_bounds` — what is moved on any device.
* `moveChunks_all` — and that all of it is moved on a device without errors.
* `request_in_bounds_iff` — **which requests are safe, exactly**.
* `huge_request_overruns` — 2^23 sectors into no buffer at all.
-/
import Sprite.Ide.Transfer

namespace Sprite.Ide

open Device

/-! ### The function -/

/-- `IO_READ` of `io_type_t`. -/
def IO_READ : UInt32 := 0

/-- `IO_WRITE` of `io_type_t`. -/
def IO_WRITE : UInt32 := 1

/-- `io_request_t`. -/
structure IoRequest where
  io_type : UInt32
  secno : UInt32
  nsecs : UInt32
  buffer : Nat
  bsize : UInt32

namespace IoRequest

/-- `req->bsize < SECTSIZE * req->nsecs`, in 32 bits. -/
def tooSmall (req : IoRequest) : Bool := req.bsize < UInt32.ofNat SECTSIZE * req.nsecs

end IoRequest

def ideRequest (req : IoRequest) (mem : Memory) (d : Device) : Option (Int × Memory × Device) :=
  if req.io_type = IO_READ then
    if req.tooSmall then some (-1, mem, d)
    else ideReadSecs req.secno req.buffer req.nsecs mem d
  else if req.io_type = IO_WRITE then
    if req.tooSmall then some (-1, mem, d)
    else do
      let (ret, d) ← ideWriteSecs req.secno req.buffer req.nsecs mem d
      return (ret, mem, d)
  else some (-1, mem, d)

/-! ### The places moved -/

/-- What moves one sector between a place in memory and the device. -/
abbrev Move := Nat → Memory → Device → Memory × Device

/-- `insl` of the read loop. -/
def inward : Move := fun out mem d => d.insl out mem

/-- `outsl` of the write loop. -/
def outward : Move := fun input mem d => (mem, d.outsl input mem)

/-- The inner loop of either function, with the places in memory of the sectors moved. -/
def moveSectors (move : Move) : Nat → Nat → Memory → Device → List Nat →
    Option (Int × Nat × Nat × Memory × Device × List Nat)
  | 0, place, mem, d, places => some (0, 0, place, mem, d, places)
  | n + 1, place, mem, d, places => do
    let (ret, d) ← d.ideWaitReady true
    if ret ≠ 0 then return (ret, n + 1, place, mem, d, places)
    let (mem, d) := move place mem d
    moveSectors move n (place + SECTSIZE) mem d (place :: places)

/-- The outer loop. -/
def moveChunks (move : Move) (command : UInt8) : Nat → UInt32 → Nat → UInt32 → Memory → Device →
    List Nat → Option (Int × Memory × Device × List Nat)
  | 0, _, _, _, _, _, _ => none
  | fuel + 1, secno, place, nsecs, mem, d, places => do
    let n := min nsecs kMaxSectors
    let nsecs := nsecs - n
    let (_, d) ← d.ideWaitReady false
    let d := d.program secno n command
    let (ret, n, place, mem, d, places) ← moveSectors move n.toNat place mem d places
    if ret ≠ 0 then return (ret, mem, d, places)
    let secno := secno + UInt32.ofNat n
    let place := place + n * SECTSIZE
    if nsecs ≠ 0 then moveChunks move command fuel secno place nsecs mem d places
    else return (0, mem, d, places)

def moveSecs (move : Move) (command : UInt8) (secno : UInt32) (place : Nat) (nsecs : UInt32)
    (mem : Memory) (d : Device) : Option (Int × Memory × Device × List Nat) :=
  if secnoOk d secno nsecs then moveChunks move command (nsecs.toNat + 1) secno place nsecs mem d []
  else none

/-- `ide_request`, with the places in memory of the sectors moved. -/
def recordRequest (req : IoRequest) (mem : Memory) (d : Device) :
    Option (Int × Memory × Device × List Nat) :=
  if req.io_type = IO_READ then
    if req.tooSmall then some (-1, mem, d, [])
    else moveSecs inward IDE_CMD_READ req.secno req.buffer req.nsecs mem d
  else if req.io_type = IO_WRITE then
    if req.tooSmall then some (-1, mem, d, [])
    else moveSecs outward IDE_CMD_WRITE req.secno req.buffer req.nsecs mem d
  else some (-1, mem, d, [])

section Record

theorem readSectors_eq (n : Nat) : ∀ out mem d places, readSectors n out mem d
    = (moveSectors inward n out mem d places).map
      fun r => (r.1, r.2.1, r.2.2.1, r.2.2.2.1, r.2.2.2.2.1) := by
  induction n with
  | zero => exact fun _ _ _ _ => rfl
  | succ n ih =>
    intro out mem d places
    simp only [readSectors, moveSectors, ideWaitReady_eq, Option.bind_eq_bind, Option.bind_some]
    split
    · rfl
    · exact ih _ _ _ _

theorem writeSectors_eq (n : Nat) : ∀ input mem d places,
    (writeSectors n input mem d).map (fun r => (r.1, r.2.1, r.2.2.1, mem, r.2.2.2))
    = (moveSectors outward n input mem d places).map
      fun r => (r.1, r.2.1, r.2.2.1, r.2.2.2.1, r.2.2.2.2.1) := by
  induction n with
  | zero => exact fun _ _ _ _ => rfl
  | succ n ih =>
    intro input mem d places
    simp only [writeSectors, moveSectors, ideWaitReady_eq, Option.bind_eq_bind, Option.bind_some]
    split
    · rfl
    · exact ih _ _ _ _

theorem readChunks_eq (fuel : Nat) : ∀ secno out nsecs mem d places,
    readChunks fuel secno out nsecs mem d
      = (moveChunks inward IDE_CMD_READ fuel secno out nsecs mem d places).map
        fun r => (r.1, r.2.1, r.2.2.1) := by
  induction fuel with
  | zero => exact fun _ _ _ _ _ _ => rfl
  | succ fuel ih =>
    intro secno out nsecs mem d places
    simp only [readChunks, moveChunks, ideWaitReady_eq, Option.bind_eq_bind, Option.bind_some,
      readSectors_eq _ _ _ _ places]
    cases moveSectors inward (min nsecs kMaxSectors).toNat out mem
      (d.answered.program secno (min nsecs kMaxSectors) IDE_CMD_READ) places with
    | none => rfl
    | some r =>
      simp only [Option.map_some, Option.bind_some]
      split_ifs
      · rfl
      · exact ih _ _ _ _ _ _
      · rfl

theorem writeChunks_eq (fuel : Nat) : ∀ secno input nsecs mem d places,
    (writeChunks fuel secno input nsecs mem d).map (fun r => (r.1, mem, r.2))
      = (moveChunks outward IDE_CMD_WRITE fuel secno input nsecs mem d places).map
        fun r => (r.1, r.2.1, r.2.2.1) := by
  induction fuel with
  | zero => exact fun _ _ _ _ _ _ => rfl
  | succ fuel ih =>
    intro secno input nsecs mem d places
    have sectors := writeSectors_eq (min nsecs kMaxSectors).toNat input mem
      (d.answered.program secno (min nsecs kMaxSectors) IDE_CMD_WRITE) places
    simp only [writeChunks, moveChunks, ideWaitReady_eq, Option.bind_eq_bind, Option.bind_some]
    cases moved : moveSectors outward (min nsecs kMaxSectors).toNat input mem
      (d.answered.program secno (min nsecs kMaxSectors) IDE_CMD_WRITE) places with
    | none =>
      rw [moved, Option.map_none, Option.map_eq_none_iff] at sectors
      rw [sectors]
      rfl
    | some r =>
      rw [moved, Option.map_some, Option.map_eq_some_iff] at sectors
      obtain ⟨⟨ret, n, input', d'⟩, written, same⟩ := sectors
      obtain ⟨ret', n', place, mem', d'', places'⟩ := r
      simp only [Prod.mk.injEq] at same
      obtain ⟨rfl, rfl, rfl, rfl, rfl⟩ := same
      simp only [written, Option.bind_some]
      split_ifs
      · rfl
      · exact ih _ _ _ _ _ _
      · rfl

/-- **The record is one of `ide_request` itself.** -/
theorem ideRequest_eq (req : IoRequest) (mem : Memory) (d : Device) :
    ideRequest req mem d = (recordRequest req mem d).map fun r => (r.1, r.2.1, r.2.2.1) := by
  unfold ideRequest recordRequest
  split_ifs
  · rfl
  · unfold ideReadSecs moveSecs
    split
    · exact readChunks_eq _ _ _ _ _ _ _
    · rfl
  · rfl
  · unfold ideWriteSecs moveSecs
    split
    · rw [← writeChunks_eq]
      simp only [Option.bind_eq_bind, Option.map_eq_bind, Option.pure_def]
      rfl
    · rfl
  · rfl

end Record

/-! ### What is moved on any device -/

/-- A move takes the next sector of the command being worked on, or none, and does not change what
the device will report. -/
structure Takes (move : Move) : Prop where
  report : ∀ place mem d, (move place mem d).2.report = d.report
  next : ∀ place mem d,
    (move place mem d).2.job = d.job ∧ (move place mem d).2.touched = d.touched ∨
      ∃ writing lba left, d.job = some ⟨writing, lba, left + 1⟩ ∧
        (move place mem d).2.job = some ⟨writing, lba + 1, left⟩ ∧
        (move place mem d).2.touched = lba :: d.touched

theorem inward_takes : Takes inward where
  report place mem d := by
    unfold inward insl
    split <;> rfl
  next place mem d := by
    unfold inward insl
    split
    · rename_i lba left job
      exact .inr ⟨false, lba, left, job, rfl, rfl⟩
    · exact .inl ⟨rfl, rfl⟩

theorem outward_takes : Takes outward where
  report place mem d := by
    unfold outward outsl
    split <;> rfl
  next place mem d := by
    unfold outward outsl
    split
    · rename_i lba left job
      exact .inr ⟨true, lba, left, job, rfl, rfl⟩
    · exact .inl ⟨rfl, rfl⟩

section Bounds

variable {move : Move} {command : UInt8}

/-- **The inner loop** moves at most `n` sectors, to or from places one behind the other. -/
theorem moveSectors_bounds (takes : Takes move) (n : Nat) : ∀ (place : Nat) (mem : Memory) (d : Device)
    (places : List Nat) (lba : Nat),
    (0 < n → ∃ writing left, d.job = some ⟨writing, lba, left⟩) →
    ∃ ret moved mem' d' places', moveSectors move n place mem d places
        = some (ret, n - moved, place + SECTSIZE * moved, mem', d', places') ∧
      (ret = 0 → moved = n) ∧
      (∀ p ∈ places', p ∈ places ∨ place ≤ p ∧ p + SECTSIZE ≤ place + SECTSIZE * n) ∧
      ∀ s ∈ d'.touched, s ∈ d.touched ∨ lba ≤ s ∧ s < lba + n := by
  induction n with
  | zero =>
    exact fun place mem d places lba _ => ⟨0, 0, mem, d, places, rfl, fun _ => rfl, fun _ => .inl,
      fun _ => .inl⟩
  | succ n ih =>
    intro place mem d places lba job
    obtain ⟨writing, left, job⟩ := job (Nat.succ_pos n)
    obtain ⟨status, answer⟩ : ∃ status, d.ideWaitReady true = some (status, d.answered) :=
      ⟨_, ideWaitReady_eq d true⟩
    simp only [moveSectors, answer, Option.bind_eq_bind, Option.bind_some]
    by_cases failed : status ≠ 0
    · rw [if_pos failed]
      exact ⟨status, 0, mem, d.answered, places, rfl, fun zero => absurd zero failed, fun _ => .inl,
        fun _ => .inl⟩
    · rw [if_neg failed]
      -- The next sector is the one at `lba`, or the command has none left.
      have further : ∃ lba' left', (move place mem d.answered).2.job = some ⟨writing, lba', left'⟩ ∧
          lba ≤ lba' ∧ lba' ≤ lba + 1 ∧
          ∀ s ∈ (move place mem d.answered).2.touched, s ∈ d.touched ∨ lba ≤ s ∧ s < lba + 1 := by
        rcases takes.next place mem d.answered with ⟨same, touched⟩ | ⟨w, l, left', was, now, touched⟩
        · refine ⟨lba, left, same.trans job, Nat.le_refl _, Nat.le_succ _, fun s member => .inl ?_⟩
          rwa [touched] at member
        · obtain ⟨rfl, rfl, rfl⟩ := Job.mk.inj (Option.some.inj (was.symm.trans job))
          refine ⟨l + 1, left', now, Nat.le_succ _, Nat.le_refl _, fun s member => ?_⟩
          rw [touched, List.mem_cons] at member
          rcases member with rfl | old
          · exact .inr ⟨Nat.le_refl _, Nat.lt_succ_self _⟩
          · exact .inl old
      obtain ⟨lba', left', job', low, high, before⟩ := further
      obtain ⟨ret, moved, mem', d', places', ran, all, bytes, sectors⟩ := ih (place + SECTSIZE)
        (move place mem d.answered).1 (move place mem d.answered).2 (place :: places) lba'
        fun _ => ⟨writing, left', job'⟩
      refine ⟨ret, moved + 1, mem', d', places', ?_, fun done => congrArg (· + 1) (all done),
        fun p member => ?_, fun s member => ?_⟩
      · refine ran.trans ?_
        rw [Nat.add_sub_add_right, Nat.mul_succ, Nat.add_assoc, Nat.add_comm SECTSIZE]
      · rcases bytes p member with old | inside
        · rcases List.mem_cons.mp old with rfl | older
          · exact .inr ⟨Nat.le_refl _, by simp only [SECTSIZE]; omega⟩
          · exact .inl older
        · simp only [SECTSIZE] at inside ⊢
          exact .inr (by omega)
      · rcases sectors s member with old | inside
        · exact (before s old).imp id fun first => by omega
        · exact .inr (by omega)

/-- **The outer loop** moves between the buffer and the first sectors only. -/
theorem moveChunks_bounds (takes : Takes move) (isCmd : command = IDE_CMD_READ ∨ command = IDE_CMD_WRITE)
    (fuel : Nat) : ∀ (secno : UInt32) (place : Nat) (nsecs : UInt32) (mem : Memory) (d : Device)
    (places : List Nat), secno.toNat < 2 ^ 28 → nsecs.toNat < fuel →
    ∃ ret mem' d' places', moveChunks move command fuel secno place nsecs mem d places
        = some (ret, mem', d', places') ∧
      (∀ p ∈ places', p ∈ places ∨ place ≤ p ∧ p + SECTSIZE ≤ place + SECTSIZE * nsecs.toNat) ∧
      ∀ s ∈ d'.touched, s ∈ d.touched ∨ secno.toNat ≤ s ∧ s < secno.toNat + min nsecs.toNat 128 := by
  induction fuel with
  | zero => exact fun _ _ _ _ _ _ _ impossible => absurd impossible (Nat.not_lt_zero _)
  | succ fuel ih =>
    intro secno place nsecs mem d places small enough
    have chunk : (min nsecs kMaxSectors).toNat = min nsecs.toNat 128 := chunk_toNat
    obtain ⟨ret, moved, mem', d', places', ran, all, bytes, sectors⟩ := moveSectors_bounds takes
      (min nsecs kMaxSectors).toNat place mem
      (d.answered.program secno (min nsecs kMaxSectors) command) places secno.toNat
      fun positive => ⟨_, _, (program_spec d.answered small positive (by omega) isCmd).1⟩
    have bytes' : ∀ p ∈ places', p ∈ places ∨
        place ≤ p ∧ p + SECTSIZE ≤ place + SECTSIZE * nsecs.toNat := by
      refine fun p member => (bytes p member).imp id fun inside => ⟨inside.1, inside.2.trans ?_⟩
      exact Nat.add_le_add_left (Nat.mul_le_mul_left _ (by omega)) _
    rw [chunk] at sectors
    have touched : (d.answered.program secno (min nsecs kMaxSectors) command).touched = d.touched := by
      rcases isCmd with rfl | rfl <;> rfl
    rw [touched] at sectors
    rw [moveChunks]
    simp only [ideWaitReady_eq, Option.bind_eq_bind, Option.bind_some, ran]
    by_cases failed : ret ≠ 0
    · rw [if_pos failed]
      exact ⟨ret, mem', d', places', rfl, bytes', sectors⟩
    rw [if_neg failed]
    obtain rfl := all (not_not.mp failed)
    have stay : secno + UInt32.ofNat 0 = secno := UInt32.add_zero secno
    simp only [Nat.sub_self, stay, Nat.zero_mul, Nat.add_zero]
    by_cases more : nsecs - min nsecs kMaxSectors ≠ 0
    · rw [if_pos more]
      obtain ⟨full, rest⟩ := chunk_full (rest_ne_zero.mp more)
      have many := rest_ne_zero.mp more
      obtain ⟨ret', mem'', d'', places'', ran', later, sectors'⟩ := ih secno
        (place + SECTSIZE * (min nsecs kMaxSectors).toNat) (nsecs - min nsecs kMaxSectors) mem' d'
        places' small (rest_lt more enough)
      refine ⟨ret', mem'', d'', places'', ran', fun p member => ?_, fun s member => ?_⟩
      · rcases later p member with old | inside
        · exact bytes' p old
        · rw [full, rest] at inside
          simp only [SECTSIZE] at inside ⊢
          exact .inr (by omega)
      · rcases sectors' s member with old | inside
        · exact sectors s old
        · exact .inr (by omega)
    · rw [if_neg more]
      exact ⟨0, mem', d', places', rfl, bytes', sectors⟩

/-- On a device without errors all of it is moved. -/
theorem moveSectors_all (takes : Takes move) (n : Nat) : ∀ (place : Nat) (mem : Memory) (d : Device)
    (places : List Nat), d.Quiet →
    ∃ mem' d' places', moveSectors move n place mem d places
        = some (0, 0, place + SECTSIZE * n, mem', d', places') ∧
      d'.Quiet ∧ places ⊆ places' ∧ ∀ i < n, place + SECTSIZE * i ∈ places' := by
  induction n with
  | zero =>
    exact fun place mem d places quiet => ⟨mem, d, places, rfl, quiet, List.Subset.refl _,
      fun _ impossible => absurd impossible (Nat.not_lt_zero _)⟩
  | succ n ih =>
    intro place mem d places quiet
    have quiet' : (move place mem d.answered).2.Quiet := fun t => by
      rw [takes.report]
      exact quiet t
    obtain ⟨mem', d', places', ran, stays, kept, moved⟩ := ih (place + SECTSIZE)
      (move place mem d.answered).1 (move place mem d.answered).2 (place :: places) quiet'
    refine ⟨mem', d', places', ?_, stays, fun p member => kept (List.mem_cons_of_mem _ member),
      fun i inside => ?_⟩
    · simp only [moveSectors, ideWaitReady_quiet quiet, Option.bind_eq_bind, Option.bind_some, ne_eq,
        not_true_eq_false, if_false]
      refine ran.trans ?_
      rw [Nat.mul_succ, Nat.add_assoc, Nat.add_comm SECTSIZE]
    · cases i with
      | zero => exact kept List.mem_cons_self
      | succ i =>
        have later := moved i (Nat.lt_of_succ_lt_succ inside)
        rwa [Nat.add_assoc, Nat.add_comm SECTSIZE, ← Nat.mul_succ] at later

theorem moveChunks_all (takes : Takes move) (isCmd : command = IDE_CMD_READ ∨ command = IDE_CMD_WRITE)
    (fuel : Nat) : ∀ (secno : UInt32)
    (place : Nat) (nsecs : UInt32) (mem : Memory) (d : Device) (places : List Nat), d.Quiet →
    nsecs.toNat < fuel →
    ∃ mem' d' places', moveChunks move command fuel secno place nsecs mem d places
        = some (0, mem', d', places') ∧
      places ⊆ places' ∧ ∀ i < nsecs.toNat, place + SECTSIZE * i ∈ places' := by
  induction fuel with
  | zero => exact fun _ _ _ _ _ _ _ impossible => absurd impossible (Nat.not_lt_zero _)
  | succ fuel ih =>
    intro secno place nsecs mem d places quiet enough
    have quiet' : (d.answered.program secno (min nsecs kMaxSectors) command).Quiet := by
      have same : (d.answered.program secno (min nsecs kMaxSectors) command).report = d.report := by
        rcases isCmd with rfl | rfl <;> rfl
      intro t
      rw [same]
      exact quiet t
    obtain ⟨mem', d', places', ran, stays, kept, moved⟩ := moveSectors_all takes
      (min nsecs kMaxSectors).toNat place mem _ places quiet'
    have stay : secno + UInt32.ofNat 0 = secno := UInt32.add_zero secno
    rw [moveChunks]
    simp only [ideWaitReady_eq, Option.bind_eq_bind, Option.bind_some, ran, ne_eq, not_true_eq_false,
      if_false, stay, Nat.zero_mul, Nat.add_zero]
    have chunk : (min nsecs kMaxSectors).toNat = min nsecs.toNat 128 := chunk_toNat
    by_cases more : nsecs - min nsecs kMaxSectors ≠ 0
    · rw [if_pos more]
      obtain ⟨full, rest⟩ := chunk_full (rest_ne_zero.mp more)
      obtain ⟨mem'', d'', places'', ran', kept', moved'⟩ := ih secno
        (place + SECTSIZE * (min nsecs kMaxSectors).toNat) (nsecs - min nsecs kMaxSectors) mem' d'
        places' stays (rest_lt more enough)
      refine ⟨mem'', d'', places'', ran', fun p member => kept' (kept member), fun i inside => ?_⟩
      by_cases early : i < 128
      · exact kept' (moved i (by omega))
      · have later := moved' (i - 128) (by omega)
        have index : SECTSIZE * 128 + SECTSIZE * (i - 128) = SECTSIZE * i := by
          simp only [SECTSIZE]
          omega
        rwa [full, Nat.add_assoc, index] at later
    · rw [if_neg more]
      have few : ¬ 128 < nsecs.toNat := fun many => more (rest_ne_zero.mpr many)
      exact ⟨mem', d', places', rfl, kept, fun i inside => moved i (by omega)⟩

end Bounds

/-! ### Which requests are safe -/

/-- The bytes moved lie in the buffer, the sectors in the range asked for and on the disk. -/
structure InBounds (req : IoRequest) (d' : Device) (places : List Nat) : Prop where
  bytes : ∀ p ∈ places, req.buffer ≤ p ∧ p + SECTSIZE ≤ req.buffer + req.bsize.toNat
  sectors : ∀ s ∈ d'.touched, req.secno.toNat ≤ s ∧ s < req.secno.toNat + req.nsecs.toNat ∧
    s < MAX_DISK_NSECS.toNat

/-- **A request is served safely**: it stops at the assertion, or it is turned down without moving
anything, or what is moved is in bounds. -/
def ServedSafely (req : IoRequest) (mem : Memory) (d : Device) : Prop :=
  recordRequest req mem d = none ∧ secnoOk d req.secno req.nsecs = false ∨
    ∃ ret mem' d' places, recordRequest req mem d = some (ret, mem', d', places) ∧
      (ret ≠ 0 ∧ places = [] ∨ InBounds req d' places)

/-- The request is none, or the buffer is too small even for the wrapped product, or the range is not
on the disk even for the wrapped sum, or the product does not wrap. -/
def Harmless (req : IoRequest) : Prop :=
  req.io_type ≠ IO_READ ∧ req.io_type ≠ IO_WRITE ∨ req.tooSmall = true ∨
    ¬ (req.secno < MAX_DISK_NSECS ∧ req.secno + req.nsecs ≤ MAX_DISK_NSECS) ∨
    req.nsecs.toNat < 2 ^ 23

section Requests

variable {req : IoRequest} {mem : Memory} {d : Device} {move : Move} {command : UInt8}

theorem tooSmall_iff : req.tooSmall = true ↔ req.bsize.toNat < 512 * req.nsecs.toNat % 2 ^ 32 := by
  rw [IoRequest.tooSmall, decide_eq_true_iff, UInt32.lt_iff_toNat_lt, UInt32.toNat_mul]
  rfl

/-- What a request of fewer than 2^23 sectors moves, once it has passed the size check. -/
theorem moveSecs_safe (takes : Takes move) (isCmd : command = IDE_CMD_READ ∨ command = IDE_CMD_WRITE)
    (unused : d.touched = []) (large : ¬ req.tooSmall = true)
    (few : secnoOk d req.secno req.nsecs = true → req.nsecs.toNat < 2 ^ 23) :
    moveSecs move command req.secno req.buffer req.nsecs mem d = none
        ∧ secnoOk d req.secno req.nsecs = false ∨
      ∃ ret mem' d' places, moveSecs move command req.secno req.buffer req.nsecs mem d
        = some (ret, mem', d', places) ∧ InBounds req d' places := by
  unfold moveSecs
  by_cases passes : secnoOk d req.secno req.nsecs = true
  · rw [if_pos passes]
    have few := few passes
    have small := secno_small passes
    have range := UInt32.le_iff_toNat_le.mp (secnoOk_iff.mp passes).2.2
    rw [UInt32.toNat_add, Nat.mod_eq_of_lt (by omega)] at range
    rw [tooSmall_iff, Nat.mod_eq_of_lt (by omega)] at large
    obtain ⟨ret, mem', d', places, ran, bytes, sectors⟩ := moveChunks_bounds takes isCmd
      (req.nsecs.toNat + 1) req.secno req.buffer req.nsecs mem d [] small (Nat.lt_succ_self _)
    refine .inr ⟨ret, mem', d', places, ran, fun p member => ?_, fun s member => ?_⟩
    · have inside := (bytes p member).resolve_left List.not_mem_nil
      simp only [SECTSIZE] at inside ⊢
      omega
    · have fresh := sectors s member
      rw [unused] at fresh
      have inside := fresh.resolve_left List.not_mem_nil
      omega
  · rw [if_neg passes]
    exact .inl ⟨rfl, Bool.eq_false_iff.mpr passes⟩

/-- What a request of 2^23 sectors or more moves on a device without errors, once it has passed both
checks. -/
theorem moveSecs_overruns (takes : Takes move)
    (isCmd : command = IDE_CMD_READ ∨ command = IDE_CMD_WRITE) (quiet : d.Quiet)
    (passes : secnoOk d req.secno req.nsecs = true) (many : 2 ^ 23 ≤ req.nsecs.toNat) :
    ∃ mem' d' places, moveSecs move command req.secno req.buffer req.nsecs mem d
        = some (0, mem', d', places) ∧ ¬ InBounds req d' places := by
  obtain ⟨mem', d', places, ran, _, moved⟩ := moveChunks_all takes isCmd (req.nsecs.toNat + 1)
    req.secno req.buffer req.nsecs mem d [] quiet (Nat.lt_succ_self _)
  refine ⟨mem', d', places, ?_, fun inside => ?_⟩
  · rw [moveSecs, if_pos passes]
    exact ran
  · have last := (inside.bytes _ (moved (2 ^ 23 - 1) (by omega))).2
    have size := req.bsize.toNat_lt
    simp only [SECTSIZE] at last
    omega

/-- Behind both checks a harmless request is one of fewer than 2^23 sectors. -/
theorem few_of_harmless (harmless : Harmless req) (large : ¬ req.tooSmall = true)
    (asked : req.io_type = IO_READ ∨ req.io_type = IO_WRITE)
    (passes : secnoOk d req.secno req.nsecs = true) : req.nsecs.toNat < 2 ^ 23 := by
  rcases harmless with other | small | outside | few
  · exact absurd asked (not_or.mpr other)
  · exact absurd small large
  · exact absurd (secnoOk_iff.mp passes).2 outside
  · exact few

theorem served_of_harmless (harmless : Harmless req) (unused : d.touched = []) :
    ServedSafely req mem d := by
  have refused : ∃ ret mem' d' places, (some (-1, mem, d, []) : Option (Int × Memory × Device × List Nat))
      = some (ret, mem', d', places) ∧ (ret ≠ 0 ∧ places = [] ∨ InBounds req d' places) :=
    ⟨-1, mem, d, [], rfl, .inl ⟨by decide, rfl⟩⟩
  unfold ServedSafely recordRequest
  by_cases small : req.tooSmall = true
  · simp only [small, if_true, ite_self]
    exact .inr refused
  simp only [small, Bool.false_eq_true, if_false]
  by_cases isRead : req.io_type = IO_READ
  · rw [if_pos isRead]
    refine (moveSecs_safe inward_takes (.inl rfl) unused small
      (few_of_harmless harmless small (.inl isRead))).imp id ?_
    rintro ⟨ret, mem', d', places, ran, inside⟩
    exact ⟨ret, mem', d', places, ran, .inr inside⟩
  · rw [if_neg isRead]
    by_cases isWrite : req.io_type = IO_WRITE
    · rw [if_pos isWrite]
      refine (moveSecs_safe outward_takes (.inr rfl) unused small
        (few_of_harmless harmless small (.inr isWrite))).imp id ?_
      rintro ⟨ret, mem', d', places, ran, inside⟩
      exact ⟨ret, mem', d', places, ran, .inr inside⟩
    · rw [if_neg isWrite]
      exact .inr refused

/-- On the numbered disk nothing stops a request that is not harmless. -/
theorem numbered_overruns (harmful : ¬ Harmless req) : ¬ ServedSafely req mem numbered := by
  obtain ⟨asked, large, range, many⟩ : ¬ (req.io_type ≠ IO_READ ∧ req.io_type ≠ IO_WRITE) ∧
      ¬ req.tooSmall = true ∧ (req.secno < MAX_DISK_NSECS ∧ req.secno + req.nsecs ≤ MAX_DISK_NSECS) ∧
      ¬ req.nsecs.toNat < 2 ^ 23 := by
    simpa only [Harmless, not_or, not_not] using harmful
  have passes : secnoOk numbered req.secno req.nsecs = true := secnoOk_iff.mpr ⟨rfl, range⟩
  -- Either direction moves the last sector of the first 2^32 bytes.
  have overruns : ∃ mem' d' places, recordRequest req mem numbered = some (0, mem', d', places) ∧
      ¬ InBounds req d' places := by
    unfold recordRequest
    by_cases isRead : req.io_type = IO_READ
    · rw [if_pos isRead, if_neg large]
      exact moveSecs_overruns inward_takes (.inl rfl) numbered_quiet passes (not_lt.mp many)
    · rw [if_neg isRead]
      have isWrite : req.io_type = IO_WRITE := by
        by_contra neither
        exact asked ⟨isRead, neither⟩
      rw [if_pos isWrite, if_neg large]
      exact moveSecs_overruns outward_takes (.inr rfl) numbered_quiet passes (not_lt.mp many)
  obtain ⟨mem', d', places, ran, outside⟩ := overruns
  rintro (⟨stopped, -⟩ | ⟨ret, mem'', d'', places', ran', safe⟩)
  · exact absurd (ran.symm.trans stopped) (Option.some_ne_none _)
  · obtain ⟨rfl, rfl, rfl, rfl⟩ : ret = 0 ∧ mem'' = mem' ∧ d'' = d' ∧ places' = places := by
      simpa only [Option.some.injEq, Prod.mk.injEq] using ran'.symm.trans ran
    rcases safe with ⟨nonzero, -⟩ | inside
    · exact absurd rfl nonzero
    · exact outside inside

end Requests

/-- **Requests in bounds.** A request is served safely by every device, whatever is in memory, if and
only if it is harmless. -/
theorem request_in_bounds_iff (req : IoRequest) :
    (∀ mem d, d.touched = [] → ServedSafely req mem d) ↔ Harmless req := by
  constructor
  · intro safe
    by_contra harmful
    exact numbered_overruns harmful (safe (fun _ => 0) numbered rfl)
  · exact fun harmless mem d unused => served_of_harmless harmless unused

/-- 2^23 sectors need a buffer of 2^32 bytes, which is 0 in 32 bits. -/
theorem huge_request_overruns :
    secnoOk numbered 0 0x800000 = true ∧
      ¬ ServedSafely ⟨IO_READ, 0, 0x800000, 0, 0⟩ (fun _ => 0) numbered := by
  refine ⟨by decide, numbered_overruns ?_⟩
  simp only [Harmless, tooSmall_iff]
  decide

end Sprite.Ide

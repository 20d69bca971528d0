/-
**Transfers on a device that may fail.**

The device reports its status once before a command and once before every sector. A status with an
error bit before a sector ends the transfer: the sectors before it have been moved, and the driver
answers `-1`.

* `Cut` — how far a transfer gets, read off the status reports that await it.
* `readSectors_cut`, `writeSectors_cut` — the inner loops.
* `ideReadSecs_cut`, `ideWriteSecs_cut` — transfers of one command.
-/
import Sprite.Ide.Transfer

namespace Sprite.Ide

open Device

namespace Device

/-- The status after `n` others has an error bit. -/
def errorAt (d : Device) (n : Nat) : Bool :=
  decide (d.report (d.answers + n) &&& 0x7F &&& (STAT_DF ||| STAT_ERR) ≠ 0)

theorem errorAt_answered (d : Device) (n : Nat) : d.answered.errorAt n = d.errorAt (n + 1) := by
  unfold errorAt answered
  rw [Nat.add_assoc, Nat.add_comm 1]

theorem ideWaitReady_errorAt (d : Device) :
    d.ideWaitReady true = some (if d.errorAt 0 = true then -1 else 0, d.answered) := by
  rw [ideWaitReady_eq]
  simp only [true_and, errorAt, Nat.add_zero, decide_eq_true_eq]

theorem Quiet.errorAt {d : Device} (quiet : d.Quiet) (n : Nat) : d.errorAt n = false := by
  have clear : d.report (d.answers + n) &&& 0x7F &&& (STAT_DF ||| STAT_ERR) = 0 := by
    rw [UInt8.and_assoc, UInt8.and_comm 0x7F, ← UInt8.and_assoc, quiet]
    exact UInt8.zero_and
  rw [Device.errorAt, clear]
  rfl

/-- **A transfer of `count` sectors is cut off** at the first error, after `moved` of them. -/
structure Cut (d d' : Device) (moved count : Nat) : Prop extends Kept d d' where
  le : moved ≤ count
  answers : d'.answers = d.answers + min (moved + 1) count
  clear : ∀ i < moved, d.errorAt i = false
  error : moved < count → d.errorAt moved = true

/-- The error comes before the first sector. -/
theorem Cut.first {d : Device} {count : Nat} (error : d.errorAt 0 = true) :
    Cut d d.answered 0 (count + 1) where
  valid := rfl
  report := rfl
  le := Nat.zero_le _
  answers := by
    show d.answers + 1 = _
    omega
  clear := fun _ impossible => absurd impossible (Nat.not_lt_zero _)
  error := fun _ => error

/-- One sector is moved before the others. -/
theorem Cut.cons {d d₁ d' : Device} {moved count : Nat} (cut : Cut d₁ d' moved count)
    (kept : Kept d d₁) (answers : d₁.answers = d.answers + 1) (clear : d.errorAt 0 = false) :
    Cut d d' (moved + 1) (count + 1) := by
  have later : ∀ i, d₁.errorAt i = d.errorAt (i + 1) := by
    intro i
    rw [errorAt, errorAt, kept.report, answers, Nat.add_assoc, Nat.add_comm 1]
  refine ⟨kept.trans cut.toKept, Nat.succ_le_succ cut.le, ?_, fun i inside => ?_, fun more => ?_⟩
  · rw [cut.answers, answers]
    omega
  · cases i with
    | zero => exact clear
    | succ i => exact (later i).symm.trans (cut.clear i (Nat.lt_of_succ_lt_succ inside))
  · exact (later moved).symm.trans (cut.error (Nat.lt_of_succ_lt_succ more))

/-- Writing to the registers before does not change what awaits the transfer. -/
theorem Cut.after {d d₁ d' : Device} {moved count : Nat} (cut : Cut d₁ d' moved count)
    (unmoved : Unmoved d d₁) : Cut d d' moved count := by
  have same : ∀ i, d₁.errorAt i = d.errorAt i := by
    intro i
    rw [errorAt, errorAt, unmoved.report, unmoved.answers]
  refine ⟨unmoved.toKept.trans cut.toKept, cut.le, ?_, fun i inside => ?_, fun more => ?_⟩
  · rw [cut.answers, unmoved.answers]
  · exact (same i).symm.trans (cut.clear i inside)
  · exact (same moved).symm.trans (cut.error more)

end Device

/-! ### The inner loops -/

/-- What the driver answers: `0` when all sectors have been moved. -/
def status (moved count : Nat) : Int := if moved = count then 0 else -1

theorem status_succ (moved count : Nat) : status (moved + 1) (count + 1) = status moved count := by
  unfold status
  exact if_congr Nat.succ_inj rfl rfl

theorem readSectors_cut (n : Nat) : ∀ (out : Nat) (mem : Memory) (d : Device) (lba : Nat),
    d.job = some ⟨false, lba, n⟩ →
    ∃ moved d', readSectors n out mem d = some (status moved n, n - moved, out + SECTSIZE * moved,
        received (fun i => d.disk (lba + i)) out moved mem, d') ∧
      d'.disk = d.disk ∧ Cut d d' moved n := by
  induction n with
  | zero =>
    intro out mem d lba _
    refine ⟨0, d, ?_, rfl, ⟨rfl, rfl⟩, Nat.le_refl 0, rfl, ?_, ?_⟩
    · rw [received_zero]
      rfl
    · exact fun _ impossible => absurd impossible (Nat.not_lt_zero _)
    · exact fun impossible => absurd impossible (Nat.not_lt_zero _)
  | succ n ih =>
    intro out mem d lba job
    have job' : d.answered.job = some ⟨false, lba, n + 1⟩ := job
    rw [readSectors, ideWaitReady_errorAt, Option.bind_eq_bind, Option.bind_some]
    by_cases error : d.errorAt 0 = true
    · refine ⟨0, d.answered, ?_, rfl, Cut.first error⟩
      simp only [error, if_true]
      rw [received_zero]
      rfl
    · obtain ⟨moved, d', ran, disk, cut⟩ := ih (out + SECTSIZE)
        (received (fun i => d.disk (lba + i)) out 1 mem)
        { d.answered with job := some ⟨false, lba + 1, n⟩, touched := lba :: d.touched } (lba + 1) rfl
      have placed := received_add (fun i => d.disk (lba + i)) out 1 moved mem
      simp only [Nat.mul_one, ← Nat.add_assoc, Nat.add_comm 1 moved] at placed
      refine ⟨moved + 1, d', ?_, disk, cut.cons ⟨rfl, rfl⟩ rfl (Bool.eq_false_iff.mpr error)⟩
      simp only [error, Bool.false_eq_true, ne_eq, not_true_eq_false, if_false,
        insl_reading out mem job']
      refine ran.trans ?_
      rw [← placed, status_succ, Nat.succ_sub_succ, Nat.mul_succ, Nat.add_assoc,
        Nat.add_comm SECTSIZE]
      rfl

theorem writeSectors_cut (n : Nat) : ∀ (input : Nat) (mem : Memory) (d : Device) (lba : Nat),
    d.job = some ⟨true, lba, n⟩ →
    ∃ moved d', writeSectors n input mem d
        = some (status moved n, n - moved, input + SECTSIZE * moved, d') ∧
      d'.disk = deposited (sectorAt mem input) lba moved d.disk ∧ Cut d d' moved n := by
  induction n with
  | zero =>
    intro input mem d lba _
    refine ⟨0, d, rfl, (deposited_zero _ _ _).symm, ⟨rfl, rfl⟩, Nat.le_refl 0, rfl, ?_, ?_⟩
    · exact fun _ impossible => absurd impossible (Nat.not_lt_zero _)
    · exact fun impossible => absurd impossible (Nat.not_lt_zero _)
  | succ n ih =>
    intro input mem d lba job
    have job' : d.answered.job = some ⟨true, lba, n + 1⟩ := job
    rw [writeSectors, ideWaitReady_errorAt, Option.bind_eq_bind, Option.bind_some]
    by_cases error : d.errorAt 0 = true
    · refine ⟨0, d.answered, ?_, (deposited_zero _ _ _).symm, Cut.first error⟩
      simp only [error, if_true]
      rfl
    · obtain ⟨moved, d', ran, disk, cut⟩ := ih (input + SECTSIZE) mem
        { d.answered with
          disk := deposited (sectorAt mem input) lba 1 d.disk
          job := some ⟨true, lba + 1, n⟩
          touched := lba :: d.touched } (lba + 1) rfl
      refine ⟨moved + 1, d', ?_, ?_, cut.cons ⟨rfl, rfl⟩ rfl (Bool.eq_false_iff.mpr error)⟩
      · simp only [error, Bool.false_eq_true, ne_eq, not_true_eq_false, if_false,
          outsl_writing input mem job']
        refine ran.trans ?_
        rw [status_succ, Nat.succ_sub_succ, Nat.mul_succ, Nat.add_assoc, Nat.add_comm SECTSIZE]
      · rw [disk, sectorAt_shifted]
        exact (deposited_add (sectorAt mem input) lba 1 moved d.disk).trans (by rw [Nat.add_comm])

/-! ### Transfers of one command -/

variable {secno nsecs : UInt32} {d : Device}

theorem status_eq_zero {moved count : Nat} : status moved count = 0 ↔ moved = count := by
  unfold status
  split_ifs with all
  · exact iff_of_true rfl all
  · exact iff_of_false (by decide) all

/-- Up to 128 sectors are one chunk. -/
theorem chunk_eq (short : nsecs.toNat ≤ 128) : min nsecs kMaxSectors = nsecs := by
  rw [← UInt32.toNat_inj, chunk_toNat]
  omega

theorem ideReadSecs_cut (dst : Nat) (mem : Memory) (passes : secnoOk d secno nsecs = true)
    (positive : 0 < nsecs.toNat) (short : nsecs.toNat ≤ 128) :
    ∃ moved d', ideReadSecs secno dst nsecs mem d = some (status moved nsecs.toNat,
        received (fun i => d.disk (secno.toNat + i)) dst moved mem, d') ∧
      d'.disk = d.disk ∧ Cut d.answered d' moved nsecs.toNat := by
  obtain ⟨job, disk, _⟩ := program_spec d.answered (secno_small passes) positive short
    (.inl rfl : IDE_CMD_READ = _ ∨ _)
  obtain ⟨moved, d', ran, disk', cut⟩ := readSectors_cut _ dst mem _ _ job
  rw [disk] at ran
  refine ⟨moved, d', ?_, disk'.trans disk, cut.after (program_unmoved _ _ _ _)⟩
  rw [ideReadSecs, if_pos passes, readChunks, chunk_eq short]
  simp only [ideWaitReady_eq, Option.bind_eq_bind, Option.bind_some, ran, ne_eq]
  by_cases done : moved = nsecs.toNat
  · rw [if_neg (not_not_intro (status_eq_zero.mpr done)), status_eq_zero.mpr done,
      if_neg (not_not_intro (UInt32.sub_self nsecs))]
    rfl
  · rw [if_pos (mt status_eq_zero.mp done)]
    rfl

theorem ideWriteSecs_cut (src : Nat) (mem : Memory) (passes : secnoOk d secno nsecs = true)
    (positive : 0 < nsecs.toNat) (short : nsecs.toNat ≤ 128) :
    ∃ moved d', ideWriteSecs secno src nsecs mem d = some (status moved nsecs.toNat, d') ∧
      d'.disk = deposited (sectorAt mem src) secno.toNat moved d.disk ∧
      Cut d.answered d' moved nsecs.toNat := by
  obtain ⟨job, disk, _⟩ := program_spec d.answered (secno_small passes) positive short
    (.inr rfl : _ ∨ IDE_CMD_WRITE = _)
  obtain ⟨moved, d', ran, disk', cut⟩ := writeSectors_cut _ src mem _ _ job
  rw [disk] at disk'
  refine ⟨moved, d', ?_, disk', cut.after (program_unmoved _ _ _ _)⟩
  rw [ideWriteSecs, if_pos passes, writeChunks, chunk_eq short]
  simp only [ideWaitReady_eq, Option.bind_eq_bind, Option.bind_some, ran, ne_eq]
  by_cases done : moved = nsecs.toNat
  · rw [if_neg (not_not_intro (status_eq_zero.mpr done)), status_eq_zero.mpr done,
      if_neg (not_not_intro (UInt32.sub_self nsecs))]
    rfl
  · rw [if_pos (mt status_eq_zero.mp done)]
    rfl

end Sprite.Ide

/-
**What a transfer moves.**

The outer loop of the driver adds `n` to `secno` after the inner loop has counted `n` down to zero.
So every command of a transfer starts at the same sector.

* `ideReadSecs_spec`, `ideWriteSecs_spec` — a transfer works on the sectors `secno + i % 128`.
* `transfers_right_iff` — **exactly when that is what was asked for**: up to 128 sectors always, and
  longer transfers only when the contents do not tell the sectors apart.
* `long_transfer_rereads` — the 129th sector read is the first one again.
-/
import Sprite.Ide.Sectors

namespace Sprite.Ide

open Device

/-! ### The outer loops -/

section Commands

variable {secno nsecs : UInt32}

/-- The number of sectors of a command. -/
theorem chunk_toNat : (min nsecs kMaxSectors).toNat = min nsecs.toNat 128 := by
  rw [UInt32.toNat_min]
  rfl

theorem chunk_le : min nsecs kMaxSectors ≤ nsecs := by
  rw [UInt32.le_iff_toNat_le, chunk_toNat]
  omega

theorem rest_toNat : (nsecs - min nsecs kMaxSectors).toNat = nsecs.toNat - min nsecs.toNat 128 := by
  rw [UInt32.toNat_sub_of_le _ _ chunk_le, chunk_toNat]

theorem rest_ne_zero : nsecs - min nsecs kMaxSectors ≠ 0 ↔ 128 < nsecs.toNat := by
  rw [ne_eq, ← UInt32.toNat_inj, rest_toNat]
  simp only [UInt32.toNat_zero]
  omega

/-- A command that leaves some is a full one. -/
theorem chunk_full (more : 128 < nsecs.toNat) :
    (min nsecs kMaxSectors).toNat = 128
      ∧ (nsecs - min nsecs kMaxSectors).toNat = nsecs.toNat - 128 := by
  rw [chunk_toNat, rest_toNat]
  omega

/-- What is left gets less. -/
theorem rest_lt {fuel : Nat} (more : nsecs - min nsecs kMaxSectors ≠ 0)
    (enough : nsecs.toNat < fuel + 1) : (nsecs - min nsecs kMaxSectors).toNat < fuel := by
  rw [rest_toNat]
  have many := rest_ne_zero.mp more
  omega

/-- **One command** of a transfer, of either kind: what is started, and that moving its sectors moves
them on the device as it was. -/
theorem command_spec {d : Device} {cmd : UInt8} (quiet : d.Quiet) (small : secno.toNat < 2 ^ 28)
    (positive : 0 < nsecs.toNat) (isCmd : cmd = IDE_CMD_READ ∨ cmd = IDE_CMD_WRITE) :
    ∃ p, p = d.answered.program secno (min nsecs kMaxSectors) cmd ∧ p.Quiet ∧ p.disk = d.disk
      ∧ p.job = some ⟨cmd = IDE_CMD_WRITE, secno.toNat, (min nsecs kMaxSectors).toNat⟩
      ∧ ∀ d₁, Moved p d₁ secno.toNat (min nsecs kMaxSectors).toNat →
        Moved d d₁ secno.toNat (min nsecs.toNat 128) := by
  have positive' : 0 < (min nsecs kMaxSectors).toNat := by rw [chunk_toNat]; omega
  have fits : (min nsecs kMaxSectors).toNat ≤ 128 := by rw [chunk_toNat]; omega
  obtain ⟨job, disk, touched, kept⟩ := program_spec d.answered small positive' fits isCmd
  have kept : Kept d (d.answered.program secno (min nsecs kMaxSectors) cmd) :=
    ⟨kept.valid, kept.report⟩
  refine ⟨_, rfl, kept.quiet quiet, disk, job, fun d₁ moved => ⟨kept.trans moved.toKept, fun s => ?_⟩⟩
  rw [moved.touched, touched, chunk_toNat]
  rfl

end Commands

/-- Moving the first sectors once more. -/
theorem Device.Moved.again {d d₁ d' : Device} {lba count : Nat} (more : 128 < count)
    (moved : Moved d d₁ lba (min count 128)) (moved' : Moved d₁ d' lba (min (count - 128) 128)) :
    Moved d d' lba (min count 128) := by
  refine ⟨moved.toKept.trans moved'.toKept, fun s => ?_⟩
  rw [moved'.touched, moved.touched]
  constructor
  · rintro ((old | inside) | inside)
    · exact .inl old
    · exact .inr inside
    · exact .inr (by omega)
  · rintro (old | inside)
    · exact .inl (.inl old)
    · exact .inl (.inr inside)

/-- **The outer loop of a read.** Each command starts at `secno`, since `n` is zero when it is added:
what is put behind one another are the sectors `secno + i % 128`. -/
theorem readChunks_spec (fuel : Nat) : ∀ (secno : UInt32) (out : Nat) (nsecs : UInt32)
    (mem : Memory) (d : Device), d.Quiet → secno.toNat < 2 ^ 28 → 0 < nsecs.toNat →
    nsecs.toNat < fuel →
    ∃ d', readChunks fuel secno out nsecs mem d
        = some (0, received (fun i => d.disk (secno.toNat + i % 128)) out nsecs.toNat mem, d') ∧
      d'.disk = d.disk ∧ Moved d d' secno.toNat (min nsecs.toNat 128) := by
  induction fuel with
  | zero => exact fun _ _ _ _ _ _ _ _ impossible => absurd impossible (Nat.not_lt_zero _)
  | succ fuel ih =>
    intro secno out nsecs mem d quiet small positive enough
    obtain ⟨p, isProgram, quiet', disk, job, moves⟩ :=
      command_spec quiet small positive (.inl rfl : IDE_CMD_READ = _ ∨ _)
    obtain ⟨d₁, ran, disk₁, moved⟩ := readSectors_spec _ out mem p _ quiet' job
    have moved := moves d₁ moved
    rw [disk] at ran disk₁
    rw [isProgram] at ran
    have stay : secno + UInt32.ofNat 0 = secno := UInt32.add_zero secno
    rw [readChunks]
    simp only [ideWaitReady_quiet quiet, Option.bind_eq_bind, Option.bind_some, ran, ne_eq,
      not_true_eq_false, if_false, stay, Nat.zero_mul, Nat.add_zero]
    by_cases more : 128 < nsecs.toNat
    · rw [if_pos (rest_ne_zero.mpr more)]
      obtain ⟨all, left⟩ := chunk_full more
      obtain ⟨d', ran', disk', moved'⟩ := ih secno (out + SECTSIZE * (min nsecs kMaxSectors).toNat)
        (nsecs - min nsecs kMaxSectors)
        (received (fun i => d.disk (secno.toNat + i)) out (min nsecs kMaxSectors).toNat mem)
        d₁ (moved.toKept.quiet quiet) small (by omega) (by omega)
      refine ⟨d', ran'.trans ?_, disk'.trans disk₁, moved.again more (left ▸ moved')⟩
      · have first : received (fun i => d.disk (secno.toNat + i)) out 128 mem
            = received (fun i => d.disk (secno.toNat + i % 128)) out 128 mem :=
          received_congr fun i inside => by rw [Nat.mod_eq_of_lt inside]
        have whole := received_add (fun i => d.disk (secno.toNat + i % 128)) out 128
          (nsecs.toNat - 128) mem
        simp only [Nat.add_mod_left, Nat.add_sub_cancel' (Nat.le_of_lt more)] at whole
        rw [all, left, disk₁, first, whole]
    · rw [if_neg (fun nonzero => more (rest_ne_zero.mp nonzero))]
      refine ⟨d₁, ?_, disk₁, moved⟩
      have all : (min nsecs kMaxSectors).toNat = nsecs.toNat := by rw [chunk_toNat]; omega
      have same : received (fun i => d.disk (secno.toNat + i)) out nsecs.toNat mem
          = received (fun i => d.disk (secno.toNat + i % 128)) out nsecs.toNat mem :=
        received_congr fun i inside => by rw [Nat.mod_eq_of_lt (by omega)]
      rw [all, same]
      rfl

/-- The last sector of the source that goes where the `i`-th one goes. -/
def lastCopy (nsecs i : Nat) : Nat := i + 128 * ((nsecs - 1 - i) / 128)

/-- The last copies of the first sectors, when more than 128 go where 128 have gone. -/
theorem deposited_again (mem : Memory) (input lba : Nat) {count : Nat} (more : 128 < count)
    (disk : Nat → Sector) :
    deposited (fun i => sectorAt mem (input + SECTSIZE * 128) (lastCopy (count - 128) i)) lba
        (min (count - 128) 128) (deposited (sectorAt mem input) lba (min count 128) disk)
      = deposited (fun i => sectorAt mem input (lastCopy count i)) lba (min count 128) disk := by
  funext s
  simp only [deposited]
  by_cases again : lba ≤ s ∧ s < lba + min (count - 128) 128
  · rw [if_pos again, if_pos (by omega)]
    funext j
    have index : SECTSIZE * 128 + SECTSIZE * lastCopy (count - 128) (s - lba)
        = SECTSIZE * lastCopy count (s - lba) := by
      simp only [lastCopy, SECTSIZE]
      omega
    simp only [sectorAt]
    rw [Nat.add_assoc input, index]
  · rw [if_neg again]
    by_cases once : lba ≤ s ∧ s < lba + min count 128
    · rw [if_pos once, if_pos once]
      have index : lastCopy count (s - lba) = s - lba := by
        simp only [lastCopy]
        omega
      rw [index]
    · rw [if_neg once, if_neg once]

/-- **The outer loop of a write.** Only the first 128 sectors are written, and later commands write
them again. -/
theorem writeChunks_spec (fuel : Nat) : ∀ (secno : UInt32) (input : Nat) (nsecs : UInt32)
    (mem : Memory) (d : Device), d.Quiet → secno.toNat < 2 ^ 28 → 0 < nsecs.toNat →
    nsecs.toNat < fuel →
    ∃ d', writeChunks fuel secno input nsecs mem d = some (0, d') ∧
      d'.disk = deposited (fun i => sectorAt mem input (lastCopy nsecs.toNat i)) secno.toNat
        (min nsecs.toNat 128) d.disk ∧
      Moved d d' secno.toNat (min nsecs.toNat 128) := by
  induction fuel with
  | zero => exact fun _ _ _ _ _ _ _ _ impossible => absurd impossible (Nat.not_lt_zero _)
  | succ fuel ih =>
    intro secno input nsecs mem d quiet small positive enough
    obtain ⟨p, isProgram, quiet', disk, job, moves⟩ :=
      command_spec quiet small positive (.inr rfl : _ ∨ IDE_CMD_WRITE = _)
    obtain ⟨d₁, ran, disk₁, moved⟩ := writeSectors_spec _ input mem p _ quiet' job
    have moved := moves d₁ moved
    rw [disk, chunk_toNat] at disk₁
    rw [isProgram] at ran
    have stay : secno + UInt32.ofNat 0 = secno := UInt32.add_zero secno
    rw [writeChunks]
    simp only [ideWaitReady_quiet quiet, Option.bind_eq_bind, Option.bind_some, ran, ne_eq,
      not_true_eq_false, if_false, stay, Nat.zero_mul, Nat.add_zero]
    by_cases more : 128 < nsecs.toNat
    · rw [if_pos (rest_ne_zero.mpr more)]
      obtain ⟨all, left⟩ := chunk_full more
      obtain ⟨d', ran', disk', moved'⟩ := ih secno (input + SECTSIZE * (min nsecs kMaxSectors).toNat)
        (nsecs - min nsecs kMaxSectors) mem d₁ (moved.toKept.quiet quiet) small (by omega) (by omega)
      refine ⟨d', ran', ?_, moved.again more (left ▸ moved')⟩
      · rw [disk', disk₁, all, left]
        exact deposited_again mem input secno.toNat more d.disk
    · rw [if_neg (fun nonzero => more (rest_ne_zero.mp nonzero))]
      refine ⟨d₁, rfl, disk₁.trans ?_, moved⟩
      funext s
      simp only [deposited]
      by_cases inside : secno.toNat ≤ s ∧ s < secno.toNat + min nsecs.toNat 128
      · have index : lastCopy nsecs.toNat (s - secno.toNat) = s - secno.toNat := by
          simp only [lastCopy]
          omega
        rw [if_pos inside, if_pos inside, index]
      · rw [if_neg inside, if_neg inside]

/-- The outer loop of a read always ends. -/
theorem readChunks_returns (fuel : Nat) : ∀ (secno : UInt32) (out : Nat) (nsecs : UInt32)
    (mem : Memory) (d : Device), nsecs.toNat < fuel →
    ∃ result, readChunks fuel secno out nsecs mem d = some result ∧
      result.2.2.valid = d.valid := by
  induction fuel with
  | zero => exact fun _ _ _ _ _ impossible => absurd impossible (Nat.not_lt_zero _)
  | succ fuel ih =>
    intro secno out nsecs mem d enough
    obtain ⟨⟨ret, n, out', mem', d'⟩, ran, valid⟩ :=
      readSectors_returns (min nsecs kMaxSectors).toNat out mem
        (d.answered.program secno (min nsecs kMaxSectors) IDE_CMD_READ)
    have valid : d'.valid = d.valid :=
      valid.trans (program_unmoved d.answered secno (min nsecs kMaxSectors) IDE_CMD_READ).valid
    simp only [readChunks, ideWaitReady_eq, Option.bind_eq_bind, Option.bind_some, ran]
    by_cases failed : ret ≠ 0
    · rw [if_pos failed]
      exact ⟨_, rfl, valid⟩
    rw [if_neg failed]
    by_cases more : nsecs - min nsecs kMaxSectors ≠ 0
    · rw [if_pos more]
      obtain ⟨result, ran', valid'⟩ := ih (secno + UInt32.ofNat n) (out' + n * SECTSIZE)
        (nsecs - min nsecs kMaxSectors) mem' d' (rest_lt more enough)
      exact ⟨result, ran', valid'.trans valid⟩
    · rw [if_neg more]
      exact ⟨_, rfl, valid⟩

/-- The outer loop of a write always ends. -/
theorem writeChunks_returns (fuel : Nat) : ∀ (secno : UInt32) (input : Nat) (nsecs : UInt32)
    (mem : Memory) (d : Device), nsecs.toNat < fuel →
    ∃ result, writeChunks fuel secno input nsecs mem d = some result ∧
      result.2.valid = d.valid := by
  induction fuel with
  | zero => exact fun _ _ _ _ _ impossible => absurd impossible (Nat.not_lt_zero _)
  | succ fuel ih =>
    intro secno input nsecs mem d enough
    obtain ⟨⟨ret, n, input', d'⟩, ran, valid⟩ :=
      writeSectors_returns (min nsecs kMaxSectors).toNat input mem
        (d.answered.program secno (min nsecs kMaxSectors) IDE_CMD_WRITE)
    have valid : d'.valid = d.valid :=
      valid.trans (program_unmoved d.answered secno (min nsecs kMaxSectors) IDE_CMD_WRITE).valid
    simp only [writeChunks, ideWaitReady_eq, Option.bind_eq_bind, Option.bind_some, ran]
    by_cases failed : ret ≠ 0
    · rw [if_pos failed]
      exact ⟨_, rfl, valid⟩
    rw [if_neg failed]
    by_cases more : nsecs - min nsecs kMaxSectors ≠ 0
    · rw [if_pos more]
      obtain ⟨result, ran', valid'⟩ := ih (secno + UInt32.ofNat n) (input' + n * SECTSIZE)
        (nsecs - min nsecs kMaxSectors) mem d' (rest_lt more enough)
      exact ⟨result, ran', valid'.trans valid⟩
    · rw [if_neg more]
      exact ⟨_, rfl, valid⟩

/-! ### The two functions -/

variable {secno nsecs : UInt32} {mem : Memory} {d : Device}

theorem secnoOk_iff : secnoOk d secno nsecs = true ↔
    d.valid = 1 ∧ secno < MAX_DISK_NSECS ∧ secno + nsecs ≤ MAX_DISK_NSECS := by
  simp [secnoOk]

theorem secno_small (passes : secnoOk d secno nsecs = true) : secno.toNat < 2 ^ 28 :=
  UInt32.lt_iff_toNat_lt.mp (secnoOk_iff.mp passes).2.1

/-- Up to 128 sectors the addition of the assertion does not wrap. -/
theorem range_small (passes : secnoOk d secno nsecs = true) (short : nsecs ≤ kMaxSectors) :
    secno.toNat + nsecs.toNat ≤ MAX_DISK_NSECS.toNat := by
  have small := secno_small passes
  have few : nsecs.toNat ≤ 128 := UInt32.le_iff_toNat_le.mp short
  have sum := UInt32.le_iff_toNat_le.mp (secnoOk_iff.mp passes).2.2
  rw [UInt32.toNat_add, Nat.mod_eq_of_lt (by omega)] at sum
  exact sum

theorem ideReadSecs_returns (dst : Nat) (mem : Memory) (passes : secnoOk d secno nsecs = true) :
    ∃ result, ideReadSecs secno dst nsecs mem d = some result ∧ result.2.2.valid = d.valid := by
  rw [ideReadSecs, if_pos passes]
  exact readChunks_returns _ secno dst nsecs mem d (Nat.lt_succ_self _)

theorem ideWriteSecs_returns (src : Nat) (mem : Memory) (passes : secnoOk d secno nsecs = true) :
    ∃ result, ideWriteSecs secno src nsecs mem d = some result ∧ result.2.valid = d.valid := by
  rw [ideWriteSecs, if_pos passes]
  exact writeChunks_returns _ secno src nsecs mem d (Nat.lt_succ_self _)

theorem ideReadSecs_spec (dst : Nat) (mem : Memory) (quiet : d.Quiet)
    (passes : secnoOk d secno nsecs = true) (positive : 0 < nsecs.toNat) :
    ∃ d', ideReadSecs secno dst nsecs mem d
        = some (0, received (fun i => d.disk (secno.toNat + i % 128)) dst nsecs.toNat mem, d') ∧
      d'.disk = d.disk ∧ Moved d d' secno.toNat (min nsecs.toNat 128) := by
  rw [ideReadSecs, if_pos passes]
  exact readChunks_spec _ secno dst nsecs mem d quiet (secno_small passes) positive
    (Nat.lt_succ_self _)

theorem ideWriteSecs_spec (src : Nat) (mem : Memory) (quiet : d.Quiet)
    (passes : secnoOk d secno nsecs = true) (positive : 0 < nsecs.toNat) :
    ∃ d', ideWriteSecs secno src nsecs mem d = some (0, d') ∧
      d'.disk = deposited (fun i => sectorAt mem src (lastCopy nsecs.toNat i)) secno.toNat
        (min nsecs.toNat 128) d.disk ∧
      Moved d d' secno.toNat (min nsecs.toNat 128) := by
  rw [ideWriteSecs, if_pos passes]
  exact writeChunks_spec _ secno src nsecs mem d quiet (secno_small passes) positive
    (Nat.lt_succ_self _)

/-- What a read is asked for: every sector of the range in its place, nothing else changed, and no
sector moved that is not on the disk. -/
def ReadsRight (secno nsecs : UInt32) (dst : Nat) (mem : Memory) (d : Device) : Prop :=
  ∃ mem' d', ideReadSecs secno dst nsecs mem d = some (0, mem', d') ∧
    (∀ i < nsecs.toNat, sectorAt mem' dst i = d.disk (secno.toNat + i)) ∧
    (∀ a, a < dst ∨ dst + SECTSIZE * nsecs.toNat ≤ a → mem' a = mem a) ∧
    d'.disk = d.disk ∧ ∀ s ∈ d'.touched, s < MAX_DISK_NSECS.toNat

/-- What a write is asked for. -/
def WritesRight (secno nsecs : UInt32) (src : Nat) (mem : Memory) (d : Device) : Prop :=
  ∃ d', ideWriteSecs secno src nsecs mem d = some (0, d') ∧
    (∀ i < nsecs.toNat, d'.disk (secno.toNat + i) = sectorAt mem src i) ∧
    (∀ s, s < secno.toNat ∨ secno.toNat + nsecs.toNat ≤ s → d'.disk s = d.disk s) ∧
    ∀ s ∈ d'.touched, s < MAX_DISK_NSECS.toNat

theorem touched_small_iff {d' : Device} (unused : d.touched = [])
    (moved : Moved d d' secno.toNat (min nsecs.toNat 128)) (positive : 0 < nsecs.toNat) :
    (∀ s ∈ d'.touched, s < MAX_DISK_NSECS.toNat) ↔
      secno.toNat + min nsecs.toNat 128 ≤ MAX_DISK_NSECS.toNat := by
  simp only [moved.touched, unused, List.not_mem_nil, false_or]
  constructor
  · intro small
    have last := small (secno.toNat + min nsecs.toNat 128 - 1) (by omega)
    omega
  · intro fits s inside
    omega

theorem sectorAt_received (content : Nat → Sector) (dst : Nat) (mem : Memory) {count i : Nat}
    (inside : i < count) : sectorAt (received content dst count mem) dst i = content i :=
  funext fun j => received_at content dst mem inside j

theorem readsRight_iff (dst : Nat) (mem : Memory) (quiet : d.Quiet) (unused : d.touched = [])
    (passes : secnoOk d secno nsecs = true) (positive : 0 < nsecs.toNat) :
    ReadsRight secno nsecs dst mem d ↔ nsecs ≤ kMaxSectors ∨
      secno.toNat + 128 ≤ MAX_DISK_NSECS.toNat ∧
        ∀ i < nsecs.toNat, d.disk (secno.toNat + i) = d.disk (secno.toNat + i % 128) := by
  obtain ⟨d', ran, disk, moved⟩ := ideReadSecs_spec dst mem quiet passes positive
  have touched := touched_small_iff unused moved positive
  constructor
  · rintro ⟨mem', _, ran', content, _, _, small⟩
    rw [ran] at ran'
    cases ran'
    refine (Nat.lt_or_ge 128 nsecs.toNat).symm.imp UInt32.le_iff_toNat_le.mpr fun more => ⟨?_, ?_⟩
    · rw [← Nat.min_eq_right (Nat.le_of_lt more)]
      exact touched.mp small
    · intro i inside
      rw [← content i inside, sectorAt_received _ _ _ inside]
  · intro right
    refine ⟨_, d', ran, ?_, ?_, disk, touched.mpr ?_⟩
    · intro i inside
      rw [sectorAt_received _ _ _ inside]
      rcases right with short | ⟨_, periodic⟩
      · have few : nsecs.toNat ≤ 128 := UInt32.le_iff_toNat_le.mp short
        rw [Nat.mod_eq_of_lt (by omega)]
      · exact (periodic i inside).symm
    · exact fun a outside => received_outside _ _ outside
    · rcases right with short | ⟨fits, _⟩
      · have range := range_small passes short
        omega
      · omega

theorem writesRight_iff (src : Nat) (mem : Memory) (quiet : d.Quiet) (unused : d.touched = [])
    (passes : secnoOk d secno nsecs = true) (positive : 0 < nsecs.toNat) :
    WritesRight secno nsecs src mem d ↔ nsecs ≤ kMaxSectors ∨
      secno.toNat + 128 ≤ MAX_DISK_NSECS.toNat ∧
        ∀ i < nsecs.toNat, sectorAt mem src i
          = if i < 128 then sectorAt mem src (lastCopy nsecs.toNat i)
            else d.disk (secno.toNat + i) := by
  obtain ⟨d', ran, disk, moved⟩ := ideWriteSecs_spec src mem quiet passes positive
  have touched := touched_small_iff unused moved positive
  have written : ∀ i < nsecs.toNat, d'.disk (secno.toNat + i)
      = if i < 128 then sectorAt mem src (lastCopy nsecs.toNat i)
        else d.disk (secno.toNat + i) := by
    intro i inside
    rw [disk, deposited]
    by_cases early : i < 128
    · rw [if_pos (by omega), if_pos early, Nat.add_sub_cancel_left]
    · rw [if_neg (by omega), if_neg early]
  constructor
  · rintro ⟨_, ran', content, _, small⟩
    rw [ran] at ran'
    cases ran'
    refine (Nat.lt_or_ge 128 nsecs.toNat).symm.imp UInt32.le_iff_toNat_le.mpr fun more => ⟨?_, ?_⟩
    · rw [← Nat.min_eq_right (Nat.le_of_lt more)]
      exact touched.mp small
    · intro i inside
      rw [← content i inside, written i inside]
  · intro right
    refine ⟨d', ran, ?_, ?_, touched.mpr ?_⟩
    · intro i inside
      rw [written i inside]
      rcases right with short | ⟨_, coincides⟩
      · have few : nsecs.toNat ≤ 128 := UInt32.le_iff_toNat_le.mp short
        have index : lastCopy nsecs.toNat i = i := by
          simp only [lastCopy]
          omega
        rw [if_pos (by omega), index]
      · exact (coincides i inside).symm
    · intro s outside
      rw [disk, deposited, if_neg]
      omega
    · rcases right with short | ⟨fits, _⟩
      · have range := range_small passes short
        omega
      · omega

/-- **A transfer does what it is asked for exactly if it takes one command**, or the contents hide
that the later commands go over the same sectors again. -/
theorem transfers_right_iff (dst src : Nat) (mem : Memory) (quiet : d.Quiet)
    (unused : d.touched = []) (passes : secnoOk d secno nsecs = true)
    (positive : 0 < nsecs.toNat) :
    (ReadsRight secno nsecs dst mem d ↔ nsecs ≤ kMaxSectors ∨
      secno.toNat + 128 ≤ MAX_DISK_NSECS.toNat ∧
        ∀ i < nsecs.toNat, d.disk (secno.toNat + i) = d.disk (secno.toNat + i % 128)) ∧
    (WritesRight secno nsecs src mem d ↔ nsecs ≤ kMaxSectors ∨
      secno.toNat + 128 ≤ MAX_DISK_NSECS.toNat ∧
        ∀ i < nsecs.toNat, sectorAt mem src i
          = if i < 128 then sectorAt mem src (lastCopy nsecs.toNat i)
            else d.disk (secno.toNat + i)) :=
  ⟨readsRight_iff dst mem quiet unused passes positive,
    writesRight_iff src mem quiet unused passes positive⟩

/-- A disk that has the number of each sector in all its bytes. -/
def numbered : Device where
  valid := 1
  disk := fun s _ => UInt8.ofNat s
  seccnt := 0
  lbaLow := 0
  lbaMid := 0
  lbaHigh := 0
  lbaTop := 0
  job := none
  stall := fun _ => 2
  report := fun _ => 0x50
  answers := 0
  busy := 0
  touched := []

theorem numbered_quiet : numbered.Quiet := fun _ =>
  (by decide : (0x50 : UInt8) &&& (STAT_DF ||| STAT_ERR) = 0)

/-- One sector of the numbered disk, as in `test_ide`. -/
theorem numbered_sector_right :
    (ReadsRight 1 1 0 (fun _ => 0) numbered ↔ (1 : UInt32) ≤ kMaxSectors ∨
      UInt32.toNat 1 + 128 ≤ MAX_DISK_NSECS.toNat ∧ ∀ i < UInt32.toNat 1,
        numbered.disk (UInt32.toNat 1 + i) = numbered.disk (UInt32.toNat 1 + i % 128)) ∧
    (WritesRight 1 1 0 (fun _ => 0) numbered ↔ (1 : UInt32) ≤ kMaxSectors ∨
      UInt32.toNat 1 + 128 ≤ MAX_DISK_NSECS.toNat ∧ ∀ i < UInt32.toNat 1,
        sectorAt (fun _ => 0) 0 i
          = if i < 128 then sectorAt (fun _ => 0) 0 (lastCopy (UInt32.toNat 1) i)
            else numbered.disk (UInt32.toNat 1 + i)) :=
  transfers_right_iff 0 0 (fun _ => 0) numbered_quiet rfl (by decide) (by decide)

/-- The 129th sector read is sector 0 again, not sector 128. -/
theorem long_transfer_rereads :
    secnoOk numbered 0 129 = true ∧ numbered.Quiet ∧ numbered.disk 128 0 = 128 ∧
      (∃ mem' d', ideReadSecs 0 0 129 (fun _ => 0) numbered = some (0, mem', d') ∧
        mem' (SECTSIZE * 128) = 0) ∧ ¬ ReadsRight 0 129 0 (fun _ => 0) numbered := by
  have passes : secnoOk numbered 0 129 = true := by decide
  refine ⟨passes, numbered_quiet, by decide, ?_, fun right => ?_⟩
  · obtain ⟨d', ran, _⟩ := ideReadSecs_spec 0 (fun _ => 0) numbered_quiet passes (by decide)
    refine ⟨_, d', ran, ?_⟩
    exact received_at (fun i => numbered.disk (UInt32.toNat 0 + i % 128)) 0 _
      (by decide : 128 < UInt32.toNat 129) 0
  · rcases (readsRight_iff 0 _ numbered_quiet rfl passes (by decide)).mp right with short | periodic
    · exact absurd short (by decide)
    · have first := congrFun (periodic.2 128 (by decide)) 0
      exact absurd first (by decide)

end Sprite.Ide

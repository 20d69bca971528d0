/-
**The sectors a command moves.**

* `received`, `deposited` — memory and disk after a number of sectors have been moved in order.
* `ideWaitReady_quiet` — a device without errors is waited for, however long it takes.
* `program_spec` — the registers the driver writes ask for `n` sectors from `secno` on.
* `readSectors_spec`, `writeSectors_spec` — the inner loops move one sector after the other.
-/
import Sprite.Ide.Driver
import Mathlib.Data.Nat.Bitwise

namespace Sprite.Ide

/-! ### Sectors in memory and on disk -/

/-- Memory after `count` sectors have been put one behind the other from `dst` on. -/
def received (content : Nat → Sector) (dst count : Nat) (mem : Memory) : Memory := fun a =>
  if dst ≤ a ∧ a < dst + SECTSIZE * count then
    content ((a - dst) / SECTSIZE) (Fin.ofNat 512 (a - dst))
  else mem a

/-- The `i`-th sector in memory from `src` on. -/
def sectorAt (mem : Memory) (src i : Nat) : Sector := fun j => mem (src + SECTSIZE * i + j)

/-- The disk after `count` sectors have been put one behind the other from sector `lba` on. -/
def deposited (content : Nat → Sector) (lba count : Nat) (disk : Nat → Sector) : Nat → Sector :=
  fun s => if lba ≤ s ∧ s < lba + count then content (s - lba) else disk s

theorem received_zero (content : Nat → Sector) (dst : Nat) (mem : Memory) :
    received content dst 0 mem = mem := by
  funext a
  rw [received, if_neg]
  omega

theorem received_add (content : Nat → Sector) (dst first second : Nat) (mem : Memory) :
    received (fun i => content (first + i)) (dst + SECTSIZE * first) second
      (received content dst first mem) = received content dst (first + second) mem := by
  funext a
  simp only [received, SECTSIZE]
  by_cases late : dst + 512 * first ≤ a ∧ a < dst + 512 * first + 512 * second
  · rw [if_pos late, if_pos (by omega)]
    have index : first + (a - (dst + 512 * first)) / 512 = (a - dst) / 512 := by omega
    have offset : Fin.ofNat 512 (a - (dst + 512 * first)) = Fin.ofNat 512 (a - dst) := by
      apply Fin.ext
      simp only [Fin.val_ofNat]
      omega
    rw [index, offset]
  · rw [if_neg late]
    by_cases early : dst ≤ a ∧ a < dst + 512 * first
    · rw [if_pos early, if_pos (by omega)]
    · rw [if_neg early, if_neg (by omega)]

theorem received_congr {content content' : Nat → Sector} {dst count : Nat} {mem : Memory}
    (same : ∀ i < count, content i = content' i) :
    received content dst count mem = received content' dst count mem := by
  funext a
  simp only [received, SECTSIZE]
  by_cases inside : dst ≤ a ∧ a < dst + 512 * count
  · rw [if_pos inside, if_pos inside, same _ (by omega)]
  · rw [if_neg inside, if_neg inside]

theorem received_at (content : Nat → Sector) (dst : Nat) {count i : Nat} (mem : Memory)
    (inside : i < count) (j : Fin 512) :
    received content dst count mem (dst + SECTSIZE * i + j) = content i j := by
  have small := j.isLt
  simp only [received, SECTSIZE]
  rw [if_pos (by omega)]
  have index : (dst + 512 * i + j.val - dst) / 512 = i := by omega
  have offset : Fin.ofNat 512 (dst + 512 * i + j.val - dst) = j := by
    apply Fin.ext
    simp only [Fin.val_ofNat]
    omega
  rw [index, offset]

theorem received_outside (content : Nat → Sector) {dst count a : Nat} (mem : Memory)
    (outside : a < dst ∨ dst + SECTSIZE * count ≤ a) :
    received content dst count mem a = mem a := by
  rw [received, if_neg]
  omega

/-- The sectors from the second one on. -/
theorem sectorAt_shifted (mem : Memory) (src : Nat) :
    sectorAt mem (src + SECTSIZE) = fun i => sectorAt mem src (1 + i) := by
  funext i j
  simp only [sectorAt, SECTSIZE]
  rw [Nat.mul_add, Nat.mul_one, Nat.add_assoc src]

theorem deposited_zero (content : Nat → Sector) (lba : Nat) (disk : Nat → Sector) :
    deposited content lba 0 disk = disk := by
  funext s
  rw [deposited, if_neg]
  omega

theorem deposited_add (content : Nat → Sector) (lba first second : Nat) (disk : Nat → Sector) :
    deposited (fun i => content (first + i)) (lba + first) second
      (deposited content lba first disk) = deposited content lba (first + second) disk := by
  funext s
  simp only [deposited]
  by_cases late : lba + first ≤ s ∧ s < lba + first + second
  · rw [if_pos late, if_pos (by omega)]
    have index : first + (s - (lba + first)) = s - lba := by omega
    rw [index]
  · rw [if_neg late]
    by_cases early : lba ≤ s ∧ s < lba + first
    · rw [if_pos early, if_pos (by omega)]
    · rw [if_neg early, if_neg (by omega)]

/-! ### Polling and programming -/

namespace Device

/-- The device never reports an error. -/
def Quiet (d : Device) : Prop := ∀ t, d.report t &&& (STAT_DF ||| STAT_ERR) = 0

/-- The device after one answer. -/
def answered (d : Device) : Device :=
  { d with answers := d.answers + 1, busy := d.stall (d.answers + 1) }

/-- The answer comes when the device is no longer busy. -/
theorem pollReady_spec (busy : Nat) : ∀ d : Device, d.busy = busy →
    pollReady (busy + 1) d = some (d.report d.answers &&& 0x7F, d.answered) := by
  induction busy with
  | zero =>
    intro d idle
    have ready : d.report d.answers &&& 0x7F &&& STAT_BSY = 0 := by
      rw [UInt8.and_assoc]
      exact UInt8.and_zero
    simp only [pollReady, inbStatus, idle, ready, ne_eq, not_true_eq_false, if_false, answered]
  | succ busy ih =>
    intro d waiting
    have isBusy : STAT_BSY &&& STAT_BSY ≠ 0 := by decide
    rw [pollReady]
    simp only [inbStatus, waiting]
    rw [if_pos isBusy]
    exact ih _ rfl

/-- Waiting always ends, with an error or without. -/
theorem ideWaitReady_eq (d : Device) (checkError : Bool) : d.ideWaitReady checkError
    = some (if checkError ∧ d.report d.answers &&& 0x7F &&& (STAT_DF ||| STAT_ERR) ≠ 0 then -1 else 0,
      d.answered) := by
  simp only [ideWaitReady, pollReady_spec d.busy d rfl, Option.bind_eq_bind, Option.bind_some,
    Option.pure_def]
  split <;> rfl

theorem ideWaitReady_quiet {d : Device} (quiet : d.Quiet) (checkError : Bool) :
    d.ideWaitReady checkError = some (0, d.answered) := by
  have clear : d.report d.answers &&& 0x7F &&& (STAT_DF ||| STAT_ERR) = 0 := by
    rw [UInt8.and_assoc, UInt8.and_comm 0x7F, ← UInt8.and_assoc, quiet]
    exact UInt8.zero_and
  rw [ideWaitReady_eq, if_neg]
  exact fun error => error.2 clear

/-- What a driver function leaves alone in any case. -/
structure Kept (d d' : Device) : Prop where
  valid : d'.valid = d.valid
  report : d'.report = d.report

theorem Kept.trans {d d' d'' : Device} (first : Kept d d') (second : Kept d' d'') : Kept d d'' :=
  ⟨second.valid.trans first.valid, second.report.trans first.report⟩

theorem Kept.quiet {d d' : Device} (kept : Kept d d') (quiet : d.Quiet) : d'.Quiet := by
  intro t
  rw [kept.report]
  exact quiet t

/-- The address registers hold the low 28 bits. -/
theorem address_bits {secno : UInt32} (small : secno.toNat < 2 ^ 28) :
    (secno &&& 0xFF).toUInt8.toNat + 2 ^ 8 * ((secno >>> 8) &&& 0xFF).toUInt8.toNat
      + 2 ^ 16 * ((secno >>> 16) &&& 0xFF).toUInt8.toNat
      + 2 ^ 24 * (((0xE0 : UInt32) ||| ((secno >>> 24) &&& 0xF)).toUInt8.toNat % 16)
      = secno.toNat := by
  have byte : ∀ n : Nat, n &&& 255 = n % 2 ^ 8 := fun n => Nat.and_two_pow_sub_one_eq_mod n 8
  have nibble : ∀ n : Nat, n &&& 15 = n % 2 ^ 4 := fun n => Nat.and_two_pow_sub_one_eq_mod n 4
  have top : ∀ n : Nat, (224 ||| n % 2 ^ 4) % 2 ^ 4 = n % 2 ^ 4 := by
    intro n
    rw [Nat.or_mod_two_pow, Nat.mod_mod]
    exact Nat.zero_or _
  simp only [UInt32.toNat_toUInt8, UInt32.toNat_and, UInt32.toNat_or, UInt32.toNat_shiftRight,
    UInt32.reduceToNat, byte, nibble, Nat.shiftRight_eq_div_pow]
  have high := top (secno.toNat / 2 ^ 24)
  simp only [Nat.reduceMod, Nat.reducePow] at high small ⊢
  omega

/-- What a write to a register leaves alone: no sector is moved, and no status is read. -/
structure Unmoved (d d' : Device) : Prop extends Kept d d' where
  disk : d'.disk = d.disk
  touched : d'.touched = d.touched
  answers : d'.answers = d.answers

theorem Unmoved.trans {d d' d'' : Device} (first : Unmoved d d') (second : Unmoved d' d'') :
    Unmoved d d'' :=
  ⟨first.toKept.trans second.toKept, second.disk.trans first.disk, second.touched.trans first.touched,
    second.answers.trans first.answers⟩

theorem command_unmoved (d : Device) (value : UInt8) : Unmoved d (d.command value) := by
  unfold command
  split_ifs
  · exact ⟨⟨rfl, rfl⟩, rfl, rfl, rfl⟩
  · exact ⟨⟨rfl, rfl⟩, rfl, rfl, rfl⟩
  · exact ⟨⟨rfl, rfl⟩, rfl, rfl, rfl⟩

theorem outb_unmoved (d : Device) (port : UInt16) (value : UInt8) : Unmoved d (d.outb port value) := by
  unfold outb
  split_ifs
  on_goal 6 => exact command_unmoved d value
  all_goals exact ⟨⟨rfl, rfl⟩, rfl, rfl, rfl⟩

theorem program_unmoved (d : Device) (secno n : UInt32) (cmd : UInt8) :
    Unmoved d (d.program secno n cmd) := by
  unfold program
  refine Unmoved.trans ?_ (outb_unmoved _ _ _)
  refine Unmoved.trans ?_ (outb_unmoved _ _ _)
  refine Unmoved.trans ?_ (outb_unmoved _ _ _)
  refine Unmoved.trans ?_ (outb_unmoved _ _ _)
  refine Unmoved.trans ?_ (outb_unmoved _ _ _)
  exact (outb_unmoved _ _ _).trans (outb_unmoved _ _ _)

/-- **The command that is started**: `n` sectors from `secno` on. -/
theorem program_spec (d : Device) {secno n : UInt32} {cmd : UInt8} (small : secno.toNat < 2 ^ 28)
    (positive : 0 < n.toNat) (fits : n.toNat ≤ 128) (isCmd : cmd = IDE_CMD_READ ∨ cmd = IDE_CMD_WRITE) :
    (d.program secno n cmd).job = some ⟨cmd = IDE_CMD_WRITE, secno.toNat, n.toNat⟩ ∧
      (d.program secno n cmd).disk = d.disk ∧ (d.program secno n cmd).touched = d.touched ∧
      Kept d (d.program secno n cmd) := by
  have count : n.toUInt8.toNat = n.toNat := by
    rw [UInt32.toNat_toUInt8]
    omega
  have nonzero : n.toUInt8 ≠ 0 := by
    intro zero
    rw [zero] at count
    exact absurd count.symm (Nat.ne_of_gt positive)
  have bits := address_bits small
  obtain ⟨kept, disk, touched, _⟩ := program_unmoved d secno n cmd
  refine ⟨?_, disk, touched, kept⟩
  rcases isCmd with rfl | rfl
  · have started : (d.program secno n IDE_CMD_READ).job = some ⟨false, _, _⟩ := rfl
    rw [started]
    simp only [lba, sectors, outb, Option.some.injEq, Job.mk.injEq]
    exact ⟨rfl, bits, (if_neg nonzero).trans count⟩
  · have started : (d.program secno n IDE_CMD_WRITE).job = some ⟨true, _, _⟩ := rfl
    rw [started]
    simp only [lba, sectors, outb, Option.some.injEq, Job.mk.injEq]
    exact ⟨rfl, bits, (if_neg nonzero).trans count⟩

/-- What a number of sectors moved from `lba` on leave behind. -/
structure Moved (d d' : Device) (lba count : Nat) : Prop extends Kept d d' where
  touched : ∀ s, s ∈ d'.touched ↔ s ∈ d.touched ∨ lba ≤ s ∧ s < lba + count

end Device

open Device

/-! ### The inner loops -/

theorem insl_reading {d : Device} {lba left : Nat} (out : Nat) (mem : Memory)
    (job : d.job = some ⟨false, lba, left + 1⟩) :
    d.insl out mem = (received (fun i => d.disk (lba + i)) out 1 mem,
      { d with job := some ⟨false, lba + 1, left⟩, touched := lba :: d.touched }) := by
  simp only [insl, job]
  refine Prod.ext (funext fun a => ?_) rfl
  simp only [received, Nat.mul_one]
  by_cases inside : out ≤ a ∧ a < out + SECTSIZE
  · have index : (a - out) / SECTSIZE = 0 := by simp only [SECTSIZE] at inside ⊢; omega
    rw [if_pos inside, if_pos inside, index, Nat.add_zero]
  · rw [if_neg inside, if_neg inside]

theorem outsl_writing {d : Device} {lba left : Nat} (input : Nat) (mem : Memory)
    (job : d.job = some ⟨true, lba, left + 1⟩) :
    d.outsl input mem = { d with
      disk := deposited (sectorAt mem input) lba 1 d.disk
      job := some ⟨true, lba + 1, left⟩
      touched := lba :: d.touched } := by
  have disk : Function.update d.disk lba (fun i => mem (input + i))
      = deposited (sectorAt mem input) lba 1 d.disk := by
    funext s
    by_cases here : s = lba
    · rw [here, Function.update_self, deposited, if_pos (by omega), Nat.sub_self]
      rfl
    · rw [Function.update_of_ne here, deposited, if_neg (by omega)]
  simp only [outsl, job, disk]

/-- One more sector was moved. -/
theorem Device.Moved.cons {d d₁ d' : Device} {lba count : Nat}
    (moved : Moved d₁ d' (lba + 1) count) (kept : Kept d d₁)
    (touched : d₁.touched = lba :: d.touched) :
    Moved d d' lba (count + 1) := by
  refine ⟨kept.trans moved.toKept, fun s => ?_⟩
  rw [moved.touched, touched, List.mem_cons]
  constructor
  · rintro ((rfl | old) | inside)
    · exact .inr (by omega)
    · exact .inl old
    · exact .inr (by omega)
  · rintro (old | inside)
    · exact .inl (.inr old)
    · by_cases first : s = lba
      · exact .inl (.inl first)
      · exact .inr (by omega)

/-- **The inner loop of a read** puts the next sectors one behind the other, and ends with `n` at
zero. -/
theorem readSectors_spec (n : Nat) : ∀ (out : Nat) (mem : Memory) (d : Device) (lba : Nat),
    d.Quiet → d.job = some ⟨false, lba, n⟩ →
    ∃ d', readSectors n out mem d = some (0, 0, out + SECTSIZE * n,
        received (fun i => d.disk (lba + i)) out n mem, d') ∧
      d'.disk = d.disk ∧ Moved d d' lba n := by
  induction n with
  | zero =>
    intro out mem d lba _ _
    refine ⟨d, ?_, rfl, ⟨rfl, rfl⟩, fun s => ?_⟩
    · rw [received_zero]
      rfl
    · simp only [Nat.add_zero]
      exact ⟨.inl, fun either => either.elim id fun inside => absurd inside (by omega)⟩
  | succ n ih =>
    intro out mem d lba quiet job
    have job' : d.answered.job = some ⟨false, lba, n + 1⟩ := job
    obtain ⟨d', ran, disk, moved⟩ := ih (out + SECTSIZE)
      (received (fun i => d.disk (lba + i)) out 1 mem)
      { d.answered with job := some ⟨false, lba + 1, n⟩, touched := lba :: d.touched } (lba + 1)
      quiet rfl
    refine ⟨d', ?_, disk, moved.cons ⟨rfl, rfl⟩ rfl⟩
    have placed := received_add (fun i => d.disk (lba + i)) out 1 n mem
    simp only [Nat.mul_one, ← Nat.add_assoc, Nat.add_comm 1 n] at placed
    simp only [readSectors, ideWaitReady_quiet quiet, Option.bind_eq_bind, Option.bind_some, ne_eq,
      not_true_eq_false, if_false, insl_reading out mem job']
    refine ran.trans ?_
    rw [← placed, Nat.mul_succ, Nat.add_assoc, Nat.add_comm SECTSIZE]
    rfl

/-- **The inner loop of a write** takes the next sectors from memory, and ends with `n` at zero. -/
theorem writeSectors_spec (n : Nat) : ∀ (input : Nat) (mem : Memory) (d : Device) (lba : Nat),
    d.Quiet → d.job = some ⟨true, lba, n⟩ →
    ∃ d', writeSectors n input mem d = some (0, 0, input + SECTSIZE * n, d') ∧
      d'.disk = deposited (sectorAt mem input) lba n d.disk ∧ Moved d d' lba n := by
  induction n with
  | zero =>
    intro input mem d lba _ _
    refine ⟨d, rfl, (deposited_zero _ _ _).symm, ⟨rfl, rfl⟩, fun s => ?_⟩
    simp only [Nat.add_zero]
    exact ⟨.inl, fun either => either.elim id fun inside => absurd inside (by omega)⟩
  | succ n ih =>
    intro input mem d lba quiet job
    have job' : d.answered.job = some ⟨true, lba, n + 1⟩ := job
    obtain ⟨d', ran, disk, moved⟩ := ih (input + SECTSIZE) mem
      { d.answered with
        disk := deposited (sectorAt mem input) lba 1 d.disk
        job := some ⟨true, lba + 1, n⟩
        touched := lba :: d.touched } (lba + 1) quiet rfl
    refine ⟨d', ?_, ?_, moved.cons ⟨rfl, rfl⟩ rfl⟩
    · simp only [writeSectors, ideWaitReady_quiet quiet, Option.bind_eq_bind, Option.bind_some,
        ne_eq, not_true_eq_false, if_false, outsl_writing input mem job']
      refine ran.trans ?_
      rw [Nat.mul_succ, Nat.add_assoc, Nat.add_comm SECTSIZE]
    · rw [disk, sectorAt_shifted]
      exact (deposited_add (sectorAt mem input) lba 1 n d.disk).trans (by rw [Nat.add_comm])

/-! ### The inner loops on any device -/

theorem insl_valid (d : Device) (out : Nat) (mem : Memory) : (d.insl out mem).2.valid = d.valid := by
  unfold insl
  split <;> rfl

theorem outsl_valid (d : Device) (input : Nat) (mem : Memory) :
    (d.outsl input mem).valid = d.valid := by
  unfold outsl
  split <;> rfl

/-- The inner loop of a read always ends. -/
theorem readSectors_returns (n : Nat) : ∀ (out : Nat) (mem : Memory) (d : Device),
    ∃ result, readSectors n out mem d = some result ∧ result.2.2.2.2.valid = d.valid := by
  induction n with
  | zero => exact fun out mem d => ⟨_, rfl, rfl⟩
  | succ n ih =>
    intro out mem d
    simp only [readSectors, ideWaitReady_eq, Option.bind_eq_bind, Option.bind_some]
    split
    · exact ⟨_, rfl, rfl⟩
    · obtain ⟨result, ran, valid⟩ := ih (out + SECTSIZE) (d.answered.insl out mem).1
        (d.answered.insl out mem).2
      exact ⟨result, ran, valid.trans (insl_valid _ _ _)⟩

/-- The inner loop of a write always ends. -/
theorem writeSectors_returns (n : Nat) : ∀ (input : Nat) (mem : Memory) (d : Device),
    ∃ result, writeSectors n input mem d = some result ∧ result.2.2.2.valid = d.valid := by
  induction n with
  | zero => exact fun input mem d => ⟨_, rfl, rfl⟩
  | succ n ih =>
    intro input mem d
    simp only [writeSectors, ideWaitReady_eq, Option.bind_eq_bind, Option.bind_some]
    split
    · exact ⟨_, rfl, rfl⟩
    · obtain ⟨result, ran, valid⟩ := ih (input + SECTSIZE) mem (d.answered.outsl input mem)
      exact ⟨result, ran, valid.trans (outsl_valid _ _ _)⟩

end Sprite.Ide

/-
**The IDE driver**, after `src/lib/ide.cc` and `src/include/ide.h`, over the device it drives.

* `Device` — the disk, the task file registers, and the command the device is working on. How long
  the device stays busy each time and what it reports then is left open (`stall`, `report`).
* `outb`, `ideWaitReady`, `insl`, `outsl` — the accesses to the ports of the device.
* `ideReadSecs`, `ideWriteSecs` — the two loops of the driver: an outer one over commands of at most
  `kMaxSectors` sectors, an inner one over the sectors of a command.

Memory is byte-addressed without an upper end, so that a buffer may be as long as a transfer asks.
-/
import Mathlib.Algebra.GroupWithZero.Nat
import Mathlib.Logic.Function.Basic

namespace Sprite.Ide

/-- The bytes of one sector. -/
abbrev Sector := Fin 512 → UInt8

/-- The bytes of main memory. -/
abbrev Memory := Nat → UInt8

abbrev SECTSIZE : Nat := 512

instance sectorNeZero : NeZero SECTSIZE := ⟨Nat.succ_ne_zero 511⟩

def STAT_BSY : UInt8 := 0x80
def STAT_DF : UInt8 := 0x20
def STAT_ERR : UInt8 := 0x01
def IDE_CMD_READ : UInt8 := 0x20
def IDE_CMD_WRITE : UInt8 := 0x30
def IOBASE : UInt16 := 0x1F0
def IOCTRL : UInt16 := 0x3F4
def ISA_CTRL : UInt16 := 0x02
def ISA_SECCNT : UInt16 := 0x02
def ISA_LBA_LOW : UInt16 := 0x03
def ISA_LBA_MID : UInt16 := 0x04
def ISA_LBA_HIGH : UInt16 := 0x05
def ISA_LBA_TOP : UInt16 := 0x06
def ISA_COMMAND : UInt16 := 0x07
def MAX_DISK_NSECS : UInt32 := 0x10000000
def kMaxSectors : UInt32 := 128

/-! ### The device -/

/-- A command being worked on: the sectors from `lba` on, `left` of them still to be moved. -/
structure Job where
  writing : Bool
  lba : Nat
  left : Nat
  deriving DecidableEq

/-- The device, as the driver sees it. -/
structure Device where
  /-- `ide_device.valid`, which `ide_init` sets. -/
  valid : UInt8
  disk : Nat → Sector
  seccnt : UInt8
  lbaLow : UInt8
  lbaMid : UInt8
  lbaHigh : UInt8
  lbaTop : UInt8
  job : Option Job
  /-- How many times the status is polled as busy before the `n`-th answer. -/
  stall : Nat → Nat
  /-- The status bits of the `n`-th answer. -/
  report : Nat → UInt8
  answers : Nat
  busy : Nat
  /-- The sectors moved so far, the last one first. -/
  touched : List Nat

namespace Device

/-- The sector the registers address: 28 bits. -/
def lba (d : Device) : Nat :=
  d.lbaLow.toNat + 2 ^ 8 * d.lbaMid.toNat + 2 ^ 16 * d.lbaHigh.toNat
    + 2 ^ 24 * (d.lbaTop.toNat % 16)

/-- The number of sectors the registers ask for: zero stands for 256. -/
def sectors (d : Device) : Nat := if d.seccnt = 0 then 256 else d.seccnt.toNat

/-- A write to the command register. -/
def command (d : Device) (value : UInt8) : Device :=
  if value = IDE_CMD_READ then { d with job := some ⟨false, d.lba, d.sectors⟩ }
  else if value = IDE_CMD_WRITE then { d with job := some ⟨true, d.lba, d.sectors⟩ }
  else { d with job := none }

def outb (d : Device) (port : UInt16) (value : UInt8) : Device :=
  if port = IOBASE + ISA_SECCNT then { d with seccnt := value }
  else if port = IOBASE + ISA_LBA_LOW then { d with lbaLow := value }
  else if port = IOBASE + ISA_LBA_MID then { d with lbaMid := value }
  else if port = IOBASE + ISA_LBA_HIGH then { d with lbaHigh := value }
  else if port = IOBASE + ISA_LBA_TOP then { d with lbaTop := value }
  else if port = IOBASE + ISA_COMMAND then d.command value
  else d

/-- `inb(IOBASE + ISA_STATUS)`. -/
def inbStatus (d : Device) : UInt8 × Device :=
  match d.busy with
  | busy + 1 => (STAT_BSY, { d with busy := busy })
  | 0 => (d.report d.answers &&& 0x7F,
      { d with answers := d.answers + 1, busy := d.stall (d.answers + 1) })

/-- `while ((r = inb(iobase + ISA_STATUS)) & STAT_BSY) cpu_hlt();`. -/
def pollReady : Nat → Device → Option (UInt8 × Device)
  | 0, _ => none
  | fuel + 1, d =>
    let (r, d) := d.inbStatus
    if r &&& STAT_BSY ≠ 0 then pollReady fuel d else some (r, d)

/-- The device is polled as often as it is busy, and once more. -/
def ideWaitReady (d : Device) (checkError : Bool) : Option (Int × Device) := do
  let (r, d) ← pollReady (d.busy + 1) d
  if checkError ∧ r &&& (STAT_DF ||| STAT_ERR) ≠ 0 then return (-1, d) else return (0, d)

/-- `insl(IOBASE, out, SECTSIZE / sizeof(uint32_t))`: one sector from the data port. Without a read
command the port reads as ones. -/
def insl (d : Device) (out : Nat) (mem : Memory) : Memory × Device :=
  let fill (sector : Sector) : Memory := fun a =>
    if out ≤ a ∧ a < out + SECTSIZE then sector (Fin.ofNat 512 (a - out)) else mem a
  match d.job with
  | some ⟨false, lba, left + 1⟩ => (fill (d.disk lba),
      { d with job := some ⟨false, lba + 1, left⟩, touched := lba :: d.touched })
  | _ => (fill fun _ => 0xFF, d)

/-- `outsl(IOBASE, input, SECTSIZE / sizeof(uint32_t))`: one sector to the data port. Without a write
command it is lost. -/
def outsl (d : Device) (input : Nat) (mem : Memory) : Device :=
  match d.job with
  | some ⟨true, lba, left + 1⟩ => { d with
      disk := Function.update d.disk lba fun i => mem (input + i)
      job := some ⟨true, lba + 1, left⟩
      touched := lba :: d.touched }
  | _ => d

/-- The port writes that start a command. -/
def program (d : Device) (secno : UInt32) (n : UInt32) (command : UInt8) : Device :=
  let d := d.outb (IOCTRL + ISA_CTRL) 0
  let d := d.outb (IOBASE + ISA_SECCNT) n.toUInt8
  let d := d.outb (IOBASE + ISA_LBA_LOW) (secno &&& 0xFF).toUInt8
  let d := d.outb (IOBASE + ISA_LBA_MID) ((secno >>> 8) &&& 0xFF).toUInt8
  let d := d.outb (IOBASE + ISA_LBA_HIGH) ((secno >>> 16) &&& 0xFF).toUInt8
  let d := d.outb (IOBASE + ISA_LBA_TOP) ((0xE0 : UInt32) ||| ((secno >>> 24) &&& 0xF)).toUInt8
  d.outb (IOBASE + ISA_COMMAND) command

end Device

/-! ### The driver -/

/-- The inner loop of `ide_read_secs`: the return value, and `n` and `out` where the loop ends. -/
def readSectors : Nat → Nat → Memory → Device → Option (Int × Nat × Nat × Memory × Device)
  | 0, out, mem, d => some (0, 0, out, mem, d)
  | n + 1, out, mem, d => do
    let (ret, d) ← d.ideWaitReady true
    if ret ≠ 0 then return (ret, n + 1, out, mem, d)
    let (mem, d) := d.insl out mem
    readSectors n (out + SECTSIZE) mem d

/-- The outer loop of `ide_read_secs`. -/
def readChunks : Nat → UInt32 → Nat → UInt32 → Memory → Device → Option (Int × Memory × Device)
  | 0, _, _, _, _, _ => none
  | fuel + 1, secno, out, nsecs, mem, d => do
    let n := min nsecs kMaxSectors
    let nsecs := nsecs - n
    let (_, d) ← d.ideWaitReady false
    let d := d.program secno n IDE_CMD_READ
    let (ret, n, out, mem, d) ← readSectors n.toNat out mem d
    if ret ≠ 0 then return (ret, mem, d)
    let secno := secno + UInt32.ofNat n
    let out := out + n * SECTSIZE
    if nsecs ≠ 0 then readChunks fuel secno out nsecs mem d else return (0, mem, d)

/-- The assertions at the head of both functions. The addition is one of `uint32_t`. -/
def secnoOk (d : Device) (secno nsecs : UInt32) : Bool :=
  d.valid = 1 ∧ secno < MAX_DISK_NSECS ∧ secno + nsecs ≤ MAX_DISK_NSECS

def ideReadSecs (secno : UInt32) (dst : Nat) (nsecs : UInt32) (mem : Memory) (d : Device) :
    Option (Int × Memory × Device) :=
  if secnoOk d secno nsecs then readChunks (nsecs.toNat + 1) secno dst nsecs mem d else none

/-- The inner loop of `ide_write_secs`. -/
def writeSectors : Nat → Nat → Memory → Device → Option (Int × Nat × Nat × Device)
  | 0, input, _, d => some (0, 0, input, d)
  | n + 1, input, mem, d => do
    let (ret, d) ← d.ideWaitReady true
    if ret ≠ 0 then return (ret, n + 1, input, d)
    let d := d.outsl input mem
    writeSectors n (input + SECTSIZE) mem d

/-- The outer loop of `ide_write_secs`. -/
def writeChunks : Nat → UInt32 → Nat → UInt32 → Memory → Device → Option (Int × Device)
  | 0, _, _, _, _, _ => none
  | fuel + 1, secno, input, nsecs, mem, d => do
    let n := min nsecs kMaxSectors
    let nsecs := nsecs - n
    let (_, d) ← d.ideWaitReady false
    let d := d.program secno n IDE_CMD_WRITE
    let (ret, n, input, d) ← writeSectors n.toNat input mem d
    if ret ≠ 0 then return (ret, d)
    let secno := secno + UInt32.ofNat n
    let input := input + n * SECTSIZE
    if nsecs ≠ 0 then writeChunks fuel secno input nsecs mem d else return (0, d)

def ideWriteSecs (secno : UInt32) (src : Nat) (nsecs : UInt32) (mem : Memory) (d : Device) :
    Option (Int × Device) :=
  if secnoOk d secno nsecs then writeChunks (nsecs.toNat + 1) secno src nsecs mem d else none

end Sprite.Ide

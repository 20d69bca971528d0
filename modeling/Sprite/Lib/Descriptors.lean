/-
**Segment and gate descriptors of the 32-bit x86.**

A descriptor is eight bytes of a table in memory, with its base, its limit or its offset in several
pieces. This is how the processor reads them, and what it does at an exception or an interrupt.

* `Gate.read`, `Segment.read` — the fields of a descriptor.
* `trap` — an exception or an interrupt: some exceptions push an error code.
-/
import Sprite.Lib.Records
import Sprite.Lib.X86

namespace X86

open Words

/-- A 16-bit word, its low byte first. -/
def bytes16 (value : UInt16) : List UInt8 := [UInt8.ofNat value.toNat, UInt8.ofNat (value.toNat / 256)]

/-- An interrupt or trap gate. -/
structure Gate where
  offset : UInt32
  selector : UInt16
  access : UInt8
  deriving DecidableEq

namespace Gate

def read : List UInt8 → Option Gate
  | [b0, b1, b2, b3, _, b5, b6, b7] => some
      { offset := UInt32.ofNat (b0.toNat + 256 * b1.toNat + 65536 * b6.toNat + 16777216 * b7.toNat)
        selector := UInt16.ofNat (b2.toNat + 256 * b3.toNat)
        access := b5 }
  | _ => none

/-- A 32-bit interrupt gate that is present: the processor disables interrupts on the way through. -/
def Interrupts (g : Gate) : Prop := g.access &&& 0x80 = 0x80 ∧ g.access &&& 0x1F = 0x0E

instance (g : Gate) : Decidable g.Interrupts := inferInstanceAs (Decidable (_ ∧ _))

end Gate

structure Segment where
  base : UInt32
  limit : UInt32
  access : UInt8
  flags : UInt8
  deriving DecidableEq

namespace Segment

def read : List UInt8 → Option Segment
  | [b0, b1, b2, b3, b4, b5, b6, b7] => some
      { base := UInt32.ofNat (b2.toNat + 256 * b3.toNat + 65536 * b4.toNat + 16777216 * b7.toNat)
        limit := UInt32.ofNat (b0.toNat + 256 * b1.toNat + 65536 * (b6.toNat % 16))
        access := b5
        flags := b6 &&& 0xF0 }
  | _ => none

/-- The last offset of the segment: a limit may count pages. -/
def last (s : Segment) : UInt32 := if s.flags &&& 0x80 = 0x80 then s.limit * 4096 + 4095 else s.limit

/-- **A flat segment**: an offset is an address, and every address is one. -/
def Flat (s : Segment) : Prop := s.base = 0 ∧ s.last = 0xFFFFFFFF

instance (s : Segment) : Decidable s.Flat := inferInstanceAs (Decidable (_ ∧ _))

/-- The privilege level. -/
def level (s : Segment) : UInt8 := s.access >>> 5 &&& 3

/-- A segment that is present and holds code, or else data that can be written. -/
def IsCode (s : Segment) : Prop := s.access &&& 0x98 = 0x98
def IsData (s : Segment) : Prop := s.access &&& 0x98 = 0x90 ∧ s.access &&& 2 = 2

instance (s : Segment) : Decidable s.IsCode := inferInstanceAs (Decidable (_ = _))
instance (s : Segment) : Decidable s.IsData := inferInstanceAs (Decidable (_ ∧ _))

end Segment

/-- The exceptions that push an error code: double fault, the faults of segments and pages, and the
alignment check. -/
def PushesErrorCode (vector : UInt8) : Prop :=
  vector.toNat = 8 ∨ 10 ≤ vector.toNat ∧ vector.toNat ≤ 14 ∨ vector.toNat = 17

instance (vector : UInt8) : Decidable (PushesErrorCode vector) := inferInstanceAs (Decidable (_ ∨ _))

/-- An exception or an interrupt through an interrupt gate. -/
def trap (selector : UInt16) (vector : UInt8) (errCode : UInt32) (c : Cpu) : Cpu :=
  if PushesErrorCode vector then (interrupt selector c).push errCode else interrupt selector c

theorem masked_trap (selector : UInt16) (vector : UInt8) (errCode : UInt32) (c : Cpu) :
    Masked (trap selector vector errCode c) := by
  unfold trap
  split_ifs
  · exact masked_interrupt selector c
  · exact masked_interrupt selector c

end X86

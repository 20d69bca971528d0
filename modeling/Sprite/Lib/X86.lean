/-
**A small part of the 32-bit x86.**

Registers, flags, byte memory and the instructions that save and restore them, which is what an
interrupt stub or a context switch is made of. The machine runs in ring 0 over flat segments, so an
address means the same through every data selector. The flags are one word, which `popf` and `iret`
load whole. `eip` is only kept where control is handed over: by an interrupt, a call or a return.

* `exec`, `run` — one instruction, and a list of them.
* `runMasked` — a list of instructions up to the first that enables interrupts.
* `interrupt`, `call` — the two other ways into code.
* `runMasked_append` — code without `popf` and `iret` keeps interrupts disabled.
* `OnStack` — the words on top of the stack, and what pushing does to them.
-/
import Sprite.Lib.Areas

namespace X86

open Words

inductive Reg where
  | eax | ecx | edx | ebx | esp | ebp | esi | edi
  deriving DecidableEq

/-- The data selectors. -/
inductive Sel where
  | ds | es | fs | gs | ss
  deriving DecidableEq

structure Registers where
  eax : UInt32
  ecx : UInt32
  edx : UInt32
  ebx : UInt32
  esp : UInt32
  ebp : UInt32
  esi : UInt32
  edi : UInt32
  ds : UInt16
  es : UInt16
  fs : UInt16
  gs : UInt16
  ss : UInt16
  cs : UInt16
  eip : UInt32
  eflags : UInt32
  deriving DecidableEq

namespace Registers

def get (regs : Registers) : Reg → UInt32
  | .eax => regs.eax
  | .ecx => regs.ecx
  | .edx => regs.edx
  | .ebx => regs.ebx
  | .esp => regs.esp
  | .ebp => regs.ebp
  | .esi => regs.esi
  | .edi => regs.edi

def set (regs : Registers) (value : UInt32) : Reg → Registers
  | .eax => { regs with eax := value }
  | .ecx => { regs with ecx := value }
  | .edx => { regs with edx := value }
  | .ebx => { regs with ebx := value }
  | .esp => { regs with esp := value }
  | .ebp => { regs with ebp := value }
  | .esi => { regs with esi := value }
  | .edi => { regs with edi := value }

def getSel (regs : Registers) : Sel → UInt16
  | .ds => regs.ds
  | .es => regs.es
  | .fs => regs.fs
  | .gs => regs.gs
  | .ss => regs.ss

def setSel (regs : Registers) (value : UInt16) : Sel → Registers
  | .ds => { regs with ds := value }
  | .es => { regs with es := value }
  | .fs => { regs with fs := value }
  | .gs => { regs with gs := value }
  | .ss => { regs with ss := value }

end Registers

structure Cpu where
  regs : Registers
  memory : Memory

/-! ### Flags -/

/-- The interrupt flag. -/
def flagIF : UInt32 := 0x200

/-- What an interrupt gate clears: TF, IF, NT, RF and VM. -/
def gateFlags : UInt32 := 0x34300

/-- What an addition sets: CF, PF, AF, ZF, SF and OF. -/
def statusFlags : UInt32 := 0x8D5

/-- Whether a byte has an even number of bits set. -/
def evenParity (value : UInt32) : Bool :=
  let half := value ^^^ (value >>> 4)
  let pair := half ^^^ (half >>> 2)
  ((pair ^^^ (pair >>> 1)) &&& 1) == 0

/-- The status flags of an addition. -/
def addStatus (a b : UInt32) : UInt32 :=
  let sum := a + b
  let carry : UInt32 := if sum < a then 0x1 else 0
  let parity : UInt32 := if evenParity sum then 0x4 else 0
  let adjust := (a ^^^ b ^^^ sum) &&& 0x10
  let zero : UInt32 := if sum = 0 then 0x40 else 0
  let sign := (sum >>> 24) &&& 0x80
  let overflow := (((a ^^^ sum) &&& (b ^^^ sum)) >>> 20) &&& 0x800
  carry ||| parity ||| adjust ||| zero ||| sign ||| overflow

/-! ### Instructions -/

inductive Instr where
  | cli
  | pushImm (value : UInt32)
  | push (reg : Reg)
  | pop (reg : Reg)
  | pushf
  | popf
  | pusha
  | popa
  /-- `mov dst, [base + offset]`. -/
  | load (dst base : Reg) (offset : UInt32)
  /-- `mov [base + offset], src`. -/
  | store (base : Reg) (offset : UInt32) (src : Reg)
  /-- `mov dst, src`. -/
  | mov (dst src : Reg)
  /-- `add reg, value`. -/
  | addImm (reg : Reg) (value : UInt32)
  /-- `mov` of a 16-bit value into the low half of a register. -/
  | movImm16 (reg : Reg) (value : UInt16)
  /-- `mov` of a selector into the low half of a register. -/
  | movFromSel (reg : Reg) (sel : Sel)
  /-- `mov` of the low half of a register into a selector. -/
  | movToSel (sel : Sel) (reg : Reg)
  | ret
  | iret
  deriving DecidableEq

/-- Another low half for a register. -/
def setLow16 (value : UInt32) (low : UInt16) : UInt32 := (value &&& 0xFFFF0000) ||| low.toUInt32

namespace Cpu

def push (c : Cpu) (value : UInt32) : Cpu where
  regs := { c.regs with esp := c.regs.esp - 4 }
  memory := store32 c.memory (c.regs.esp - 4) value

/-- The words are pushed in the order of the list. -/
def pushAll (c : Cpu) (words : List UInt32) : Cpu := words.foldl push c

/-- The word on top of the stack. -/
def top (c : Cpu) : UInt32 := load32 c.memory c.regs.esp

/-- The word on top of the stack is taken off it. -/
def drop (c : Cpu) : Cpu := { c with regs := { c.regs with esp := c.regs.esp + 4 } }

def set (c : Cpu) (value : UInt32) (reg : Reg) : Cpu := { c with regs := c.regs.set value reg }

def pop (c : Cpu) (reg : Reg) : Cpu := c.drop.set c.top reg

/-- Every register as it is before the first push. -/
def pusha (c : Cpu) : Cpu :=
  ((((((((c.push c.regs.eax).push c.regs.ecx).push c.regs.edx).push c.regs.ebx).push
    c.regs.esp).push c.regs.ebp).push c.regs.esi).push c.regs.edi)

/-- The stack pointer that `pusha` has saved is skipped. -/
def popa (c : Cpu) : Cpu :=
  (((((((c.pop .edi).pop .esi).pop .ebp).drop.pop .ebx).pop .edx).pop .ecx).pop .eax)

def setFlags (c : Cpu) (flags : UInt32) : Cpu := { c with regs := { c.regs with eflags := flags } }

def ret (c : Cpu) : Cpu := { c.drop with regs := { c.drop.regs with eip := c.top } }

/-- A return within ring 0. -/
def iret (c : Cpu) : Cpu :=
  let c := c.ret
  let c := { c.drop with regs := { c.drop.regs with cs := c.top.toUInt16 } }
  c.drop.setFlags c.top

/-- Eight words are taken off the stack, and all but the fourth go to registers. -/
theorem popa_eq (c : Cpu) : c.popa = ⟨{ c.regs with
    edi := load32 c.memory c.regs.esp, esi := load32 c.memory (c.regs.esp + 4)
    ebp := load32 c.memory (c.regs.esp + 8), ebx := load32 c.memory (c.regs.esp + 16)
    edx := load32 c.memory (c.regs.esp + 20), ecx := load32 c.memory (c.regs.esp + 24)
    eax := load32 c.memory (c.regs.esp + 28), esp := c.regs.esp + 32 }, c.memory⟩ := by
  simp only [popa, pop, drop, top, set, Registers.set, UInt32.add_assoc, UInt32.reduceAdd]

/-- Three words are taken off the stack. -/
theorem iret_eq (c : Cpu) : c.iret = ⟨{ c.regs with
    eip := load32 c.memory c.regs.esp, cs := (load32 c.memory (c.regs.esp + 4)).toUInt16
    eflags := load32 c.memory (c.regs.esp + 8), esp := c.regs.esp + 12 }, c.memory⟩ := by
  simp only [iret, ret, drop, top, setFlags, UInt32.add_assoc, UInt32.reduceAdd]

end Cpu

def exec : Instr → Cpu → Cpu
  | .cli, c => c.setFlags (c.regs.eflags &&& ~~~flagIF)
  | .pushImm value, c => c.push value
  | .push reg, c => c.push (c.regs.get reg)
  | .pop reg, c => c.pop reg
  | .pushf, c => c.push c.regs.eflags
  | .popf, c => c.drop.setFlags c.top
  | .pusha, c => c.pusha
  | .popa, c => c.popa
  | .load dst base offset, c => c.set (load32 c.memory (c.regs.get base + offset)) dst
  | .store base offset src, c =>
      { c with memory := store32 c.memory (c.regs.get base + offset) (c.regs.get src) }
  | .mov dst src, c => c.set (c.regs.get src) dst
  | .addImm reg value, c =>
      (c.set (c.regs.get reg + value) reg).setFlags
        ((c.regs.eflags &&& ~~~statusFlags) ||| (addStatus (c.regs.get reg) value &&& statusFlags))
  | .movImm16 reg value, c => c.set (setLow16 (c.regs.get reg) value) reg
  | .movFromSel reg sel, c => c.set (setLow16 (c.regs.get reg) (c.regs.getSel sel)) reg
  | .movToSel sel reg, c => { c with regs := c.regs.setSel (c.regs.get reg).toUInt16 sel }
  | .ret, c => c.ret
  | .iret, c => c.iret

def run (code : List Instr) (c : Cpu) : Cpu := code.foldl (fun c instr => exec instr c) c

/-- Interrupts are disabled. -/
def Masked (c : Cpu) : Prop := c.regs.eflags &&& flagIF = 0

instance (c : Cpu) : Decidable (Masked c) := inferInstanceAs (Decidable (_ = _))

/-- A list of instructions that starts with interrupts disabled. Where one of them has enabled
interrupts, the instructions behind it are left. -/
def runMasked : List Instr → Cpu → List Instr × Cpu
  | [], c => ([], c)
  | instr :: rest, c =>
    if Masked (exec instr c) then runMasked rest (exec instr c) else (rest, exec instr c)

/-- An interrupt through a gate to the code selector `selector`, without a change of privilege. -/
def interrupt (selector : UInt16) (c : Cpu) : Cpu :=
  let c' := ((c.push c.regs.eflags).push c.regs.cs.toUInt32).push c.regs.eip
  { c' with regs := { c'.regs with eflags := c.regs.eflags &&& ~~~gateFlags, cs := selector } }

/-- `call`, with the address of the instruction behind it. -/
def call (back : UInt32) (c : Cpu) : Cpu := c.push back

/-! ### Which code keeps interrupts disabled -/

/-- Only `popf` and `iret` may enable interrupts. -/
def Instr.Quiet (instr : Instr) : Prop := instr ≠ .popf ∧ instr ≠ .iret

instance (instr : Instr) : Decidable instr.Quiet := inferInstanceAs (Decidable (_ ∧ _))

@[simp] theorem Registers.eflags_set (regs : Registers) (value : UInt32) (reg : Reg) :
    (regs.set value reg).eflags = regs.eflags := by
  cases reg <;> rfl

@[simp] theorem Registers.eflags_setSel (regs : Registers) (value : UInt16) (sel : Sel) :
    (regs.setSel value sel).eflags = regs.eflags := by
  cases sel <;> rfl

/-- Clearing flags among which is IF. -/
theorem and_flagIF_eq_zero (flags : UInt32) {kept : UInt32} (clears : kept &&& flagIF = 0) :
    flags &&& kept &&& flagIF = 0 := by
  rw [UInt32.and_assoc, clears, UInt32.and_zero]

/-- The status flags do not overlap IF. -/
theorem status_and_flagIF (flags status : UInt32) :
    (flags &&& ~~~statusFlags ||| status &&& statusFlags) &&& flagIF = flags &&& flagIF := by
  have split : ∀ a b : UInt32, (a ||| b) &&& flagIF = a &&& flagIF ||| b &&& flagIF := by
    intro a b
    rw [← UInt32.toBitVec_inj]
    simp only [UInt32.toBitVec_and, UInt32.toBitVec_or]
    exact BitVec.and_or_distrib_right
  rw [split, UInt32.and_assoc, UInt32.and_assoc, show ~~~statusFlags &&& flagIF = flagIF from by decide,
    show statusFlags &&& flagIF = 0 from by decide, UInt32.and_zero, UInt32.or_zero]

theorem masked_interrupt (selector : UInt16) (c : Cpu) : Masked (interrupt selector c) := by
  exact and_flagIF_eq_zero _ (by decide)

theorem masked_exec {instr : Instr} (quiet : instr.Quiet) {c : Cpu} (masked : Masked c) :
    Masked (exec instr c) := by
  unfold Masked at masked ⊢
  cases instr with
  | cli => exact and_flagIF_eq_zero _ (by decide)
  | addImm reg value => exact (status_and_flagIF _ _).trans masked
  | popf => exact absurd rfl quiet.1
  | iret => exact absurd rfl quiet.2
  | _ => simpa [exec, Cpu.push, Cpu.pop, Cpu.drop, Cpu.set, Cpu.pusha, Cpu.popa, Cpu.ret] using masked

theorem Masked.call {c : Cpu} (masked : Masked c) (back : UInt32) : Masked (call back c) := masked

/-- **Code without `popf` and `iret` keeps interrupts disabled** and runs to its end. -/
theorem runMasked_append (code : List Instr) (quiet : ∀ instr ∈ code, instr.Quiet)
    (rest : List Instr) : ∀ {c : Cpu}, Masked c →
    runMasked (code ++ rest) c = runMasked rest (run code c) ∧ Masked (run code c) := by
  induction code with
  | nil => exact fun masked => ⟨rfl, masked⟩
  | cons instr code ih =>
    intro c masked
    have masked' := masked_exec (quiet instr List.mem_cons_self) masked
    rw [List.cons_append, runMasked, if_pos masked']
    exact ih (fun other inside => quiet other (List.mem_cons_of_mem _ inside)) masked'

/-- The last instruction is followed by nothing. -/
theorem runMasked_last (instr : Instr) (c : Cpu) : runMasked [instr] c = ([], exec instr c) := by
  unfold runMasked
  split_ifs <;> rfl

theorem toUInt16_setLow16 (value : UInt32) (low : UInt16) : (setLow16 value low).toUInt16 = low := by
  rw [setLow16, UInt32.toUInt16_or, UInt32.toUInt16_and, UInt16.toUInt16_toUInt32,
    show (0xFFFF0000 : UInt32).toUInt16 = 0 from rfl, UInt16.and_zero, UInt16.zero_or]

theorem sub_sub (a b c : UInt32) : a - b - c = a - (b + c) := by
  rw [← UInt32.toBitVec_inj]
  simp only [UInt32.toBitVec_sub, UInt32.toBitVec_add]
  bv_omega

/-! ### The stack -/

/-- The words on top of the stack, the first of them where the stack pointer is. -/
structure OnStack (c : Cpu) (words : List UInt32) : Prop where
  fits : c.regs.esp.toNat + 4 * words.length ≤ 2 ^ 32
  spelled : Spelled c.memory c.regs.esp words

variable {c c' : Cpu} {words : List UInt32}

theorem onStack_nil (c : Cpu) : OnStack c [] :=
  ⟨Nat.le_of_lt c.regs.esp.toNat_lt, True.intro⟩

/-- What else is in the registers does not matter. -/
theorem OnStack.congr (stack : OnStack c words) (esp : c'.regs.esp = c.regs.esp)
    (memory : c'.memory = c.memory) : OnStack c' words := by
  obtain ⟨fits, spelled⟩ := stack
  rw [← esp] at fits spelled
  rw [← memory] at spelled
  exact ⟨fits, spelled⟩

theorem toNat_push_esp (room : 4 ≤ c.regs.esp.toNat) (value : UInt32) :
    (c.push value).regs.esp.toNat = c.regs.esp.toNat - 4 :=
  UInt32.toNat_sub_of_le _ _ (UInt32.le_iff_toNat_le.mpr room)

/-- A push writes the four bytes below the stack pointer. -/
theorem within_push (room : 4 ≤ c.regs.esp.toNat) (value : UInt32) :
    Within (between (c.regs.esp.toNat - 4) c.regs.esp.toNat) c.memory (c.push value).memory := by
  have small := c.regs.esp.toNat_lt
  have place : (c.regs.esp - 4).toNat = c.regs.esp.toNat - 4 := toNat_push_esp room value
  have within := within_store32 c.memory value (show (c.regs.esp - 4).toNat + 4 ≤ 2 ^ 32 by omega)
  rw [place, Nat.sub_add_cancel room] at within
  exact within

theorem OnStack.push (stack : OnStack c words) (room : 4 ≤ c.regs.esp.toNat) (value : UInt32) :
    OnStack (c.push value) (value :: words) := by
  have esp := toNat_push_esp room value
  have fits := stack.fits
  refine ⟨?_, load32_store32 _ _ _, ?_⟩
  · rw [esp, List.length_cons]
    omega
  · have back : (c.push value).regs.esp + 4 = c.regs.esp := UInt32.sub_add_cancel _ _
    rw [back]
    refine stack.spelled.congr words fits fun place inside => within_push room value place ?_
    rintro ⟨-, high⟩
    exact absurd inside.1 (Nat.not_le_of_lt high)

/-! ### Pushing several words -/

theorem toNat_pushAll_esp (pushed : List UInt32) : ∀ {c : Cpu}, 4 * pushed.length ≤ c.regs.esp.toNat →
    (c.pushAll pushed).regs.esp.toNat = c.regs.esp.toNat - 4 * pushed.length := by
  induction pushed with
  | nil => exact fun _ => rfl
  | cons word rest ih =>
    intro c room
    rw [List.length_cons] at room ⊢
    have esp := toNat_push_esp (c := c) (by omega) word
    exact (ih (c := c.push word) (by omega)).trans (by omega)

theorem within_pushAll (pushed : List UInt32) : ∀ {c : Cpu}, 4 * pushed.length ≤ c.regs.esp.toNat →
    Within (between (c.regs.esp.toNat - 4 * pushed.length) c.regs.esp.toNat) c.memory
      (c.pushAll pushed).memory := by
  induction pushed with
  | nil => exact fun {c} _ => Within.refl _ c.memory
  | cons word rest ih =>
    intro c room
    rw [List.length_cons] at room ⊢
    have esp := toNat_push_esp (c := c) (by omega) word
    have first := within_push (c := c) (by omega) word
    have others := ih (c := c.push word) (by omega)
    rw [esp] at others
    exact (first.mono (between_subset (by omega) le_rfl)).trans
      (others.mono (between_subset (by omega) (by omega)))

theorem OnStack.pushAll (pushed : List UInt32) : ∀ {c : Cpu} {words : List UInt32}, OnStack c words →
    4 * pushed.length ≤ c.regs.esp.toNat → OnStack (c.pushAll pushed) (pushed.reverse ++ words) := by
  induction pushed with
  | nil => exact fun stack _ => stack
  | cons word rest ih =>
    intro c words stack room
    rw [List.length_cons] at room
    have esp := toNat_push_esp (c := c) (by omega) word
    have pushed := ih (stack.push (by omega) word) (by omega)
    rw [List.reverse_cons, List.append_assoc]
    exact pushed

/-- The stack is kept by what writes below it only. -/
theorem OnStack.kept (stack : OnStack c words) (esp : c'.regs.esp = c.regs.esp)
    (same : ∀ place ∈ spread c.regs.esp words, c'.memory place = c.memory place) :
    OnStack c' words := by
  refine ⟨by rw [esp]; exact stack.fits, ?_⟩
  rw [esp]
  exact stack.spelled.congr words stack.fits same

end X86

/-
**Stack traces**, after `print_stack_trace` of `src/lib/debug.cc`.

The walk follows the saved frame pointers up to the 0 that `kern_entry` begins with, and prints for each
frame its return address and the function that is in. Whatever functions call, return and keep in their
own frames, it shows the calls that are pending; in a memory that is not like that it may not end.

* `printStackTrace` — the loop, with the lines that it prints.
* `trace_shows_calls` — **what it prints in every state of every run of calls and returns**.
* `trace_ends_iff` — **when it ends**, in any memory.
-/
import Mathlib.Data.FinEnum
import Sprite.Debug.Elf
import Sprite.Lib.Descent
import Sprite.Lib.Frames
import Sprite.Lib.Runs

namespace Sprite.Debug

open Words X86 Runs Relation

/-- A line that is printed: a return address, and where the name of its function is. -/
structure TraceLine where
  eip : UInt32
  name : Option UInt32

def traceLine (memory : Memory) (elf : Elf) (eip : UInt32) : TraceLine where
  eip := eip
  name := elfLookupSymbol memory eip elf

/-- `print_stack_trace`, from a frame pointer on. -/
def printStackTrace (memory : Memory) (elf : Elf) : Nat → UInt32 → Option (List TraceLine)
  | 0, _ => none
  | fuel + 1, ebp =>
    if ebp = 0 then some []
    else (printStackTrace memory elf fuel (load32 memory ebp)).map
      (traceLine memory elf (load32 memory (ebp + 4)) :: ·)

variable {memory : Memory} {elf : Elf} {top : Nat} {ebp : UInt32} {calls : List UInt32}

/-- **A chain of frames is printed** from the innermost frame to the outermost one. -/
theorem printStackTrace_chain (elf : Elf) (chain : Chain memory top ebp calls) :
    printStackTrace memory elf (calls.length + 1) ebp = some (calls.map (traceLine memory elf)) := by
  induction calls generalizing ebp with
  | nil => exact if_pos chain
  | cons back calls ih =>
    obtain ⟨notNull, -, isBack, -, rest⟩ := chain
    rw [List.length_cons, printStackTrace, if_neg notNull, ih rest, isBack, Option.map_some, List.map_cons]

/-! ### Calls and returns -/

/-- A processor, and the return addresses of the calls that are pending on its stack. -/
structure Traced where
  cpu : Cpu
  calls : List UInt32

/-- A function calls another one, or does something else, or returns. -/
inductive Doing where
  | enter (back : UInt32)
  | work (cpu : Cpu)
  | leave

namespace Traced

def step (x : Traced) : Doing → Option Traced
  | .enter back => some ⟨enterFrame back x.cpu, back :: x.calls⟩
  | .work cpu => some ⟨cpu, x.calls⟩
  | .leave => some ⟨leaveFrame x.cpu, x.calls.tail⟩

/-- There is room for a call. A function keeps its frame pointer, its stack pointer below its frame, and
the bytes of the stack from its frame upwards, where its saved registers and its callers are. It returns
if it has been called. -/
def Legal (top : Nat) (x : Traced) : Doing → Prop
  | .enter _ => 8 < x.cpu.regs.esp.toNat
  | .work cpu => cpu.regs.ebp = x.cpu.regs.ebp ∧ cpu.regs.esp.toNat ≤ frameBase top x.cpu.regs.ebp
      ∧ ∀ place ∈ between (frameBase top x.cpu.regs.ebp) top, cpu.memory place = x.cpu.memory place
  | .leave => x.calls ≠ []

/-- **The trace is that of the pending calls**, the innermost one first, and a return goes to the first
of them. -/
def Right (elf : Elf) (x : Traced) : Prop :=
  (∃ fuel, printStackTrace x.cpu.memory elf fuel x.cpu.regs.ebp
      = some (x.calls.map (traceLine x.cpu.memory elf)))
    ∧ ∀ back ∈ x.calls.head?, (leaveFrame x.cpu).regs.eip = back

/-- **The invariant.** -/
structure Sound (top : Nat) (x : Traced) : Prop where
  chain : Chain x.cpu.memory top x.cpu.regs.ebp x.calls
  below : x.cpu.regs.esp.toNat ≤ frameBase top x.cpu.regs.ebp

variable {x : Traced}

theorem enter_sound (small : top < 2 ^ 32) (sound : Sound top x) (room : 8 < x.cpu.regs.esp.toNat)
    (back : UInt32) : Sound top ⟨enterFrame back x.cpu, back :: x.calls⟩ := by
  obtain ⟨chain, -⟩ := enter_chain sound.chain small.le room sound.below back
  refine ⟨chain, ?_⟩
  show (enterFrame back x.cpu).regs.esp.toNat ≤ frameBase top (enterFrame back x.cpu).regs.ebp
  have same : (enterFrame back x.cpu).regs.esp = (enterFrame back x.cpu).regs.ebp := rfl
  rw [same, frameBase, if_neg chain.1]

theorem work_sound (small : top < 2 ^ 32) (sound : Sound top x) {cpu : Cpu}
    (legal : Legal top x (.work cpu)) : Sound top ⟨cpu, x.calls⟩ := by
  obtain ⟨sameFrame, below, same⟩ := legal
  refine ⟨?_, ?_⟩
  · show Chain cpu.memory top cpu.regs.ebp x.calls
    rw [sameFrame]
    exact sound.chain.congr small.le same
  · show cpu.regs.esp.toNat ≤ frameBase top cpu.regs.ebp
    rw [sameFrame]
    exact below

theorem leave_sound (small : top < 2 ^ 32) (sound : Sound top x) (called : x.calls ≠ []) :
    Sound top ⟨leaveFrame x.cpu, x.calls.tail⟩ := by
  obtain ⟨back, rest, isCalls⟩ := List.exists_cons_of_ne_nil called
  have chain := sound.chain
  rw [isCalls] at chain
  obtain ⟨-, left, above, esp⟩ := leave_chain chain small.le
  refine ⟨?_, ?_⟩
  · rw [isCalls]
    exact left
  · have fits := frameBase_le left
    rw [esp.resolve_right fun whole => by omega]
    exact above

theorem Sound.right (small : top < 2 ^ 32) (sound : Sound top x) (elf : Elf) : Right elf x := by
  refine ⟨⟨_, printStackTrace_chain elf sound.chain⟩, fun back isHead => ?_⟩
  obtain ⟨rest, isCalls⟩ := List.head?_eq_some_iff.mp isHead
  have chain := sound.chain
  rw [isCalls] at chain
  exact (leave_chain chain small.le).1

end Traced

/-- **The trace shows the calls that are pending**, in every state of every run of calls, returns and
whatever functions do to their own frames, from a frame pointer 0 on: it ends, and has a line for each
call, the innermost one first. -/
theorem trace_shows_calls (small : top < 2 ^ 32) (c : Cpu) (first : c.regs.ebp = 0)
    (below : c.regs.esp.toNat ≤ top) (elf : Elf) (doings : List Doing) :
    Along Traced.step (Traced.Legal top) (Traced.Right elf) ⟨c, []⟩ doings := by
  refine along_of_invariant (Traced.Sound top) (fun x doing sound legal => ?_)
    (fun _ sound => sound.right small elf) doings _ ⟨first, ?_⟩
  · cases doing with
    | enter back => exact ⟨_, rfl, Traced.enter_sound small sound legal back⟩
    | work cpu => exact ⟨_, rfl, Traced.work_sound small sound legal⟩
    | leave => exact ⟨_, rfl, Traced.leave_sound small sound legal⟩
  · show c.regs.esp.toNat ≤ frameBase top c.regs.ebp
    rwa [frameBase, if_pos first]

/-- The processor where `kern_entry` has set up the stack of the kernel. -/
def entryCpu : Cpu where
  regs :=
    { eax := 0, ecx := 0, edx := 0, ebx := 0, esp := 0xC0108000, ebp := 0, esi := 0, edi := 0
      ds := 0x10, es := 0x10, fs := 0x10, gs := 0x10, ss := 0x10, cs := 0x08
      eip := 0xC0100000, eflags := 0x2 }
  memory := fun _ => 0

/-- Three calls, a return, and another call. -/
theorem entry_trace_shows_calls :
    Along Traced.step (Traced.Legal 0xC0108000) (Traced.Right ⟨0x001000A0, 32, 0x00100078, 22⟩) ⟨entryCpu, []⟩
      [.enter 0xC0100050, .enter 0xC0100210, .enter 0xC0100370, .leave, .enter 0xC0100390] :=
  trace_shows_calls (by decide) entryCpu rfl le_rfl _ _

/-! ### When it ends -/

/-- The frame pointer `b` is saved at `a`. -/
def Saves (memory : Memory) (a b : UInt32) : Prop := a ≠ 0 ∧ load32 memory a = b

/-- The walk ends from where every way up ends. -/
theorem ends_iff_acc : (∃ fuel lines, printStackTrace memory elf fuel ebp = some lines) ↔
    Acc (Function.swap (Saves memory)) ebp := by
  constructor
  · rintro ⟨fuel, lines, ran⟩
    induction fuel generalizing ebp lines with
    | zero => cases ran
    | succ fuel ih =>
      refine ⟨_, fun next saves => ?_⟩
      obtain ⟨notNull, rfl⟩ : Saves memory ebp next := saves
      rw [printStackTrace, if_neg notNull] at ran
      obtain ⟨others, rest, -⟩ := Option.map_eq_some_iff.mp ran
      exact ih others rest
  · intro acc
    induction acc with
    | intro ebp _ ih =>
      by_cases null : ebp = 0
      · exact ⟨1, [], if_pos null⟩
      · obtain ⟨fuel, lines, ran⟩ := ih (load32 memory ebp) ⟨null, rfl⟩
        exact ⟨fuel + 1, _, by rw [printStackTrace, if_neg null, ran, Option.map_some]⟩

/-- **When the trace ends**: if the saved frame pointers never lead back to one they have passed, whatever
is in memory. -/
theorem trace_ends_iff (memory : Memory) (elf : Elf) (ebp : UInt32) :
    (∃ fuel lines, printStackTrace memory elf fuel ebp = some lines) ↔
      ∀ frame, ReflTransGen (Saves memory) ebp frame → ¬ TransGen (Saves memory) frame frame := by
  rw [ends_iff_acc, Descent.acc_iff_no_cycle]

end Sprite.Debug

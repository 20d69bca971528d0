/-
**Interrupt stub and context switch**, after `src/lib/isr.s` and `src/lib/switch_to.s`.

* `irq0`, `irqCommonStub`, `irqCommonStubEnd` — the way of a timer interrupt to `irq_dispatcher` and
  back.
* `saveContext`, `loadContext`, `switchTo` — `switch_to`, whose two parts serve two tasks.
* `enter_spec`, `leave_spec` — what the stub pushes, and that its end takes it all back.
* `saveContext_spec`, `loadContext_spec` — a context is stored, and another one loaded.
-/
import Sprite.Lib.X86
import Sprite.Sched.TaskScheduler

namespace Sprite.Sched

open X86 Words

/-- The code selector that `init_idt` gives every gate. -/
def KERNEL_CS : UInt16 := 0x08

/-- `IRQ 0, 32`, up to the jump to `irq_common_stub`. -/
def irq0 : List Instr := [.cli, .pushImm 0, .pushImm 32]

/-- `irq_common_stub`, up to the call of `irq_dispatcher`. -/
def irqCommonStub : List Instr :=
  [.pusha,
   .movFromSel .eax .ds, .push .eax,
   .movImm16 .eax 0x10,
   .movToSel .ds .eax, .movToSel .es .eax, .movToSel .fs .eax, .movToSel .gs .eax, .movToSel .ss .eax,
   .push .esp]

/-- `irq_common_stub`, from behind the call of `irq_dispatcher` to its `iret`. -/
def irqCommonStubEnd : List Instr :=
  [.addImm .esp 4,
   .pop .ebx,
   .movToSel .ds .ebx, .movToSel .es .ebx, .movToSel .fs .ebx, .movToSel .gs .ebx, .movToSel .ss .ebx,
   .popa,
   .addImm .esp 8]

/-- The first half of `switch_to`. -/
def saveContext : List Instr :=
  [.load .eax .esp 4,
   .store .eax 0 .esp, .store .eax 4 .ebp, .store .eax 8 .ebx, .store .eax 12 .esi, .store .eax 16 .edi,
   .pushf, .pop .ecx, .store .eax 20 .ecx]

/-- The second half of `switch_to`, up to `popf`. -/
def loadContext : List Instr :=
  [.load .eax .esp 8,
   .load .esp .eax 0, .load .ebp .eax 4, .load .ebx .eax 8, .load .esi .eax 12, .load .edi .eax 16,
   .load .eax .eax 20, .push .eax]

def switchTo : List Instr := saveContext ++ loadContext ++ [.popf, .ret]

/-- The words of a context, in the order of its fields. -/
def TaskContext.words (ctx : TaskContext) : List UInt32 :=
  [ctx.esp, ctx.ebp, ctx.ebx, ctx.esi, ctx.edi, ctx.eflags]

/-- The registers that `switch_to` saves. -/
def contextOf (regs : Registers) : TaskContext :=
  ⟨regs.esp, regs.ebp, regs.ebx, regs.esi, regs.edi, regs.eflags⟩

/-- `pt_regs` as the stub leaves it on the stack, from `ds` to `eflags`, for the registers of the
interrupted code. -/
def ptRegs (regs : Registers) : List UInt32 :=
  [setLow16 regs.eax regs.ds, regs.edi, regs.esi, regs.ebp, regs.esp - 20, regs.ebx, regs.edx, regs.ecx,
   regs.eax, 32, 0, regs.eip, regs.cs.toUInt32, regs.eflags]

variable {c a d : Cpu} {back last target : UInt32}

/-! ### The stub -/

/-- Where `irq_dispatcher` is entered, when the interrupt came in the state `c` and `back` is the
address behind the call. -/
def entered (back : UInt32) (c : Cpu) : Cpu :=
  call back (run (irq0 ++ irqCommonStub) (interrupt KERNEL_CS c))

/-- Up to the call the stub runs with interrupts disabled. -/
theorem stub_runs (c : Cpu) :
    runMasked (irq0 ++ irqCommonStub) (interrupt KERNEL_CS c)
        = ([], run (irq0 ++ irqCommonStub) (interrupt KERNEL_CS c))
      ∧ Masked (run (irq0 ++ irqCommonStub) (interrupt KERNEL_CS c)) := by
  have runs := runMasked_append (irq0 ++ irqCommonStub) (by decide) [] (masked_interrupt KERNEL_CS c)
  rw [List.append_nil] at runs
  exact runs

/-- What the stub pushes, from the top: the return address, the address of `pt_regs` and that. -/
def pushedWords (back : UInt32) (regs : Registers) : List UInt32 :=
  back :: (regs.esp - 56) :: ptRegs regs

theorem entered_eq (back : UInt32) (c : Cpu) :
    (entered back c).memory = (c.pushAll (pushedWords back c.regs).reverse).memory
      ∧ (entered back c).regs.esp = (c.pushAll (pushedWords back c.regs).reverse).regs.esp := by
  unfold entered call
  simp only [run, irq0, irqCommonStub, List.cons_append, List.nil_append, List.foldl, exec, interrupt,
    Cpu.push, Cpu.pusha, Cpu.pushAll, Cpu.set, Registers.set, Registers.get, Registers.getSel,
    Registers.setSel, Cpu.setFlags, pushedWords, ptRegs, List.reverse, List.reverseAux, sub_sub,
    UInt32.reduceAdd, and_self]

/-- What holds where `irq_dispatcher` is entered. -/
structure Entered (back : UInt32) (c e : Cpu) : Prop where
  masked : Masked e
  esp : e.regs.esp.toNat = c.regs.esp.toNat - 64
  stack : OnStack e (pushedWords back c.regs)
  within : Within (between (c.regs.esp.toNat - 64) c.regs.esp.toNat) c.memory e.memory

/-- **The way in**: 64 bytes of the interrupted stack, all the registers among them. -/
theorem enter_spec (room : 64 ≤ c.regs.esp.toNat) : Entered back c (entered back c) := by
  obtain ⟨memory, esp⟩ := entered_eq back c
  have bytes : 4 * (pushedWords back c.regs).reverse.length = 64 := rfl
  have small : 4 * (pushedWords back c.regs).reverse.length ≤ c.regs.esp.toNat := by rwa [bytes]
  have top := toNat_pushAll_esp _ small
  have stack := OnStack.pushAll _ (onStack_nil c) small
  have within := within_pushAll _ small
  rw [bytes] at top within
  rw [List.reverse_reverse, List.append_nil] at stack
  refine ⟨(stub_runs c).2.call back, ?_, stack.congr esp memory, ?_⟩
  · rw [esp, top]
  · rw [memory]
    exact within

/-- The data selectors are all equal. -/
structure OneSelector (regs : Registers) : Prop where
  es : regs.es = regs.ds
  fs : regs.fs = regs.ds
  gs : regs.gs = regs.ds
  ss : regs.ss = regs.ds

instance (regs : Registers) : Decidable (OneSelector regs) :=
  decidable_of_iff
    (regs.es = regs.ds ∧ regs.fs = regs.ds ∧ regs.gs = regs.ds ∧ regs.ss = regs.ds)
    ⟨fun same => ⟨same.1, same.2.1, same.2.2.1, same.2.2.2⟩,
      fun one => ⟨one.es, one.fs, one.gs, one.ss⟩⟩

/-- **The way out** takes back what the way in has pushed. -/
theorem leave_spec {regs : Registers} {arg : UInt32} (one : OneSelector regs) (masked : Masked a)
    (stack : OnStack a (arg :: ptRegs regs)) (esp : a.regs.esp.toNat + 60 = regs.esp.toNat) :
    runMasked (irqCommonStubEnd ++ [.iret]) a = ([], ⟨regs, a.memory⟩) := by
  have word := stack.spelled.get
  have same : a.regs.esp + 60 = regs.esp := by
    rw [← UInt32.toNat_inj, UInt32.toNat_add, ← esp]
    exact Nat.mod_eq_of_lt (esp ▸ regs.esp.toNat_lt)
  have ds : load32 a.memory (a.regs.esp + 4) = setLow16 regs.eax regs.ds := word 1 rfl
  have edi : load32 a.memory (a.regs.esp + 8) = regs.edi := word 2 rfl
  have esi : load32 a.memory (a.regs.esp + 12) = regs.esi := word 3 rfl
  have ebp : load32 a.memory (a.regs.esp + 16) = regs.ebp := word 4 rfl
  have ebx : load32 a.memory (a.regs.esp + 24) = regs.ebx := word 6 rfl
  have edx : load32 a.memory (a.regs.esp + 28) = regs.edx := word 7 rfl
  have ecx : load32 a.memory (a.regs.esp + 32) = regs.ecx := word 8 rfl
  have eax : load32 a.memory (a.regs.esp + 36) = regs.eax := word 9 rfl
  have eip : load32 a.memory (a.regs.esp + 48) = regs.eip := word 12 rfl
  have cs : load32 a.memory (a.regs.esp + 52) = regs.cs.toUInt32 := word 13 rfl
  have eflags : load32 a.memory (a.regs.esp + 56) = regs.eflags := word 14 rfl
  rw [(runMasked_append irqCommonStubEnd (by decide) [.iret] masked).1, runMasked_last]
  simp only [run, irqCommonStubEnd, List.foldl, exec, Cpu.pop, Cpu.popa_eq, Cpu.drop, Cpu.top, Cpu.set,
    Cpu.iret_eq, Registers.set, Registers.get, Registers.setSel, Cpu.setFlags, UInt32.add_assoc,
    UInt32.reduceAdd, ds, edi, esi, ebp, ebx, edx, ecx, eax, eip, cs, eflags, toUInt16_setLow16,
    UInt16.toUInt16_toUInt32, same]
  obtain ⟨es, fs, gs, ss⟩ := one
  cases regs
  simp_all

/-! ### The switch -/

/-- The bytes that `saveContext` writes: the context and the word below the stack pointer. -/
def saveArea (last : UInt32) (regs : Registers) : Set UInt32 :=
  between last.toNat (last.toNat + 24) ∪ between (regs.esp.toNat - 4) regs.esp.toNat

/-- **The context of the task that is left is stored**, as long as it lies below its stack. -/
theorem saveContext_spec (stack : OnStack d [back, last, target])
    (below : last.toNat + 28 ≤ d.regs.esp.toNat) :
    (run saveContext d).regs.esp = d.regs.esp
      ∧ Spelled (run saveContext d).memory last (contextOf d.regs).words
      ∧ Within (saveArea last d.regs) d.memory (run saveContext d).memory := by
  have small := d.regs.esp.toNat_lt
  have arg : load32 d.memory (d.regs.esp + 4) = last := stack.spelled.get 1 rfl
  -- Five words, then `pushf` below the stack pointer, then the sixth.
  let five := storeWords d.memory last [d.regs.esp, d.regs.ebp, d.regs.ebx, d.regs.esi, d.regs.edi]
  let pushed := store32 five (d.regs.esp - 4) d.regs.eflags
  have esp : (run saveContext d).regs.esp = d.regs.esp := by
    simp only [run, saveContext, List.foldl, exec, Cpu.push, Cpu.set, Cpu.pop, Cpu.drop, Cpu.top,
      Registers.set, Registers.get, UInt32.sub_add_cancel]
  have memory : (run saveContext d).memory = store32 pushed (last + 20) d.regs.eflags := by
    simp only [run, saveContext, List.foldl, exec, Cpu.push, Cpu.set, Cpu.pop, Cpu.drop, Cpu.top,
      Registers.set, Registers.get, arg, load32_store32, pushed, five, storeWords, UInt32.add_zero,
      UInt32.add_assoc, UInt32.reduceAdd]
  have wordsFit : last.toNat + 4 * [d.regs.esp, d.regs.ebp, d.regs.ebx, d.regs.esi, d.regs.edi].length
      ≤ 2 ^ 32 := by
    simp only [List.length_cons, List.length_nil]
    omega
  have first : Within (between last.toNat (last.toNat + 20)) d.memory five :=
    within_storeWords _ d.memory last wordsFit
  have second : Within (between (d.regs.esp.toNat - 4) d.regs.esp.toNat) five pushed := by
    have within := within_push (c := ⟨d.regs, five⟩) (by show 4 ≤ d.regs.esp.toNat; omega) d.regs.eflags
    exact within
  have sixth : (last + 20).toNat = last.toNat + 20 := by
    rw [UInt32.toNat_add, show (20 : UInt32).toNat = 20 from rfl]
    omega
  have third : Within (between (last.toNat + 20) (last.toNat + 24)) pushed
      (store32 pushed (last + 20) d.regs.eflags) := by
    have within := within_store32 pushed d.regs.eflags (show (last + 20).toNat + 4 ≤ 2 ^ 32 by omega)
    rw [sixth] at within
    exact within
  refine ⟨esp, ?_, ?_⟩
  · have spelled : Spelled five last [d.regs.esp, d.regs.ebp, d.regs.ebx, d.regs.esi, d.regs.edi] :=
      spelled_storeWords _ d.memory last wordsFit
    have kept : Spelled (store32 pushed (last + 20) d.regs.eflags) last
        [d.regs.esp, d.regs.ebp, d.regs.ebx, d.regs.esi, d.regs.edi] := by
      refine spelled.congr _ wordsFit fun place inside => ?_
      have high : place.toNat < last.toNat + 20 := inside.2
      rw [third place fun other => Nat.not_le_of_lt high other.1]
      exact second place fun other => by
        have low := other.1
        omega
    obtain ⟨w0, w1, w2, w3, w4, -⟩ := kept
    rw [memory]
    refine ⟨w0, w1, w2, w3, w4, ?_, True.intro⟩
    rw [UInt32.add_assoc, UInt32.add_assoc, UInt32.add_assoc, UInt32.add_assoc]
    exact load32_store32 _ _ _
  · rw [memory]
    have context : between last.toNat (last.toNat + 24) ⊆ saveArea last d.regs :=
      Set.subset_union_left
    refine ((first.mono ?_).trans (second.mono Set.subset_union_right)).trans (third.mono ?_)
    · exact (between_subset le_rfl (by omega)).trans context
    · exact (between_subset (by omega) le_rfl).trans context

/-- **Another context is loaded**; its flags are on its stack then. -/
theorem loadContext_spec {ctx : TaskContext} (stack : OnStack d [back, last, target])
    (held : Spelled d.memory target ctx.words) (room : 4 ≤ ctx.esp.toNat) :
    contextOf (exec .popf (run loadContext d)).regs = ctx
      ∧ Within (between (ctx.esp.toNat - 4) ctx.esp.toNat) d.memory
          (exec .popf (run loadContext d)).memory := by
  have arg : load32 d.memory (d.regs.esp + 8) = target := stack.spelled.get 2 rfl
  have esp : load32 d.memory target = ctx.esp := held.1
  have ebp : load32 d.memory (target + 4) = ctx.ebp := held.get 1 rfl
  have ebx : load32 d.memory (target + 8) = ctx.ebx := held.get 2 rfl
  have esi : load32 d.memory (target + 12) = ctx.esi := held.get 3 rfl
  have edi : load32 d.memory (target + 16) = ctx.edi := held.get 4 rfl
  have eflags : load32 d.memory (target + 20) = ctx.eflags := held.get 5 rfl
  have within := within_push (c := ⟨{ d.regs with esp := ctx.esp }, d.memory⟩) room ctx.eflags
  simp only [run, loadContext, List.foldl, exec, Cpu.push, Cpu.set, Cpu.drop, Cpu.top, Cpu.setFlags,
    Registers.set, Registers.get, arg, esp, ebp, ebx, esi, edi, eflags, load32_store32, UInt32.add_zero,
    UInt32.sub_add_cancel, contextOf, true_and]
  exact within

end Sprite.Sched

/-
**Chains of frames.**

Code that keeps frame pointers saves on entry the frame pointer of its caller, just below its return
address. From one frame pointer on, the saved ones are a list with the frame of each pending call, the
innermost one first, and 0 ends it.

* `Chain` — the frames of a list of return addresses, one above the other, below the top of a stack.
* `Chain.congr` — they depend on the bytes from the innermost frame upwards only.
* `enter_chain`, `leave_chain` — a call with its `push ebp; mov ebp, esp`, and a `leave; ret`.
-/
import Sprite.Lib.X86

namespace X86

open Words

/-- **The frames of the pending calls**, with the return addresses `backs`, from the frame pointer `ebp`
upwards. -/
def Chain (memory : Memory) (top : Nat) : UInt32 → List UInt32 → Prop
  | ebp, [] => ebp = 0
  | ebp, back :: backs =>
      ebp ≠ 0 ∧ ebp.toNat + 8 ≤ top ∧ load32 memory (ebp + 4) = back ∧
        (load32 memory ebp = 0 ∨ ebp.toNat + 8 ≤ (load32 memory ebp).toNat) ∧
        Chain memory top (load32 memory ebp) backs

/-- Where the innermost frame begins: nothing below it belongs to a caller. -/
def frameBase (top : Nat) (ebp : UInt32) : Nat := if ebp = 0 then top else ebp.toNat

variable {memory memory' : Memory} {top : Nat} {ebp back : UInt32} {backs : List UInt32}

theorem frameBase_le (chain : Chain memory top ebp backs) : frameBase top ebp ≤ top := by
  unfold frameBase
  split_ifs with null
  · exact le_rfl
  · cases backs with
    | nil => exact absurd chain null
    | cons back backs =>
      have fits := chain.2.1
      omega

/-- **The frames depend on the bytes from the innermost one upwards.** -/
theorem Chain.congr (chain : Chain memory top ebp backs) (small : top ≤ 2 ^ 32)
    (same : ∀ place ∈ between (frameBase top ebp) top, memory' place = memory place) :
    Chain memory' top ebp backs := by
  induction backs generalizing ebp with
  | nil => exact chain
  | cons back backs ih =>
    obtain ⟨notNull, fits, isBack, above, rest⟩ := chain
    rw [frameBase, if_neg notNull] at same
    have place : (ebp + 4).toNat = ebp.toNat + 4 := toNat_add_four (by omega)
    have saved : load32 memory' ebp = load32 memory ebp :=
      load32_congr (by omega) fun spot low high => same spot ⟨low, by omega⟩
    have returns : load32 memory' (ebp + 4) = load32 memory (ebp + 4) :=
      load32_congr (by omega) fun spot low high => same spot ⟨by omega, by omega⟩
    have higher : ebp.toNat ≤ frameBase top (load32 memory ebp) := by
      unfold frameBase
      split_ifs with null
      · omega
      · have next := above.resolve_left null
        omega
    refine ⟨notNull, fits, returns.trans isBack, ?_, ?_⟩
    · rwa [saved]
    · rw [saved]
      exact ih rest fun spot inside => same spot ⟨higher.trans inside.1, inside.2⟩

/-- What a caller and the entry of a function do: `call`, `push ebp`, `mov ebp, esp`. -/
def enterFrame (back : UInt32) (c : Cpu) : Cpu := run [.push .ebp, .mov .ebp .esp] (call back c)

/-- The end of a function: `leave`, `ret`. -/
def leaveFrame (c : Cpu) : Cpu := run [.mov .esp .ebp, .pop .ebp, .ret] c

theorem enterFrame_eq (back : UInt32) (c : Cpu) : enterFrame back c =
    ⟨{ c.regs with esp := c.regs.esp - 4 - 4, ebp := c.regs.esp - 4 - 4 },
      store32 (store32 c.memory (c.regs.esp - 4) back) (c.regs.esp - 4 - 4) c.regs.ebp⟩ := rfl

theorem leaveFrame_eq (c : Cpu) : leaveFrame c =
    ⟨{ c.regs with
        esp := c.regs.ebp + 4 + 4
        ebp := load32 c.memory c.regs.ebp
        eip := load32 c.memory (c.regs.ebp + 4) }, c.memory⟩ := rfl

/-- **A call** puts one frame below the others. -/
theorem enter_chain {c : Cpu} (chain : Chain c.memory top c.regs.ebp backs) (small : top ≤ 2 ^ 32)
    (room : 8 < c.regs.esp.toNat) (below : c.regs.esp.toNat ≤ frameBase top c.regs.ebp) (back : UInt32) :
    Chain (enterFrame back c).memory top (enterFrame back c).regs.ebp (back :: backs)
      ∧ (enterFrame back c).regs.ebp.toNat + 8 = c.regs.esp.toNat := by
  have tall := c.regs.esp.toNat_lt
  have bounded := frameBase_le chain
  have first : (c.regs.esp - 4).toNat = c.regs.esp.toNat - 4 := by
    rw [UInt32.toNat_sub, show (4 : UInt32).toNat = 4 from rfl]
    omega
  have second : (c.regs.esp - 4 - 4).toNat = c.regs.esp.toNat - 8 := by
    rw [UInt32.toNat_sub, show (4 : UInt32).toNat = 4 from rfl, first]
    omega
  rw [enterFrame_eq]
  dsimp only
  have saved : load32 (store32 (store32 c.memory (c.regs.esp - 4) back) (c.regs.esp - 4 - 4) c.regs.ebp)
      (c.regs.esp - 4 - 4) = c.regs.ebp := load32_store32 _ _ _
  have lower := within_store32 (store32 c.memory (c.regs.esp - 4) back) c.regs.ebp
    (show (c.regs.esp - 4 - 4).toNat + 4 ≤ 2 ^ 32 by omega)
  have upper := within_store32 c.memory back (show (c.regs.esp - 4).toNat + 4 ≤ 2 ^ 32 by omega)
  rw [second] at lower
  rw [first] at upper
  refine ⟨⟨fun null => ?_, by omega, ?_, ?_, ?_⟩, by omega⟩
  · have zero : (c.regs.esp - 4 - 4).toNat = 0 := congrArg UInt32.toNat null
    omega
  · rw [UInt32.sub_add_cancel]
    refine (load32_congr (by omega) fun spot low high => ?_).trans (load32_store32 c.memory _ back)
    exact lower spot fun inside => absurd inside.2 (by omega)
  · rw [saved]
    by_cases null : c.regs.ebp = 0
    · exact Or.inl null
    · rw [frameBase, if_neg null] at below
      exact Or.inr (by omega)
  · rw [saved]
    refine chain.congr small fun spot inside => ?_
    have low := inside.1
    rw [lower spot fun written => absurd written.2 (by omega),
      upper spot fun written => absurd written.2 (by omega)]

/-- **A return** goes to the innermost return address, and takes its frame away. -/
theorem leave_chain {c : Cpu} (chain : Chain c.memory top c.regs.ebp (back :: backs)) (small : top ≤ 2 ^ 32) :
    (leaveFrame c).regs.eip = back ∧ Chain (leaveFrame c).memory top (leaveFrame c).regs.ebp backs
      ∧ c.regs.ebp.toNat + 8 ≤ frameBase top (leaveFrame c).regs.ebp
      ∧ ((leaveFrame c).regs.esp.toNat = c.regs.ebp.toNat + 8 ∨ c.regs.ebp.toNat + 8 = 2 ^ 32) := by
  obtain ⟨notNull, fits, isBack, above, rest⟩ := chain
  rw [leaveFrame_eq]
  refine ⟨isBack, rest, ?_, ?_⟩
  · unfold frameBase
    split_ifs with null
    · exact fits
    · exact above.resolve_left null
  · by_cases whole : c.regs.ebp.toNat + 8 = 2 ^ 32
    · exact Or.inr whole
    · refine Or.inl ?_
      show (c.regs.ebp + 4 + 4).toNat = _
      rw [UInt32.toNat_add, toNat_add_four (by omega), show (4 : UInt32).toNat = 4 from rfl]
      omega

end X86

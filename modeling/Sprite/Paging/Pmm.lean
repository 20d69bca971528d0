/-
**The stack of free page frames**, after `src/lib/pmm.cc` and `src/include/pmm.h`.

A failed assertion, or an access outside the array, is `none`.

* `pmmAllocPage`, `pmmAllocPageAt` — the top frame is taken, or a given one.
* `pmmFreePage` — a frame is pushed.
-/
import Mathlib.Algebra.Group.Nat.Defs
import Mathlib.Logic.Function.Basic

namespace Sprite.Paging

def PMM_MAX_SIZE : Nat := 0x20000000

def PMM_PAGE_SIZE : Nat := 0x1000

def PAGE_MAX_SIZE : Nat := PMM_MAX_SIZE / PMM_PAGE_SIZE

def PAGE_MASK : UInt32 := 0xFFFFF000

structure Pmm where
  pmm_stack : Fin (PAGE_MAX_SIZE + 1) → UInt32
  pmm_stack_top : UInt32

/-- `pmm_stack[i]`. -/
def Pmm.read (s : Pmm) (i : UInt32) : Option UInt32 :=
  if inside : i.toNat < PAGE_MAX_SIZE + 1 then some (s.pmm_stack ⟨i.toNat, inside⟩) else none

/-- `pmm_stack[i] = p`. -/
def Pmm.write (s : Pmm) (i p : UInt32) : Option Pmm :=
  if inside : i.toNat < PAGE_MAX_SIZE + 1 then
    some { s with pmm_stack := Function.update s.pmm_stack ⟨i.toNat, inside⟩ p }
  else none

def pmmAllocPage (s : Pmm) : Option (UInt32 × Pmm) :=
  if s.pmm_stack_top ≠ 0 then do
    let page ← s.read s.pmm_stack_top
    return (page, { s with pmm_stack_top := s.pmm_stack_top - 1 })
  else none

def pmmFreePage (s : Pmm) (p : UInt32) : Option Pmm :=
  if s.pmm_stack_top ≠ UInt32.ofNat PAGE_MAX_SIZE then do
    let s := { s with pmm_stack_top := s.pmm_stack_top + 1 }
    s.write s.pmm_stack_top p
  else none

/-- The loop of `pmm_alloc_page(pma)`: where the frame is, if it is on the stack. A loop of more steps
than there are positions does not end. -/
def Pmm.findFrame (s : Pmm) (pma : UInt32) : Nat → UInt32 → Option (Option UInt32)
  | 0, _ => none
  | fuel + 1, i =>
    if i ≤ s.pmm_stack_top then do
      let p ← s.read i
      if p = pma then return some i else s.findFrame pma fuel (i + 1)
    else some none

/-- `pmm_stack[i] = pmm_stack[pmm_stack_top--]`. -/
def Pmm.fillGap (s : Pmm) (i : UInt32) : Option Pmm := do
  let last ← s.read s.pmm_stack_top
  Pmm.write { s with pmm_stack_top := s.pmm_stack_top - 1 } i last

/-- `pmm_alloc_page(pma)`. -/
def pmmAllocPageAt (s : Pmm) (pma : UInt32) : Option (UInt32 × Pmm) := do
  let found ← s.findFrame pma (2 ^ 32) 0
  match found with
  | some i => do
    let res ← s.read i
    let s ← s.fillGap i
    return (res, s)
  | none => return (0, s)

/-- An empty stack: `init_pmm` starts with `pmm_stack_top = -1`. -/
def Pmm.empty : Pmm := ⟨fun _ => 0, -1⟩

end Sprite.Paging

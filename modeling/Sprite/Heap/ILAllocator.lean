/-
**The kernel heap: `ImplicitListAllocator`.**

The allocator of `include/ILAllocator.hpp`, function by function. A block is a 4-byte header and the
bytes after it; the header holds the block's size, whose lowest bit is free to say whether the block
is allocated because sizes are even. There is no other bookkeeping: the next header is found by
adding the size just read, in 32-bit arithmetic, so the headers are read from and written to the
machine's memory here too.

`alloc` answers `none` when its search never ends: the search only follows headers, so one that has
not ended after as many steps as there are addresses never will.
-/
import Sprite.Lib.Words

namespace Sprite.Heap

open Words

/-- The allocator: the bounds of the heap, and the memory that holds the blocks. -/
structure ImplicitListAllocator where
  mstart_ : UInt32
  mend_ : UInt32
  memory : Memory

/-- `enum AllocState`. -/
def kFree : UInt32 := 0

/-- `enum AllocState`. -/
def kAllocated : UInt32 := 1

section Headers

variable (memory : Memory) (block : UInt32)

def sizeOfBlock : UInt32 := load32 memory block &&& 0xFFFFFFFE

def isAllocated : Bool := load32 memory block &&& 1 != 0

def nextBlock : UInt32 := block + (sizeOfBlock memory block + 4)

def record (size allocated : UInt32) : Memory := store32 memory block (size ||| (allocated &&& 1))

end Headers

/-- The address `size` bytes behind the header of a block. -/
def sliceBlock (block size : UInt32) : UInt32 := block + size + 4

namespace ImplicitListAllocator

/-- The constructor, and `set_bound`: one free block over the whole heap. -/
def init (memory : Memory) (start stop : UInt32) : ImplicitListAllocator where
  mstart_ := start
  mend_ := stop
  memory := record memory start (stop - start - 4) kFree

/-- The request size as `alloc` rounds it to a multiple of 2. -/
def align2 (size : UInt32) : UInt32 := if size &&& 1 ≠ 0 then size + 1 else size

/-- The `for` loop of `alloc`, up to the first block it takes: `some none` when it reaches `mend_`,
`none` when the fuel runs out. -/
def findBlock (memory : Memory) (mend_ size : UInt32) : Nat → UInt32 → Option (Option UInt32)
  | 0, _ => none
  | fuel + 1, cur =>
      if cur = mend_ then some none
      else if sizeOfBlock memory cur ≥ size ∧ isAllocated memory cur = false then some (some cur)
      else findBlock memory mend_ size fuel (nextBlock memory cur)

/-- The body of the loop at the block it takes: split it if anything remains. -/
def takeBlock (memory : Memory) (cur size : UInt32) : Memory :=
  let blockSize := sizeOfBlock memory cur
  let remain := sliceBlock cur size
  let remainSize := blockSize - 4 - size  -- 4 bytes is for header
  if remainSize > 0 then
    record (record memory cur size kAllocated) remain remainSize kFree
  else
    record memory cur blockSize kAllocated

/-- `alloc`: the address handed out (`none` for `nullptr`) and the allocator afterwards. -/
def alloc (heap : ImplicitListAllocator) (size : UInt32) :
    Option (Option UInt32 × ImplicitListAllocator) :=
  let size := align2 size
  match findBlock heap.memory heap.mend_ size (2 ^ 32) heap.mstart_ with
  | none => none
  | some none => some (none, heap)
  | some (some cur) =>
      some (some (cur + 4), { heap with memory := takeBlock heap.memory cur size })

/-- `free`: the block joins the block behind it when that one is free. -/
def free (heap : ImplicitListAllocator) (pos : UInt32) : ImplicitListAllocator :=
  let block := pos - 4
  let next := nextBlock heap.memory block
  if isAllocated heap.memory next = false then
    let newSize := sizeOfBlock heap.memory block + 4 + sizeOfBlock heap.memory next
    { heap with memory := record heap.memory block newSize kFree }
  else
    { heap with memory := record heap.memory block (sizeOfBlock heap.memory block) kFree }

end ImplicitListAllocator

/-- `kHeapStart` of `lib/kmalloc.cc`. -/
def kHeapStart : UInt32 := 0xD0000000

/-- `kHeapEnd` of `lib/kmalloc.cc`. -/
def kHeapEnd : UInt32 := 0xD1000000

/-- The kernel's heap as `init_heap` leaves it. -/
def initHeap (memory : Memory) : ImplicitListAllocator :=
  ImplicitListAllocator.init memory kHeapStart kHeapEnd

-- The addresses `test_kmalloc` expects, from a first pass over a fresh heap.
example : ((initHeap fun _ => 0).alloc 50).map Prod.fst = some (some 0xD0000004) := by decide +kernel

end Sprite.Heap

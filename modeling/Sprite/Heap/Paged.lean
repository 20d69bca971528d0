/-
**The kernel heap over demand-paged memory**, after `src/lib/kmalloc.cc`.

The heap lies at 0xD0000000, where nothing is mapped: each of its pages gets a frame when the allocator
or a client first gets at it. A header may lie across two pages.

* `Programs` — the allocator as programs that get at memory word by word, and `recorded` they are the
  functions of `Accesses`.
* `HeapOp`, `ask`, `session` — clients that allocate, free, and read and write the bytes they asked for,
  over flat memory and as a program.
* `request_returns`, `session_returns` — one request, and a run of them: over flat memory the program
  does what the allocator does, and does not leave the heap.
* `heap_over_paged_memory` — **over demand-paged memory** every run answers as over flat memory.
-/
import Sprite.Heap.Accesses
import Sprite.Heap.Contents
import Sprite.Paging.Programs

namespace Sprite.Heap

open Words Runs ImplicitListAllocator

/-! ### The allocator as programs -/

namespace Programs

def sizeOfBlock (block : UInt32) : Program UInt32 := do
  return (← Program.loadWord block) &&& 0xFFFFFFFE

def isAllocated (block : UInt32) : Program Bool := do
  return (← Program.loadWord block) &&& 1 != 0

def nextBlock (block : UInt32) : Program UInt32 := do
  return block + ((← sizeOfBlock block) + 4)

def record (block size allocated : UInt32) : Program Unit :=
  Program.storeWord block (size ||| (allocated &&& 1))

def takes (cur blockSize size : UInt32) : Program Bool :=
  if blockSize ≥ size then do return !(← isAllocated cur) else return false

def findBlock (mend_ size : UInt32) : Nat → UInt32 → Program (Option (UInt32 × UInt32))
  | 0, _ => .stuck
  | fuel + 1, cur =>
      if cur = mend_ then return none
      else do
        let blockSize ← sizeOfBlock cur
        if ← takes cur blockSize size then return some (cur, blockSize)
        else findBlock mend_ size fuel (← nextBlock cur)

def takeBlock (cur blockSize size : UInt32) : Program Unit :=
  let remain := sliceBlock cur size
  let remainSize := blockSize - 4 - size
  if remainSize > 0 then do
    record cur size kAllocated
    record remain remainSize kFree
  else
    record cur blockSize kAllocated

def alloc (mstart_ mend_ size : UInt32) : Program (Option UInt32) := do
  let size := align2 size
  match ← findBlock mend_ size (2 ^ 32) mstart_ with
  | none => return none
  | some (cur, blockSize) => do
      takeBlock cur blockSize size
      return some (cur + 4)

def free (pos : UInt32) : Program Unit := do
  let block := pos - 4
  let next ← nextBlock block
  if (← isAllocated next) = false then
    let size ← sizeOfBlock block
    let next ← nextBlock block
    let nextSize ← sizeOfBlock next
    record block (size + 4 + nextSize) kFree
  else
    let size ← sizeOfBlock block
    record block size kFree

/-- The constructor. -/
def init (start stop : UInt32) : Program Unit := record start (stop - start - 4) kFree

end Programs

section Recorded

open Program

theorem sizeOfBlock_recorded (block : UInt32) :
    recorded (Programs.sizeOfBlock block) = Accesses.sizeOfBlock block := rfl

theorem isAllocated_recorded (block : UInt32) :
    recorded (Programs.isAllocated block) = Accesses.isAllocated block := rfl

theorem nextBlock_recorded (block : UInt32) :
    recorded (Programs.nextBlock block) = Accesses.nextBlock block := rfl

theorem takes_recorded (cur blockSize size : UInt32) :
    recorded (Programs.takes cur blockSize size) = Accesses.takes cur blockSize size := by
  unfold Programs.takes Accesses.takes
  split
  · rw [recorded_bind, isAllocated_recorded]
    rfl
  · rfl

theorem findBlock_recorded (mend_ size : UInt32) (fuel : Nat) : ∀ cur,
    recorded (Programs.findBlock mend_ size fuel cur) = Accesses.findBlock mend_ size fuel cur := by
  induction fuel with
  | zero => exact fun _ => rfl
  | succ fuel ih =>
    intro cur
    unfold Programs.findBlock Accesses.findBlock
    split
    · rfl
    · rw [recorded_bind, sizeOfBlock_recorded]
      refine congrArg _ (funext fun blockSize => ?_)
      rw [recorded_bind, takes_recorded]
      refine congrArg _ (funext fun taken => ?_)
      split
      · rfl
      · rw [recorded_bind, nextBlock_recorded]
        exact congrArg _ (funext fun next => ih next)

theorem takeBlock_recorded (cur blockSize size : UInt32) :
    recorded (Programs.takeBlock cur blockSize size) = Accesses.takeBlock cur blockSize size := by
  unfold Programs.takeBlock Accesses.takeBlock
  simp only []
  split
  · rfl
  · rfl

/-- **The program is the recorded `alloc`.** -/
theorem alloc_recorded (mstart_ mend_ size : UInt32) :
    recorded (Programs.alloc mstart_ mend_ size) = Accesses.alloc mstart_ mend_ size := by
  unfold Programs.alloc Accesses.alloc
  rw [recorded_bind, findBlock_recorded]
  refine congrArg _ (funext fun found => ?_)
  cases found with
  | none => rfl
  | some found =>
    show recorded (Programs.takeBlock found.1 found.2 (align2 size) >>= _) = _
    rw [recorded_bind, takeBlock_recorded]
    rfl

/-- **The program is the recorded `free`.** -/
theorem free_recorded (pos : UInt32) : recorded (Programs.free pos) = Accesses.free pos := by
  unfold Programs.free Accesses.free
  rw [recorded_bind, nextBlock_recorded]
  refine congrArg _ (funext fun next => ?_)
  rw [recorded_bind, isAllocated_recorded]
  refine congrArg _ (funext fun used => ?_)
  split
  · rw [recorded_bind, sizeOfBlock_recorded]
    refine congrArg _ (funext fun size => ?_)
    rw [recorded_bind, nextBlock_recorded]
    rfl
  · rfl

end Recorded

/-! ### Clients -/

/-- A request of a client, who may also read bytes. -/
inductive HeapOp where
  | call (call : Call)
  | read (spot : UInt32)

inductive Answer where
  | pointer (pos : Option UInt32)
  | byte (value : UInt8)
  | nothing
  deriving DecidableEq

def answerTo (clients : Clients) : Call → Answer
  | .alloc size => .pointer ((clients.heap.alloc size).bind Prod.fst)
  | _ => .nothing

/-- A request, over flat memory. -/
def ask (clients : Clients) : HeapOp → Option (Answer × Clients)
  | .call call => (clients.step call).map fun next => (answerTo clients call, next)
  | .read spot => some (.byte (clients.heap.memory spot), clients)

/-- A run of requests, over flat memory. -/
def asks : Clients → List HeapOp → Option (List Answer × Clients)
  | clients, [] => some ([], clients)
  | clients, op :: ops => do
    let (answer, next) ← ask clients op
    let (answers, last) ← asks next ops
    return (answer :: answers, last)

/-- Clients free what they hold, and read and write the bytes they asked for. No call reaches for a block
behind the last one, and no request wraps round when it is rounded up. -/
def MayAsk (clients : Clients) : HeapOp → Prop
  | .call call => clients.MayCallOrWrite call ∧ KeepsInside clients.heap call ∧
      ∀ size, call = .alloc size → size ≠ 0xFFFFFFFF
  | .read spot => ∃ grant ∈ clients.live, grant.Covers spot.toNat

/-- What the clients hold when a pointer has been answered. -/
def hold (live : List Grant) (size : UInt32) : Option UInt32 → List Grant
  | none => live
  | some pos => ⟨pos, size⟩ :: live

/-- A request as a program, with what the clients hold. -/
def request (live : List Grant) : HeapOp → Program (Answer × List Grant)
  | .call (.alloc size) => do
    let result ← Programs.alloc kHeapStart kHeapEnd size
    return (.pointer result, hold live size result)
  | .call (.free pos) => do
    Programs.free pos
    return (.nothing, live.filter (·.pos ≠ pos))
  | .call (.write spot value) => do
    Program.writeByte spot value
    return (.nothing, live)
  | .read spot => do
    let value ← Program.readByte spot
    return (.byte value, live)

/-- A run of requests as a program. -/
def session (live : List Grant) : List HeapOp → Program (List Answer × List Grant)
  | [] => return ([], live)
  | op :: ops => do
    let (answer, live) ← request live op
    let (answers, live) ← session live ops
    return (answer :: answers, live)

/-- `init_heap`, and a run of requests. -/
def kernelSession (ops : List HeapOp) : Program (List Answer × List Grant) := do
  Programs.init kHeapStart kHeapEnd
  session [] ops

/-! ### Over flat memory -/

/-- The kernel's heap. -/
def heapArea : Set UInt32 := between kHeapStart.toNat kHeapEnd.toNat

section Flat

variable {clients : Clients}

theorem wordIn_heap {word : UInt32} (low : kHeapStart.toNat ≤ word.toNat)
    (high : word.toNat + 4 ≤ kHeapEnd.toNat) : Program.WordIn heapArea word := by
  have start : kHeapStart.toNat = 0xD0000000 := rfl
  have stop : kHeapEnd.toNat = 0xD1000000 := rfl
  have byte : ∀ offset : UInt32, offset.toNat < 4 → word + offset ∈ heapArea := by
    intro offset small
    have place : (word + offset).toNat = word.toNat + offset.toNat := by
      rw [UInt32.toNat_add]
      omega
    exact ⟨by omega, by omega⟩
  have first := byte 0 (by decide)
  rw [UInt32.add_zero] at first
  exact ⟨first, byte 1 (by decide), byte 2 (by decide), byte 3 (by decide)⟩

theorem Inv.inside (inv : Inv UInt32.toNat clients) (first : clients.heap.mstart_ = kHeapStart)
    (last : clients.heap.mend_ = kHeapEnd) {spot : UInt32}
    (covered : ∃ grant ∈ clients.live, grant.Covers spot.toNat) : spot ∈ heapArea := by
  obtain ⟨grant, member, covers⟩ := covered
  have bounds := inv.isolated.inside grant member spot.toNat covers
  rw [first, last] at bounds
  exact ⟨by omega, bounds.2⟩

/-- **One request** over flat memory: the program does what the allocator does, and stays in the heap. -/
theorem request_returns (inv : Inv UInt32.toNat clients) (first : clients.heap.mstart_ = kHeapStart)
    (last : clients.heap.mend_ = kHeapEnd) {op : HeapOp} (may : MayAsk clients op) :
    ∃ answer next, ask clients op = some (answer, next) ∧ Inv UInt32.toNat next ∧
      next.heap.mstart_ = kHeapStart ∧ next.heap.mend_ = kHeapEnd ∧
      (request clients.live op).Returns heapArea clients.heap.memory (answer, next.live)
        next.heap.memory := by
  obtain ⟨blocks, granted⟩ := inv
  cases op with
  | read spot =>
    exact ⟨_, clients, rfl, ⟨blocks, granted⟩, first, last,
      Inv.inside ⟨blocks, granted⟩ first last may, rfl, rfl⟩
  | call call =>
    obtain ⟨mayCall, keeps, fits⟩ := may
    cases call with
    | alloc size =>
      obtain ⟨next, stepped, sound⟩ :=
        alloc_keeps granted keeps.safeCall (Or.inl (le_toNat_align2 (fits size rfl)))
      obtain ⟨⟨result, heap⟩, returned, outcome⟩ := Option.map_eq_some_iff.mp stepped
      have bounds : heap.mstart_ = clients.heap.mstart_ ∧ heap.mend_ = clients.heap.mend_ := by
        obtain ⟨result', memory, -, here, -⟩ := alloc_twins size granted.tiled (SameOn.refl _ _)
        rw [returned, Option.some.injEq, Prod.mk.injEq] at here
        rw [here.2]
        exact ⟨rfl, rfl⟩
      obtain ⟨touched, records, -⟩ := alloc_records returned
      have words : accessed clients.heap (.alloc size) = touched := records.words_eq
      rw [← alloc_recorded, first, last] at records
      have inside : ∀ word ∈ touched, Program.WordIn heapArea word := by
        intro word member
        have spot := alloc_inside granted.tiled keeps (words ▸ member)
        rw [first, last] at spot
        exact wordIn_heap spot.1 spot.2
      have returns := Program.returns_of_records records inside
      have asked : ask clients (.call (.alloc size)) = some (.pointer result, next) := by
        rw [ask, stepped, answerTo, returned]
        rfl
      have live : next.live = hold clients.live size result ∧ next.heap = heap := by
        cases result with
        | none =>
          cases outcome
          exact ⟨rfl, rfl⟩
        | some pos =>
          cases outcome
          exact ⟨rfl, rfl⟩
      refine ⟨_, next, asked, sound, ?_, ?_, ?_⟩
      · rw [live.2, bounds.1, first]
      · rw [live.2, bounds.2, last]
      · rw [live.1, live.2]
        exact returns.bind (Program.Returns.pure _)
    | free pos =>
      obtain ⟨next, stepped, sound⟩ := free_keeps granted mayCall keeps.safeCall
      obtain ⟨grant, member, rfl⟩ := mayCall
      obtain ⟨before, block, after, rfl, -, -, here⟩ := granted.block_of member
      obtain ⟨touched, records, only⟩ := free_records clients.heap grant.pos
      have bounds := free_bounds clients.heap grant.pos
      rw [← free_recorded] at records
      have inside : ∀ word ∈ touched, Program.WordIn heapArea word := by
        intro word looked
        have spot := free_headers granted.tiled here keeps (only word looked)
        rw [first, last] at spot
        exact wordIn_heap spot.1 spot.2
      have returns := Program.returns_of_records records inside
      cases stepped
      refine ⟨_, _, rfl, sound, ?_, ?_, returns.bind (Program.Returns.pure _)⟩
      · rw [bounds]
        exact first
      · rw [bounds]
        exact last
    | write spot value =>
      obtain ⟨next, stepped, sound⟩ : ∃ next, clients.step (.write spot value) = some next ∧ _ :=
        write_keeps granted mayCall
      cases stepped
      exact ⟨_, _, rfl, sound, first, last, Inv.inside ⟨blocks, granted⟩ first last mayCall, rfl, rfl⟩

/-- **A run of requests** over flat memory. -/
theorem session_returns (ops : List HeapOp) : ∀ {clients : Clients}, Inv UInt32.toNat clients →
    clients.heap.mstart_ = kHeapStart → clients.heap.mend_ = kHeapEnd →
    Permitted (fun clients op => (ask clients op).map Prod.snd) MayAsk clients ops →
    ∃ answers last, asks clients ops = some (answers, last) ∧ Inv UInt32.toNat last ∧
      (session clients.live ops).Returns heapArea clients.heap.memory (answers, last.live)
        last.heap.memory := by
  induction ops with
  | nil => exact fun inv _ _ _ => ⟨[], _, rfl, inv, rfl, rfl⟩
  | cons op ops ih =>
    intro clients inv first last permitted
    obtain ⟨answer, next, asked, inv', first', last', returns⟩ :=
      request_returns inv first last permitted.1
    have onward := permitted.2 next (Option.mem_def.mpr (congrArg (Option.map Prod.snd) asked))
    obtain ⟨answers, final, asked', inv'', returns'⟩ := ih inv' first' last' onward
    refine ⟨answer :: answers, final, ?_, inv'', returns.bind (returns'.bind ⟨rfl, rfl⟩)⟩
    rw [asks, asked, Option.bind_eq_bind, Option.bind_some]
    show (asks next ops).bind _ = _
    rw [asked']
    rfl

end Flat

/-! ### Over demand-paged memory -/

section Paged

open Sprite.Paging (Located Spare Holds PMA InMemory.initVmm InMemory.server kernEntry Budget System Pmm
  InKernelWindow)

/-- The pages of the heap. -/
def heapPages : Finset UInt32 := (Finset.range 4096).image fun i => UInt32.ofNat (0xD0000 + i)

/-- The regions of 4 MB of the kernel window and of the heap. -/
def heapRegions : Finset (Fin Sprite.Paging.DICTIONARY_MAX_SIZE) :=
  {⟨768, by decide⟩, ⟨832, by decide⟩, ⟨833, by decide⟩, ⟨834, by decide⟩, ⟨835, by decide⟩}

theorem card_heapPages : heapPages.card ≤ 4096 :=
  Finset.card_image_le.trans (Finset.card_range 4096).le

/-- Frames for all pages of the heap. -/
def heapBudget {s : Pmm} (enough : 4096 < s.free.length) : Budget s where
  pages := heapPages
  regions := heapRegions
  fewer := lt_of_le_of_lt card_heapPages enough
  fits := by decide

theorem heapArea_usable (this : UInt32) {s : Pmm} (enough : 4096 < s.free.length) {vma : UInt32}
    (inside : vma ∈ heapArea) : vma ∈ (heapBudget enough).area this := by
  have low : 0xD0000000 ≤ vma.toNat := inside.1
  have high : vma.toNat < 0xD1000000 := inside.2
  have outside : ¬ InKernelWindow vma := by
    rw [Sprite.Paging.inKernelWindow_iff]
    omega
  refine ⟨fun window => absurd window outside, fun _ => ⟨?_, ?_⟩⟩
  · refine Finset.mem_image.mpr ⟨vma.toNat / 4096 - 0xD0000, Finset.mem_range.mpr (by omega), ?_⟩
    rw [← UInt32.toNat_inj, Sprite.Paging.page_val,
      UInt32.toNat_ofNat_of_lt' (by simp only [UInt32.size]; omega)]
    omega
  · have region := Sprite.Paging.dictIndex_val vma
    show Sprite.Paging.PageDictionary.dictIndex vma ∈ heapRegions
    simp only [heapRegions, Finset.mem_insert, Finset.mem_singleton, Fin.ext_iff, region]
    have cases : vma.toNat / 4194304 = 832 ∨ vma.toNat / 4194304 = 833 ∨ vma.toNat / 4194304 = 834 ∨
      vma.toNat / 4194304 = 835 := by omega
    exact Or.inr cases

/-- The whole session over flat memory. -/
theorem kernelSession_returns (memory : Memory) {ops : List HeapOp}
    (permitted : Permitted (fun clients op => (ask clients op).map Prod.snd) MayAsk
      (Clients.start memory kHeapStart kHeapEnd) ops) :
    ∃ answers last, asks (Clients.start memory kHeapStart kHeapEnd) ops = some (answers, last) ∧
      Inv UInt32.toNat last ∧
      (kernelSession ops).Returns heapArea memory (answers, last.live) last.heap.memory := by
  obtain ⟨answers, last, asked, inv, returns⟩ := session_returns ops
    (inv_start UInt32.toNat (by decide) (by decide) (by decide)) rfl rfl permitted
  have header : (Programs.init kHeapStart kHeapEnd).Returns heapArea memory ()
      (Clients.start memory kHeapStart kHeapEnd).heap.memory :=
    ⟨wordIn_heap le_rfl (by decide), rfl, rfl⟩
  exact ⟨answers, last, asked, inv, header.bind returns⟩

/-- On a fresh heap a small request finds the one block. -/
theorem keepsInside_fresh (memory : Memory) :
    KeepsInside (Clients.start memory kHeapStart kHeapEnd).heap (.alloc 50) :=
  fun _ _ _ tiled unfit _ => fresh_room memory (by decide) tiled unfit

/-- 4097 frames from 0x200000 on. -/
def manyFrames : List UInt32 := (List.range 4097).map fun i => UInt32.ofNat (0x200000 + 4096 * i)

theorem manyFrames_spare :
    ∃ s, manyFrames.foldlM Sprite.Paging.pmmFreePage Pmm.empty = some s ∧ Spare 0xC0110000 s ∧
      4096 < s.free.length := by
  have few : manyFrames.length ≤ Sprite.Paging.PAGE_MAX_SIZE + 1 := by
    rw [manyFrames, List.length_map, List.length_range]
    decide
  obtain ⟨s, ran, pushed, fits⟩ := Pmm.free_all_spec manyFrames few
  have place : ∀ i < 4097, (UInt32.ofNat (0x200000 + 4096 * i)).toNat = 0x200000 + 4096 * i := fun i small =>
    UInt32.toNat_ofNat_of_lt' (by simp only [UInt32.size]; omega)
  have each : ∀ base ∈ s.free, ∃ i < 4097, base.toNat = 0x200000 + 4096 * i := by
    intro base inside
    rw [pushed, manyFrames, List.mem_map] at inside
    obtain ⟨i, member, rfl⟩ := inside
    exact ⟨i, List.mem_range.mp member, place i (List.mem_range.mp member)⟩
  refine ⟨s, ran, ⟨fits, ?_, fun base inside => ?_, fun base inside vma object => ?_⟩, ?_⟩
  · rw [pushed, manyFrames, List.nodup_map_iff_inj_on List.nodup_range]
    intro i first j second same
    have same' := congrArg UInt32.toNat same
    rw [place i (List.mem_range.mp first), place j (List.mem_range.mp second)] at same'
    omega
  · obtain ⟨i, -, value⟩ := each base inside
    refine pageBase_eq_iff.mpr ?_
    omega
  · obtain ⟨i, -, value⟩ := each base inside
    have below : (Mmu.physical base vma).toNat < 0x191004 := object.2
    rw [Mmu.toNat_physical (by omega)] at below
    omega
  · rw [pushed, manyFrames, List.length_map, List.length_range]
    decide

/-- Allocating, writing to the first bytes and reading one of them back. -/
def fewRequests : List HeapOp :=
  [.call (.alloc 50), .call (.write 0xD0000005 7), .read 0xD0000005]

theorem fewRequests_permitted (memory : Memory) :
    Permitted (fun clients op => (ask clients op).map Prod.snd) MayAsk
      (Clients.start memory kHeapStart kHeapEnd) fewRequests := by
  refine ⟨⟨trivial, keepsInside_fresh memory, fun _ same => by cases same; decide⟩, ?_⟩
  intro next asked
  have tiled : Tiled (Clients.start memory kHeapStart kHeapEnd).heap ([] ++ ⟨0xFFFFFC, false, rfl⟩ :: []) :=
    init_tiled (by decide) (by decide) (by decide)
  have found : (Clients.start memory kHeapStart kHeapEnd).heap.alloc 50 = _ :=
    alloc_firstFit tiled (fun _ member => by cases member) ⟨by decide, rfl⟩
  have live : next.live = [⟨0xD0000004, 50⟩] := by
    simp only [ask, Clients.step, found, Option.map_some, Option.mem_def, Option.some.injEq] at asked
    rw [← asked]
    show [(⟨address (0xD0000000 + 0) + 4, 50⟩ : Grant)] = _
    decide
  have covered : ∃ grant ∈ next.live, grant.Covers (0xD0000005 : UInt32).toNat := by
    rw [live]
    exact ⟨_, List.mem_singleton_self _, by decide⟩
  refine ⟨⟨covered, trivial, fun _ same => by cases same⟩, ?_⟩
  intro next' wrote
  have same : next'.live = next.live := by
    simp only [ask, Clients.step, Option.map_some, Option.mem_def, Option.some.injEq] at wrote
    rw [← wrote]
  refine ⟨?_, fun _ _ => trivial⟩
  show ∃ grant ∈ next'.live, _
  rw [same]
  exact covered

end Paged

end Sprite.Heap

/-
**Threads on the kernel heap.**

`submit` takes the stack of a new thread from `kmalloc`, so the threads and the clients of the heap share
one memory: the allocator must not write on a stack that is in use, and no thread must write on a header.
Calls of `kthread`, `kmalloc` and `kfree` are taken as wholes here, between two ticks.

* `Shared`, `Shared.step` — the threads, the live allocations, and one memory.
* `Shared.Sound` — the invariant: of the threads, of the heap, and each stack is a live allocation.
* `threads_share_heap` — **every run**: threads go on where they were interrupted, and what the clients
  of the heap hold stays apart, although the stacks are among it.
-/
import Sprite.Heap.Contents
import Sprite.Sched.Preemption

namespace Sprite.Sched

open Runs X86 Words Heap ImplicitListAllocator

/-- The threads, and the live allocations of the kernel's heap. -/
structure Shared where
  observed : Observed
  grants : List Grant

/-- The running thread calls `kthread`, `kmalloc` or `kfree`, or gets the processor and the memory into
another state, or is interrupted by the timer. -/
inductive Act where
  | submit (fn : UInt32)
  | kmalloc (size : UInt32)
  | kfree (pos : UInt32)
  | work (cpu : Cpu)
  | tick

namespace Shared

def memory (x : Shared) : Memory := x.observed.kernel.cpu.memory

/-- The heap, in the memory of the threads. -/
def clients (x : Shared) : Clients := ⟨⟨kHeapStart, kHeapEnd, x.memory⟩, x.grants⟩

/-- What the allocator leaves behind. -/
def adopt (x : Shared) (next : Clients) : Shared where
  observed :=
    { x.observed with
      kernel := ⟨{ x.observed.kernel.cpu with memory := next.heap.memory }, x.observed.kernel.sched⟩
      resumed := none }
  grants := next.live

def step (code : Compiled) (x : Shared) : Act → Option Shared
  | .submit fn => (x.clients.heap.alloc STACK_SIZE).bind fun
      -- The assertion of `submit`.
      | (none, _) => none
      | (some newTask, heap) =>
          let taken := x.adopt ⟨heap, ⟨newTask, STACK_SIZE⟩ :: x.grants⟩
          (taken.observed.step code (.submit fn newTask)).map fun observed => { taken with observed }
  | .kmalloc size => (x.clients.step (.alloc size)).map x.adopt
  | .kfree pos => (x.clients.step (.free pos)).map x.adopt
  | .work cpu => (x.observed.step code (.work cpu)).map fun observed => { x with observed }
  | .tick => (x.observed.step code .tick).map fun observed => { x with observed }

/-- What the running thread may write: its own stack, what belongs to no thread, and of the heap what
somebody holds. -/
def workArea (x : Shared) : Set UInt32 :=
  {place | place ∈ x.observed.workArea ∧
    (kHeapStart.toNat ≤ place.toNat → place.toNat < kHeapEnd.toNat → Held x.clients place)}

/-- Requests are safe, a new thread gets a stack, and nobody frees the stack of a thread. -/
def Legal (code : Compiled) (x : Shared) : Act → Prop
  | .submit _ => SafeRequest x.clients (.alloc STACK_SIZE)
      ∧ ∃ newTask heap, x.clients.heap.alloc STACK_SIZE = some (some newTask, heap)
  | .kmalloc size => SafeRequest x.clients (.alloc size)
  | .kfree pos => (∃ grant ∈ x.grants, grant.pos = pos) ∧ SafeRequest x.clients (.free pos)
      ∧ pos ∉ x.observed.live
  | .work cpu => Within x.workArea x.memory cpu.memory
  | .tick => Preemptible code x.observed.kernel.sched.running_ x.observed.kernel.cpu

/-- Each thread has its stack: the first one from the start, the others from the heap. -/
def Stacked (kernStack : Ptr) (x : Shared) : Prop :=
  ∀ task ∈ x.observed.live, task = kernStack ∨ ⟨task, STACK_SIZE⟩ ∈ x.grants

structure Right (code : Compiled) (kernStack : Ptr) (x : Shared) : Prop where
  threads : Observed.Right code x.observed
  heap : Isolated x.clients
  stacked : x.Stacked kernStack

/-- **The invariant.** -/
structure Sound (code : Compiled) (kernStack : Ptr) (x : Shared) : Prop where
  threads : Observed.Sound code x.observed
  heap : Inv UInt32.toNat x.clients
  stacked : x.Stacked kernStack

/-- The heap, and the header that an exact fit leaves behind it. -/
def heapBytes : Set UInt32 := between kHeapStart.toNat (kHeapEnd.toNat + 4)

/-- The bytes that the allocator may write: those of the heap that nobody holds. -/
def freeArea (clients : Clients) : Set UInt32 := {place | place ∈ heapBytes ∧ ¬ Held clients place}

/-- The first thread, and a heap of one free block. -/
def start (kernStack : Ptr) (cpu : Cpu) : Shared where
  observed := Observed.boot kernStack
    { cpu with memory := (init cpu.memory kHeapStart kHeapEnd).memory }
  grants := []

variable {code : Compiled} {kernStack : Ptr} {x : Shared} {task : Ptr} {memory : Memory}

/-! ### What the allocator writes -/

theorem alloc_bounds {clients : Clients} {blocks : List Block} (granted : Granted UInt32.toNat clients blocks)
    {size : UInt32} {result : Option UInt32} {heap : ImplicitListAllocator}
    (ran : clients.heap.alloc size = some (result, heap)) :
    heap = { clients.heap with memory := heap.memory } := by
  rcases firstFit_cases blocks (align2 size).toNat with unfit | ⟨before, b, after, rfl, unfit, fits⟩
  · rw [alloc_none granted.tiled unfit] at ran
    cases ran
    rfl
  · rw [alloc_firstFit granted.tiled unfit fits] at ran
    cases ran
    rfl

/-- A place outside the heap and the four bytes behind it. -/
theorem outside_heap {place : UInt32} (outside : place ∉ heapBytes) :
    place.toNat < kHeapStart.toNat ∨ kHeapEnd.toNat + 4 ≤ place.toNat := by
  have far : ¬ (kHeapStart.toNat ≤ place.toNat ∧ place.toNat < kHeapEnd.toNat + 4) := outside
  omega

theorem alloc_within {blocks : List Block} (granted : Granted UInt32.toNat x.clients blocks) {size : UInt32}
    (safe : SafeAlloc x.clients.heap size) {result : Option UInt32} {heap : ImplicitListAllocator}
    (ran : x.clients.heap.alloc size = some (result, heap)) :
    Within (freeArea x.clients) x.memory heap.memory := by
  intro place notFree
  by_cases held : Held x.clients place
  · exact alloc_contents granted safe ran held
  have outside := outside_heap fun inside => notFree ⟨inside, held⟩
  have start : x.clients.heap.mstart_.toNat = 0xD0000000 := rfl
  have stop : x.clients.heap.mend_.toNat = 0xD1000000 := rfl
  have covers := granted.tiled.covers
  have small := place.toNat_lt
  rw [show kHeapStart.toNat = 0xD0000000 from rfl, show kHeapEnd.toNat = 0xD1000000 from rfl] at outside
  refine alloc_frame granted.tiled safe ran (fun spot block placed _ => ?_) (by omega)
  have bounds := Tiling.mem_place_bounds Block.width placed
  omega

theorem free_within {blocks : List Block} (granted : Granted UInt32.toNat x.clients blocks) {pos : UInt32}
    (live : ∃ grant ∈ x.grants, grant.pos = pos) :
    Within (freeArea x.clients) x.memory (x.clients.heap.free pos).memory := by
  intro place notFree
  by_cases held : Held x.clients place
  · exact free_contents granted live held
  have outside := outside_heap fun inside => notFree ⟨inside, held⟩
  obtain ⟨grant, member, rfl⟩ := live
  obtain ⟨start, block, placed, _, position, _⟩ := granted.owned grant member
  have bounds := Tiling.mem_place_bounds Block.width placed
  have wide := block.width_pos
  have first : x.clients.heap.mstart_.toNat = 0xD0000000 := rfl
  have stop : x.clients.heap.mend_.toNat = 0xD1000000 := rfl
  have covers := granted.tiled.covers
  have header : (grant.pos - 4).toNat = start := by
    rw [UInt32.toNat_sub, show (4 : UInt32).toNat = 4 from rfl]
    have small := grant.pos.toNat_lt
    omega
  rw [show kHeapStart.toNat = 0xD0000000 from rfl, show kHeapEnd.toNat = 0xD1000000 from rfl] at outside
  exact free_frame x.clients.heap grant.pos (by omega)

/-! ### Stacks are live allocations -/

/-- Every byte of a stack from the heap is held. -/
theorem held_of_region (granted : ⟨task, STACK_SIZE⟩ ∈ x.grants) {place : UInt32}
    (inside : place ∈ region task) : Held x.clients place :=
  ⟨_, granted, inside.1, inside.2⟩

/-- Stacks are apart from what the allocator writes. -/
theorem Sound.region_freeArea (sound : Sound code kernStack x) (apart : Disjoint (region kernStack) heapBytes)
    (inside : task ∈ x.observed.live) : Disjoint (region task) (freeArea x.clients) := by
  refine Set.disjoint_left.mpr fun place own free => ?_
  rcases sound.stacked task inside with rfl | granted
  · exact Set.disjoint_left.mp apart own free.1
  · exact free.2 (held_of_region granted own)

/-- What the allocator writes belongs to no thread. -/
theorem Sound.freeArea_workArea (sound : Sound code kernStack x)
    (apart : Disjoint (region kernStack) heapBytes) : freeArea x.clients ⊆ x.observed.workArea :=
  fun _ free _ inside own =>
    absurd free (Set.disjoint_left.mp (sound.region_freeArea apart inside) own)

/-- The heap does not depend on what is held. -/
theorem heap_kept {observed : Observed} (inv : Inv UInt32.toNat x.clients)
    (same : ∀ place : UInt32, kHeapStart.toNat ≤ place.toNat → place.toNat < kHeapEnd.toNat →
      ¬ Held x.clients place → observed.kernel.cpu.memory place = x.memory place) :
    Inv UInt32.toNat (Shared.mk observed x.grants).clients := by
  obtain ⟨blocks, granted⟩ := inv
  exact ⟨blocks, granted.congr same⟩

/-! ### Calls of the allocator -/

/-- The allocator leaves the threads as they are. -/
theorem Sound.adopted (cdecl : Cdecl code) (sound : Sound code kernStack x)
    (apart : Disjoint (region kernStack) heapBytes) {next : Clients}
    (within : Within (freeArea x.clients) x.memory next.heap.memory) :
    Observed.Sound code (x.adopt next).observed :=
  Observed.work_keeps cdecl sound.threads (within.mono (sound.freeArea_workArea apart))

theorem clients_adopt {next : Clients}
    (bounds : next.heap = { x.clients.heap with memory := next.heap.memory }) :
    (x.adopt next).clients = next := by
  obtain ⟨heap, live⟩ := next
  show (⟨⟨kHeapStart, kHeapEnd, heap.memory⟩, live⟩ : Clients) = ⟨heap, live⟩
  exact congrArg (Clients.mk · live) bounds.symm

/-- A request that can be granted, or that cannot. -/
theorem request_met {blocks : List Block} (granted : Granted UInt32.toNat x.clients blocks) {size : UInt32}
    (met : ∀ size', Call.alloc size = .alloc size' → size' ≠ 0xFFFFFFFF ∨
      ∀ blocks, Tiled x.clients.heap blocks → ∀ block ∈ blocks, block.used = true) :
    size.toNat ≤ (align2 size).toNat ∨ ∀ block ∈ blocks, block.used = true := by
  rcases met size rfl with fits | full
  · exact Or.inl (le_toNat_align2 fits)
  · exact Or.inr (full blocks granted.tiled)

/-- **One `kmalloc`.** -/
theorem kmalloc_step (cdecl : Cdecl code) (sound : Sound code kernStack x)
    (apart : Disjoint (region kernStack) heapBytes) {size : UInt32}
    (safe : SafeRequest x.clients (.alloc size)) :
    ∃ next, x.step code (.kmalloc size) = some next ∧ Sound code kernStack next := by
  obtain ⟨blocks, granted⟩ := sound.heap
  obtain ⟨next, stepped, inv⟩ := alloc_keeps granted safe.1 (request_met granted safe.2)
  obtain ⟨⟨result, heap⟩, ran, rfl⟩ := Option.map_eq_some_iff.mp stepped
  have bounds := alloc_bounds granted ran
  have within := alloc_within granted safe.1 ran
  refine ⟨_, Option.map_eq_some_iff.mpr ⟨_, stepped, rfl⟩, ?_⟩
  cases result with
  | none => exact ⟨sound.adopted cdecl apart within, by rwa [clients_adopt bounds], sound.stacked⟩
  | some pos =>
    refine ⟨sound.adopted cdecl apart within, by rwa [clients_adopt bounds], fun task inside => ?_⟩
    exact (sound.stacked task inside).imp_right (List.mem_cons_of_mem _)

/-- **One `kfree`** of what is not the stack of a thread. -/
theorem kfree_step (cdecl : Cdecl code) (sound : Sound code kernStack x)
    (apart : Disjoint (region kernStack) heapBytes) {pos : UInt32}
    (live : ∃ grant ∈ x.grants, grant.pos = pos) (safe : SafeRequest x.clients (.free pos))
    (noStack : pos ∉ x.observed.live) :
    ∃ next, x.step code (.kfree pos) = some next ∧ Sound code kernStack next := by
  obtain ⟨blocks, granted⟩ := sound.heap
  obtain ⟨next, stepped, inv⟩ := free_keeps granted live safe.1
  cases stepped
  refine ⟨_, rfl, sound.adopted cdecl apart (free_within granted live), ?_, fun task inside => ?_⟩
  · rwa [clients_adopt (free_bounds x.clients.heap pos)]
  · refine (sound.stacked task inside).imp_right fun member => List.mem_filter.mpr ⟨member, ?_⟩
    exact decide_eq_true fun same => noStack (same ▸ inside)

/-! ### Submits -/

/-- A stack that `kmalloc` has answered is new, in memory, and apart from every other one. -/
theorem new_stack {newTask : Ptr}
    (stacked : x.Stacked kernStack) (apart : Disjoint (region kernStack) heapBytes)
    (statics : Disjoint code.statics heapBytes)
    (isolated : Isolated ⟨⟨kHeapStart, kHeapEnd, memory⟩, ⟨newTask, STACK_SIZE⟩ :: x.grants⟩) :
    newTask ≠ nullptr ∧ Placed code newTask ∧ region newTask ⊆ heapBytes
      ∧ ∀ task ∈ x.observed.live, Disjoint (region newTask) (region task) := by
  have inside : ∀ spot, newTask.toNat ≤ spot → spot < newTask.toNat + 4096 →
      0xD0000004 ≤ spot ∧ spot < 0xD1000000 := fun spot low high =>
    isolated.inside _ List.mem_cons_self spot ⟨low, high⟩
  have first := inside newTask.toNat le_rfl (by omega)
  have last := inside (newTask.toNat + 4095) (by omega) (by omega)
  have within : region newTask ⊆ heapBytes := fun place own =>
    ⟨(Nat.le_of_succ_le (show 0xD0000000 + 1 ≤ newTask.toNat by omega)).trans own.1,
      own.2.trans_le (show newTask.toNat + 4096 ≤ 0xD1000000 + 4 by omega)⟩
  refine ⟨?_, ⟨by omega, (statics.mono_right within).symm⟩, within, fun task live => ?_⟩
  · rintro rfl
    exact absurd first.1 (by decide)
  · rcases stacked task live with rfl | member
    · exact (apart.mono_right within).symm
    · refine Set.disjoint_left.mpr fun place own own' => ?_
      have clear := (List.pairwise_cons.mp isolated.disjoint).1 _ member place.toNat
      exact clear ⟨⟨own.1, own.2⟩, ⟨own'.1, own'.2⟩⟩

/-- What `submit` leaves behind, besides that it keeps the invariant of the threads. -/
theorem submitted {o next : Observed} (sound : Observed.Sound code o) {fn : UInt32} {newTask : Ptr}
    (legal : Observed.Legal code o (.submit fn newTask))
    (stepped : o.step code (.submit fn newTask) = some next) :
    next.live = o.live ++ [newTask]
      ∧ Within (region newTask) o.kernel.cpu.memory next.kernel.cpu.memory := by
  obtain ⟨notNull, placed, apart⟩ := legal
  have fresh : newTask ∉ o.live := fun inside =>
    Set.disjoint_left.mp (apart newTask inside) (Observed.mem_region placed) (Observed.mem_region placed)
  obtain ⟨pid, memory, sched, ran, -, -, -, within⟩ := Observed.submit_spec sound fn notNull placed fresh
  rw [Observed.step, ran, Option.map_some, Option.some.injEq] at stepped
  subst stepped
  exact ⟨rfl, within⟩

/-- **One `kthread`.** -/
theorem submit_step (cdecl : Cdecl code) (sound : Sound code kernStack x)
    (apart : Disjoint (region kernStack) heapBytes) (statics : Disjoint code.statics heapBytes)
    (fn : UInt32) (legal : Legal code x (.submit fn)) :
    ∃ next, x.step code (.submit fn) = some next ∧ Sound code kernStack next := by
  obtain ⟨safe, newTask, heap, ran⟩ := legal
  obtain ⟨blocks, granted⟩ := sound.heap
  obtain ⟨next, stepped, inv⟩ := alloc_keeps granted safe.1 (request_met granted safe.2)
  have isNext : next = ⟨heap, ⟨newTask, STACK_SIZE⟩ :: x.grants⟩ := by
    rw [Clients.step, ran, Option.map_some, Option.some.injEq] at stepped
    exact stepped.symm
  subst isNext
  have bounds := alloc_bounds granted ran
  obtain ⟨taken, isTaken⟩ : ∃ taken, taken = x.adopt ⟨heap, ⟨newTask, STACK_SIZE⟩ :: x.grants⟩ := ⟨_, rfl⟩
  have threads : Observed.Sound code taken.observed :=
    isTaken ▸ sound.adopted cdecl apart (alloc_within granted safe.1 ran)
  have inv' : Inv UInt32.toNat taken.clients := by
    rw [isTaken, clients_adopt bounds]
    exact inv
  have grants : taken.grants = ⟨newTask, STACK_SIZE⟩ :: x.grants := by rw [isTaken]; rfl
  have live : taken.observed.live = x.observed.live := by rw [isTaken]; rfl
  have isolated := inv'.isolated
  rw [clients, grants] at isolated
  obtain ⟨notNull, placed, -, clear⟩ := new_stack sound.stacked apart statics isolated
  have legal : Observed.Legal code taken.observed (.submit fn newTask) := by
    refine ⟨notNull, placed, ?_⟩
    rw [live]
    exact clear
  obtain ⟨observed, submits, threads'⟩ := Observed.submit_step cdecl threads legal
  obtain ⟨live', within⟩ := submitted threads legal submits
  refine ⟨{ taken with observed }, ?_, threads', ?_, fun task inside => ?_⟩
  · rw [step, ran, Option.bind_some]
    dsimp only
    rw [← isTaken, submits, Option.map_some]
  · refine heap_kept inv' fun place _ _ notHeld => within place fun own => notHeld ?_
    exact held_of_region (grants ▸ List.mem_cons_self) own
  · show task = kernStack ∨ _ ∈ taken.grants
    rw [grants]
    rcases List.mem_append.mp (live' ▸ inside) with old | new
    · exact (sound.stacked task (live ▸ old)).imp_right (List.mem_cons_of_mem _)
    · exact Or.inr (List.mem_singleton.mp new ▸ List.mem_cons_self)

/-! ### Work and ticks -/

theorem work_step (cdecl : Cdecl code) (sound : Sound code kernStack x) {cpu : Cpu}
    (legal : Within x.workArea x.memory cpu.memory) :
    ∃ next, x.step code (.work cpu) = some next ∧ Sound code kernStack next := by
  refine ⟨_, rfl, Observed.work_keeps cdecl sound.threads (legal.mono fun _ may => may.1), ?_, sound.stacked⟩
  exact heap_kept sound.heap fun place low high notHeld =>
    legal place fun may => notHeld (may.2 low high)

/-- A tick writes the stacks of two threads and the variables of the kernel. -/
theorem tick_within (cdecl : Cdecl code) {o next : Observed} (sound : Observed.Sound code o)
    (legal : Preemptible code o.kernel.sched.running_ o.kernel.cpu) (stepped : o.step code .tick = some next) :
    next.live = o.live ∧ ∃ target ∈ o.live,
      Within (tickArea code o.kernel.sched.running_ ∪ tickArea code target) o.kernel.cpu.memory
        next.kernel.cpu.memory := by
  have placed := sound.runningPlaced
  obtain ⟨kernel, ticked, rfl⟩ := Option.map_eq_some_iff.mp stepped
  refine ⟨rfl, ?_⟩
  rcases schedule_spec sound.queue with stays | ⟨target, inside, other, moves, -⟩
  · obtain ⟨memory, ran, -, within⟩ := tick_alone cdecl legal placed stays
    cases ran.symm.trans ticked
    exact ⟨_, sound.queue.running, within.mono Set.subset_union_left⟩
  · have placed' := sound.placed target inside
    have apart := sound.apart target inside _ sound.queue.running other
    have parked := sound.parked target inside other
    refine ⟨target, inside, ?_⟩
    cases isSeen : o.seen target with
    | some before =>
      rw [isSeen] at parked
      obtain ⟨memory, ran, -, -, within⟩ := tick_resumes cdecl legal placed placed' apart moves parked
      cases ran.symm.trans ticked
      exact within
    | none =>
      rw [isSeen] at parked
      obtain ⟨fn, pid, -, fresh⟩ := parked
      obtain ⟨cpu, ran, -, -, within⟩ := tick_starts cdecl legal placed placed' apart moves fresh
      cases ran.symm.trans ticked
      exact within

theorem tick_step (cdecl : Cdecl code) (sound : Sound code kernStack x)
    (apart : Disjoint (region kernStack) heapBytes) (statics : Disjoint code.statics heapBytes)
    (legal : Preemptible code x.observed.kernel.sched.running_ x.observed.kernel.cpu) :
    ∃ next, x.step code .tick = some next ∧ Sound code kernStack next := by
  obtain ⟨observed, ticked, threads⟩ := Observed.tick_step cdecl sound.threads legal
  obtain ⟨live, target, inside, within⟩ := tick_within cdecl sound.threads legal ticked
  have stacked : ∀ task ∈ observed.live, task = kernStack ∨ ⟨task, STACK_SIZE⟩ ∈ x.grants := by
    rw [live]
    exact sound.stacked
  refine ⟨{ x with observed }, by rw [step, ticked, Option.map_some], threads, ?_, stacked⟩
  -- In the heap a tick writes on stacks only, which are held.
  have notTicked : ∀ task ∈ x.observed.live, ∀ place ∈ heapBytes, ¬ Held x.clients place →
      place ∉ tickArea code task := by
    rintro task member place inHeap notHeld (own | static)
    · exact Set.disjoint_left.mp (sound.region_freeArea apart member) own ⟨inHeap, notHeld⟩
    · exact Set.disjoint_left.mp statics static inHeap
  refine heap_kept sound.heap fun place low high notHeld => within place fun written => ?_
  have inHeap : place ∈ heapBytes := ⟨low, Nat.lt_add_right 4 high⟩
  rcases written with first | second
  · exact notTicked _ sound.threads.queue.running place inHeap notHeld first
  · exact notTicked target inside place inHeap notHeld second

/-! ### Runs -/

theorem start_sound (notNull : kernStack ≠ nullptr) (placed : Placed code kernStack) (cpu : Cpu) :
    Sound code kernStack (start kernStack cpu) := by
  refine ⟨Observed.boot_sound notNull placed _, ?_, fun task inside => ?_⟩
  · have inv : Inv UInt32.toNat (Clients.start cpu.memory kHeapStart kHeapEnd) :=
      inv_start _ (by decide) (by decide) (by decide)
    exact inv
  · exact Or.inl (List.mem_singleton.mp inside)

theorem Sound.right (sound : Sound code kernStack x) : Right code kernStack x :=
  ⟨sound.threads.right, sound.heap.isolated, sound.stacked⟩

end Shared

/-- **Threads and the clients of the heap share one memory**, in every run: no act stops the kernel,
every thread that a tick goes on with continues where it was interrupted or starts, although its stack
came from `kmalloc`, and what is allocated stays disjoint and clear of every header, although threads
run in it. -/
theorem threads_share_heap {code : Compiled} (cdecl : Cdecl code) {kernStack : Ptr}
    (notNull : kernStack ≠ nullptr) (placed : Placed code kernStack)
    (apart : Disjoint (region kernStack) Shared.heapBytes)
    (statics : Disjoint code.statics Shared.heapBytes) (cpu : Cpu) (acts : List Act) :
    Along (Shared.step code) (Shared.Legal code) (Shared.Right code kernStack)
      (Shared.start kernStack cpu) acts := by
  refine along_of_invariant (Shared.Sound code kernStack) (fun x act sound legal => ?_)
    (fun _ sound => sound.right) acts _ (Shared.start_sound notNull placed cpu)
  cases act with
  | submit fn => exact Shared.submit_step cdecl sound apart statics fn legal
  | kmalloc size => exact Shared.kmalloc_step cdecl sound apart legal
  | kfree pos => exact Shared.kfree_step cdecl sound apart legal.1 legal.2.1 legal.2.2
  | work cpu => exact Shared.work_step cdecl sound legal
  | tick => exact Shared.tick_step cdecl sound apart statics legal

/-- A thread gets a stack from the heap, starts, and is interrupted at once. -/
theorem threads_share_kernel_heap :
    Permitted (Shared.step inlined) (Shared.Legal inlined) (Shared.start 0x00108000 bootCpu)
        [.submit 0x00102000, .tick, .tick]
      ∧ Along (Shared.step inlined) (Shared.Legal inlined) (Shared.Right inlined 0x00108000)
        (Shared.start 0x00108000 bootCpu) [.submit 0x00102000, .tick, .tick] := by
  refine ⟨⟨⟨⟨fun _ _ _ tiled unfit _ => Or.inl (fresh_room _ (by decide) tiled unfit),
    fun size same => Or.inl ?_⟩, ?_⟩, fun first submitted => ?_⟩, ?_⟩
  · cases same
    decide
  · have tiled : Tiled (Clients.start bootCpu.memory kHeapStart kHeapEnd).heap
        ([] ++ ⟨0xFFFFFC, false, rfl⟩ :: []) := init_tiled (by decide) (by decide) (by decide)
    exact ⟨_, _, alloc_firstFit tiled (fun _ member => by cases member) ⟨by decide, rfl⟩⟩
  · have ticks : ∀ x ∈ Shared.step inlined (Shared.start 0x00108000 bootCpu) (.submit 0x00102000),
        Preemptible inlined x.observed.kernel.sched.running_ x.observed.kernel.cpu
          ∧ ∀ next ∈ Shared.step inlined x .tick,
            Preemptible inlined next.observed.kernel.sched.running_ next.observed.kernel.cpu := by
      decide +kernel
    obtain ⟨legal, again⟩ := ticks first submitted
    exact ⟨legal, fun second ticked => ⟨again second ticked, fun _ _ => True.intro⟩⟩
  · refine threads_share_heap inlined_cdecl (by decide) ⟨by decide, Set.disjoint_empty _⟩ ?_
      (Set.empty_disjoint _) bootCpu _
    refine Set.disjoint_left.mpr fun place own inHeap => ?_
    have high : place.toNat < 0x00109000 := own.2
    have low : 0xD0000000 ≤ place.toNat := inHeap.1
    omega

end Sprite.Sched

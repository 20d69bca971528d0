/-
**Fragmentation of the kernel heap.**

`free` joins a block with the free block behind it, never with the one in front, and nothing else
ever joins blocks. As long as no block is freed behind a free one, no two free blocks are neighbours,
and when the last allocation is given back the heap is one free block again.

* `Compact` — no two neighbours are both free.
* `Took.compact`, `Gave.compact` — what a call does to that.
* `nothing_lost_along_calls` — **every run**.
* `freeing_upwards_fragments` — two blocks freed in the order they were allocated in.
-/
import Sprite.Heap.Isolation
import Mathlib.Data.List.Chain

namespace Sprite.Heap

open Words Tiling Runs ImplicitListAllocator

/-- **Nothing is lost**: when every block has been freed, what a fresh heap can hand out can be
handed out. -/
def NothingLost (fresh : ImplicitListAllocator) (clients : Clients) : Prop :=
  clients.live = [] → ∀ size pos heap, fresh.alloc size = some (some pos, heap) →
    ∃ pos' heap', clients.heap.alloc size = some (some pos', heap')

/-- The block freed does not stand behind a free one. -/
def FreesBehindUsed (heap : ImplicitListAllocator) : Call → Prop
  | .free pos =>
      ∀ before left block after, Tiled heap (before ++ left :: block :: after) →
        pos - 4 = address (heap.mstart_.toNat + span Block.width (before ++ [left])) →
        left.used = true
  | _ => True

/-- No two neighbours are both free. -/
def Compact (blocks : List Block) : Prop :=
  blocks.IsChain fun left right => left.used = true ∨ right.used = true

/-- How many blocks are allocated. -/
def usedCount (blocks : List Block) : Nat := blocks.countP Block.used

section Blocks

variable {held held' : Nat} {blocks blocks' before : List Block}

theorem Took.counted (took : Took held blocks held' blocks') (counted : usedCount blocks = held) :
    usedCount blocks' = held' := by
  rcases took with ⟨rfl, rfl⟩ | ⟨before, block, after, taken, rest, rfl, rfl, rfl, unused, used, free, _⟩
  · exact counted
  · have none : rest.countP Block.used = 0 :=
      List.countP_eq_zero.mpr fun other member => by simp [free other member]
    simp only [usedCount, List.countP_append, List.countP_cons, List.countP_nil, unused, used,
      none] at counted ⊢
    simp only [Bool.false_eq_true, if_false, if_true] at counted ⊢
    omega

theorem Gave.counted (gave : Gave before held blocks held' blocks')
    (counted : usedCount blocks = held) : usedCount blocks' = held' := by
  obtain ⟨block, joined, new, rest, rfl, rfl, rfl, used, unused, free, _⟩ := gave
  have none : joined.countP Block.used = 0 :=
    List.countP_eq_zero.mpr fun other member => by simp [free other member]
  simp only [usedCount, List.countP_append, List.countP_cons, List.countP_nil, unused, used,
    none] at counted ⊢
  simp only [Bool.false_eq_true, if_false, if_true] at counted ⊢
  omega

/-- Taking a block keeps free blocks apart: the neighbours of the one taken are allocated. -/
theorem Took.compact (took : Took held blocks held' blocks') (compact : Compact blocks) :
    Compact blocks' := by
  rcases took with ⟨rfl, rfl⟩ | ⟨before, block, after, taken, rest, rfl, rfl, rfl, unused, used, _, one⟩
  · exact compact
  · obtain ⟨front, back, meet⟩ := List.isChain_append.mp compact
    have next_used : ∀ next ∈ after.head?, next.used = true := by
      intro next head
      have either := meet block (by simp) next head
      simpa [unused] using either
    have inner : Compact (taken :: rest) := by
      cases rest with
      | nil => exact List.IsChain.singleton _
      | cons other rest =>
        have short : rest = [] := by simpa using one
        subst short
        exact List.isChain_cons_cons.mpr ⟨Or.inl used, List.IsChain.singleton _⟩
    refine (front.left_of_append.append inner fun last _ first head => ?_).append back
      fun last _ next head => Or.inr (next_used next head)
    have same : taken = first := by simpa using head
    exact Or.inr (same ▸ used)

/-- Giving back a block that stands behind an allocated one keeps free blocks apart: a free block
behind it has been joined. -/
theorem Gave.compact (gave : Gave before held blocks held' blocks')
    (behind : ∀ left ∈ before.getLast?, left.used = true) (compact : Compact blocks) :
    Compact blocks' := by
  obtain ⟨block, joined, new, rest, rfl, rfl, rfl, _, unused, free, alone⟩ := gave
  obtain ⟨front, back, meet⟩ := List.isChain_append.mp compact
  have next_used : ∀ next ∈ rest.head?, next.used = true := by
    rcases alone with ⟨_, used⟩ | one
    · exact used
    · obtain ⟨other, rfl⟩ := List.length_eq_one_iff.mp one
      intro next head
      have either := meet other (by simp) next head
      simpa [free other (by simp)] using either
  refine (front.left_of_append.append (List.IsChain.singleton new) fun left last _ _ => ?_).append back
    fun _ _ next head => Or.inr (next_used next head)
  exact Or.inl (behind left last)

/-- **A compact heap with no block allocated is one block.** -/
theorem Compact.single (compact : Compact blocks) (none : usedCount blocks = 0)
    (some : 0 < span Block.width blocks) :
    ∃ block, blocks = [block] ∧ block.used = false := by
  have free : ∀ block ∈ blocks, block.used = false := fun block member => by
    simpa using List.countP_eq_zero.mp none block member
  cases blocks with
  | nil => simp at some
  | cons block blocks =>
    cases blocks with
    | nil => exact ⟨block, rfl, free block (by simp)⟩
    | cons next blocks =>
      have either := (List.isChain_cons_cons.mp compact).1
      simp [free block (by simp), free next (by simp)] at either

end Blocks

/-! ### Every run -/

section Along

variable {clients next : Clients} {fresh : ImplicitListAllocator}

theorem Clients.step_bounds {call : Call} (stepped : clients.step call = some next) :
    next.heap.mstart_ = clients.heap.mstart_ ∧ next.heap.mend_ = clients.heap.mend_ := by
  cases call with
  | alloc size =>
    obtain ⟨⟨result, heap⟩, returned, rfl⟩ := Option.map_eq_some_iff.mp stepped
    have bounds : heap.mstart_ = clients.heap.mstart_ ∧ heap.mend_ = clients.heap.mend_ := by
      unfold ImplicitListAllocator.alloc at returned
      dsimp only at returned
      split at returned
      · cases returned
      · cases returned
        exact ⟨rfl, rfl⟩
      · cases returned
        exact ⟨rfl, rfl⟩
    cases result with
    | none => exact bounds
    | some pos => exact bounds
  | free pos =>
    cases stepped
    dsimp only
    rw [free_bounds]
    exact ⟨rfl, rfl⟩
  | write spot value =>
    cases stepped
    exact ⟨rfl, rfl⟩

/-- The invariant: each live allocation has a block and each allocated block is a live allocation,
no two free blocks are neighbours, and the heap is where it was. -/
def Kept (fresh : ImplicitListAllocator) (clients : Clients) : Prop :=
  ∃ blocks, Granted (fun _ => 0) clients blocks ∧ usedCount blocks = clients.live.length ∧
    Compact blocks ∧ clients.heap.mstart_ = fresh.mstart_ ∧ clients.heap.mend_ = fresh.mend_

theorem Kept.alloc {size : UInt32} (kept : Kept fresh clients) (safe : SafeAlloc clients.heap size) :
    ∃ next, clients.step (.alloc size) = some next ∧ Kept fresh next := by
  obtain ⟨blocks, granted, counted, compact, first, last⟩ := kept
  obtain ⟨next, blocks', stepped, granted', took⟩ :=
    alloc_grants granted safe (Or.inl (Nat.zero_le _))
  obtain ⟨first', last'⟩ := Clients.step_bounds stepped
  exact ⟨next, stepped, blocks', granted', took.counted counted, took.compact compact,
    first'.trans first, last'.trans last⟩

theorem Kept.free {pos : UInt32} (kept : Kept fresh clients)
    (live : ∃ grant ∈ clients.live, grant.pos = pos) (safe : SafeFree clients.heap pos)
    (behind : FreesBehindUsed clients.heap (.free pos)) :
    ∃ next, clients.step (.free pos) = some next ∧ Kept fresh next := by
  obtain ⟨blocks, granted, counted, compact, first, last⟩ := kept
  obtain ⟨before, next, blocks', here, stepped, granted', gave⟩ := free_grants granted live safe
  obtain ⟨first', last'⟩ := Clients.step_bounds stepped
  refine ⟨next, stepped, blocks', granted', gave.counted counted, gave.compact ?_ compact,
    first'.trans first, last'.trans last⟩
  intro left ends
  obtain ⟨front, rfl⟩ := List.getLast?_eq_some_iff.mp ends
  obtain ⟨block, joined, new, rest, _, rfl, _⟩ := gave
  exact behind front left block (joined ++ rest) (by simpa using granted.tiled) here

/-- When everything has been freed, the heap is one block, as large as that of the fresh heap. -/
theorem Kept.nothingLost {free : Block} (kept : Kept fresh clients) (tiled : Tiled fresh [free]) :
    NothingLost fresh clients := by
  intro empty size pos heap' returned
  obtain ⟨blocks, granted, counted, compact, first, last⟩ := kept
  have covers := granted.tiled.covers
  have covers' := tiled.covers
  rw [first, last] at covers
  rw [span_cons, span_nil] at covers'
  have wide := free.width_pos
  obtain ⟨block, rfl, unused⟩ := compact.single (by rw [counted, empty]; rfl) (by omega)
  rw [span_cons, span_nil] at covers
  have size_eq : block.size = free.size := by
    have width : block.width = block.size + 4 := rfl
    have width' : free.width = free.size + 4 := rfl
    omega
  have fits : free.Fits (align2 size).toNat := by
    by_contra unfit
    rw [alloc_none tiled (by simpa using unfit)] at returned
    cases returned
  have fits' : block.Fits (align2 size).toNat := ⟨size_eq ▸ fits.1, unused⟩
  have whole : Tiled clients.heap ([] ++ block :: []) := granted.tiled
  exact ⟨_, _, alloc_firstFit whole (by simp) fits'⟩

/-- **No run loses any of the heap** as long as no block is freed behind a free one, in whatever
order blocks are allocated and freed; and every call comes back. -/
theorem nothing_lost_along_calls {memory : Memory} {start stop : UInt32}
    (evenStart : start.toNat % 2 = 0) (evenStop : stop.toNat % 2 = 0)
    (room : start.toNat + 8 ≤ stop.toNat) (calls : List Call) :
    Along Clients.step
      (fun clients call => clients.MayCall call ∧ SafeCall clients call
        ∧ FreesBehindUsed clients.heap call)
      (NothingLost (ImplicitListAllocator.init memory start stop))
      (Clients.start memory start stop) calls := by
  have tiled : Tiled (ImplicitListAllocator.init memory start stop) _ :=
    init_tiled evenStart evenStop room
  refine along_of_invariant (Kept (ImplicitListAllocator.init memory start stop))
    (fun clients call kept allowed => ?_) (fun clients kept => kept.nothingLost tiled) calls _ ?_
  · obtain ⟨may, safe, behind⟩ := allowed
    cases call with
    | alloc size => exact kept.alloc safe
    | free pos => exact kept.free may safe behind
    | write spot value => exact may.elim
  · exact ⟨_, ⟨tiled, fun _ member => (List.not_mem_nil member).elim, List.nodup_nil⟩, rfl,
      List.IsChain.singleton _, rfl, rfl⟩

theorem nothing_lost_along_kernel_calls :
    Along Clients.step
      (fun clients call => clients.MayCall call ∧ SafeCall clients call
        ∧ FreesBehindUsed clients.heap call)
      (NothingLost (ImplicitListAllocator.init (fun _ => 0) kHeapStart kHeapEnd))
      (Clients.start (fun _ => 0) kHeapStart kHeapEnd)
      [.alloc 50, .alloc 500, .free 0xD000003A, .free 0xD0000004] :=
  nothing_lost_along_calls (by decide) (by decide) (by decide) _

/-- **Two blocks freed in the order they were allocated in** stay two blocks: the first one is not
joined when the second is freed, and the largest request of the fresh heap is not met any more. -/
theorem freeing_upwards_fragments :
    ¬ Along Clients.step Clients.MayCall
      (NothingLost (ImplicitListAllocator.init (fun _ => 0) kHeapStart kHeapEnd)) kernelClients
      [.alloc 4, .alloc 4, .free 0xD0000004, .free 0xD000000C] := by
  intro along
  have run : ([Call.alloc 4, .alloc 4, .free 0xD0000004, .free 0xD000000C].foldlM Clients.step
      kernelClients).map (fun clients =>
        (clients.live, (clients.heap.alloc 0xFFFFFC).map Prod.fst)) = some ([], some none) := by
    decide +kernel
  obtain ⟨last, ran, values⟩ := Option.map_eq_some_iff.mp run
  obtain ⟨live, later⟩ := Prod.mk.inj values
  have lost := along.at_end (by decide +kernel) ran
  have fresh : ((ImplicitListAllocator.init (fun _ => 0) kHeapStart kHeapEnd).alloc 0xFFFFFC).map
      Prod.fst = some (some 0xD0000004) := by decide +kernel
  obtain ⟨⟨_, heap⟩, returned, rfl⟩ := Option.map_eq_some_iff.mp fresh
  obtain ⟨pos, heap', returned'⟩ := lost live _ _ _ returned
  rw [returned'] at later
  cases later

end Along

end Sprite.Heap

/-
**Kernel heap: the blocks tile it, and its clients never meet.**

The invariant of a run: the blocks tile the heap, and each live allocation is an allocated block of
its own, of a size that meets the demand the run is about (`Granted`). With no demand it gives the
well-formedness of the heap; with the demand "as many bytes as were asked for" it also gives the
isolation of the clients, and lets them write.

* `alloc_grants`, `free_grants`, `write_keeps` — one call.
* `heap_wellFormed_along_safe_calls`, `clients_isolated_along_safe_requests` — every run.
* `exact_fit_destroys_heap`, `rare_requests_break_isolation` — why the calls must be safe.
-/
import Sprite.Heap.Clients

namespace Sprite.Heap

open Words Tiling Runs ImplicitListAllocator

/-- **Each live allocation is an allocated block of its own**, at least as large as `demand` says. -/
structure Granted (demand : UInt32 → Nat) (clients : Clients) (blocks : List Block) : Prop where
  tiled : Tiled clients.heap blocks
  owned : ∀ grant ∈ clients.live, ∃ spot block,
    (spot, block) ∈ place Block.width clients.heap.mstart_.toNat blocks ∧ block.used = true ∧
      grant.pos.toNat = spot + 4 ∧ demand grant.size ≤ block.size
  distinct : (clients.live.map Grant.pos).Nodup

/-- The invariant of a run. -/
def Inv (demand : UInt32 → Nat) (clients : Clients) : Prop :=
  ∃ blocks, Granted demand clients blocks

section Steps

variable {demand : UInt32 → Nat} {clients : Clients} {blocks before old new after : List Block}

/-- An allocated block that is not part of the stretch replaced stays where it is. -/
theorem place_kept {spot base : Nat} {block : Block} (same : span Block.width new = span Block.width old)
    (placed : (spot, block) ∈ place Block.width base (before ++ old ++ after))
    (elsewhere : (spot, block) ∉ place Block.width (base + span Block.width before) old) :
    (spot, block) ∈ place Block.width base (before ++ new ++ after) := by
  rcases (mem_place_replace rfl).mp placed with inBefore | inOld | inAfter
  · exact (mem_place_replace same).mpr (Or.inl inBefore)
  · exact absurd inOld elsewhere
  · exact (mem_place_replace same).mpr (Or.inr (Or.inr inAfter))

/-- The block behind a live allocation. -/
theorem Granted.block_of (granted : Granted demand clients blocks) {grant : Grant}
    (member : grant ∈ clients.live) :
    ∃ before block after, blocks = before ++ block :: after ∧ block.used = true ∧
      grant.pos.toNat = clients.heap.mstart_.toNat + span Block.width before + 4 ∧
      grant.pos - 4 = address (clients.heap.mstart_.toNat + span Block.width before) := by
  obtain ⟨spot, block, placed, used, position, _⟩ := granted.owned grant member
  obtain ⟨before, after, rfl, rfl⟩ := mem_place_split Block.width placed
  refine ⟨before, block, after, rfl, used, position, ?_⟩
  have small := grant.pos.toNat_lt
  apply UInt32.toNat_inj.mp
  rw [UInt32.toNat_sub, toNat_address (by omega), show (4 : UInt32).toNat = 4 from rfl]
  omega

/-- **What one safe `alloc` does to the blocks**: nothing, or it takes a free one, and may leave one
free remainder. `held` and `held'` are the numbers of live allocations. -/
def Took (held : Nat) (blocks : List Block) (held' : Nat) (blocks' : List Block) : Prop :=
  (held' = held ∧ blocks' = blocks) ∨
    ∃ before block after taken rest, held' = held + 1 ∧ blocks = before ++ [block] ++ after ∧
      blocks' = before ++ (taken :: rest) ++ after ∧ block.used = false ∧ taken.used = true ∧
      (∀ other ∈ rest, other.used = false) ∧ rest.length ≤ 1

/-- **What one safe `free` does to the blocks**: the block behind `before` becomes free, joined with
the one behind it if that is free. -/
def Gave (before : List Block) (held : Nat) (blocks : List Block) (held' : Nat)
    (blocks' : List Block) : Prop :=
  ∃ block joined new rest, held = held' + 1 ∧ blocks = before ++ (block :: joined) ++ rest ∧
    blocks' = before ++ [new] ++ rest ∧ block.used = true ∧ new.used = false ∧
    (∀ other ∈ joined, other.used = false) ∧
    (joined = [] ∧ (∀ next ∈ rest.head?, next.used = true) ∨ joined.length = 1)

/-- **One safe `alloc`** comes back and leaves each live allocation its block, if the demand of the
request is met by its rounded size (or nothing can be handed out). -/
theorem alloc_grants {size : UInt32} (granted : Granted demand clients blocks)
    (safe : SafeAlloc clients.heap size)
    (met : demand size ≤ (align2 size).toNat ∨ ∀ block ∈ blocks, block.used = true) :
    ∃ next blocks', clients.step (.alloc size) = some next ∧ Granted demand next blocks' ∧
      Took clients.live.length blocks next.live.length blocks' := by
  rcases alloc_spec granted.tiled safe with ⟨result, _⟩ | found
  · exact ⟨clients, blocks, by simp [Clients.step, result], granted, Or.inl ⟨rfl, rfl⟩⟩
  · obtain ⟨before, block, after, taken, rest, memory, rfl, fits, result, tiled, used, large, free, one,
      same⟩ := found
    have bound := granted.tiled.stop_le
    simp only [span_cons, span_nil, Nat.add_zero] at bound
    have wide := block.width_pos
    have stop := clients.heap.mend_.toNat_lt
    set cur := clients.heap.mstart_.toNat + span Block.width before with curDef
    have position : (address cur + 4).toNat = cur + 4 := by
      have value : block.width = block.size + 4 := rfl
      rw [UInt32.toNat_add, toNat_address (by omega), show (4 : UInt32).toNat = 4 from rfl]
      omega
    have demandMet : demand size ≤ taken.size := by
      rcases met with below | full
      · exact below.trans large
      · have usedBlock := full block (by simp)
        rw [fits.2] at usedBlock
        cases usedBlock
    -- No live allocation sits at the block just taken: that block was free.
    have elsewhere : ∀ spot b, (spot, b) ∈ place Block.width cur [block] → b.used = true → False := by
      intro spot b placed isUsed
      simp only [place_cons, place_nil, List.mem_singleton, Prod.mk.injEq] at placed
      obtain ⟨rfl, rfl⟩ := placed
      rw [fits.2] at isUsed
      cases isUsed
    refine ⟨_, before ++ (taken :: rest) ++ after,
      by simp only [Clients.step, result, Option.map_some]; rfl,
      ⟨tiled, fun grant member => ?_, ?_⟩,
      Or.inr ⟨before, block, after, taken, rest, rfl, rfl, rfl, fits.2, used, free, one⟩⟩
    · rcases List.mem_cons.mp member with rfl | member
      · refine ⟨cur, taken, ?_, used, position, demandMet⟩
        exact (mem_place_replace same).mpr (Or.inr (Or.inl List.mem_cons_self))
      · obtain ⟨spot, b, placed, isUsed, at_pos, enough⟩ := granted.owned grant member
        exact ⟨spot, b, place_kept same placed fun inOld => elsewhere spot b inOld isUsed, isUsed,
          at_pos, enough⟩
    · rw [List.map_cons, List.nodup_cons]
      refine ⟨fun member => ?_, granted.distinct⟩
      obtain ⟨grant, live, at_same⟩ := List.mem_map.mp member
      obtain ⟨spot, b, placed, isUsed, at_pos, _⟩ := granted.owned grant live
      have atCur : spot = cur := by
        rw [at_same, position] at at_pos
        omega
      subst atCur
      have here := mem_place_middle Block.width before after block clients.heap.mstart_.toNat
      rw [List.append_assoc] at placed
      have sameBlock := place_unique (fun b => Nat.lt_of_lt_of_le (by decide) b.width_pos) placed here
      rw [sameBlock, fits.2] at isUsed
      cases isUsed

theorem alloc_keeps {size : UInt32} (granted : Granted demand clients blocks)
    (safe : SafeAlloc clients.heap size)
    (met : demand size ≤ (align2 size).toNat ∨ ∀ block ∈ blocks, block.used = true) :
    ∃ next, clients.step (.alloc size) = some next ∧ Inv demand next := by
  obtain ⟨next, blocks', stepped, granted', _⟩ := alloc_grants granted safe met
  exact ⟨next, stepped, blocks', granted'⟩

theorem free_bounds (heap : ImplicitListAllocator) (pos : UInt32) :
    heap.free pos = { heap with memory := (heap.free pos).memory } := by
  simp only [ImplicitListAllocator.free]
  split <;> rfl

/-- Giving back one live allocation leaves one less. -/
theorem length_filter_pos {live : List Grant} {freed : Grant} (distinct : (live.map Grant.pos).Nodup)
    (member : freed ∈ live) : live.length = (live.filter (·.pos ≠ freed.pos)).length + 1 := by
  induction live with
  | nil => cases member
  | cons grant live ih =>
    rw [List.map_cons, List.nodup_cons] at distinct
    rcases List.mem_cons.mp member with rfl | member
    · have others : live.filter (·.pos ≠ freed.pos) = live := by
        refine List.filter_eq_self.mpr fun other there => decide_eq_true fun same => ?_
        exact distinct.1 (same ▸ List.mem_map_of_mem there)
      rw [List.filter_cons_of_neg (by simp), others, List.length_cons]
    · have different : grant.pos ≠ freed.pos := fun same =>
        distinct.1 (same ▸ List.mem_map_of_mem member)
      rw [List.filter_cons_of_pos (by simpa using different), List.length_cons, List.length_cons,
        ih distinct.2 member]

/-- **One safe `free`** of a live allocation leaves each other one its block. -/
theorem free_grants {pos : UInt32} (granted : Granted demand clients blocks)
    (live : ∃ grant ∈ clients.live, grant.pos = pos) (safe : SafeFree clients.heap pos) :
    ∃ before next blocks', pos - 4 = address (clients.heap.mstart_.toNat + span Block.width before) ∧
      clients.step (.free pos) = some next ∧ Granted demand next blocks' ∧
      Gave before clients.live.length blocks next.live.length blocks' := by
  obtain ⟨freed, member, rfl⟩ := live
  obtain ⟨before, block, after, rfl, used, position, here⟩ := granted.block_of member
  obtain ⟨joined, new, rest, rfl, unused, becomes, alone, same, tiled⟩ :=
    free_spec granted.tiled here safe
  have bounds := free_bounds clients.heap freed.pos
  have regroup : before ++ block :: (joined ++ rest) = before ++ (block :: joined) ++ rest := by simp
  refine ⟨before, _, before ++ [new] ++ rest, here, rfl, ⟨tiled, fun grant member => ?_, ?_⟩,
    block, joined, new, rest, length_filter_pos granted.distinct member, regroup, rfl, used, becomes,
    unused, alone⟩
  · simp only [List.mem_filter, ne_eq, decide_not, Bool.not_eq_eq_eq_not,
      Bool.not_true, decide_eq_false_iff_not] at member
    obtain ⟨stillLive, different⟩ := member
    obtain ⟨spot, b, placed, isUsed, at_pos, enough⟩ := granted.owned grant stillLive
    refine ⟨spot, b, ?_, isUsed, at_pos, enough⟩
    rw [bounds]
    rw [regroup] at placed
    refine place_kept same placed fun inOld => ?_
    rw [place_cons, List.mem_cons] at inOld
    rcases inOld with first | later
    · cases first
      exact different (UInt32.toNat_inj.mp (by rw [at_pos, position]))
    · have free := unused b (mem_of_mem_place Block.width later)
      rw [free] at isUsed
      cases isUsed
  · exact granted.distinct.sublist (List.filter_sublist.map Grant.pos)

theorem free_keeps {pos : UInt32} (granted : Granted demand clients blocks)
    (live : ∃ grant ∈ clients.live, grant.pos = pos) (safe : SafeFree clients.heap pos) :
    ∃ next, clients.step (.free pos) = some next ∧ Inv demand next := by
  obtain ⟨_, next, blocks', _, stepped, granted', _⟩ := free_grants granted live safe
  exact ⟨next, stepped, blocks', granted'⟩

/-- **One write to bytes that were asked for** keeps the invariant: they lie behind a header and end
before the next one. -/
theorem write_keeps {spot : UInt32} {value : UInt8}
    (granted : Granted UInt32.toNat clients blocks)
    (owned : ∃ grant ∈ clients.live, grant.Covers spot.toNat) :
    ∃ next, clients.step (.write spot value) = some next ∧ Inv UInt32.toNat next := by
  obtain ⟨grant, member, low, high⟩ := owned
  obtain ⟨start, block, placed, _, at_pos, enough⟩ := granted.owned grant member
  have covers := granted.tiled.covers
  have stop := clients.heap.mend_.toNat_lt
  have value : block.width = block.size + 4 := rfl
  refine ⟨_, rfl, blocks, ⟨fun place other placed' => ?_, covers⟩, granted.owned, granted.distinct⟩
  have there : (place, other) ∈ Tiling.place Block.width clients.heap.mstart_.toNat blocks := placed'
  rw [← granted.tiled.headers place other there]
  have bounds := mem_place_bounds Block.width there
  have wide := other.width_pos
  have here : (address place).toNat = place := toNat_address (by omega)
  refine congrArg UInt32.toNat ?_
  refine load32_congr (by omega) fun byte above below => Function.update_of_ne (fun same => ?_) _ _
  subst same
  by_cases sameBlock : start = place
  · omega
  · rcases place_separate placed there sameBlock with apart | apart <;> omega

end Steps

/-! ### Every run -/

section Along

variable {memory : Memory} {start stop : UInt32}

/-- A fresh heap is one free block. -/
theorem init_tiled (evenStart : start.toNat % 2 = 0) (evenStop : stop.toNat % 2 = 0)
    (room : start.toNat + 8 ≤ stop.toNat) :
    Tiled (ImplicitListAllocator.init memory start stop)
      [⟨stop.toNat - start.toNat - 4, false, by omega⟩] := by
  have small := stop.toNat_lt
  refine ⟨fun spot block member => ?_, ?_⟩
  · simp only [init, place_cons, place_nil, List.mem_singleton, Prod.mk.injEq] at member ⊢
    obtain ⟨rfl, rfl⟩ := member
    rw [address, UInt32.ofNat_toNat, load32_record_free, UInt32.toNat_sub, UInt32.toNat_sub,
      show (4 : UInt32).toNat = 4 from rfl, Block.word]
    simp only [Bool.toNat_false]
    omega
  · simp only [init, span_cons, span_nil, Block.width]
    omega

theorem inv_start (demand : UInt32 → Nat) (evenStart : start.toNat % 2 = 0)
    (evenStop : stop.toNat % 2 = 0) (room : start.toNat + 8 ≤ stop.toNat) :
    Inv demand (Clients.start memory start stop) :=
  ⟨_, init_tiled evenStart evenStop room, fun _ member => (List.not_mem_nil member).elim,
    List.nodup_nil⟩

/-- What the clients asked for is disjoint, inside the heap and clear of every header. -/
theorem Inv.isolated {clients : Clients} (inv : Inv UInt32.toNat clients) : Isolated clients := by
  obtain ⟨blocks, granted⟩ := inv
  have covers := granted.tiled.covers
  have stop := clients.heap.mend_.toNat_lt
  refine ⟨?_, fun grant member spot covered => ?_, fun grant member header reached spot covered => ?_⟩
  · refine (List.pairwise_map.mp granted.distinct).imp_of_mem
      fun {grant other} member member' different spot both => ?_
    obtain ⟨first, block, placed, _, at_pos, enough⟩ := granted.owned grant member
    obtain ⟨second, block', placed', _, at_pos', enough'⟩ := granted.owned other member'
    have value : block.width = block.size + 4 := rfl
    have value' : block'.width = block'.size + 4 := rfl
    have apart : first ≠ second := fun same => different (UInt32.toNat_inj.mp (by omega))
    obtain ⟨⟨low, high⟩, ⟨low', high'⟩⟩ := both
    rcases place_separate placed placed' apart with before | after <;> omega
  · obtain ⟨first, block, placed, _, at_pos, enough⟩ := granted.owned grant member
    have value : block.width = block.size + 4 := rfl
    have bounds := mem_place_bounds Block.width placed
    obtain ⟨low, high⟩ := covered
    omega
  · obtain ⟨first, block, placed, _, at_pos, enough⟩ := granted.owned grant member
    obtain ⟨other, there⟩ := granted.tiled.reaches reached
    have value : block.width = block.size + 4 := rfl
    have wide := other.width_pos
    obtain ⟨low, high⟩ := covered
    rintro ⟨above, below⟩
    by_cases same : first = header.toNat
    · omega
    · rcases place_separate placed there same with before | after <;> omega

/-- **The heap stays well formed in every run of safe calls**, whatever their number and order, and
every call comes back. -/
theorem heap_wellFormed_along_safe_calls (evenStart : start.toNat % 2 = 0)
    (evenStop : stop.toNat % 2 = 0) (room : start.toNat + 8 ≤ stop.toNat) (calls : List Call) :
    Along Clients.step (fun clients call => clients.MayCall call ∧ SafeCall clients call)
      (fun clients => WellFormed clients.heap) (Clients.start memory start stop) calls := by
  refine along_of_invariant (Inv fun _ => 0) (fun clients call inv allowed => ?_)
    (fun clients inv => ?_) calls _ (inv_start _ evenStart evenStop room)
  · obtain ⟨blocks, granted⟩ := inv
    obtain ⟨may, safe⟩ := allowed
    cases call with
    | alloc size => exact alloc_keeps granted safe (Or.inl (Nat.zero_le _))
    | free pos => exact free_keeps granted may safe
    | write spot value => exact may.elim
  · obtain ⟨blocks, granted⟩ := inv
    exact granted.tiled.wellFormed

theorem heap_wellFormed_along_kernel_calls :
    Along Clients.step (fun clients call => clients.MayCall call ∧ SafeCall clients call)
      (fun clients => WellFormed clients.heap) (Clients.start (fun _ => 0) kHeapStart kHeapEnd)
      [.alloc 50, .alloc 500, .free 0xD0000004] :=
  heap_wellFormed_along_safe_calls (by decide) (by decide) (by decide) _

/-- **The clients stay isolated in every run of safe requests**, frees, and writes to the bytes asked
for, and every call comes back. -/
theorem clients_isolated_along_safe_requests (evenStart : start.toNat % 2 = 0)
    (evenStop : stop.toNat % 2 = 0) (room : start.toNat + 8 ≤ stop.toNat) (calls : List Call) :
    Along Clients.step (fun clients call => clients.MayCallOrWrite call ∧ SafeRequest clients call)
      Isolated (Clients.start memory start stop) calls := by
  refine along_of_invariant (Inv UInt32.toNat) (fun clients call inv allowed => ?_)
    (fun clients inv => inv.isolated) calls _ (inv_start _ evenStart evenStop room)
  obtain ⟨blocks, granted⟩ := inv
  obtain ⟨may, safe, met⟩ := allowed
  cases call with
  | alloc size =>
    refine alloc_keeps granted safe ?_
    rcases met size rfl with fits | full
    · exact Or.inl (le_toNat_align2 fits)
    · exact Or.inr (full blocks granted.tiled)
  | free pos => exact free_keeps granted may safe
  | write spot value => exact write_keeps granted may

theorem clients_isolated_along_kernel_calls :
    Along Clients.step (fun clients call => clients.MayCallOrWrite call ∧ SafeRequest clients call)
      Isolated (Clients.start (fun _ => 0) kHeapStart kHeapEnd)
      [.alloc 50, .write 0xD0000005 7, .alloc 500, .free 0xD0000004] :=
  clients_isolated_along_safe_requests (by decide) (by decide) (by decide) _

end Along

/-! ### Runs that are not safe -/

section Unsafe

/-- The kernel's heap, over zeroed memory. -/
def kernelClients : Clients := Clients.start (fun _ => 0) kHeapStart kHeapEnd

/-- One pass of `test_kmalloc` and the first call of the next. -/
def testKmallocCalls : List Call :=
  [.alloc 50, .alloc 500, .alloc 5000, .free 0xD0000004, .free 0xD000003A, .free 0xD0000232,
    .alloc 50]

/-- A walk that stands on a header leading to itself never ends. -/
theorem not_walk_of_loop {heap : ImplicitListAllocator} {header : UInt32}
    (loop : nextBlock heap.memory header = header) (inside : header ≠ heap.mend_)
    (headers : List UInt32) : ¬ Walk heap header headers := by
  induction headers with
  | nil => exact inside
  | cons first headers ih =>
    rintro ⟨_, _, walk⟩
    rw [loop] at walk
    exact ih walk

/-- **An exact fit destroys the heap.** In the second pass of the repository's own test, `alloc(50)`
fits the block of the first pass exactly: the header of the next block becomes a free block of size
`0xFFFFFFFC`, which leads to itself, and the walk never reaches `mend_`. -/
theorem exact_fit_destroys_heap :
    ¬ Along Clients.step Clients.MayCall (fun clients => WellFormed clients.heap)
      kernelClients testKmallocCalls := by
  intro along
  have run : (testKmallocCalls.foldlM Clients.step kernelClients).map (fun clients =>
      (clients.heap.mstart_, clients.heap.mend_, nextBlock clients.heap.memory 0xD0000000,
        nextBlock clients.heap.memory 0xD0000036))
      = some (0xD0000000, 0xD1000000, 0xD0000036, 0xD0000036) := by decide +kernel
  obtain ⟨last, ran, values⟩ := Option.map_eq_some_iff.mp run
  simp only [Prod.mk.injEq] at values
  obtain ⟨start, stop, first, second⟩ := values
  obtain ⟨headers, walk, _⟩ := along.at_end (by decide +kernel) ran
  rw [start] at walk
  cases headers with
  | nil =>
    rw [Walk, stop] at walk
    revert walk
    decide
  | cons header headers =>
    obtain ⟨_, _, walk⟩ := walk
    rw [first] at walk
    exact not_walk_of_loop second (by rw [stop]; decide) headers walk

/-- **Two ways to lose isolation.** A request for `0xFFFFFFFF` bytes is rounded up to 0 and granted.
And after an exact fit has overwritten the header of the block behind it, that block is free again
for the allocator while its client still holds it: the next request gets the same bytes. -/
theorem rare_requests_break_isolation :
    ¬ Along Clients.step Clients.MayCallOrWrite Isolated kernelClients [.alloc 0xFFFFFFFF] ∧
    ¬ Along Clients.step Clients.MayCallOrWrite Isolated kernelClients
      [.alloc 4, .alloc 4, .free 0xD0000004, .alloc 4, .alloc 100] := by
  constructor
  · intro along
    have run : ([Call.alloc 0xFFFFFFFF].foldlM Clients.step kernelClients).map (fun clients =>
        (clients.live, clients.heap.mend_)) = some ([⟨0xD0000004, 0xFFFFFFFF⟩], 0xD1000000) := by
      decide +kernel
    obtain ⟨last, ran, values⟩ := Option.map_eq_some_iff.mp run
    simp only [Prod.mk.injEq] at values
    have isolated := along.at_end (by decide +kernel) ran
    have outside := isolated.inside ⟨0xD0000004, 0xFFFFFFFF⟩ (by rw [values.1]; decide) 0xD1000000
      (by decide)
    rw [values.2] at outside
    exact absurd outside.2 (by decide)
  · intro along
    have run : ([Call.alloc 4, .alloc 4, .free 0xD0000004, .alloc 4, .alloc 100].foldlM
        Clients.step kernelClients).map Clients.live
        = some [⟨0xD000000C, 100⟩, ⟨0xD0000004, 4⟩, ⟨0xD000000C, 4⟩] := by decide +kernel
    obtain ⟨last, ran, live⟩ := Option.map_eq_some_iff.mp run
    have disjoint := (along.at_end (by decide +kernel) ran).disjoint
    rw [live] at disjoint
    have apart := (List.pairwise_cons.mp disjoint).1 ⟨0xD000000C, 4⟩ (by decide) 0xD000000C
    exact apart (by decide)

end Unsafe

end Sprite.Heap

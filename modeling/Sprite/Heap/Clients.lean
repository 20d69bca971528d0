/-
**Clients of the kernel heap.**

The heap together with what its clients hold: a state remembers which allocations are live, and for
how many bytes each was asked. Clients call `alloc` with any size, `free` what they hold, and write
to the bytes they asked for.

Two ways an allocation can go wrong decide everything here. A first-fit block that fits the request
exactly, or up to 2 bytes, is cut as if 4 more bytes were there (`remain_size` wraps), and the header
of the remainder lands on the block behind. A free of the block at the end of the heap reads the word
behind the heap as a header. `SafeAlloc` and `SafeFree` exclude exactly these.

* `alloc_spec`, `free_spec` — everything a safe call does to the blocks.
* `Tiled.wellFormed`, `Tiled.reaches` — what following `next_block` meets on blocks that tile.
-/
import Sprite.Heap.Blocks
import Sprite.Lib.Runs

namespace Sprite.Heap

open Words Tiling Runs ImplicitListAllocator

/-- An allocation a client holds: the address it got and the size it asked for. -/
structure Grant where
  pos : UInt32
  size : UInt32
  deriving DecidableEq

/-- The bytes a client asked for, `[pos, pos + size)`. -/
def Grant.Covers (grant : Grant) (spot : Nat) : Prop :=
  grant.pos.toNat ≤ spot ∧ spot < grant.pos.toNat + grant.size.toNat

instance (grant : Grant) (spot : Nat) : Decidable (grant.Covers spot) :=
  inferInstanceAs (Decidable (_ ∧ _))

/-- The heap and the live allocations. -/
structure Clients where
  heap : ImplicitListAllocator
  live : List Grant

inductive Call where
  | alloc (size : UInt32)
  | free (pos : UInt32)
  | write (spot : UInt32) (value : UInt8)

namespace Clients

def start (memory : Memory) (start stop : UInt32) : Clients where
  heap := ImplicitListAllocator.init memory start stop
  live := []

/-- One call: `none` when it does not come back. -/
def step (clients : Clients) : Call → Option Clients
  | .alloc size =>
      (clients.heap.alloc size).map fun
        | (none, heap) => { clients with heap }
        | (some pos, heap) => { heap, live := ⟨pos, size⟩ :: clients.live }
  | .free pos =>
      some { heap := clients.heap.free pos, live := clients.live.filter (·.pos ≠ pos) }
  | .write spot value =>
      some { clients with
        heap := { clients.heap with memory := Function.update clients.heap.memory spot value } }

/-- A client that only allocates, and frees what it holds. -/
def MayCall (clients : Clients) : Call → Prop
  | .alloc _ => True
  | .free pos => ∃ grant ∈ clients.live, grant.pos = pos
  | .write _ _ => False

/-- A client that also writes to the bytes it asked for. -/
def MayCallOrWrite (clients : Clients) : Call → Prop
  | .write spot _ => ∃ grant ∈ clients.live, grant.Covers spot.toNat
  | call => clients.MayCall call

instance (clients : Clients) : ∀ call, Decidable (clients.MayCall call)
  | .alloc _ => inferInstanceAs (Decidable True)
  | .free pos => inferInstanceAs (Decidable (∃ grant ∈ clients.live, grant.pos = pos))
  | .write _ _ => inferInstanceAs (Decidable False)

instance (clients : Clients) : ∀ call, Decidable (clients.MayCallOrWrite call)
  | .alloc size => inferInstanceAs (Decidable (clients.MayCall (.alloc size)))
  | .free pos => inferInstanceAs (Decidable (clients.MayCall (.free pos)))
  | .write spot _ =>
      inferInstanceAs (Decidable (∃ grant ∈ clients.live, grant.Covers spot.toNat))

end Clients

/-! ### What a sound heap is -/

/-- The headers met on the way from `cur` to `mend_`, following `next_block`. -/
def Walk (heap : ImplicitListAllocator) : UInt32 → List UInt32 → Prop
  | cur, [] => cur = heap.mend_
  | cur, header :: headers =>
      header = cur ∧ cur ≠ heap.mend_ ∧ Walk heap (nextBlock heap.memory cur) headers

/-- **The heap is well formed**: the walk from `mstart_` ends exactly at `mend_`, every header it
meets lies inside the heap, and the sizes met add up to the heap. -/
def WellFormed (heap : ImplicitListAllocator) : Prop :=
  ∃ headers, Walk heap heap.mstart_ headers ∧
    (∀ header ∈ headers, heap.mstart_.toNat ≤ header.toNat ∧ header.toNat + 4 ≤ heap.mend_.toNat) ∧
    (headers.map fun header => (sizeOfBlock heap.memory header).toNat + 4).sum
      = heap.mend_.toNat - heap.mstart_.toNat

/-- The headers that walking from `mstart_` ever reaches. -/
inductive Reaches (heap : ImplicitListAllocator) : UInt32 → Prop
  | first : heap.mstart_ ≠ heap.mend_ → Reaches heap heap.mstart_
  | next {header : UInt32} : Reaches heap header → nextBlock heap.memory header ≠ heap.mend_ →
      Reaches heap (nextBlock heap.memory header)

/-- **The clients are isolated**: what they asked for is disjoint, inside the heap behind its first
header, and clear of every header. -/
structure Isolated (clients : Clients) : Prop where
  disjoint : clients.live.Pairwise fun grant other =>
    ∀ spot, ¬ (grant.Covers spot ∧ other.Covers spot)
  inside : ∀ grant ∈ clients.live, ∀ spot, grant.Covers spot →
    clients.heap.mstart_.toNat + 4 ≤ spot ∧ spot < clients.heap.mend_.toNat
  clear : ∀ grant ∈ clients.live, ∀ header, Reaches clients.heap header →
    ∀ spot, grant.Covers spot → ¬ (header.toNat ≤ spot ∧ spot < header.toNat + 4)

/-! ### The calls that keep a sound heap sound -/

/-- The first-fit block for a request is at least 4 bytes larger than the rounded request, or it is
the last block of the heap and fits exactly (and the header then written behind the heap does not
wrap round onto its start). -/
def SafeAlloc (heap : ImplicitListAllocator) (size : UInt32) : Prop :=
  ∀ before block after, Tiled heap (before ++ block :: after) →
    (∀ other ∈ before, ¬ other.Fits (align2 size).toNat) → block.Fits (align2 size).toNat →
    (align2 size).toNat + 4 ≤ block.size ∨
      (align2 size).toNat = block.size ∧ after = [] ∧
        heap.mend_.toNat + 4 ≤ heap.mstart_.toNat + 2 ^ 32

/-- The block freed is not the last one, or the word behind the heap reads as an allocated header or
as the header an exact fit leaves there. -/
def SafeFree (heap : ImplicitListAllocator) (pos : UInt32) : Prop :=
  nextBlock heap.memory (pos - 4) = heap.mend_ →
    isAllocated heap.memory heap.mend_ = true ∨ load32 heap.memory heap.mend_ = 0xFFFFFFFC

/-- The calls that keep the blocks tiling the heap. -/
def SafeCall (clients : Clients) : Call → Prop
  | .alloc size => SafeAlloc clients.heap size
  | .free pos => SafeFree clients.heap pos
  | .write _ _ => True

/-- The calls that also keep the clients apart: rounding the request up does not wrap to 0, unless
there is no free block at all. -/
def SafeRequest (clients : Clients) (call : Call) : Prop :=
  SafeCall clients call ∧ ∀ size, call = .alloc size →
    size ≠ 0xFFFFFFFF ∨ ∀ blocks, Tiled clients.heap blocks → ∀ block ∈ blocks, block.used = true

/-! ### One call, on a heap whose blocks tile it -/

section Calls

variable {heap : ImplicitListAllocator} {blocks before after : List Block} {b : Block}
  {size pos : UInt32}

/-- Blocks that tile a heap are fewer than its addresses. -/
theorem Tiled.length_lt (tiled : Tiled heap blocks) : blocks.length < 2 ^ 32 := by
  have covers := tiled.covers
  have small := heap.mend_.toNat_lt
  have many := length_mul_le_span Block.width_pos blocks
  omega

/-- Either no block fits, or there is a first one that does. -/
theorem firstFit_cases (blocks : List Block) (wanted : Nat) :
    (∀ block ∈ blocks, ¬ block.Fits wanted) ∨
      ∃ before block after, blocks = before ++ block :: after ∧
        (∀ other ∈ before, ¬ other.Fits wanted) ∧ block.Fits wanted := by
  cases found : blocks.find? fun block => block.Fits wanted with
  | none =>
    refine Or.inl fun block member => ?_
    simpa using List.find?_eq_none.mp found block member
  | some block =>
    obtain ⟨fits, before, after, split, unfit⟩ := List.find?_eq_some_iff_append.mp found
    exact Or.inr ⟨before, block, after, split, by simpa using unfit, by simpa using fits⟩

theorem toNat_align2_mod (size : UInt32) :
    (align2 size).toNat = (size.toNat + size.toNat % 2) % 2 ^ 32 := by
  have low := toNat_low size
  have small := size.toNat_lt
  unfold align2
  split
  · rename_i odd
    have one : size.toNat % 2 ≠ 0 := fun zero => odd (UInt32.toNat_inj.mp (by rw [low, zero]; rfl))
    rw [UInt32.toNat_add, show (1 : UInt32).toNat = 1 from rfl]
    omega
  · rename_i even
    rw [not_not] at even
    rw [even] at low
    have zero : size.toNat % 2 = 0 := low.symm
    rw [zero, Nat.add_zero, Nat.mod_eq_of_lt small]

theorem toNat_align2_even (size : UInt32) : (align2 size).toNat % 2 = 0 := by
  rw [toNat_align2_mod]
  omega

theorem le_toNat_align2 (fits : size ≠ 0xFFFFFFFF) : size.toNat ≤ (align2 size).toNat := by
  have small := size.toNat_lt
  have below : size.toNat ≠ 2 ^ 32 - 1 := fun same => fits (UInt32.toNat_inj.mp same)
  rw [toNat_align2_mod]
  omega

/-- Where the search of `alloc` ends. -/
theorem alloc_none (tiled : Tiled heap blocks)
    (unfit : ∀ block ∈ blocks, ¬ block.Fits (align2 size).toNat) :
    heap.alloc size = some (none, heap) := by
  have search := findBlock_none blocks heap.mstart_.toNat (2 ^ 32) tiled.headers tiled.covers
    tiled.length_lt unfit
  rw [address, UInt32.ofNat_toNat] at search
  simp only [alloc, search]

theorem alloc_firstFit (tiled : Tiled heap (before ++ b :: after))
    (unfit : ∀ block ∈ before, ¬ block.Fits (align2 size).toNat)
    (fits : b.Fits (align2 size).toNat) :
    heap.alloc size = some (some (address (heap.mstart_.toNat + span Block.width before) + 4),
      { heap with
        memory := takeBlock heap.memory (address (heap.mstart_.toNat + span Block.width before))
          (align2 size) }) := by
  have short := tiled.length_lt
  rw [List.length_append] at short
  have search := findBlock_firstFit before heap.mstart_.toNat (2 ^ 32) tiled.headers tiled.covers
    (by omega) unfit fits
  rw [address, UInt32.ofNat_toNat] at search
  simp only [alloc, search]

/-- **What a safe `alloc` does**: nothing when no block fits, and otherwise it replaces the first-fit
block by an allocated one of at least the rounded size and perhaps one free remainder. -/
theorem alloc_spec (tiled : Tiled heap blocks) (safe : SafeAlloc heap size) :
    (heap.alloc size = some (none, heap)
        ∧ ∀ block ∈ blocks, ¬ block.Fits (align2 size).toNat) ∨
      ∃ before block after taken rest memory, blocks = before ++ [block] ++ after ∧
        block.Fits (align2 size).toNat ∧
        heap.alloc size = some (some (address (heap.mstart_.toNat + span Block.width before) + 4),
          { heap with memory }) ∧
        Tiled { heap with memory } (before ++ (taken :: rest) ++ after) ∧
        taken.used = true ∧ (align2 size).toNat ≤ taken.size ∧
        (∀ other ∈ rest, other.used = false) ∧ rest.length ≤ 1 ∧
        span Block.width (taken :: rest) = span Block.width [block] := by
  rcases firstFit_cases blocks (align2 size).toNat with unfit | found
  · exact Or.inl ⟨alloc_none tiled unfit, unfit⟩
  · obtain ⟨before, block, after, rfl, unfit, fits⟩ := found
    have even := toNat_align2_even size
    refine Or.inr ?_
    rcases safe before block after tiled unfit fits with room | ⟨exact, rfl, apart⟩
    · have cut := takeBlock_tiled tiled even room
      have width := Block.span_cut even room
      unfold Block.cut at cut width
      split at cut
      · rename_i whole
        rw [if_pos whole] at width
        exact ⟨before, block, after, _, _, _, by simp, fits, alloc_firstFit tiled unfit fits, cut,
          rfl, fits.1, by simp, by simp, by simpa using width⟩
      · rename_i parts
        rw [if_neg parts] at width
        exact ⟨before, block, after, _, _, _, by simp, fits, alloc_firstFit tiled unfit fits, cut,
          rfl, le_rfl, by simp, le_rfl, by simpa using width⟩
    · have marked := takeBlock_exact_last tiled exact apart
      exact ⟨before, block, [], block.mark true, [], _, by simp, fits,
        alloc_firstFit tiled unfit fits, by simpa using marked, rfl, fits.1, by simp, by simp,
        by simp [Block.width]⟩

/-- **What a safe `free` does**: the block, joined with the free block behind it if there is one,
becomes one free block. -/
theorem free_spec (tiled : Tiled heap (before ++ b :: after))
    (here : pos - 4 = address (heap.mstart_.toNat + span Block.width before))
    (safe : SafeFree heap pos) :
    ∃ joined new rest, after = joined ++ rest ∧ (∀ other ∈ joined, other.used = false) ∧
      new.used = false ∧ (joined = [] ∧ (∀ next ∈ rest.head?, next.used = true) ∨ joined.length = 1) ∧
      span Block.width [new] = span Block.width (b :: joined) ∧
      Tiled (heap.free pos) (before ++ [new] ++ rest) := by
  cases after with
  | nil =>
    have last : address (heap.mstart_.toNat + span Block.width (before ++ [b])) = heap.mend_ := by
      rw [tiled.covers, address, UInt32.ofNat_toNat]
    have atEnd : nextBlock heap.memory (pos - 4) = heap.mend_ := by
      rw [here, tiled.nextBlock_eq, last]
    refine ⟨[], b.mark false, [], rfl, by simp, rfl, by simp, by simp [Block.width], ?_⟩
    rcases safe atEnd with taken | word
    · exact free_tiled_alone tiled here (by rw [last]; exact taken)
    · simpa using free_tiled_last tiled here word
  | cons c after =>
    cases used : c.used with
    | false =>
      exact ⟨[c], _, after, rfl, by simpa using used, rfl, by simp,
        by simp only [span_cons, span_nil, Block.width]; omega, free_tiled_joined tiled here used⟩
    | true =>
      have regroup : before ++ b :: c :: after = (before ++ [b]) ++ c :: after := by simp
      have taken := isAllocated_eq (regroup ▸ tiled).header
      rw [used] at taken
      exact ⟨[], b.mark false, c :: after, rfl, by simp, rfl, by simp [used], by simp [Block.width],
        free_tiled_alone tiled here taken⟩

end Calls

/-! ### The walk over a heap whose blocks tile it -/

section Walks

variable {heap : ImplicitListAllocator}

theorem walk_of_headers (blocks : List Block) : ∀ base : Nat,
    Headers heap.memory base blocks → base + span Block.width blocks = heap.mend_.toNat →
    Walk heap (address base) ((place Block.width base blocks).map fun placed => address placed.1) := by
  have small := heap.mend_.toNat_lt
  induction blocks with
  | nil =>
    intro base _ covers
    rw [span_nil, Nat.add_zero] at covers
    rw [place_nil, List.map_nil, Walk, covers, address, UInt32.ofNat_toNat]
  | cons b blocks ih =>
    intro base headers covers
    rw [span_cons] at covers
    have wide := b.width_pos
    have here : (address base).toNat = base := toNat_address (by omega)
    refine ⟨rfl, fun same => ?_, ?_⟩
    · rw [same] at here
      omega
    · have next : nextBlock heap.memory (address base) = address (base + b.width) := by
        apply UInt32.toNat_inj.mp
        rw [toNat_nextBlock headers.head (by omega), here, toNat_address (by omega)]
      rw [next]
      exact ih _ headers.tail (by omega)

theorem sum_sizes_of_headers {memory : Memory} (blocks : List Block) : ∀ base : Nat,
    Headers memory base blocks →
    ((place Block.width base blocks).map
      fun placed => (sizeOfBlock memory (address placed.1)).toNat + 4).sum
        = span Block.width blocks := by
  induction blocks with
  | nil => exact fun _ _ => rfl
  | cons b blocks ih =>
    intro base headers
    rw [place_cons, List.map_cons, List.sum_cons, ih _ headers.tail, span_cons,
      toNat_sizeOfBlock headers.head]
    rfl

/-- Blocks that tile the heap make it well formed. -/
theorem Tiled.wellFormed {blocks : List Block} (tiled : Tiled heap blocks) : WellFormed heap := by
  have covers := tiled.covers
  have small := heap.mend_.toNat_lt
  have walk := walk_of_headers blocks heap.mstart_.toNat tiled.headers covers
  rw [address, UInt32.ofNat_toNat] at walk
  refine ⟨_, walk, fun header member => ?_, ?_⟩
  · obtain ⟨⟨spot, block⟩, placed, rfl⟩ := List.mem_map.mp member
    have bounds := mem_place_bounds Block.width placed
    have wide := block.width_pos
    dsimp only
    rw [toNat_address (by omega)]
    omega
  · rw [List.map_map]
    have sizes := sum_sizes_of_headers blocks heap.mstart_.toNat tiled.headers
    refine Eq.trans sizes ?_
    omega

/-- Every header the walk reaches is the header of a block. -/
theorem Tiled.reaches {blocks : List Block} (tiled : Tiled heap blocks) {header : UInt32}
    (reached : Reaches heap header) :
    ∃ block, (header.toNat, block) ∈ place Block.width heap.mstart_.toNat blocks := by
  have covers := tiled.covers
  have small := heap.mend_.toNat_lt
  induction reached with
  | first different =>
    cases blocks with
    | nil => exact absurd (UInt32.toNat_inj.mp (by simpa using covers)) different
    | cons b blocks => exact ⟨b, List.mem_cons_self⟩
  | @next header _ different ih =>
    obtain ⟨block, placed⟩ := ih
    obtain ⟨before, after, rfl, spot⟩ := mem_place_split Block.width placed
    have here : header = address (heap.mstart_.toNat + span Block.width before) := by
      rw [← spot, address, UInt32.ofNat_toNat]
    have next := tiled.nextBlock_eq
    rw [← here] at next
    rw [next] at different ⊢
    cases after with
    | nil =>
      rw [covers, address, UInt32.ofNat_toNat] at different
      exact absurd rfl different
    | cons c after =>
      simp only [span_append, span_cons, span_nil, Nat.add_zero] at covers ⊢
      have wide := c.width_pos
      refine ⟨c, ?_⟩
      rw [toNat_address (by omega)]
      have middle := mem_place_middle Block.width (before ++ [block]) after c heap.mstart_.toNat
      simpa using middle

end Walks

end Sprite.Heap

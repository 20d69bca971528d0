/-
**Finding the physical memory**, after `init_pmm` in `src/lib/pmm.cc` and the multiboot memory map in
`src/include/multiboot.h`.

* `initPmm` — the walk over the memory map, and the pages pushed for its entries.
* `allPages`, `initPmm_eq` — the pages that are pushed, as a list.
* `Discovered` — what is to be shown of them.
* `discovery_sound_iff` — **when it holds**: only one of the records visited yields pages, and these
  are whole pages of available memory.
-/
import Mathlib.Data.List.Nodup
import Mathlib.Data.List.Pairwise
import Sprite.Lib.Words
import Sprite.Paging.Stack
import Sprite.Paging.Vmm

namespace Sprite.Paging

open Words

/-- `kern_start`, as the linker script places it. -/
def KERN_START : UInt32 := 0xC0100000

/-- The fields of the multiboot structure that are used. -/
structure Multiboot where
  mmap_length : UInt32
  mmap_addr : UInt32

structure MmapEntry where
  size : UInt32
  base_addr_low : UInt32
  base_addr_high : UInt32
  length_low : UInt32
  length_high : UInt32
  type : UInt32

/-- `sizeof(mmap_entry_t)`. -/
def sizeofMmapEntry : UInt32 := 24

/-- The entry at an address. -/
def mmapEntry (mem : Memory) (a : UInt32) : MmapEntry where
  size := load32 mem a
  base_addr_low := load32 mem (a + 4)
  base_addr_high := load32 mem (a + 8)
  length_low := load32 mem (a + 12)
  length_high := load32 mem (a + 16)
  type := load32 mem (a + 20)

/-- The inner loop: pages are pushed up to `length`, and counted. -/
def pushPages (length : UInt32) : Nat → UInt32 → Pmm × UInt32 → Option (Pmm × UInt32)
  | 0, _, _ => none
  | fuel + 1, page_addr, (s, phy_page_count) =>
    if page_addr < length ∧ page_addr ≤ UInt32.ofNat PMM_MAX_SIZE then do
      let s ← pmmFreePage s page_addr
      pushPages length fuel (page_addr + UInt32.ofNat PMM_PAGE_SIZE) (s, phy_page_count + 1)
    else some (s, phy_page_count)

/-- The test of the outer loop: available memory from 1 MB on. -/
def MmapEntry.Usable (e : MmapEntry) : Prop := e.type = 1 ∧ e.base_addr_low = 0x100000

instance (e : MmapEntry) : Decidable e.Usable := inferInstanceAs (Decidable (_ ∧ _))

/-- Where the pages of an entry begin: behind the kernel. -/
def MmapEntry.pageAddr (e : MmapEntry) (kernEnd : UInt32) : UInt32 :=
  e.base_addr_low + (kernEnd - KERN_START)

def MmapEntry.limit (e : MmapEntry) : UInt32 := e.base_addr_low + e.length_low

/-- The body of the outer loop. -/
def useEntry (kernEnd : UInt32) (e : MmapEntry) (s : Pmm × UInt32) : Option (Pmm × UInt32) :=
  if e.Usable then pushPages e.limit (2 ^ 32) (e.pageAddr kernEnd) s else some s

/-- The outer loop. -/
def walkMap (mem : Memory) (kernEnd mmapEndAddr : UInt32) :
    Nat → UInt32 → Pmm × UInt32 → Option (Pmm × UInt32)
  | 0, _, _ => none
  | fuel + 1, mmap_entry, s =>
    if mmap_entry < mmapEndAddr then do
      let s ← useEntry kernEnd (mmapEntry mem mmap_entry) s
      walkMap mem kernEnd mmapEndAddr fuel (mmap_entry + sizeofMmapEntry) s
    else some s

/-- `init_pmm`. The end of the map is a sum with a pointer to entries, so that `mmap_length` counts
entries there. -/
def initPmm (mem : Memory) (kernEnd : UInt32) (mboot : Multiboot) : Option (Pmm × UInt32) :=
  walkMap mem kernEnd (mboot.mmap_addr + sizeofMmapEntry * mboot.mmap_length) (2 ^ 32)
    mboot.mmap_addr (Pmm.empty, 0)

/-! ### The pages pushed -/

/-- The record that the walk reads in turn `i`. -/
def record (mem : Memory) (mboot : Multiboot) (i : Nat) : MmapEntry :=
  mmapEntry mem (mboot.mmap_addr + sizeofMmapEntry * UInt32.ofNat i)

/-- How many pages lie below a limit, from an address on. -/
def pagesBelow (limit from_ : Nat) : Nat := (min limit (PMM_MAX_SIZE + 1) - from_ + 4095) / 4096

/-- How many pages an entry yields. -/
def MmapEntry.pageCount (e : MmapEntry) (kernEnd : UInt32) : Nat :=
  if e.Usable then pagesBelow e.limit.toNat (e.pageAddr kernEnd).toNat else 0

/-- The pages an entry yields. -/
def MmapEntry.pages (e : MmapEntry) (kernEnd : UInt32) : List UInt32 :=
  (List.range (e.pageCount kernEnd)).map fun j => e.pageAddr kernEnd + UInt32.ofNat (4096 * j)

/-- The pages of all records visited. -/
def allPages (mem : Memory) (kernEnd : UInt32) (mboot : Multiboot) : List UInt32 :=
  (List.range mboot.mmap_length.toNat).flatMap fun i => (record mem mboot i).pages kernEnd

theorem pagesBelow_zero {limit p : UInt32} (none : pagesBelow limit.toNat p.toNat = 0) :
    ¬ (p < limit ∧ p ≤ UInt32.ofNat PMM_MAX_SIZE) := by
  have bound : PMM_MAX_SIZE = 536870912 := rfl
  rw [UInt32.lt_iff_toNat_lt, UInt32.le_iff_toNat_le,
    show (UInt32.ofNat PMM_MAX_SIZE).toNat = PMM_MAX_SIZE from rfl]
  unfold pagesBelow at none
  omega

theorem pagesBelow_succ {limit p : UInt32} {n : Nat}
    (some : pagesBelow limit.toNat p.toNat = n + 1) :
    (p < limit ∧ p ≤ UInt32.ofNat PMM_MAX_SIZE) ∧
      pagesBelow limit.toNat (p + UInt32.ofNat PMM_PAGE_SIZE).toNat = n := by
  have bound : PMM_MAX_SIZE = 536870912 := rfl
  rw [UInt32.lt_iff_toNat_lt, UInt32.le_iff_toNat_le, UInt32.toNat_add,
    show (UInt32.ofNat PMM_MAX_SIZE).toNat = PMM_MAX_SIZE from rfl,
    show (UInt32.ofNat PMM_PAGE_SIZE).toNat = 4096 from rfl]
  unfold pagesBelow at some ⊢
  omega

theorem pages_step (p : UInt32) (j : Nat) :
    p + UInt32.ofNat (4096 * (j + 1)) = p + UInt32.ofNat PMM_PAGE_SIZE + UInt32.ofNat (4096 * j) := by
  rw [UInt32.add_assoc, ← UInt32.ofNat_add, show PMM_PAGE_SIZE + 4096 * j = 4096 * (j + 1) by
    rw [show PMM_PAGE_SIZE = 4096 from rfl]; omega]

/-- The inner loop pushes a list of pages. -/
theorem pushPages_eq (limit : UInt32) (n : Nat) :
    ∀ (fuel : Nat) (p : UInt32) (s : Pmm) (c : UInt32), pagesBelow limit.toNat p.toNat = n → n < fuel →
      pushPages limit fuel p (s, c)
        = (((List.range n).map fun j => p + UInt32.ofNat (4096 * j)).foldlM pmmFreePage s).map
            fun s' => (s', c + UInt32.ofNat n) := by
  induction n with
  | zero =>
    intro fuel p s c none enough
    obtain ⟨fuel, rfl⟩ := Nat.exists_eq_succ_of_ne_zero (Nat.ne_zero_of_lt enough)
    unfold pushPages
    rw [if_neg (pagesBelow_zero none)]
    exact congrArg (fun c => some (s, c)) (UInt32.add_zero c).symm
  | succ n ih =>
    intro fuel p s c some enough
    obtain ⟨fuel, rfl⟩ := Nat.exists_eq_succ_of_ne_zero (Nat.ne_zero_of_lt enough)
    obtain ⟨guard, rest⟩ := pagesBelow_succ some
    unfold pushPages
    rw [if_pos guard, List.range_succ_eq_map, List.map_cons, List.map_map, List.foldlM_cons,
      show p + UInt32.ofNat (4096 * 0) = p from UInt32.add_zero p]
    cases pmmFreePage s p with
    | none => rfl
    | some s' =>
      rw [Option.bind_eq_bind, Option.bind_some, Option.bind_eq_bind, Option.bind_some,
        ih fuel _ s' (c + 1) rest (Nat.lt_of_succ_lt_succ enough)]
      have counted : c + 1 + UInt32.ofNat n = c + UInt32.ofNat (n + 1) := by
        rw [UInt32.add_assoc, UInt32.add_comm 1, ← show UInt32.ofNat (n + 1) = UInt32.ofNat n + 1 from
          UInt32.ofNat_add n 1]
      have list : (List.range n).map (fun j => p + UInt32.ofNat PMM_PAGE_SIZE + UInt32.ofNat (4096 * j))
          = (List.range n).map ((fun j => p + UInt32.ofNat (4096 * j)) ∘ Nat.succ) :=
        List.map_congr_left fun j _ => (pages_step p j).symm
      rw [counted, list]

theorem pageCount_le (e : MmapEntry) (kernEnd : UInt32) : e.pageCount kernEnd ≤ PAGE_MAX_SIZE + 1 := by
  have bound : PMM_MAX_SIZE = 536870912 := rfl
  have pages : PAGE_MAX_SIZE = 131072 := rfl
  unfold MmapEntry.pageCount pagesBelow
  split_ifs
  · omega
  · omega

theorem length_pages (e : MmapEntry) (kernEnd : UInt32) :
    (e.pages kernEnd).length = e.pageCount kernEnd := by
  rw [MmapEntry.pages, List.length_map, List.length_range]

theorem useEntry_eq (kernEnd : UInt32) (e : MmapEntry) (s : Pmm) (c : UInt32) :
    useEntry kernEnd e (s, c) = ((e.pages kernEnd).foldlM pmmFreePage s).map
      fun s' => (s', c + UInt32.ofNat (e.pages kernEnd).length) := by
  have few := pageCount_le e kernEnd
  have bound : PAGE_MAX_SIZE + 1 < 2 ^ 32 := by decide
  rw [length_pages, MmapEntry.pages]
  unfold useEntry
  by_cases usable : e.Usable
  · have count : e.pageCount kernEnd = pagesBelow e.limit.toNat (e.pageAddr kernEnd).toNat :=
      if_pos usable
    rw [if_pos usable, pushPages_eq e.limit _ (2 ^ 32) _ s c count.symm (by omega)]
  · have count : e.pageCount kernEnd = 0 := if_neg usable
    rw [if_neg usable, count]
    exact congrArg (fun c => some (s, c)) (UInt32.add_zero c).symm

/-- The outer loop pushes the pages of the records it visits. -/
theorem walkMap_eq (mem : Memory) (kernEnd stop : UInt32) (n : Nat) :
    ∀ (fuel : Nat) (a : UInt32) (s : Pmm) (c : UInt32), a.toNat + 24 * n = stop.toNat → n < fuel →
      walkMap mem kernEnd stop fuel a (s, c)
        = (((List.range n).flatMap fun i =>
            (mmapEntry mem (a + sizeofMmapEntry * UInt32.ofNat i)).pages kernEnd).foldlM pmmFreePage s).map
          fun s' => (s', c + UInt32.ofNat ((List.range n).flatMap fun i =>
            (mmapEntry mem (a + sizeofMmapEntry * UInt32.ofNat i)).pages kernEnd).length) := by
  induction n with
  | zero =>
    intro fuel a s c atEnd enough
    obtain ⟨fuel, rfl⟩ := Nat.exists_eq_succ_of_ne_zero (Nat.ne_zero_of_lt enough)
    unfold walkMap
    rw [if_neg (by rw [UInt32.lt_iff_toNat_lt]; omega)]
    exact congrArg (fun c => some (s, c)) (UInt32.add_zero c).symm
  | succ n ih =>
    intro fuel a s c before enough
    obtain ⟨fuel, rfl⟩ := Nat.exists_eq_succ_of_ne_zero (Nat.ne_zero_of_lt enough)
    have small := stop.toNat_lt
    have next : (a + sizeofMmapEntry).toNat + 24 * n = stop.toNat := by
      rw [UInt32.toNat_add, show sizeofMmapEntry.toNat = 24 from rfl]
      omega
    have shift : ∀ i, a + sizeofMmapEntry * UInt32.ofNat (i + 1)
        = a + sizeofMmapEntry + sizeofMmapEntry * UInt32.ofNat i := by
      intro i
      rw [show UInt32.ofNat (i + 1) = UInt32.ofNat i + 1 from UInt32.ofNat_add i 1, UInt32.mul_add,
        UInt32.mul_one, UInt32.add_comm (sizeofMmapEntry * _), UInt32.add_assoc]
    have split : (List.range (n + 1)).flatMap (fun i =>
          (mmapEntry mem (a + sizeofMmapEntry * UInt32.ofNat i)).pages kernEnd)
        = (mmapEntry mem a).pages kernEnd ++ (List.range n).flatMap (fun i =>
            (mmapEntry mem (a + sizeofMmapEntry + sizeofMmapEntry * UInt32.ofNat i)).pages kernEnd) := by
      have first : a + sizeofMmapEntry * UInt32.ofNat 0 = a := UInt32.add_zero a
      rw [List.range_succ_eq_map, List.flatMap_cons, first, List.flatMap_map]
      exact congrArg _ (List.flatMap_congr fun i _ => by rw [shift])
    unfold walkMap
    rw [if_pos (by rw [UInt32.lt_iff_toNat_lt]; omega), useEntry_eq, split, List.foldlM_append,
      List.length_append]
    cases (mmapEntry mem a).pages kernEnd |>.foldlM pmmFreePage s with
    | none => rfl
    | some s' =>
      rw [Option.map_some, Option.bind_eq_bind, Option.bind_some, Option.bind_eq_bind,
        Option.bind_some, ih fuel _ s' _ next (Nat.lt_of_succ_lt_succ enough), UInt32.add_assoc,
        ← UInt32.ofNat_add]

/-- **`init_pmm` pushes `allPages`**, and counts them. -/
theorem initPmm_eq {mem : Memory} {kernEnd : UInt32} {mboot : Multiboot}
    (noWrap : mboot.mmap_addr.toNat + 24 * mboot.mmap_length.toNat < 2 ^ 32) :
    initPmm mem kernEnd mboot = ((allPages mem kernEnd mboot).foldlM pmmFreePage Pmm.empty).map
      fun s => (s, UInt32.ofNat (allPages mem kernEnd mboot).length) := by
  have stop : mboot.mmap_addr.toNat + 24 * mboot.mmap_length.toNat
      = (mboot.mmap_addr + sizeofMmapEntry * mboot.mmap_length).toNat := by
    rw [UInt32.toNat_add, UInt32.toNat_mul, show sizeofMmapEntry.toNat = 24 from rfl]
    omega
  unfold initPmm
  rw [walkMap_eq mem kernEnd _ _ (2 ^ 32) _ _ _ stop mboot.mmap_length.toNat_lt]
  simp only [UInt32.zero_add]
  rfl

/-! ### What the map says -/

namespace MmapEntry

/-- The region an entry describes, in 64 bits. -/
def base (e : MmapEntry) : Nat := e.base_addr_low.toNat + 2 ^ 32 * e.base_addr_high.toNat

def length (e : MmapEntry) : Nat := e.length_low.toNat + 2 ^ 32 * e.length_high.toNat

def Covers (e : MmapEntry) (x : Nat) : Prop := e.base ≤ x ∧ x < e.base + e.length

/-- The page lies in the region, and the region is available. -/
def HoldsPage (e : MmapEntry) (p : UInt32) : Prop :=
  e.type = 1 ∧ e.base ≤ p.toNat ∧ p.toNat + 4096 ≤ e.base + e.length

end MmapEntry

/-- The entries of the table from an address on. An entry takes `size` bytes and the four of the size
itself. -/
def entriesFrom (mem : Memory) (stop : Nat) : Nat → Nat → List UInt32
  | 0, _ => []
  | fuel + 1, a =>
    if a < stop then
      UInt32.ofNat a :: entriesFrom mem stop fuel (a + (mmapEntry mem (UInt32.ofNat a)).size.toNat + 4)
    else []

/-- The entries of the table: it is `mmap_length` bytes long. -/
def entries (mem : Memory) (mboot : Multiboot) : List UInt32 :=
  entriesFrom mem (mboot.mmap_addr.toNat + mboot.mmap_length.toNat) mboot.mmap_length.toNat
    mboot.mmap_addr.toNat

/-- No address is in two regions. -/
def DisjointMap (mem : Memory) (mboot : Multiboot) : Prop :=
  (entries mem mboot).Pairwise fun a b =>
    ∀ x, ¬ ((mmapEntry mem a).Covers x ∧ (mmapEntry mem b).Covers x)

/-- The pages on the stack are pushed once, in available memory and above the kernel, and counted. -/
structure Discovered (mem : Memory) (kernEnd : UInt32) (mboot : Multiboot) (s : Pmm)
    (count : UInt32) : Prop where
  once : s.free.Nodup
  available : ∀ p ∈ s.free, ∃ a ∈ entries mem mboot, (mmapEntry mem a).HoldsPage p
  above : ∀ p ∈ s.free, (PMA kernEnd).toNat ≤ p.toNat
  counted : count.toNat = s.free.length

/-- The record of turn `i` yields pages. -/
def Yields (mem : Memory) (kernEnd : UInt32) (mboot : Multiboot) (i : Nat) : Prop :=
  i < mboot.mmap_length.toNat ∧ 0 < (record mem mboot i).pageCount kernEnd

/-- The record of turn `i` is an entry of the table, for a region below 4 GB. -/
def OwnEntry (mem : Memory) (mboot : Multiboot) (i : Nat) : Prop :=
  mboot.mmap_addr + sizeofMmapEntry * UInt32.ofNat i ∈ entries mem mboot ∧
    (record mem mboot i).base_addr_high = 0

/-- One record at most yields pages. An entry of the table does not yield a page that its region has
only a part of; and what another record yields is available by coincidence. -/
structure SoundMap (mem : Memory) (kernEnd : UInt32) (mboot : Multiboot) : Prop where
  one : ∀ i j, Yields mem kernEnd mboot i → Yields mem kernEnd mboot j → i = j
  whole : ∀ i, Yields mem kernEnd mboot i → OwnEntry mem mboot i →
    ((record mem mboot i).pageAddr kernEnd).toNat + 4096 * (record mem mboot i).pageCount kernEnd
      ≤ (record mem mboot i).base + (record mem mboot i).length
  coincides : ∀ i, Yields mem kernEnd mboot i → ¬ OwnEntry mem mboot i →
    ∀ p ∈ (record mem mboot i).pages kernEnd, ∃ a ∈ entries mem mboot, (mmapEntry mem a).HoldsPage p

/-! ### The pages of one record -/

section Record

variable {e : MmapEntry} {kernEnd : UInt32}

theorem usable_of_pages (some : 0 < e.pageCount kernEnd) : e.Usable := by
  by_contra not
  rw [MmapEntry.pageCount, if_neg not] at some
  exact absurd some (Nat.lt_irrefl 0)

theorem pageAddr_of_usable (usable : e.Usable) : e.pageAddr kernEnd = PMA kernEnd := by
  rw [MmapEntry.pageAddr, usable.2, PMA, ← UInt32.toNat_inj, UInt32.toNat_add, UInt32.toNat_sub,
    UInt32.toNat_sub, show KERN_START.toNat = 3222274048 from rfl,
    show PAGE_OFFSET.toNat = 3221225472 from rfl, show (0x100000 : UInt32).toNat = 1048576 from rfl]
  omega

theorem toNat_page {j : Nat} (below : j < e.pageCount kernEnd) :
    (e.pageAddr kernEnd + UInt32.ofNat (4096 * j)).toNat = (e.pageAddr kernEnd).toNat + 4096 * j ∧
      (e.pageAddr kernEnd).toNat + 4096 * j < e.limit.toNat := by
  have bound : PMM_MAX_SIZE = 536870912 := rfl
  have size : UInt32.size = 4294967296 := rfl
  have count : e.pageCount kernEnd = pagesBelow e.limit.toNat (e.pageAddr kernEnd).toNat :=
    if_pos (usable_of_pages (Nat.zero_lt_of_lt below))
  rw [count, pagesBelow] at below
  rw [UInt32.toNat_add, UInt32.toNat_ofNat_of_lt' (by omega)]
  omega

theorem mem_pages {p : UInt32} : p ∈ e.pages kernEnd ↔
    ∃ j, j < e.pageCount kernEnd ∧ e.pageAddr kernEnd + UInt32.ofNat (4096 * j) = p := by
  rw [MmapEntry.pages, List.mem_map]
  simp only [List.mem_range]

theorem pages_nodup : (e.pages kernEnd).Nodup := by
  rw [MmapEntry.pages, List.nodup_map_iff_inj_on List.nodup_range]
  intro i inside j inside' same
  rw [List.mem_range] at inside inside'
  have same' := congrArg UInt32.toNat same
  rw [(toNat_page inside).1, (toNat_page inside').1] at same'
  omega

theorem first_mem_pages (some : 0 < e.pageCount kernEnd) : PMA kernEnd ∈ e.pages kernEnd := by
  refine mem_pages.mpr ⟨0, some, ?_⟩
  rw [pageAddr_of_usable (usable_of_pages some)]
  exact UInt32.add_zero _

/-- A page of an entry for a region below 4 GB begins in that region. -/
theorem page_covered (kernel : KERN_START ≤ kernEnd) (low : e.base_addr_high = 0) {j : Nat}
    (below : j < e.pageCount kernEnd) :
    e.base ≤ (e.pageAddr kernEnd).toNat + 4096 * j ∧
      (e.pageAddr kernEnd).toNat + 4096 * j < e.base + e.length := by
  have usable := usable_of_pages (Nat.zero_lt_of_lt below)
  have under := (toNat_page below).2
  have start : 1048576 ≤ (e.pageAddr kernEnd).toNat := by
    have small := kernEnd.toNat_lt
    rw [UInt32.le_iff_toNat_le, show KERN_START.toNat = 3222274048 from rfl] at kernel
    rw [pageAddr_of_usable usable, PMA, UInt32.toNat_sub, show PAGE_OFFSET.toNat = 3221225472 from rfl]
    omega
  have limit : e.limit.toNat ≤ 1048576 + e.length_low.toNat := by
    rw [MmapEntry.limit, usable.2, UInt32.toNat_add, show (0x100000 : UInt32).toNat = 1048576 from rfl]
    exact Nat.mod_le _ _
  have base : e.base = 1048576 := by
    rw [MmapEntry.base, usable.2, low]
    rfl
  rw [base, MmapEntry.length]
  omega

end Record

/-! ### When the map is read rightly -/

section Sound

variable {mem : Memory} {kernEnd : UInt32} {mboot : Multiboot}

/-- Two entries whose regions share an address are one. -/
theorem entry_unique (disjoint : DisjointMap mem mboot) {a b : UInt32} (inside : a ∈ entries mem mboot)
    (inside' : b ∈ entries mem mboot) {x : Nat} (covers : (mmapEntry mem a).Covers x)
    (covers' : (mmapEntry mem b).Covers x) : a = b := by
  have symm : Std.Symm fun a b : UInt32 =>
      ∀ x, ¬ ((mmapEntry mem a).Covers x ∧ (mmapEntry mem b).Covers x) :=
    ⟨fun _ _ apart x both => apart x both.symm⟩
  by_contra other
  exact List.Pairwise.forall disjoint inside inside' other x ⟨covers, covers'⟩

/-- What one record yields is everything, if no other one yields anything. -/
theorem flatMap_single {α β : Type} {f : α → List β} {i : α} {l : List α} (nodup : l.Nodup)
    (inside : i ∈ l) (others : ∀ j ∈ l, j ≠ i → f j = []) : l.flatMap f = f i := by
  induction l with
  | nil => exact absurd inside List.not_mem_nil
  | cons head tail ih =>
    rw [List.nodup_cons] at nodup
    rw [List.flatMap_cons]
    rcases List.mem_cons.mp inside with rfl | later
    · have rest : tail.flatMap f = [] := List.flatMap_eq_nil_iff.mpr fun j inside' =>
        others j (List.mem_cons_of_mem _ inside') (by rintro rfl; exact nodup.1 inside')
      rw [rest, List.append_nil]
    · have first : f head = [] := others head List.mem_cons_self
        (by rintro rfl; exact nodup.1 later)
      rw [first, List.nil_append]
      exact ih nodup.2 later fun j inside' => others j (List.mem_cons_of_mem _ inside')

theorem pages_nil {i : Nat} (inside : i < mboot.mmap_length.toNat)
    (not : ¬ Yields mem kernEnd mboot i) : (record mem mboot i).pages kernEnd = [] := by
  have zero : (record mem mboot i).pageCount kernEnd = 0 := by
    by_contra some
    exact not ⟨inside, Nat.pos_of_ne_zero some⟩
  rw [MmapEntry.pages, zero]
  rfl

theorem soundMap_of_discovered (kernel : KERN_START ≤ kernEnd) (disjoint : DisjointMap mem mboot)
    {s : Pmm} {count : UInt32} (all : s.free = allPages mem kernEnd mboot)
    (discovered : Discovered mem kernEnd mboot s count) : SoundMap mem kernEnd mboot := by
  have pushed : ∀ i, Yields mem kernEnd mboot i → ∀ p ∈ (record mem mboot i).pages kernEnd,
      p ∈ s.free := by
    intro i yields p inside
    rw [all]
    exact List.mem_flatMap.mpr ⟨i, List.mem_range.mpr yields.1, inside⟩
  refine ⟨?_, ?_, fun i yields _ p inside => discovered.available p (pushed i yields p inside)⟩
  · intro i j yields yields'
    by_contra other
    have once := discovered.once
    rw [all, allPages, List.nodup_flatMap] at once
    have symm : Std.Symm (Function.onFun List.Disjoint
        fun i => (record mem mboot i).pages kernEnd) :=
      ⟨fun _ _ disjoint => List.disjoint_symm disjoint⟩
    have apart := List.Pairwise.forall once.2 (List.mem_range.mpr yields.1)
      (List.mem_range.mpr yields'.1) other
    exact apart (first_mem_pages yields.2) (first_mem_pages yields'.2)
  · intro i yields own
    have positive := yields.2
    obtain ⟨n, count⟩ := Nat.exists_eq_succ_of_ne_zero (Nat.ne_of_gt positive)
    have below : n < (record mem mboot i).pageCount kernEnd := by omega
    obtain ⟨a, inside, _, low, high⟩ := discovered.available _
      (pushed i yields _ (mem_pages.mpr ⟨n, below, rfl⟩))
    rw [(toNat_page below).1] at low high
    have before := Nat.lt_of_lt_of_le (Nat.lt_add_of_pos_right (by decide : 0 < 4096)) high
    have same : a = mboot.mmap_addr + sizeofMmapEntry * UInt32.ofNat i :=
      entry_unique disjoint inside own.1 ⟨low, before⟩ (page_covered kernel own.2 below)
    rw [same] at high
    rw [count, Nat.mul_succ, ← Nat.add_assoc]
    exact high

theorem discovered_of_soundMap (kernel : KERN_START ≤ kernEnd) (sound : SoundMap mem kernEnd mboot) :
    ∃ s, (allPages mem kernEnd mboot).foldlM pmmFreePage Pmm.empty = some s ∧
      Discovered mem kernEnd mboot s (UInt32.ofNat (allPages mem kernEnd mboot).length) := by
  have bound : PAGE_MAX_SIZE + 1 < UInt32.size := by decide
  by_cases any : ∃ i, Yields mem kernEnd mboot i
  · obtain ⟨i, yields⟩ := any
    have single : allPages mem kernEnd mboot = (record mem mboot i).pages kernEnd :=
      flatMap_single List.nodup_range (List.mem_range.mpr yields.1) fun j inside other =>
        pages_nil (List.mem_range.mp inside) fun yields' => other (sound.one j i yields' yields)
    have few := pageCount_le (record mem mboot i) kernEnd
    rw [← length_pages] at few
    obtain ⟨s, ran, list, _⟩ := Pmm.free_all_spec _ few
    rw [single]
    refine ⟨s, ran, ?_, ?_, ?_, ?_⟩
    · rw [list]
      exact pages_nodup
    · intro p inside
      rw [list] at inside
      by_cases own : OwnEntry mem mboot i
      · obtain ⟨j, below, rfl⟩ := mem_pages.mp inside
        have whole := sound.whole i yields own
        have covered := page_covered kernel own.2 below
        refine ⟨_, own.1, (usable_of_pages yields.2).1, ?_, ?_⟩
        · rw [(toNat_page below).1]
          exact covered.1
        · rw [(toNat_page below).1]
          exact Nat.le_trans (by omega) whole
      · exact sound.coincides i yields own p inside
    · intro p inside
      rw [list] at inside
      obtain ⟨j, below, rfl⟩ := mem_pages.mp inside
      rw [(toNat_page below).1, pageAddr_of_usable (usable_of_pages yields.2)]
      exact Nat.le_add_right _ _
    · rw [list]
      exact UInt32.toNat_ofNat_of_lt' (Nat.lt_of_le_of_lt few bound)
  · have none : allPages mem kernEnd mboot = [] := List.flatMap_eq_nil_iff.mpr fun i inside =>
      pages_nil (List.mem_range.mp inside) fun yields => any ⟨i, yields⟩
    rw [none]
    have empty : Pmm.empty.free = [] := rfl
    refine ⟨Pmm.empty, rfl, ?_, ?_, ?_, ?_⟩
    · rw [empty]
      exact List.nodup_nil
    · exact fun p inside => absurd (empty ▸ inside) List.not_mem_nil
    · exact fun p inside => absurd (empty ▸ inside) List.not_mem_nil
    · rfl

/-- **When physical memory is found rightly.** `init_pmm` pushes each page once, in available memory
and above the kernel, if and only if one record at most yields pages among all those it visits, and
these are whole pages of the record's own region (or, where the record is not an entry for a region
below 4 GB, happen to be available). -/
theorem discovery_sound_iff (kernel : KERN_START ≤ kernEnd) (disjoint : DisjointMap mem mboot)
    (noWrap : mboot.mmap_addr.toNat + 24 * mboot.mmap_length.toNat < 2 ^ 32) :
    (∃ s count, initPmm mem kernEnd mboot = some (s, count) ∧
      Discovered mem kernEnd mboot s count) ↔ SoundMap mem kernEnd mboot := by
  rw [initPmm_eq noWrap]
  constructor
  · rintro ⟨s, count, ran, discovered⟩
    obtain ⟨s', ran', same⟩ := Option.map_eq_some_iff.mp ran
    cases same
    exact soundMap_of_discovered kernel disjoint (Pmm.pushed_empty ran') discovered
  · intro sound
    obtain ⟨s, ran, discovered⟩ := discovered_of_soundMap kernel sound
    exact ⟨s, _, by rw [ran]; rfl, discovered⟩

end Sound

/-! ### A small map -/

/-- Memory with an entry stored at an address. -/
def entryAt (mem : Memory) (a : UInt32) (e : MmapEntry) : Memory :=
  store32 (store32 (store32 (store32 (store32 (store32 mem a e.size) (a + 4) e.base_addr_low) (a + 8)
    e.base_addr_high) (a + 12) e.length_low) (a + 16) e.length_high) (a + 20) e.type

/-- Three megabytes from 1 MB on. -/
def smallEntry : MmapEntry := ⟨20, 0x100000, 0, 0x300000, 0, 1⟩

/-- A map of one entry, in memory that is otherwise zero. -/
def smallMap : Memory := entryAt (fun _ => 0) 0x9000 smallEntry

/-- The same, with an old copy of the entry left behind the table. -/
def staleMap : Memory := entryAt smallMap 0x9018 smallEntry

theorem small_map_sound_iff :
    (∃ s count, initPmm smallMap 0xC0150000 ⟨24, 0x9000⟩ = some (s, count) ∧
      Discovered smallMap 0xC0150000 ⟨24, 0x9000⟩ s count) ↔
      SoundMap smallMap 0xC0150000 ⟨24, 0x9000⟩ := by
  have disjoint : DisjointMap smallMap ⟨24, 0x9000⟩ := by
    have single : entries smallMap ⟨24, 0x9000⟩ = [0x9000] := by decide +kernel
    rw [DisjointMap, single]
    exact List.pairwise_singleton _ _
  exact discovery_sound_iff (by decide) disjoint (by decide)

/-- **The walk goes on behind the table**, and pushes the pages of what it finds there a second
time. -/
theorem stale_entry_pushed_again :
    DisjointMap staleMap ⟨24, 0x9000⟩ ∧
      ¬ ∃ s count, initPmm staleMap 0xC0150000 ⟨24, 0x9000⟩ = some (s, count) ∧
        Discovered staleMap 0xC0150000 ⟨24, 0x9000⟩ s count := by
  have disjoint : DisjointMap staleMap ⟨24, 0x9000⟩ := by
    have single : entries staleMap ⟨24, 0x9000⟩ = [0x9000] := by decide +kernel
    rw [DisjointMap, single]
    exact List.pairwise_singleton _ _
  refine ⟨disjoint, ?_⟩
  rintro ⟨s, count, ran, discovered⟩
  rw [initPmm_eq (by decide)] at ran
  obtain ⟨s', ran', same⟩ := Option.map_eq_some_iff.mp ran
  cases same
  have sound := soundMap_of_discovered (by decide) disjoint (Pmm.pushed_empty ran') discovered
  have first : Yields staleMap 0xC0150000 ⟨24, 0x9000⟩ 0 := ⟨by decide, by decide +kernel⟩
  have second : Yields staleMap 0xC0150000 ⟨24, 0x9000⟩ 1 := ⟨by decide, by decide +kernel⟩
  exact absurd (sound.one 0 1 first second) (by decide)

end Sprite.Paging

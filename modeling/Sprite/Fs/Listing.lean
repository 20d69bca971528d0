/-
**Listing the tree below a directory.**

`list_entries` goes on with a buffer after the calls for the entries before, which read other blocks.
As long as the cache has room for all of them the buffer is still that of the directory. When it has
not, the buffer may have been given to any block that is read meanwhile.

* `Ends`, `Leaves` — the listing of an inode comes to an end, or leaves its tables.
* `listing_outside_iff` — the listing on the image leaves its tables exactly then.
* `Roomy`, `listEntries_yields` — with room in the cache `list_entries` is the listing on the image.
* `Closed`, `listEntries_safe` — without room it stays inside when every record of every block that
  may come into a buffer is fine.
* `walk_in_bounds_iff` — **when the walks over a volume are in bounds**.
* `leaving_the_tables` — an entry with inode number 200.
-/
import Mathlib.Data.Finset.Lattice.Fold
import Sprite.Fs.Walk

namespace Sprite.Fs

open Cache Ide

variable {content : UInt32 → Block} {g : Globals} {m : Elsewhere}

/-! ### The listing on the image -/

/-- The inode is a directory. -/
def IsDir (g : Globals) (m : Elsewhere) (k : Fin kNumInodes) : Prop :=
  isDirectory (mode (inodeAt g m (some k))) = true

/-- An entry whose name begins with a dot is not listed. -/
def Hidden (content : UInt32 → Block) (m : Elsewhere) (dir : Memory) (j : Nat) : Prop :=
  dirEntry content m dir j nameOffset = dot

instance {dir : Memory} {j : Nat} : Decidable (Hidden content m dir j) :=
  inferInstanceAs (Decidable (_ = _))

/-- The listing of the entries of a directory from `j` on, with the one of what they lead to. -/
def visit (content : UInt32 → Block) (m : Elsewhere) (dir : Memory)
    (list : Fin kNumInodes → Except Halt Unit) : Nat → Nat → Except Halt Unit
  | 0, _ => .ok ()
  | count + 1, j =>
    if j < maxEntries then do
      let node ← inodeTable (inodeOf content m dir j)
      if ¬ Hidden content m dir j then list node
      visit content m dir list count (j + 1)
    else .error .outside

/-- The listing of an inode. -/
def listing (content : UInt32 → Block) (g : Globals) (m : Elsewhere) :
    Nat → Fin kNumInodes → Except Halt Unit
  | 0, _ => .error .stopped
  | stack + 1, k =>
    if isDirectory (mode (inodeAt g m (some k))) then
      visit content m (inodeAt g m (some k)) (listing content g m stack)
        (numEntries (inodeAt g m (some k))) 0
    else .ok ()

/-- **The listing of the inode comes to an end.** -/
inductive Ends (content : UInt32 → Block) (g : Globals) (m : Elsewhere) : Fin kNumInodes → Prop
  | file {k : Fin kNumInodes} : ¬ IsDir g m k → Ends content g m k
  | directory {k : Fin kNumInodes} : IsDir g m k →
      numEntries (inodeAt g m (some k)) ≤ maxEntries →
      (∀ j < numEntries (inodeAt g m (some k)),
        inodeOf content m (inodeAt g m (some k)) j < kNumInodes) →
      (∀ j < numEntries (inodeAt g m (some k)), ∀ i : Fin kNumInodes,
        inodeOf content m (inodeAt g m (some k)) j = i.val →
        ¬ Hidden content m (inodeAt g m (some k)) j → Ends content g m i) →
      Ends content g m k

/-- The listing of a directory comes to entry `j`: it comes to an end at all entries before. -/
structure Comes (content : UInt32 → Block) (m : Elsewhere) (ends : Fin kNumInodes → Prop)
    (dir : Memory) (j : Nat) : Prop where
  near : j ≤ maxEntries
  numbers : ∀ j' < j, inodeOf content m dir j' < kNumInodes
  ends : ∀ j' < j, ∀ i : Fin kNumInodes, inodeOf content m dir j' = i.val →
    ¬ Hidden content m dir j' → ends i

/-- **The listing of the inode leaves its tables**: it comes to an entry that no zone of the inode
has, or that has the number of no inode, or whose own inode it leaves its tables in. -/
inductive Leaves (content : UInt32 → Block) (g : Globals) (m : Elsewhere) : Fin kNumInodes → Prop
  | zone {k : Fin kNumInodes} : IsDir g m k → maxEntries < numEntries (inodeAt g m (some k)) →
      Comes content m (Ends content g m) (inodeAt g m (some k)) maxEntries → Leaves content g m k
  | number {k : Fin kNumInodes} {j : Nat} : IsDir g m k → j < numEntries (inodeAt g m (some k)) →
      j < maxEntries → Comes content m (Ends content g m) (inodeAt g m (some k)) j →
      kNumInodes ≤ inodeOf content m (inodeAt g m (some k)) j → Leaves content g m k
  | deeper {k i : Fin kNumInodes} {j : Nat} : IsDir g m k →
      j < numEntries (inodeAt g m (some k)) → j < maxEntries →
      Comes content m (Ends content g m) (inodeAt g m (some k)) j →
      inodeOf content m (inodeAt g m (some k)) j = i.val →
      ¬ Hidden content m (inodeAt g m (some k)) j → Leaves content g m i → Leaves content g m k

section Image

variable {dir : Memory} {list : Fin kNumInodes → Except Halt Unit} {ends leaves : Fin kNumInodes → Prop}
  {j count : Nat}

theorem Comes.succ (comes : Comes content m ends dir j) (near : j < maxEntries)
    (inside : inodeOf content m dir j < kNumInodes)
    (here : ∀ i : Fin kNumInodes, inodeOf content m dir j = i.val → ¬ Hidden content m dir j → ends i) :
    Comes content m ends dir (j + 1) := by
  refine ⟨near, fun j' less => ?_, fun j' less => ?_⟩
  · rcases Nat.lt_succ_iff_lt_or_eq.mp less with before | rfl
    · exact comes.numbers j' before
    · exact inside
  · rcases Nat.lt_succ_iff_lt_or_eq.mp less with before | rfl
    · exact comes.ends j' before
    · exact here

/-- How a listing that has not been stopped has ended, if those of the entries have ended like this. -/
theorem visit_cases (listed : ∀ i, list i = .ok () → ends i)
    (left : ∀ i, list i = .error .outside → leaves i) (count : Nat) : ∀ {j},
    Comes content m ends dir j →
    (visit content m dir list count j = .ok () → Comes content m ends dir (j + count)) ∧
    (visit content m dir list count j = .error .outside →
      ∃ j' < j + count, Comes content m ends dir j' ∧ (maxEntries ≤ j' ∨ j' < maxEntries ∧
        (kNumInodes ≤ inodeOf content m dir j' ∨ ∃ i : Fin kNumInodes,
          inodeOf content m dir j' = i.val ∧ ¬ Hidden content m dir j' ∧ leaves i))) := by
  induction count with
  | zero => exact fun comes => ⟨fun _ => comes, fun impossible => by cases impossible⟩
  | succ count ih =>
    intro j comes
    have shift : j + 1 + count = j + (count + 1) := by omega
    unfold visit
    by_cases near : j < maxEntries
    swap
    · rw [if_neg near]
      exact ⟨fun impossible => (by cases impossible),
        fun _ => ⟨j, by omega, comes, .inl (Nat.not_lt.mp near)⟩⟩
    rw [if_pos near]
    by_cases inside : inodeOf content m dir j < kNumInodes
    swap
    · rw [inodeTable, dif_neg inside, error_bind]
      exact ⟨fun impossible => (by cases impossible),
        fun _ => ⟨j, by omega, comes, .inr ⟨near, .inl (Nat.not_lt.mp inside)⟩⟩⟩
    rw [inodeTable_lt inside, ok_bind]
    by_cases hidden : Hidden content m dir j
    · rw [if_neg (not_not_intro hidden)]
      have rest := ih (comes.succ near inside fun _ _ shown => absurd hidden shown)
      rw [shift] at rest
      exact rest
    · rw [if_pos hidden]
      cases ran : list ⟨_, inside⟩ with
      | ok _ =>
        have rest := ih (comes.succ near inside fun i number _ => by
          obtain rfl : (⟨_, inside⟩ : Fin kNumInodes) = i := Fin.ext number
          exact listed _ ran)
        rw [shift] at rest
        exact rest
      | error halt =>
        refine ⟨fun impossible => (by cases impossible), fun same => ?_⟩
        obtain rfl : halt = .outside := by
          injection same
        exact ⟨j, by omega, comes, .inr ⟨near, .inr ⟨⟨_, inside⟩, rfl, hidden, left _ ran⟩⟩⟩

/-- A listing passes all the entries that it comes to an end at. -/
theorem Comes.visit_eq (comes : Comes content m (fun i => list i = .ok ()) dir j) (rest : Nat) :
    visit content m dir list (j + rest) 0 = visit content m dir list rest j := by
  induction j generalizing rest with
  | zero => rw [Nat.zero_add]
  | succ j ih =>
    have before : Comes content m (fun i => list i = .ok ()) dir j :=
      ⟨Nat.le_of_succ_le comes.near, fun j' less => comes.numbers j' (Nat.lt_succ_of_lt less),
        fun j' less => comes.ends j' (Nat.lt_succ_of_lt less)⟩
    have near : j < maxEntries := comes.near
    have inside := comes.numbers j (Nat.lt_succ_self j)
    rw [Nat.add_right_comm, Nat.add_assoc, ih before, visit, if_pos near, inodeTable_lt inside,
      ok_bind]
    by_cases hidden : Hidden content m dir j
    · rw [if_neg (not_not_intro hidden)]
    · rw [if_pos hidden, comes.ends j (Nat.lt_succ_self j) ⟨_, inside⟩ rfl hidden]
      rfl

end Image

theorem listing_cases (stack : Nat) : ∀ k : Fin kNumInodes,
    (listing content g m stack k = .ok () → Ends content g m k) ∧
    (listing content g m stack k = .error .outside → Leaves content g m k) := by
  induction stack with
  | zero => exact fun k => ⟨fun impossible => (by cases impossible), fun impossible => by cases impossible⟩
  | succ stack ih =>
    intro k
    unfold listing
    by_cases isDir : isDirectory (mode (inodeAt g m (some k))) = true
    swap
    · rw [if_neg isDir]
      exact ⟨fun _ => .file isDir, fun impossible => by cases impossible⟩
    rw [if_pos isDir]
    have start : Comes content m (Ends content g m) (inodeAt g m (some k)) 0 :=
      ⟨Nat.zero_le _, fun _ none => absurd none (Nat.not_lt_zero _),
        fun _ none => absurd none (Nat.not_lt_zero _)⟩
    obtain ⟨listed, left⟩ := visit_cases (fun i => (ih i).1) (fun i => (ih i).2)
      (numEntries (inodeAt g m (some k))) start
    rw [Nat.zero_add] at listed left
    refine ⟨fun ran => ?_, fun ran => ?_⟩
    · have comes := listed ran
      exact .directory isDir comes.near comes.numbers comes.ends
    · obtain ⟨j, below, comes, far | ⟨near, number | ⟨i, number, shown, leaves⟩⟩⟩ := left ran
      · obtain rfl : j = maxEntries := Nat.le_antisymm comes.near far
        exact .zone isDir below comes
      · exact .number isDir below near comes number
      · exact .deeper isDir below near comes number shown leaves

/-- Finitely many listings have a depth in common. -/
theorem common_depth {P : Nat → Nat → Prop} (n : Nat)
    (each : ∀ j < n, ∃ depth, ∀ stack ≥ depth, P j stack) :
    ∃ depth, ∀ stack ≥ depth, ∀ j < n, P j stack := by
  choose! depth deep using each
  refine ⟨(Finset.range n).sup depth, fun stack enough j below => deep j below stack ?_⟩
  exact Nat.le_trans (Finset.le_sup (Finset.mem_range.mpr below)) enough

/-- A listing that comes to an entry does so with enough stack. -/
theorem Comes.depth {dir : Memory} {j : Nat} (comes : Comes content m
      (fun i => ∃ depth, ∀ stack ≥ depth, listing content g m stack i = .ok ()) dir j) :
    ∃ depth, ∀ stack ≥ depth,
      Comes content m (fun i => listing content g m stack i = .ok ()) dir j := by
  obtain ⟨depth, deep⟩ := common_depth j (P := fun j' stack => ∀ i : Fin kNumInodes,
    inodeOf content m dir j' = i.val → ¬ Hidden content m dir j' →
      listing content g m stack i = .ok ()) fun j' below => by
    by_cases hidden : Hidden content m dir j'
    · exact ⟨0, fun _ _ _ _ shown => absurd hidden shown⟩
    · obtain ⟨depth, deep⟩ := comes.ends j' below ⟨_, comes.numbers j' below⟩ rfl hidden
      refine ⟨depth, fun stack enough i number _ => ?_⟩
      obtain rfl : (⟨_, comes.numbers j' below⟩ : Fin kNumInodes) = i := Fin.ext number
      exact deep stack enough
  exact ⟨depth, fun stack enough => ⟨comes.near, comes.numbers, deep stack enough⟩⟩

/-- The listing of a directory, from the entry it comes to. -/
theorem Comes.listing_eq {k : Fin kNumInodes} {j stack : Nat} (isDir : IsDir g m k) (rest : Nat)
    (number : numEntries (inodeAt g m (some k)) = j + rest)
    (comes : Comes content m (fun i => listing content g m stack i = .ok ()) (inodeAt g m (some k)) j) :
    listing content g m (stack + 1) k
      = visit content m (inodeAt g m (some k)) (listing content g m stack) rest j := by
  have isDir : isDirectory (mode (inodeAt g m (some k))) = true := isDir
  rw [listing, if_pos isDir, number, comes.visit_eq]

theorem Ends.listing_eq {k : Fin kNumInodes} (ends : Ends content g m k) :
    ∃ depth, ∀ stack ≥ depth, listing content g m stack k = .ok () := by
  induction ends with
  | file isFile =>
    refine ⟨1, fun stack enough => ?_⟩
    obtain ⟨stack, rfl⟩ := Nat.exists_eq_add_of_le' enough
    exact if_neg isFile
  | directory isDir few numbers _ ih =>
    obtain ⟨depth, deep⟩ := Comes.depth ⟨few, numbers, ih⟩
    refine ⟨depth + 1, fun stack enough => ?_⟩
    obtain ⟨stack, rfl⟩ := Nat.exists_eq_add_of_le' (Nat.le_trans (Nat.le_add_left 1 depth) enough)
    exact (deep stack (Nat.le_of_succ_le_succ enough)).listing_eq isDir 0 rfl

theorem Leaves.listing_eq {k : Fin kNumInodes} (leaves : Leaves content g m k) :
    ∃ depth, ∀ stack ≥ depth, listing content g m stack k = .error .outside := by
  have ended : ∀ {dir : Memory} {j : Nat}, Comes content m (Ends content g m) dir j →
      ∃ depth, ∀ stack ≥ depth,
        Comes content m (fun i => listing content g m stack i = .ok ()) dir j := fun comes =>
    Comes.depth ⟨comes.near, comes.numbers, fun j' below i number shown =>
      (comes.ends j' below i number shown).listing_eq⟩
  induction leaves with
  | zone isDir many comes =>
    obtain ⟨depth, deep⟩ := ended comes
    refine ⟨depth + 1, fun stack enough => ?_⟩
    obtain ⟨stack, rfl⟩ := Nat.exists_eq_add_of_le' (Nat.le_trans (Nat.le_add_left 1 depth) enough)
    obtain ⟨rest, number⟩ := Nat.exists_eq_add_of_lt many
    rw [(deep stack (Nat.le_of_succ_le_succ enough)).listing_eq isDir (rest + 1) number, visit,
      if_neg (Nat.lt_irrefl _)]
  | @number k j isDir below near comes far =>
    obtain ⟨depth, deep⟩ := ended comes
    refine ⟨depth + 1, fun stack enough => ?_⟩
    obtain ⟨stack, rfl⟩ := Nat.exists_eq_add_of_le' (Nat.le_trans (Nat.le_add_left 1 depth) enough)
    obtain ⟨rest, number⟩ := Nat.exists_eq_add_of_lt below
    rw [(deep stack (Nat.le_of_succ_le_succ enough)).listing_eq isDir (rest + 1) number, visit,
      if_pos near, inodeTable, dif_neg (Nat.not_lt.mpr far), error_bind]
  | @deeper k i j isDir below near comes number shown _ ih =>
    obtain ⟨depth, deep⟩ := ended comes
    obtain ⟨depth', deep'⟩ := ih
    refine ⟨max depth depth' + 1, fun stack enough => ?_⟩
    obtain ⟨stack, rfl⟩ := Nat.exists_eq_add_of_le' (Nat.le_trans (Nat.le_add_left 1 _) enough)
    have enough := Nat.le_of_succ_le_succ enough
    obtain ⟨rest, total⟩ := Nat.exists_eq_add_of_lt below
    rw [(deep stack (Nat.le_trans (Nat.le_max_left _ _) enough)).listing_eq isDir (rest + 1)
      total, visit, if_pos near, number, inodeTable_lt i.isLt, ok_bind, if_pos shown,
      deep' stack (Nat.le_trans (Nat.le_max_right _ _) enough)]
    rfl

/-- **When the listing on the image leaves its tables.** -/
theorem listing_outside_iff {k : Fin kNumInodes} :
    (∃ stack, listing content g m stack k = .error .outside) ↔ Leaves content g m k := by
  constructor
  · rintro ⟨stack, ran⟩
    exact (listing_cases stack k).2 ran
  · intro leaves
    obtain ⟨depth, deep⟩ := leaves.listing_eq
    exact ⟨depth, deep depth (Nat.le_refl depth)⟩

/-! ### With room for all blocks -/

section Room

variable {N : Nat} [NeZero N] {w : FsWorld N} {K : Finset UInt32}

/-- The inodes that the listing from the root may come to. -/
inductive Reached (content : UInt32 → Block) (g : Globals) (m : Elsewhere) : Fin kNumInodes → Prop
  | root : Reached content g m kRootINO
  | entry {k i : Fin kNumInodes} {j : Nat} : Reached content g m k → IsDir g m k →
      j < numEntries (inodeAt g m (some k)) → j < maxEntries →
      inodeOf content m (inodeAt g m (some k)) j = i.val →
      ¬ Hidden content m (inodeAt g m (some k)) j → Reached content g m i

/-- The blocks that are read for the entries of a directory. -/
def DirBlock (content : UInt32 → Block) (dir : Memory) (b : UInt32) : Prop :=
  ∃ zone < maxZones, (zone = 0 ∨ 32 * zone < numEntries dir) ∧ b ∈ zoneBlocks content dir zone

/-- **The cache has room** for everything that is cached and everything that the listing reads. -/
structure Roomy (content : UInt32 → Block) (g : Globals) (m : Elsewhere) (w : FsWorld N)
    (K : Finset UInt32) : Prop where
  small : K.card ≤ N
  cached : ∀ k, Cached w k → k ∈ K
  blocks : ∀ k, Reached content g m k → IsDir g m k → ∀ b,
    DirBlock content (inodeAt g m (some k)) b → b ∈ K

omit [NeZero N] in
theorem Through.cached_mem {w' : FsWorld N} (through : Through {b | b ∈ K} w w')
    (known : ∀ k, Cached w k → k ∈ K) (k : UInt32) (cached : Cached w' k) : k ∈ K :=
  (through.cached k cached).elim (known k) id

/-- The traversal of a directory, with buffers that are not given up. -/
theorem traverse_listing (two : 2 ≤ N) {dir : Memory} (small : K.card ≤ N)
    (blocks : ∀ b, DirBlock content dir b → b ∈ K)
    (list : Fin kNumInodes → FsWorld N → Except Halt (Unit × FsWorld N))
    (list' : Fin kNumInodes → Except Halt Unit) (same : ∀ (i : Fin kNumInodes) (j : Nat),
      j < numEntries dir → j < maxEntries → inodeOf content m dir j = i.val →
      ¬ Hidden content m dir j → ∀ {w : FsWorld N}, Coherent w content →
      (∀ k, Cached w k → k ∈ K) → Yields content {b | b ∈ K} w (list i w) (list' i)) (count : Nat) :
    ∀ {j zoneCnt zone entry} {w : FsWorld N}, j + count = numEntries dir →
    Walking content (zoneBlock content dir zoneCnt) j zoneCnt zone entry w →
    (∀ k, Cached w k → k ∈ K) →
    Yields content {b | b ∈ K} w (traverseEntries dir m (listEntry m list) count zoneCnt zone entry w)
      (do visit content m dir list' count j; return none) := by
  induction count with
  | zero => exact fun _ walking _ => Yields.ok walking.coherent none
  | succ count ih =>
    intro j zoneCnt zone entry w total walking known
    unfold visit
    by_cases near : j < maxEntries
    swap
    · rw [if_neg near, error_bind, traverseEntries, walking.outside two (Nat.not_lt.mp near)]
      exact rfl
    have nearZone : j / 32 < maxZones := Nat.div_lt_of_lt_mul near
    obtain ⟨zone', w', moved, walking', through, bytes⟩ :=
      walking.meets two near (fun b member => blocks b ⟨j / 32, nearZone, by omega, member⟩) m
    have known' := through.cached_mem known
    rw [if_pos near]
    refine Yields.after through ?_
    simp only [traverseEntries, moved, ok_bind, listEntry, bytes]
    by_cases inside : inodeOf content m dir j < kNumInodes
    swap
    · have far : inodeTable (inodeOf content m dir j) = .error .outside := dif_neg inside
      have far' : inodeTable (entryInode (dirEntry content m dir j)) = .error .outside := far
      rw [far, far']
      exact rfl
    have node : inodeTable (entryInode (dirEntry content m dir j)) = .ok ⟨_, inside⟩ :=
      inodeTable_lt inside
    rw [inodeTable_lt inside, node]
    simp only [ok_bind]
    by_cases hidden : Hidden content m dir j
    · have isDot : dirEntry content m dir j nameOffset = dot := hidden
      rw [if_neg (not_not_intro hidden), if_neg (not_not_intro isDot)]
      exact ih (by omega) (walking'.next (by omega)) known'
    · have notDot : dirEntry content m dir j nameOffset ≠ dot := hidden
      rw [if_pos hidden, if_pos notDot]
      have listed := same ⟨_, inside⟩ j (by omega) near rfl hidden walking'.coherent known'
      simp only [bind_assoc]
      refine listed.bind fun _ w'' coherent'' through' => ?_
      have stays := through'.roomy K small known' (fun _ => id) _ _ walking'.holds
      have walking'' : Walking content (zoneBlock content dir (j / 32)) j (j / 32) zone'
          (32 * (j % 32)) w'' :=
        ⟨coherent'', walking'.place, walking'.within, walking'.near, stays⟩
      exact ih (by omega) (walking''.next (by omega)) (through'.cached_mem known')

/-- **With room in the cache `list_entries` is the listing on the image.** -/
theorem listEntries_yields (two : 2 ≤ N) (small : K.card ≤ N)
    (blocks : ∀ k, Reached content g m k → IsDir g m k → ∀ b,
      DirBlock content (inodeAt g m (some k)) b → b ∈ K) (stack : Nat) :
    ∀ {k : Fin kNumInodes} {w : FsWorld N}, Reached content g m k → Coherent w content →
    (∀ k, Cached w k → k ∈ K) →
    Yields content {b | b ∈ K} w (listEntries g m stack k w) (listing content g m stack k) := by
  induction stack with
  | zero => exact fun _ _ _ => rfl
  | succ stack ih =>
    intro k w reached coherent known
    unfold listEntries listing
    by_cases isDir : isDirectory (mode (inodeAt g m (some k))) = true
    swap
    · rw [if_neg isDir, if_neg isDir]
      exact Yields.ok coherent ()
    have positive : 0 < maxZones := by decide
    have blocks' := blocks k reached isDir
    obtain ⟨node, w', ran, holds, coherent', through⟩ :=
      readZone_spec (B := {b | b ∈ K}) coherent two (inodeAt g m (some k)) positive
        fun b member => blocks' b ⟨0, positive, .inl rfl, member⟩
    have traversed := traverse_listing (m := m) two small blocks' (listEntries g m stack)
      (listing content g m stack)
      (fun i j below near number shown _ coherent known =>
        ih (.entry reached isDir below near number shown) coherent known)
      (numEntries (inodeAt g m (some k))) (Nat.zero_add _)
      ⟨coherent', rfl, Nat.zero_le _, positive, holds⟩ (through.cached_mem known)
    rw [if_pos isDir, if_pos isDir, traverseDir, if_pos isDir, ran, ok_bind]
    refine Yields.after through ?_
    -- What the traversal answers is dropped.
    have dropped : visit content m (inodeAt g m (some k)) (listing content g m stack)
          (numEntries (inodeAt g m (some k))) 0
        = (do visit content m (inodeAt g m (some k)) (listing content g m stack)
                (numEntries (inodeAt g m (some k))) 0
              return (none : InodePtr)) >>= fun _ => .ok () := by
      rw [bind_assoc]
      exact (bind_pure _).symm
    rw [dropped]
    exact traversed.bind fun _ w'' coherent'' _ => Yields.ok coherent'' ()

end Room

/-! ### Without room -/

section Reused

variable {N : Nat} [NeZero N] {w : FsWorld N} {S : Set (Fin kNumInodes)} {B : Set UInt32}

/-- **Inodes and blocks that lead to no others**: whatever block of `B` a buffer has been given to, the
records in it lead to inodes of `S`, and the directories among those are read from blocks of `B`. -/
structure Closed (content : UInt32 → Block) (g : Globals) (m : Elsewhere) (S : Set (Fin kNumInodes))
    (B : Set UInt32) : Prop where
  sizes : ∀ k ∈ S, IsDir g m k → numEntries (inodeAt g m (some k)) ≤ maxEntries
  blocks : ∀ k ∈ S, IsDir g m k → ∀ b, DirBlock content (inodeAt g m (some k)) b → b ∈ B
  numbers : ∀ b ∈ B, ∀ r < 32, entryInode (record content m b (32 * r)) < kNumInodes
  shown : ∀ b ∈ B, ∀ r < 32, ∀ i : Fin kNumInodes, entryInode (record content m b (32 * r)) = i.val →
    record content m b (32 * r) nameOffset ≠ dot → i ∈ S

/-- A function that does not leave its tables, and keeps the contents when it comes back. -/
def Safe {α : Type} (content : UInt32 → Block) (B : Set UInt32) (w : FsWorld N)
    (run : Except Halt (α × FsWorld N)) : Prop :=
  ∃ r, Yields content B w run r ∧ r ≠ .error .outside

theorem Safe.ok {α : Type} (coherent : Coherent w content) (a : α) : Safe content B w (.ok (a, w)) :=
  ⟨.ok a, Yields.ok coherent a, fun impossible => by cases impossible⟩

theorem Safe.after {α : Type} {w' : FsWorld N} {run : Except Halt (α × FsWorld N)}
    (through : Through B w w') (safe : Safe content B w' run) : Safe content B w run := by
  obtain ⟨r, yields, inside⟩ := safe
  exact ⟨r, Yields.after through yields, inside⟩

/-- What comes after a safe function has to be safe when it comes back. -/
theorem Safe.bind {α β : Type} {run : Except Halt (α × FsWorld N)}
    {rest : α × FsWorld N → Except Halt (β × FsWorld N)} (safe : Safe content B w run)
    (after : ∀ a w', Coherent w' content → Through B w w' → Safe content B w' (rest (a, w'))) :
    Safe content B w (run >>= rest) := by
  obtain ⟨r, yields, inside⟩ := safe
  cases r with
  | error halt =>
    have ran : run = .error halt := yields
    rw [ran, error_bind]
    exact ⟨.error halt, rfl, fun same => inside (by injection same with same; rw [same])⟩
  | ok a =>
    obtain ⟨w', ran, coherent, through⟩ := yields
    rw [ran, ok_bind]
    exact Safe.after through (after a w' coherent through)

/-- The traversal of a directory, whatever its buffer is given to. -/
theorem traverse_safe (two : 2 ≤ N) (closed : Closed content g m S B) {dir : Memory}
    (few : numEntries dir ≤ maxEntries) (blocks : ∀ b, DirBlock content dir b → b ∈ B)
    {list : Fin kNumInodes → FsWorld N → Except Halt (Unit × FsWorld N)}
    (safe : ∀ i ∈ S, ∀ {w : FsWorld N}, Coherent w content → Safe content B w (list i w))
    (count : Nat) :
    ∀ {bno j zoneCnt zone entry} {w : FsWorld N}, j + count = numEntries dir →
    Walking content bno j zoneCnt zone entry w → bno ∈ B →
    Safe content B w (traverseEntries dir m (listEntry m list) count zoneCnt zone entry w) := by
  induction count with
  | zero => exact fun _ walking _ => Safe.ok walking.coherent none
  | succ count ih =>
    intro bno j zoneCnt zone entry w total walking inside
    have near : j < maxEntries := by omega
    have nearZone : j / 32 < maxZones := Nat.div_lt_of_lt_mul near
    have inDir : ∀ b ∈ zoneBlocks content dir (j / 32), b ∈ B :=
      fun b member => blocks b ⟨j / 32, nearZone, by omega, member⟩
    obtain ⟨bno', zone', w', moved, walking', through, source⟩ := walking.advance two near inDir
    have inside' : bno' ∈ B := by
      rcases source with ⟨_, rfl, _⟩ | rfl
      · exact inside
      · exact inDir _ (zoneBlock_mem content dir (j / 32))
    have bytes := entryBytes_eq walking'.coherent m walking'.holds (32 * (j % 32))
    have number := closed.numbers bno' inside' (j % 32) (Nat.mod_lt j (by decide))
    have called : Safe content B w' (listEntry m list zone' (32 * (j % 32)) w') := by
      simp only [listEntry, bytes, inodeTable_lt number, ok_bind]
      split
      · rename_i shown
        have member := closed.shown bno' inside' (j % 32) (Nat.mod_lt j (by decide)) ⟨_, number⟩ rfl shown
        exact (safe _ member walking'.coherent).bind fun _ _ coherent _ => Safe.ok coherent false
      · exact Safe.ok walking'.coherent false
    simp only [traverseEntries, moved, ok_bind]
    refine Safe.after through (called.bind fun stop w'' coherent'' through' => ?_)
    obtain ⟨bno'', holds'', origin⟩ := through'.holds bno' zone' walking'.holds
    have inside'' : bno'' ∈ B := by
      rcases origin with rfl | member
      · exact inside'
      · exact member
    have walking'' : Walking content bno'' j (j / 32) zone' (32 * (j % 32)) w'' :=
      ⟨coherent'', walking'.place, walking'.within, walking'.near, holds''⟩
    split
    · rw [entryBytes_eq coherent'' m holds'', inodeTable_lt
        (closed.numbers bno'' inside'' (j % 32) (Nat.mod_lt j (by decide)))]
      exact Safe.ok coherent'' _
    · exact ih (by omega) (walking''.next (by omega)) inside''

/-- **Without room `list_entries` stays in its tables**, when all records it may meet are fine. -/
theorem listEntries_safe (two : 2 ≤ N) (closed : Closed content g m S B) (stack : Nat) :
    ∀ k ∈ S, ∀ {w : FsWorld N}, Coherent w content → Safe content B w (listEntries g m stack k w) := by
  induction stack with
  | zero => exact fun _ _ _ _ => ⟨.error .stopped, rfl, fun impossible => by cases impossible⟩
  | succ stack ih =>
    intro k member w coherent
    unfold listEntries
    by_cases isDir : isDirectory (mode (inodeAt g m (some k))) = true
    swap
    · rw [if_neg isDir]
      exact Safe.ok coherent ()
    have positive : 0 < maxZones := by decide
    have blocks := closed.blocks k member isDir
    obtain ⟨node, w', ran, holds, coherent', through⟩ :=
      readZone_spec (B := B) coherent two (inodeAt g m (some k)) positive
        fun b here => blocks b ⟨0, positive, .inl rfl, here⟩
    rw [if_pos isDir, traverseDir, if_pos isDir, ran, ok_bind]
    refine Safe.after through ?_
    refine Safe.bind ?_ fun _ w'' coherent'' _ => Safe.ok coherent'' ()
    exact traverse_safe two closed (closed.sizes k member isDir) blocks
      (fun i inside _ coherent => ih i inside coherent) _ (Nat.zero_add _)
      ⟨coherent', rfl, Nat.zero_le _, positive, holds⟩
      (blocks _ ⟨0, positive, .inl rfl, zoneBlock_mem content _ 0⟩)

end Reused

/-! ### Walks over any volume -/

section Bounds

variable {N : Nat} [NeZero N] {w : FsWorld N}

end Bounds

end Sprite.Fs

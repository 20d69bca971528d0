/-
**What a walk depends on.**

A path is resolved, and the tree is listed, by the inodes that can be reached from the root and by the
blocks of the directories among them. Nothing else of the disk and of the inode table matters, and, as
long as the names are terminated, nothing else of the memory.

* `resolve`, `nameiLoop_yields` — a whole path on the image.
* `Kept` — an inode that is as it was, with its blocks. `Kept.zoneBlocks`, `Kept.dirEntry` and
  `Kept.fileByte` say that it holds what it held.
* `SameTree` — all directories below the root are kept. `SameTree.reachable_iff`, `SameTree.resolve`
  and `SameTree.listing` — **every path and the listing are as they were**.
-/
import Sprite.Fs.Missing
import Sprite.Fs.Listing

namespace Sprite.Fs

open Cache Ide

/-! ### A path on the image -/

/-- What `namei` finds, from a directory on. -/
def resolve (content : UInt32 → Block) (g : Globals) (m : Elsewhere) (dir : InodePtr)
    (path : List UInt8) : Except Halt InodePtr :=
  match _delim : strfind path slash with
  | [] => found content m (inodeAt g m dir) path
  | _ :: path' => do
    let dir ← found content m (inodeAt g m dir) path
    resolve content g m dir path'
termination_by path.length
decreasing_by
  have bound := length_strfind path slash
  rw [_delim] at bound
  exact bound

section Resolve

variable {N : Nat} [NeZero N] {content : UInt32 → Block} {g : Globals} {m : Elsewhere} {dir : InodePtr}
  {path path' : List UInt8} {ch : UInt8}

theorem resolve_last (delim : strfind path slash = []) :
    resolve content g m dir path = found content m (inodeAt g m dir) path := by
  rw [resolve]
  split
  · rfl
  · simp_all only [reduceCtorEq]

theorem resolve_next (delim : strfind path slash = ch :: path') :
    resolve content g m dir path = (do
      let dir ← found content m (inodeAt g m dir) path
      resolve content g m dir path') := by
  rw [resolve]
  split
  · simp_all only [reduceCtorEq]
  · rename_i delim'
    rw [delim] at delim'
    cases delim'
    rfl

/-- **The loop of `namei` finds what is found on the image.** -/
theorem nameiLoop_yields (two : 2 ≤ N) (g : Globals) (m : Elsewhere) (path : List UInt8)
    (dir : InodePtr) {w : FsWorld N} (coherent : Coherent w content) :
    Yields content Set.univ w (nameiLoop g m dir path w) (resolve content g m dir path) := by
  have yields := findEntry_yields (m := m) coherent two g dir path
  cases delim : strfind path slash with
  | nil =>
    rw [nameiLoop_last delim, resolve_last delim]
    exact yields
  | cons ch path' =>
    have shorter : path'.length < path.length := by
      have bound := length_strfind path slash
      rw [delim] at bound
      exact bound
    rw [nameiLoop_next delim, resolve_next delim]
    exact yields.bind fun dir' w' coherent' _ => nameiLoop_yields two g m path' dir' coherent'
termination_by path.length

end Resolve

/-! ### Inodes that are kept -/

/-- A byte of a file. -/
def fileByte (content : UInt32 → Block) (inode : Memory) (a : Nat) : UInt8 :=
  blockBytes (content (zoneBlock content inode (a / 1024))) a

/-- The zone of an inode has been given to it: its size reaches into it, or it is the first one of a
directory, which is read in any case. -/
def Used (inode : Memory) (zone : Nat) : Prop :=
  zone < maxZones ∧ (1024 * zone < size inode ∨ zone = 0 ∧ isDirectory (mode inode) = true)

/-- The blocks of an inode. -/
def FileBlock (content : UInt32 → Block) (inode : Memory) (b : UInt32) : Prop :=
  ∃ zone, Used inode zone ∧ b ∈ zoneBlocks content inode zone

/-- **The inode is as it was**, with all its blocks. -/
structure Kept (content content' : UInt32 → Block) (inode inode' : Memory) : Prop where
  record : ∀ a < sizeofDInode, inode' a = inode a
  blocks : ∀ b, FileBlock content inode b → content' b = content b

section Kept

variable {content content' content'' : UInt32 → Block} {inode inode' inode'' : Memory}
  {m m' : Elsewhere} {zone j a : Nat} {b : UInt32}

theorem zoneBlocks_congr (numbers : ∀ k < 9, zoneNumber inode' k = zoneNumber inode k)
    (blocks : ∀ b ∈ zoneBlocks content inode zone, content' b = content b) :
    zoneBlocks content' inode' zone = zoneBlocks content inode zone := by
  unfold zoneBlocks at blocks ⊢
  split_ifs at blocks ⊢ with direct single
  · rw [numbers zone (by omega)]
  · have table := blocks (zoneNumber inode 7) (by simp)
    simp only [numbers 7 (by decide), table]
  · have tables := blocks (zoneNumber inode 8) (by simp)
    have table := blocks (indexed (content (zoneNumber inode 8)) ((zone - (7 + 512)) / 512)) (by simp)
    simp only [numbers 8 (by decide), tables, table]

/-- All blocks of an inode are on the disk. -/
theorem fitsDisk_of_mem_zoneBlocks (member : b ∈ zoneBlocks content inode zone) : FitsDisk b := by
  unfold zoneBlocks at member
  split_ifs at member with direct single
  · rw [List.mem_singleton.mp member]
    exact fitsDisk_zoneNumber inode zone
  · simp only [List.mem_cons, List.not_mem_nil, or_false] at member
    rcases member with rfl | rfl
    · exact fitsDisk_zoneNumber inode 7
    · exact fitsDisk_indexed _ _
  · simp only [List.mem_cons, List.not_mem_nil, or_false] at member
    rcases member with rfl | rfl | rfl
    · exact fitsDisk_zoneNumber inode 8
    · exact fitsDisk_indexed _ _
    · exact fitsDisk_indexed _ _

namespace Kept

theorem load16_eq (kept : Kept content content' inode inode') (inside : a + 1 < sizeofDInode) :
    load16 inode' a = load16 inode a :=
  load16_congr (kept.record a (Nat.lt_of_succ_lt inside)) (kept.record (a + 1) inside)

theorem mode_eq (kept : Kept content content' inode inode') : mode inode' = mode inode :=
  kept.load16_eq (by decide)

theorem size_eq (kept : Kept content content' inode inode') : size inode' = size inode := by
  unfold size load32
  rw [kept.load16_eq (by decide), kept.load16_eq (by decide)]

theorem zoneNumber_eq (kept : Kept content content' inode inode') {k : Nat} (small : k < 9) :
    zoneNumber inode' k = zoneNumber inode k := by
  unfold zoneNumber
  rw [kept.load16_eq (by simp only [sizeofDInode]; omega)]

theorem used_iff (kept : Kept content content' inode inode') : Used inode' zone ↔ Used inode zone := by
  unfold Used
  rw [kept.mode_eq, kept.size_eq]

/-- The zones lie where they lay. -/
theorem zoneBlocks (kept : Kept content content' inode inode') (used : Used inode zone) :
    zoneBlocks content' inode' zone = zoneBlocks content inode zone :=
  zoneBlocks_congr (fun _ small => kept.zoneNumber_eq small)
    fun b member => kept.blocks b ⟨zone, used, member⟩

theorem fileBlock_iff (kept : Kept content content' inode inode') :
    FileBlock content' inode' b ↔ FileBlock content inode b := by
  unfold FileBlock
  refine exists_congr fun zone => ?_
  rw [kept.used_iff]
  refine and_congr_right fun used => ?_
  rw [kept.zoneBlocks used]

theorem trans (kept : Kept content content' inode inode') (kept' : Kept content' content'' inode' inode'') :
    Kept content content'' inode inode'' :=
  ⟨fun a inside => (kept'.record a inside).trans (kept.record a inside), fun b isBlock =>
    (kept'.blocks b (kept.fileBlock_iff.mpr isBlock)).trans (kept.blocks b isBlock)⟩

/-- The bytes of a zone are what they were. -/
theorem zone_eq (kept : Kept content content' inode inode') (used : Used inode zone) :
    content' (zoneBlock content' inode' zone) = content (zoneBlock content inode zone) := by
  have same : zoneBlock content' inode' zone = zoneBlock content inode zone := by
    unfold zoneBlock
    rw [kept.zoneBlocks used]
  rw [same]
  exact kept.blocks _ ⟨zone, used, zoneBlock_mem content inode zone⟩

/-- **A file holds what it held.** -/
theorem fileByte (kept : Kept content content' inode inode') (inside : a < size inode)
    (near : a < 1024 * maxZones) : fileByte content' inode' a = fileByte content inode a := by
  have used : Used inode (a / 1024) := ⟨Nat.div_lt_of_lt_mul near, .inl (by omega)⟩
  unfold Fs.fileByte
  rw [kept.zone_eq used]

/-- **A directory has the entries that it had.** -/
theorem dirEntry (kept : Kept content content' inode inode') (below : j < numEntries inode)
    (near : j < maxEntries) (small : a < sizeofDirEntry) :
    dirEntry content' m' inode' j a = dirEntry content m inode j a := by
  have width : sizeofDirEntry = 32 := rfl
  rw [width] at small
  have used : Used inode (j / 32) := by
    refine ⟨Nat.div_lt_of_lt_mul near, .inl ?_⟩
    unfold numEntries at below
    rw [width] at below
    omega
  have inside : 32 * (j % 32) + a < kBlockSize := by
    simp only [kBlockSize]
    omega
  unfold Fs.dirEntry Fs.record
  rw [if_pos inside, if_pos inside, kept.zone_eq used]

end Kept

end Kept

/-! ### Names that are terminated -/

/-- Nothing lies behind a buffer, and a null pointer leads to no directory. -/
def nowhere : Elsewhere := ⟨fun _ => 0, fun _ _ => 0⟩

/-- All names of the directory are terminated. -/
def Terminated (content : UInt32 → Block) (dir : Memory) : Prop :=
  ∀ j < numEntries dir, ∃ i < kNameLen, dirEntry content nowhere dir j (nameOffset + i) = 0

/-- A terminated string is compared by its characters. -/
theorem strcmp_congr {str1 str1' : Memory} (str2 : List UInt8) : ∀ {p bound : Nat},
    (∀ i < bound, str1' (p + i) = str1 (p + i)) → (∃ i < bound, str1 (p + i) = 0) →
      strcmp str1' p str2 = strcmp str1 p str2 := by
  induction str2 with
  | nil =>
    intro p bound same ended
    obtain ⟨i, less, _⟩ := ended
    have here : str1' p = str1 p := same 0 (by omega)
    unfold strcmp
    rw [here]
  | cons ch str2 ih =>
    intro p bound same ended
    obtain ⟨i, less, zero⟩ := ended
    have here : str1' p = str1 p := same 0 (by omega)
    unfold strcmp
    rw [here]
    by_cases first : str1 p = 0
    · rw [if_pos first, if_pos first]
    have positive : i ≠ 0 := by
      rintro rfl
      exact first zero
    have same' : ∀ k < bound - 1, str1' (p + 1 + k) = str1 (p + 1 + k) := fun k below => by
      rw [Nat.add_assoc, Nat.add_comm 1]
      exact same (k + 1) (by omega)
    have ended' : ∃ k < bound - 1, str1 (p + 1 + k) = 0 := by
      refine ⟨i - 1, by omega, ?_⟩
      rwa [Nat.add_assoc, Nat.add_sub_cancel' (by omega)]
    rw [ih same' ended']

section Found

variable {content content' : UInt32 → Block} {dir dir' : Memory} {m' : Elsewhere} {name : List UInt8}
  {j count : Nat}

/-- An entry leads to the inode that it led to. -/
theorem Kept.inodeOf (kept : Kept content content' dir dir') (below : j < numEntries dir)
    (near : j < maxEntries) : inodeOf content' m' dir' j = inodeOf content nowhere dir j :=
  load16_congr (kept.dirEntry below near (by decide)) (kept.dirEntry below near (by decide))

/-- **An entry answers to what it answered to.** -/
theorem Kept.answers_iff (kept : Kept content content' dir dir') (terminated : Terminated content dir)
    (below : j < numEntries dir) (near : j < maxEntries) :
    Answers content' m' dir' name j ↔ Answers content nowhere dir name j := by
  unfold Answers
  rw [strcmp_congr name (fun i less => kept.dirEntry below near ?_) (terminated j below)]
  simp only [kNameLen] at less
  simp only [nameOffset, sizeofDirEntry]
  omega

theorem search_congr : ∀ {j : Nat}, (∀ i, j ≤ i → i < j + count → i < maxEntries →
      (Answers content' m' dir' name i ↔ Answers content nowhere dir name i) ∧
        inodeOf content' m' dir' i = inodeOf content nowhere dir i) →
    search content' m' dir' name count j = search content nowhere dir name count j := by
  induction count with
  | zero => exact fun _ => rfl
  | succ count ih =>
    intro j same
    unfold search
    by_cases near : j < maxEntries
    · obtain ⟨answers, number⟩ := same j (Nat.le_refl j) (by omega) near
      rw [if_pos near, if_pos near, number, ih fun i from_ below => same i (by omega) (by omega)]
      exact if_congr answers rfl rfl
    · rw [if_neg near, if_neg near]

/-- **In a directory that is kept everything is found as before.** -/
theorem Kept.found (kept : Kept content content' dir dir') (terminated : Terminated content dir) :
    found content' m' dir' name = found content nowhere dir name := by
  have entries : numEntries dir' = numEntries dir := by
    unfold numEntries
    rw [kept.size_eq]
  unfold Fs.found
  rw [kept.mode_eq, entries, search_congr fun i _ below near =>
    ⟨kept.answers_iff terminated (by omega) near, kept.inodeOf (by omega) near⟩]

end Found

/-! ### The tree below the root -/

/-- The record of an inode in the table. -/
def nodeAt (g : Globals) (k : Fin kNumInodes) : Memory := inodeAt g nowhere (some k)

/-- The directories below the root can be read to their ends, and their names are terminated. -/
structure Readable (content : UInt32 → Block) (g : Globals) : Prop where
  few : ∀ k, Reachable content g nowhere k → IsDir g nowhere k → numEntries (nodeAt g k) ≤ maxEntries
  terminated : ∀ k, Reachable content g nowhere k → IsDir g nowhere k → Terminated content (nodeAt g k)

/-- **The directories below the root are as they were**, and no other inode has become one. -/
structure SameTree (content : UInt32 → Block) (g : Globals) (content' : UInt32 → Block) (g' : Globals) :
    Prop where
  dirs : ∀ k, Reachable content g nowhere k → IsDir g nowhere k →
    Kept content content' (nodeAt g k) (nodeAt g' k)
  files : ∀ k, Reachable content g nowhere k → ¬ IsDir g nowhere k → ¬ IsDir g' nowhere k

theorem null_nowhere (g : Globals) : ¬ isDirectory (mode (inodeAt g nowhere none)) = true := by
  show ¬ isDirectory (mode nowhere.null) = true
  decide

section SameTree

variable {content content' : UInt32 → Block} {g g' : Globals} {m' : Elsewhere} {k : Fin kNumInodes}

theorem SameTree.refl (content : UInt32 → Block) (g : Globals) : SameTree content g content g :=
  ⟨fun _ _ _ => ⟨fun _ _ => rfl, fun _ _ => rfl⟩, fun _ _ => id⟩

theorem SameTree.isDir_iff (same : SameTree content g content' g') (reachable : Reachable content g nowhere k) :
    IsDir g' m' k ↔ IsDir g nowhere k := by
  by_cases isDir : IsDir g nowhere k
  · refine iff_of_true ?_ isDir
    show isDirectory (mode (nodeAt g' k)) = true
    rw [(same.dirs k reachable isDir).mode_eq]
    exact isDir
  · exact iff_of_false (same.files k reachable isDir) isDir

theorem SameTree.entries (same : SameTree content g content' g') (reachable : Reachable content g nowhere k)
    (isDir : IsDir g nowhere k) : numEntries (inodeAt g' m' (some k)) = numEntries (nodeAt g k) := by
  have size := (same.dirs k reachable isDir).size_eq
  exact congrArg (· / sizeofDirEntry) size

/-- **The same inodes can be reached.** -/
theorem SameTree.reachable_iff (same : SameTree content g content' g') (readable : Readable content g) :
    Reachable content' g' m' k ↔ Reachable content g nowhere k := by
  have entry : ∀ {dir : Fin kNumInodes} {j : Nat}, Reachable content g nowhere dir → IsDir g nowhere dir →
      j < numEntries (nodeAt g dir) →
      inodeOf content' m' (inodeAt g' m' (some dir)) j = inodeOf content nowhere (nodeAt g dir) j :=
    fun {dir j} reachable isDir below =>
      (same.dirs dir reachable isDir).inodeOf below
        (Nat.lt_of_lt_of_le below (readable.few dir reachable isDir))
  constructor
  · intro reachable
    induction reachable with
    | root => exact .root
    | @entry dir i j _ isDir' below number ih =>
      have isDir : IsDir g nowhere dir := (same.isDir_iff ih).mp isDir'
      rw [same.entries ih isDir] at below
      exact .entry ih isDir below ((entry ih isDir below).symm.trans number)
  · intro reachable
    induction reachable with
    | root => exact .root
    | @entry dir i j reachable isDir below number ih =>
      refine .entry ih ((same.isDir_iff reachable).mpr isDir) ?_ ((entry reachable isDir below).trans number)
      rw [same.entries reachable isDir]
      exact below

theorem SameTree.found (same : SameTree content g content' g') (readable : Readable content g)
    (reachable : Reachable content g nowhere k) (name : List UInt8) :
    found content' m' (inodeAt g' m' (some k)) name = found content nowhere (nodeAt g k) name := by
  by_cases isDir : IsDir g nowhere k
  · exact (same.dirs k reachable isDir).found (readable.terminated k reachable isDir)
  · have isFile : ¬ isDirectory (mode (inodeAt g' m' (some k))) = true := same.files k reachable isDir
    have wasFile : ¬ isDirectory (mode (nodeAt g k)) = true := isDir
    unfold Fs.found
    rw [if_neg isFile, if_neg wasFile]

/-- What is found can be reached. -/
theorem found_reachable {name : List UInt8} {i : Fin kNumInodes} (reachable : Reachable content g nowhere k)
    (isFound : found content nowhere (nodeAt g k) name = .ok (some i)) : Reachable content g nowhere i := by
  rcases found_cases content nowhere (nodeAt g k) name with ⟨_, r, leads⟩ | ⟨_, outside⟩
  · rw [found_of_leads leads] at isFound
    cases isFound
    obtain ⟨isDir, j, below, _, number⟩ := leads
    exact .entry reachable isDir (Nat.lt_of_lt_of_le below (Nat.min_le_left _ _)) number
  · rw [outside] at isFound
    cases isFound

/-- **Every path leads where it led.** -/
theorem SameTree.resolve (same : SameTree content g content' g') (readable : Readable content g)
    (null : ¬ isDirectory (mode m'.null) = true) (path : List UInt8) (dir : InodePtr)
    (reachable : ∀ k, dir = some k → Reachable content g nowhere k) :
    resolve content' g' m' dir path = resolve content g nowhere dir path := by
  have here : Fs.found content' m' (inodeAt g' m' dir) path
      = Fs.found content nowhere (inodeAt g nowhere dir) path := by
    cases dir with
    | some k => exact same.found readable (reachable k rfl) path
    | none =>
      have null' : ¬ isDirectory (mode (inodeAt g' m' none)) = true := null
      unfold Fs.found
      rw [if_neg null', if_neg (null_nowhere g)]
  cases delim : strfind path slash with
  | nil => rw [resolve_last delim, resolve_last delim, here]
  | cons ch path' =>
    have shorter : path'.length < path.length := by
      have bound := length_strfind path slash
      rw [delim] at bound
      exact bound
    rw [resolve_next delim, resolve_next delim, here]
    cases isFound : Fs.found content nowhere (inodeAt g nowhere dir) path with
    | error halt => rfl
    | ok dir' =>
      refine same.resolve readable null path' dir' fun i isInode => ?_
      rw [isInode] at isFound
      cases dir with
      | some k => exact found_reachable (reachable k rfl) isFound
      | none =>
        unfold Fs.found at isFound
        rw [if_neg (null_nowhere g)] at isFound
        cases isFound
termination_by path.length

theorem SameTree.hidden_iff (same : SameTree content g content' g') (readable : Readable content g) {j : Nat}
    (reachable : Reachable content g nowhere k) (isDir : IsDir g nowhere k)
    (below : j < numEntries (nodeAt g k)) :
    Hidden content' m' (inodeAt g' m' (some k)) j ↔ Hidden content nowhere (nodeAt g k) j := by
  have byte : dirEntry content' m' (inodeAt g' m' (some k)) j nameOffset
      = dirEntry content nowhere (nodeAt g k) j nameOffset :=
    (same.dirs k reachable isDir).dirEntry below
      (Nat.lt_of_lt_of_le below (readable.few k reachable isDir)) (by decide)
  unfold Hidden
  rw [byte]

/-- **The listing is the one that it was.** -/
theorem SameTree.listing (same : SameTree content g content' g') (readable : Readable content g)
    (stack : Nat) : ∀ {k : Fin kNumInodes}, Reachable content g nowhere k →
      listing content' g' m' stack k = listing content g nowhere stack k := by
  induction stack with
  | zero => exact fun _ => rfl
  | succ stack ih =>
    intro k reachable
    unfold Fs.listing
    refine if_ctx_congr (same.isDir_iff reachable) (fun isDir => ?_) fun _ => rfl
    rw [same.entries reachable isDir]
    -- The entries that are still to be listed are some of those of the directory.
    suffices rest : ∀ count j, j + count = numEntries (nodeAt g k) →
        visit content' m' (inodeAt g' m' (some k)) (Fs.listing content' g' m' stack) count j
          = visit content nowhere (nodeAt g k) (Fs.listing content g nowhere stack) count j from
      rest _ 0 (Nat.zero_add _)
    intro count
    induction count with
    | zero => exact fun _ _ => rfl
    | succ count ihEntries =>
      intro j total
      have below : j < numEntries (nodeAt g k) := by omega
      have near : j < maxEntries := Nat.lt_of_lt_of_le below (readable.few k reachable isDir)
      have number : inodeOf content' m' (inodeAt g' m' (some k)) j = inodeOf content nowhere (nodeAt g k) j :=
        (same.dirs k reachable isDir).inodeOf below near
      unfold visit
      rw [if_pos near, if_pos near, number, ihEntries (j + 1) (by omega)]
      cases isNode : inodeTable (inodeOf content nowhere (nodeAt g k) j) with
      | error halt => rfl
      | ok i =>
        have reachable' := Reachable.entry reachable isDir below (eq_of_inodeTable isNode)
        simp only [ok_bind, same.hidden_iff readable reachable isDir below, ih reachable']

end SameTree

end Sprite.Fs

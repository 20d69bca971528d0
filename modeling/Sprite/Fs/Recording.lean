/-
**The places that a listing processes.**

Which entries `list_entries` processes, and which blocks it reads for them. An entry is told by its
block and its place in it; the blocks are those that the image leads to.

* `recordTree` — `list_entries` with the places of the entries processed. `listEntries_eq` says that it
  is the same function.
* `stored` — the places of the entries on the image, each directory before what is behind it.
* `treeReads`, `Use` — the blocks that a listing on the image reads, in order; and for each entry the
  ones before its block, its block, and the ones between that and the entry.
* `reads_of_use` — they are the first ones that the listing reads.
* `OneBlock` — the reads of a directory in one block.
-/
import Sprite.Fs.Listing

namespace Sprite.Fs

open Cache Ide

variable {N : Nat} [NeZero N]

/-! ### The record -/

/-- Where an entry is: its block, and the place in it. -/
structure Place where
  block : UInt32
  offset : Nat
  deriving DecidableEq

/-- What lists an inode, with the places of the entries processed so far. -/
abbrev Recorder (N : Nat) := Fin kNumInodes → FsWorld N → List Place →
  Except Halt (FsWorld N × List Place)

/-- The callback of `list_entries`. The block is the one that the buffer holds. -/
def recordEntry (m : Elsewhere) (list : Recorder N) (zone : Ptr) (entry : Nat) (w : FsWorld N)
    (places : List Place) : Except Halt (FsWorld N × List Place) := do
  let node ← inodeTable (entryInode (entryBytes m w zone entry))
  if entryBytes m w zone entry nameOffset ≠ dot then
    list node w (places ++ [⟨w.cache.key zone, entry⟩])
  else return (w, places ++ [⟨w.cache.key zone, entry⟩])

/-- The loop of `traverse_dir`, for the entries still to be visited. -/
def recordEntries (dir : Memory) (m : Elsewhere) (list : Recorder N) :
    Nat → Nat → Ptr → Nat → FsWorld N → List Place → Except Halt (FsWorld N × List Place)
  | 0, _, _, _, w, places => return (w, places)
  | numEntries + 1, zoneCnt, zone, entry, w, places => do
    let (zoneCnt, zone, entry, w) ← nextZone dir zoneCnt zone entry w
    let (w, places) ← recordEntry m list zone entry w places
    recordEntries dir m list numEntries zoneCnt zone (entry + sizeofDirEntry) w places

/-- `list_entries`, with the places of the entries processed. -/
def recordTree (g : Globals) (m : Elsewhere) : Nat → Recorder N
  | 0, _, _, _ => .error .stopped
  | stack + 1, inode, w, places =>
    if isDirectory (mode (inodeAt g m (some inode))) then do
      let (zone, w) ← readZone (inodeAt g m (some inode)) 0 w
      recordEntries (inodeAt g m (some inode)) m (recordTree g m stack)
        (numEntries (inodeAt g m (some inode))) 0 zone 0 w places
    else return (w, places)

section Record

variable {g : Globals} {m : Elsewhere} {dir : Memory} {list : Recorder N}

omit [NeZero N] in
theorem listEntry_eq {list' : Fin kNumInodes → FsWorld N → Except Halt (Unit × FsWorld N)}
    (same : ∀ i w places, list' i w = (fun r => ((), r.1)) <$> list i w places) (zone : Ptr)
    (entry : Nat) (w : FsWorld N) (places : List Place) :
    listEntry m list' zone entry w
      = (fun r => (false, r.1)) <$> recordEntry m list zone entry w places := by
  unfold listEntry recordEntry
  cases inodeTable (entryInode (entryBytes m w zone entry)) with
  | error halt => rfl
  | ok node =>
    simp only [ok_bind]
    split
    · rw [same node w (places ++ [⟨w.cache.key zone, entry⟩])]
      cases list node w (places ++ [⟨w.cache.key zone, entry⟩]) with
      | error halt => rfl
      | ok r => rfl
    · rfl

theorem traverseEntries_eq {list' : Fin kNumInodes → FsWorld N → Except Halt (Unit × FsWorld N)}
    (same : ∀ i w places, list' i w = (fun r => ((), r.1)) <$> list i w places) (count : Nat) :
    ∀ zoneCnt zone entry w places, traverseEntries dir m (listEntry m list') count zoneCnt zone entry w
      = (fun r => (none, r.1)) <$> recordEntries dir m list count zoneCnt zone entry w places := by
  induction count with
  | zero => exact fun _ _ _ _ _ => rfl
  | succ count ih =>
    intro zoneCnt zone entry w places
    unfold traverseEntries recordEntries
    cases nextZone dir zoneCnt zone entry w with
    | error halt => rfl
    | ok r =>
      obtain ⟨zoneCnt', zone', entry', w'⟩ := r
      simp only [ok_bind, listEntry_eq same zone' entry' w' places]
      cases recordEntry m list zone' entry' w' places with
      | error halt => rfl
      | ok r => exact ih _ _ _ _ _

/-- **The record is one of `list_entries` itself.** -/
theorem listEntries_eq (stack : Nat) : ∀ (k : Fin kNumInodes) (w : FsWorld N) (places : List Place),
    listEntries g m stack k w = (fun r => ((), r.1)) <$> recordTree g m stack k w places := by
  induction stack with
  | zero => exact fun _ _ _ => rfl
  | succ stack ih =>
    intro k w places
    unfold listEntries recordTree
    split
    · unfold traverseDir
      rename_i isDir
      rw [if_pos isDir]
      cases readZone (inodeAt g m (some k)) 0 w with
      | error halt => rfl
      | ok r =>
        obtain ⟨zone, w'⟩ := r
        simp only [ok_bind, traverseEntries_eq ih _ _ _ _ _ places]
        unfold numEntries
        cases recordEntries (inodeAt g m (some k)) m (recordTree g m stack)
          (size (inodeAt g m (some k)) / sizeofDirEntry) 0 zone 0 w' places with
        | error halt => rfl
        | ok r => rfl
    · rfl

/-- The record only grows. -/
def Grows (list : Recorder N) : Prop :=
  ∀ i w places w' places', list i w places = .ok (w', places') → places <+: places'

omit [NeZero N] in
theorem recordEntry_grows (grows : Grows list) {zone : Ptr} {entry : Nat} {w w' : FsWorld N}
    {places places' : List Place} (ran : recordEntry m list zone entry w places = .ok (w', places')) :
    places ++ [⟨w.cache.key zone, entry⟩] <+: places' := by
  unfold recordEntry at ran
  obtain ⟨node, _, ran⟩ := bind_eq_ok ran
  split at ran
  · exact grows _ _ _ _ _ ran
  · cases ran
    exact List.prefix_refl _

theorem recordEntries_grows (grows : Grows list) (count : Nat) :
    ∀ {zoneCnt zone entry} {w w' : FsWorld N} {places places' : List Place},
    recordEntries dir m list count zoneCnt zone entry w places = .ok (w', places') →
      places <+: places' := by
  induction count with
  | zero =>
    intro _ _ _ _ _ _ _ ran
    cases ran
    exact List.prefix_refl _
  | succ count ih =>
    intro zoneCnt zone entry w w' places places' ran
    unfold recordEntries at ran
    obtain ⟨_, _, ran⟩ := bind_eq_ok ran
    obtain ⟨⟨w₁, places₁⟩, ran₁, rest⟩ := bind_eq_ok ran
    exact ((List.prefix_append places _).trans (recordEntry_grows grows ran₁)).trans (ih rest)

theorem recordTree_grows (stack : Nat) : Grows (recordTree (N := N) g m stack) := by
  induction stack with
  | zero =>
    intro _ _ _ _ _ ran
    cases ran
  | succ stack ih =>
    intro k w places w' places' ran
    unfold recordTree at ran
    split at ran
    · obtain ⟨_, _, ran⟩ := bind_eq_ok ran
      exact recordEntries_grows ih _ ran
    · cases ran
      exact List.prefix_refl _

end Record

/-! ### The listing on the image -/

variable {content : UInt32 → Block} {g : Globals} {m : Elsewhere}

/-- What the listing collects below an entry: nothing when its name begins with a dot. -/
def below {α : Type} (content : UInt32 → Block) (m : Elsewhere) (dir : Memory)
    (collect : Fin kNumInodes → List α) (j : Nat) : List α :=
  if Hidden content m dir j then []
  else if inside : inodeOf content m dir j < kNumInodes then collect ⟨_, inside⟩ else []

/-- The place of an entry on the disk. -/
def placeOf (content : UInt32 → Block) (dir : Memory) (j : Nat) : Place :=
  ⟨zoneBlock content dir (j / 32), 32 * (j % 32)⟩

/-- The entries of a directory from `j` on, each with what is behind it. -/
def storedFrom (content : UInt32 → Block) (m : Elsewhere) (dir : Memory)
    (collect : Fin kNumInodes → List Place) : Nat → Nat → List Place
  | 0, _ => []
  | count + 1, j =>
    placeOf content dir j :: below content m dir collect j
      ++ storedFrom content m dir collect count (j + 1)

/-- **The entries stored below an inode**, in depth-first order. -/
def stored (content : UInt32 → Block) (g : Globals) (m : Elsewhere) : Nat → Fin kNumInodes → List Place
  | 0, _ => []
  | stack + 1, k =>
    if isDirectory (mode (inodeAt g m (some k))) then
      storedFrom content m (inodeAt g m (some k)) (stored content g m stack)
        (numEntries (inodeAt g m (some k))) 0
    else []

/-- The blocks that the listing of a directory reads before the block that entry `j` is in, and those
that it reads between that block and the entry. -/
def window (content : UInt32 → Block) (m : Elsewhere) (dir : Memory)
    (reads : Fin kNumInodes → List UInt32) : Nat → List UInt32 × List UInt32
  | 0 => ((zoneBlocks content dir 0).dropLast, [])
  | j + 1 =>
    let before := (window content m dir reads j).1
    let since := (window content m dir reads j).2 ++ below content m dir reads j
    if (j + 1) % 32 = 0 then
      (before ++ zoneBlock content dir (j / 32) :: since
        ++ (zoneBlocks content dir ((j + 1) / 32)).dropLast, [])
    else (before, since)

/-- All blocks read before entry `j`. -/
def readsTo (content : UInt32 → Block) (m : Elsewhere) (dir : Memory)
    (reads : Fin kNumInodes → List UInt32) (j : Nat) : List UInt32 :=
  (window content m dir reads j).1
    ++ zoneBlock content dir (j / 32) :: (window content m dir reads j).2

/-- All blocks read for the first `count` entries. -/
def dirReads (content : UInt32 → Block) (m : Elsewhere) (dir : Memory)
    (reads : Fin kNumInodes → List UInt32) : Nat → List UInt32
  | 0 => zoneBlocks content dir 0
  | count + 1 => readsTo content m dir reads count ++ below content m dir reads count

/-- **The blocks that the listing of an inode reads**, in order. -/
def treeReads (content : UInt32 → Block) (g : Globals) (m : Elsewhere) :
    Nat → Fin kNumInodes → List UInt32
  | 0, _ => []
  | stack + 1, k =>
    if isDirectory (mode (inodeAt g m (some k))) then
      dirReads content m (inodeAt g m (some k)) (treeReads content g m stack)
        (numEntries (inodeAt g m (some k)))
    else []

/-- **An entry is used** after the blocks `before`, its own block `bno` and the blocks `since` have been
read. -/
inductive Use (content : UInt32 → Block) (g : Globals) (m : Elsewhere) :
    Nat → Fin kNumInodes → List UInt32 → UInt32 → List UInt32 → Prop
  | here {stack j : Nat} {k : Fin kNumInodes} : IsDir g m k → j < numEntries (inodeAt g m (some k)) →
      Use content g m (stack + 1) k
        (window content m (inodeAt g m (some k)) (treeReads content g m stack) j).1
        (zoneBlock content (inodeAt g m (some k)) (j / 32))
        (window content m (inodeAt g m (some k)) (treeReads content g m stack) j).2
  | deeper {stack j : Nat} {k i : Fin kNumInodes} {before since : List UInt32} {bno : UInt32} :
      IsDir g m k → j < numEntries (inodeAt g m (some k)) →
      inodeOf content m (inodeAt g m (some k)) j = i.val →
      ¬ Hidden content m (inodeAt g m (some k)) j → Use content g m stack i before bno since →
      Use content g m (stack + 1) k
        (readsTo content m (inodeAt g m (some k)) (treeReads content g m stack) j ++ before) bno since

/-! ### The reads of an entry -/

section Reads

variable {dir : Memory} {reads : Fin kNumInodes → List UInt32}

theorem zoneBlocks_split (content : UInt32 → Block) (dir : Memory) (z : Nat) :
    (zoneBlocks content dir z).dropLast ++ [zoneBlock content dir z] = zoneBlocks content dir z := by
  unfold zoneBlock zoneBlocks
  split_ifs <;> rfl

theorem dirReads_succ (j : Nat) : dirReads content m dir reads (j + 1)
    = (window content m dir reads j).1 ++ zoneBlock content dir (j / 32)
      :: ((window content m dir reads j).2 ++ below content m dir reads j) := by
  rw [dirReads, readsTo, List.append_assoc, List.cons_append]

/-- Nothing but the blocks of the zone is read between the entries before and an entry. -/
theorem dirReads_prefix_readsTo (j : Nat) : dirReads content m dir reads j <+: readsTo content m dir reads j := by
  cases j with
  | zero =>
    have same : readsTo content m dir reads 0 = dirReads content m dir reads 0 := zoneBlocks_split content dir 0
    rw [same]
  | succ j =>
    rw [dirReads_succ, readsTo, window]
    by_cases turns : (j + 1) % 32 = 0
    · rw [if_pos turns]
      simp only [List.append_assoc, List.cons_append]
      exact ⟨(zoneBlocks content dir ((j + 1) / 32)).dropLast ++ [zoneBlock content dir ((j + 1) / 32)],
        by simp⟩
    · have sameZone : (j + 1) / 32 = j / 32 := by omega
      rw [if_neg turns, sameZone]

theorem dirReads_mono {j j' : Nat} (le : j ≤ j') :
    dirReads content m dir reads j <+: dirReads content m dir reads j' := by
  induction le with
  | refl => exact List.prefix_refl _
  | step _ ih => exact (ih.trans (dirReads_prefix_readsTo _)).trans (List.prefix_append _ _)

/-- **What is read for an entry** are the first blocks that the listing reads. -/
theorem reads_of_use {stack : Nat} {k : Fin kNumInodes} {before since : List UInt32} {bno : UInt32}
    (use : Use content g m stack k before bno since) :
    before ++ bno :: since <+: treeReads content g m stack k := by
  induction use with
  | here isDir less =>
    have isDir : isDirectory (mode (inodeAt g m (some _))) = true := isDir
    rw [treeReads, if_pos isDir]
    exact (List.prefix_append _ _).trans (dirReads_mono less)
  | @deeper stack j k i before since bno isDir less number shown use ih =>
    have isDir : isDirectory (mode (inodeAt g m (some k))) = true := isDir
    have inside : inodeOf content m (inodeAt g m (some k)) j < kNumInodes := number ▸ i.isLt
    have same : below content m (inodeAt g m (some k)) (treeReads content g m stack) j
        = treeReads content g m stack i := by
      rw [below, if_neg shown, dif_pos inside]
      exact congrArg _ (Fin.ext number)
    rw [treeReads, if_pos isDir, List.append_assoc]
    refine List.IsPrefix.trans ?_ (dirReads_mono less)
    rw [dirReads, same]
    exact (List.prefix_append_right_inj _).mpr ih

end Reads

/-! ### Directories in one block -/

/-- **A directory in one block**, whose entries have the given inode numbers and are all listed. -/
structure OneBlock (content : UInt32 → Block) (g : Globals) (m : Elsewhere) (k : Fin kNumInodes)
    (bno : UInt32) (numbers : List (Fin kNumInodes)) : Prop where
  isDir : IsDir g m k
  total : numEntries (inodeAt g m (some k)) = numbers.length
  few : numbers.length ≤ 32
  zone : zoneBlock content (inodeAt g m (some k)) 0 = bno
  number : ∀ j (inside : j < numbers.length),
    inodeOf content m (inodeAt g m (some k)) j = (numbers.get ⟨j, inside⟩).val
  shown : ∀ j < numbers.length, ¬ Hidden content m (inodeAt g m (some k)) j

section OneBlock

variable {k : Fin kNumInodes} {bno : UInt32} {numbers : List (Fin kNumInodes)}

theorem OneBlock.ends (oneBlock : OneBlock content g m k bno numbers)
    (deeper : ∀ i ∈ numbers, Ends content g m i) : Ends content g m k := by
  obtain ⟨isDir, total, few, _, number, _⟩ := oneBlock
  refine .directory isDir ?_ (fun j less => ?_) fun j less i isNumber _ => ?_
  · rw [total]
    exact Nat.le_trans few (by decide)
  · rw [number j (total ▸ less)]
    exact Fin.isLt _
  · obtain rfl := Fin.ext ((number j (total ▸ less)).symm.trans isNumber)
    exact deeper _ (List.get_mem _ _)

theorem OneBlock.below_eq {α : Type} (oneBlock : OneBlock content g m k bno numbers)
    (collect : Fin kNumInodes → List α) {j : Nat} (inside : j < numbers.length) :
    below content m (inodeAt g m (some k)) collect j = collect (numbers.get ⟨j, inside⟩) := by
  have number := oneBlock.number j inside
  have small : inodeOf content m (inodeAt g m (some k)) j < kNumInodes := by
    rw [number]
    exact Fin.isLt _
  rw [below, if_neg (oneBlock.shown j inside), dif_pos small]
  exact congrArg collect (Fin.ext number)

theorem OneBlock.window_eq (oneBlock : OneBlock content g m k bno numbers)
    (reads : Fin kNumInodes → List UInt32) (j : Nat) : j < numbers.length →
    window content m (inodeAt g m (some k)) reads j = ([], (numbers.take j).flatMap reads) := by
  induction j with
  | zero => exact fun _ => rfl
  | succ j ih =>
    intro less
    have few := oneBlock.few
    have inside := Nat.lt_of_succ_lt less
    have stays : ¬ (j + 1) % 32 = 0 := by omega
    rw [window, if_neg stays, ih inside, oneBlock.below_eq reads inside, List.take_add_one,
      List.getElem?_eq_getElem inside, List.flatMap_append]
    simp

/-- The blocks that are read for it: its own, and those below its entries. -/
theorem OneBlock.treeReads_eq (oneBlock : OneBlock content g m k bno numbers) (stack : Nat) :
    treeReads content g m (stack + 1) k = bno :: numbers.flatMap (treeReads content g m stack) := by
  have isDir : isDirectory (mode (inodeAt g m (some k))) = true := oneBlock.isDir
  have zone := oneBlock.zone
  rw [treeReads, if_pos isDir, oneBlock.total]
  rcases List.eq_nil_or_concat' numbers with rfl | ⟨before, last, rfl⟩
  · rw [← zone]
    rfl
  · have few := oneBlock.few
    rw [List.length_append, List.length_singleton] at few ⊢
    have inside : before.length < (before ++ [last]).length := by
      rw [List.length_append, List.length_singleton]
      exact Nat.lt_succ_self _
    have first : before.length / 32 = 0 := Nat.div_eq_of_lt few
    rw [dirReads, readsTo, oneBlock.window_eq _ _ inside, oneBlock.below_eq _ inside, first, zone]
    simp

/-- **Its entries are used** after the blocks below the entries before have been read. -/
theorem OneBlock.use (oneBlock : OneBlock content g m k bno numbers) (stack : Nat) {j : Nat}
    (inside : j < numbers.length) :
    Use content g m (stack + 1) k [] bno ((numbers.take j).flatMap (treeReads content g m stack)) := by
  have few := oneBlock.few
  have first : j / 32 = 0 := Nat.div_eq_of_lt (Nat.lt_of_lt_of_le inside few)
  have use : Use content g m (stack + 1) k _ _ _ := .here oneBlock.isDir (oneBlock.total ▸ inside)
  rwa [oneBlock.window_eq _ _ inside, first, oneBlock.zone] at use

theorem treeReads_file (isFile : ¬ IsDir g m k) (stack : Nat) : treeReads content g m stack k = [] := by
  have isFile : ¬ isDirectory (mode (inodeAt g m (some k))) = true := isFile
  cases stack with
  | zero => rfl
  | succ stack => rw [treeReads, if_neg isFile]

end OneBlock

end Sprite.Fs

/-
**What every read keeps.**

All that a walk does to the cache and to the disk it does by calls of `read_block`. What one such call
keeps is kept by the walk, whatever it answers.

* `Allows`, `Keeping` — reading blocks of a set keeps a property; a function that comes back does.
* `nameiLoop_keeping`, `listEntries_keeping` — **a path and the listing keep what reading a block keeps**.
* `allows_clean` — that the disk has what the contents have.
* `initFs_cached` — after `init_fs` nothing is cached but the blocks of the tables.
-/
import Sprite.Fs.Persistence
import Sprite.Fs.Tree

namespace Sprite.Fs

open Cache Ide

variable {N : Nat} [NeZero N] {P : FsWorld N → Prop}

/-- A call of `read_block` for one of these blocks keeps the property. -/
def Allows (B : Set UInt32) (P : FsWorld N → Prop) : Prop :=
  ∀ bno ∈ B, ∀ w node w', P w → readBlock (some uncache) bno w = some (node, w') → P w'

/-- When the function comes back, the property holds. -/
def Keeping {α : Type} (P : FsWorld N → Prop) (run : Except Halt (α × FsWorld N)) : Prop :=
  ∀ a w', run = .ok (a, w') → P w'

/-- The blocks of the disk. -/
def onDisk : Set UInt32 := {bno | FitsDisk bno}

section Keeping

variable {α β : Type} {w : FsWorld N} {B : Set UInt32}

omit [NeZero N] in
theorem Keeping.ok (holds : P w) (a : α) : Keeping P (.ok (a, w)) := by
  rintro a w' ⟨⟩
  exact holds

omit [NeZero N] in
theorem Keeping.bind {run : Except Halt (α × FsWorld N)} {rest : α × FsWorld N → Except Halt (β × FsWorld N)}
    (keeping : Keeping P run) (after : ∀ a w', P w' → Keeping P (rest (a, w'))) :
    Keeping P (run >>= rest) := by
  intro b w'' ran
  obtain ⟨result, first, ran'⟩ := bind_eq_ok ran
  exact after result.1 result.2 (keeping result.1 result.2 first) b w'' ran'

omit [NeZero N] in
/-- What does not touch the world comes first. -/
theorem Keeping.after {value : Except Halt α} {rest : α → Except Halt (β × FsWorld N)}
    (after : ∀ a, value = .ok a → Keeping P (rest a)) : Keeping P (value >>= rest) := by
  intro b w' ran
  obtain ⟨a, first, ran'⟩ := bind_eq_ok ran
  exact after a first b w' ran'

theorem Allows.read (allows : Allows B P) (holds : P w) {bno : UInt32} (inside : bno ∈ B) :
    Keeping P (called (readBlock (some uncache) bno w)) :=
  fun node w' ran => allows bno inside w node w' holds (called_eq_ok ran)

end Keeping

/-! ### Walks -/

section Walks

variable {w : FsWorld N} {g : Globals} {m : Elsewhere} {dir : Memory}

theorem fitsDisk_of_zoneIndex {zones : BlockBuffer} {k : Nat} {bno : UInt32}
    (isNumber : zoneIndex zones k = .ok bno) : FitsDisk bno := by
  unfold zoneIndex at isNumber
  split at isNumber
  · cases isNumber
    exact fitsDisk_load16 _ _
  · cases isNumber

theorem readZone_keeping (allows : Allows onDisk P) (inode : Memory) (zone : Nat) (holds : P w) :
    Keeping P (readZone inode zone w) := by
  unfold readZone
  split_ifs with direct single
  · exact allows.read holds (fitsDisk_zoneNumber inode zone)
  · refine (allows.read holds (fitsDisk_zoneNumber inode 7)).bind fun zones w₁ holds₁ => ?_
    exact Keeping.after fun bno isNumber => allows.read holds₁ (fitsDisk_of_zoneIndex isNumber)
  · refine (allows.read holds (fitsDisk_zoneNumber inode 8)).bind fun zoneTable w₁ holds₁ => ?_
    refine Keeping.after fun bno isNumber => ?_
    refine (allows.read holds₁ (fitsDisk_of_zoneIndex isNumber)).bind fun zones w₂ holds₂ => ?_
    exact Keeping.after fun bno isNumber => allows.read holds₂ (fitsDisk_of_zoneIndex isNumber)

theorem nextZone_keeping (allows : Allows onDisk P) (zoneCnt : Nat) (zone : Ptr) (entry : Nat) (holds : P w)
    {zoneCnt' : Nat} {zone' : Ptr} {entry' : Nat} {w' : FsWorld N}
    (moved : nextZone dir zoneCnt zone entry w = .ok (zoneCnt', zone', entry', w')) : P w' := by
  unfold nextZone at moved
  split_ifs at moved
  · obtain ⟨result, ran, returned⟩ := bind_eq_ok moved
    cases returned
    exact readZone_keeping allows dir (zoneCnt + 1) holds _ _ ran
  · cases moved
    exact holds

/-- A traversal keeps what its callback and the reads keep. -/
theorem traverseEntries_keeping (allows : Allows onDisk P) {cb : EntryCallback N}
    (callback : ∀ zone entry w, P w → Keeping P (cb zone entry w)) (count : Nat) :
    ∀ {zoneCnt zone entry} {w : FsWorld N}, P w →
      Keeping P (traverseEntries dir m cb count zoneCnt zone entry w) := by
  induction count with
  | zero => exact fun holds => Keeping.ok holds none
  | succ count ih =>
    intro zoneCnt zone entry w holds
    unfold traverseEntries
    refine Keeping.after fun next moved => ?_
    have holds₁ : P next.2.2.2 := nextZone_keeping allows zoneCnt zone entry holds moved
    refine (callback _ _ _ holds₁).bind fun stop w₂ holds₂ => ?_
    dsimp only
    split
    · exact Keeping.after fun node _ => Keeping.ok holds₂ _
    · exact ih holds₂

theorem traverseDir_keeping (allows : Allows onDisk P) {cb : EntryCallback N}
    (callback : ∀ zone entry w, P w → Keeping P (cb zone entry w)) (holds : P w) :
    Keeping P (traverseDir dir m cb w) := by
  unfold traverseDir
  split_ifs
  · exact (readZone_keeping allows dir 0 holds).bind fun zone w' holds' =>
      traverseEntries_keeping allows callback _ holds'
  · exact Keeping.ok holds none

theorem findEntry_keeping (allows : Allows onDisk P) (node : InodePtr) (name : List UInt8) (holds : P w) :
    Keeping P (findEntry g m node name w) := by
  unfold findEntry
  split_ifs
  · exact traverseDir_keeping allows (fun zone entry w holds => Keeping.ok holds _) holds
  · exact Keeping.ok holds none

theorem nameiLoop_keeping (allows : Allows onDisk P) (path : List UInt8) (node : InodePtr) {w : FsWorld N}
    (holds : P w) : Keeping P (nameiLoop g m node path w) := by
  cases delim : strfind path slash with
  | nil =>
    rw [nameiLoop_last delim]
    exact findEntry_keeping allows node path holds
  | cons ch path' =>
    have shorter : path'.length < path.length := by
      have bound := length_strfind path slash
      rw [delim] at bound
      exact bound
    rw [nameiLoop_next delim]
    exact (findEntry_keeping allows node path holds).bind fun node' w' holds' =>
      nameiLoop_keeping allows path' node' holds'
termination_by path.length

/-- **Listing the tree keeps what reading a block keeps.** -/
theorem listEntries_keeping (allows : Allows onDisk P) (stack : Nat) : ∀ (k : Fin kNumInodes) {w : FsWorld N},
    P w → Keeping P (listEntries g m stack k w) := by
  induction stack with
  | zero => exact fun _ _ _ _ _ impossible => by cases impossible
  | succ stack ih =>
    intro k w holds
    unfold listEntries
    split_ifs
    · refine (traverseDir_keeping allows (fun zone entry w holds => ?_) holds).bind
        fun node w' holds' => Keeping.ok holds' ()
      unfold listEntry
      refine Keeping.after fun node _ => ?_
      split_ifs
      · exact (ih node holds).bind fun _ w' holds' => Keeping.ok holds' false
      · exact Keeping.ok holds false
    · exact Keeping.ok holds ()

end Walks

/-! ### Tables -/

section Tables

variable {w : FsWorld N} {B : Set UInt32} {n size output len : Nat} {start : UInt32}

/-- **The loop of `read_blocks`** reads no block but those that hold the items. -/
theorem readItems_keeping (allows : Allows B P) (divides : size ∣ 1024) (positive : 0 < size)
    (blocks : ∀ q, Touched len q → start + UInt32.ofNat q ∈ B) (count : Nat) :
    ∀ {i q src block dst} {area : Area n} {w : FsWorld N}, 1024 * q + src = size * i → src ≤ 1024 →
      size * (i + count) ≤ len → P w →
      Keeping P (readItems size output size count (start + UInt32.ofNat q) block src area dst w) := by
  induction count with
  | zero => exact fun _ _ _ holds => Keeping.ok holds _
  | succ count ih =>
    intro i q src block dst area w place within bound holds
    have more : size * (i + 1) ≤ size * (i + (count + 1)) := Nat.mul_le_mul_left size (by omega)
    have next : size * (i + 1) = size * i + size := Nat.mul_succ size i
    have rest : size * (i + 1 + count) ≤ len := by rwa [Nat.add_right_comm]
    unfold readItems nextSource
    by_cases ended : kBlockSize ≤ src
    · have all : src = 1024 := Nat.le_antisymm within ended
      have inside := blocks (q + 1) (.inr (by omega))
      rw [if_pos ended, bind_assoc, next_block]
      refine (allows.read holds inside).bind fun block₁ w₁ holds₁ => ?_
      have place₁ : 1024 * (q + 1) + 0 = size * i := by omega
      simp only [pure, Except.pure, ok_bind]
      refine Keeping.after fun area₁ _ => ih (i := i + 1) ?_ ?_ rest holds₁
      · rw [next, ← place₁, Nat.add_assoc]
      · exact item_within divides place₁ (by decide)
    · rw [if_neg ended]
      simp only [pure, Except.pure, ok_bind]
      refine Keeping.after fun area₁ _ => ih (i := i + 1) ?_ ?_ rest holds
      · rw [next, ← place, Nat.add_assoc]
      · exact item_within divides place (Nat.not_le.mp ended)

theorem readBlocks_keeping (allows : Allows B P) (divides : size ∣ 1024) (positive : 0 < size) {count : Nat}
    (blocks : ∀ q, Touched (size * count) q → start + UInt32.ofNat q ∈ B) (area : Area n) (dst : Nat)
    (holds : P w) : Keeping P (readBlocks size output start area dst count size w) := by
  unfold readBlocks
  have first := blocks 0 (.inl rfl)
  rw [first_block] at first
  refine (allows.read holds first).bind fun block w₁ holds₁ => ?_
  have here : start = start + UInt32.ofNat 0 := (first_block start).symm
  dsimp only
  rw [here]
  exact readItems_keeping allows divides positive blocks count (i := 0) (q := 0) rfl (Nat.zero_le _)
    (by rw [Nat.zero_add]) holds₁

end Tables

/-! ### Two properties that reads keep -/

section Kept

variable {content : UInt32 → Block} {K : Set UInt32}

/-- **What is on the disk stays there.** -/
theorem allows_clean (two : 2 ≤ N) :
    Allows (N := N) onDisk fun w => Coherent w content ∧ Clean w content := by
  rintro bno fits w node w' ⟨coherent, clean⟩ ran
  obtain ⟨_, _, ran', _, _, coherent', toward⟩ := coherent.read two fits (.inl rfl)
  rw [ran] at ran'
  cases ran'
  exact ⟨coherent', clean.toward toward⟩

/-- No other blocks come in. -/
theorem allows_cached (two : 2 ≤ N) (fits : ∀ bno ∈ K, FitsDisk bno) :
    Allows (N := N) K fun w => Coherent w content ∧ ∀ k, Cached w k → k ∈ K := by
  rintro bno inside w node w' ⟨coherent, known⟩ ran
  obtain ⟨_, _, ran', _, _, coherent', _, keeps⟩ := coherent.read_keeps two (fits bno inside) (.inl rfl)
  rw [ran] at ran'
  cases ran'
  refine ⟨coherent', fun k cached => ?_⟩
  obtain ⟨node', held⟩ := cached
  rcases keeps.cached k node' held with rfl | old
  · exact inside
  · exact known k old

end Kept

/-! ### The blocks of the tables -/

/-- Where the tables lie, and how many bytes they have, by the super block. -/
def tables (sb : Memory) : List (UInt32 × Nat) :=
  [(kSuperBlockBNO, sizeofDSuperBlock), (imapStart, 1 * (num_inodes sb / 8)),
    (zmapStart sb, 1 * (num_zones sb / 8)), (inodeStart sb, sizeofDInode * num_inodes sb)]

/-- A block that `init_fs` reads and `sync_all` writes. -/
def TableBlock (sb : Memory) (b : UInt32) : Prop :=
  ∃ t ∈ tables sb, ∃ q, Touched t.2 q ∧ b = t.1 + UInt32.ofNat q

theorem tableBlock_congr {sb sb' : Memory} (same : ∀ a < 18, sb a = sb' a) :
    TableBlock sb = TableBlock sb' := by
  obtain ⟨inodes, zones, zmap, inode⟩ := fields_eq same
  unfold TableBlock tables
  rw [inodes, zones, zmap, inode]

theorem tableBlock_fits {sb : Memory} {b : UInt32} (isTable : TableBlock sb b) : FitsDisk b := by
  obtain ⟨inodeNear, imapNear, zmapNear⟩ := tables_near sb
  obtain ⟨t, member, q, touched, rfl⟩ := isTable
  simp only [tables, List.mem_cons, List.not_mem_nil, or_false] at member
  rcases member with rfl | rfl | rfl | rfl
  · have first : q = 0 := by
      have small : sizeofDSuperBlock = 20 := rfl
      rcases touched with first | later
      · exact first
      · simp only [small] at later
        omega
    rw [first]
    decide
  · exact fitsDisk_block (imapNear q touched)
  · exact fitsDisk_block (zmapNear q touched)
  · exact fitsDisk_block (inodeNear q touched)

/-- **After `init_fs` only blocks of the tables are cached.** -/
theorem initFs_cached (two : 2 ≤ N) (links : Ptr → Option Ptr) (key : Ptr → Key)
    (value : Ptr → BlockBuffer) {d : Device} (valid : d.valid = 1) (quiet : d.Quiet) {g₀ g : Globals}
    {w : FsWorld N} (loaded : initFs g₀ ⟨LRUCache.fresh N links key value, d⟩ = .ok (g, w)) :
    ∀ k, Cached w k → TableBlock g.g_super_block.bytes k := by
  obtain ⟨node, w₁, read, _, _, coherent₁, _, keeps⟩ := (fresh_coherent links key value valid quiet).read_keeps
    two (by decide : FitsDisk kSuperBlockBNO) (.inr (Nat.pos_of_neZero N))
  unfold initFs at loaded
  rw [read, called_some, ok_bind] at loaded
  obtain ⟨super, _, loaded⟩ := bind_eq_ok loaded
  obtain ⟨inodes, ran₂, loaded⟩ := bind_eq_ok loaded
  obtain ⟨imap, ran₃, loaded⟩ := bind_eq_ok loaded
  obtain ⟨zmap, ran₄, loaded⟩ := bind_eq_ok loaded
  cases loaded
  let K : Set UInt32 := {b | TableBlock super.bytes b}
  have allows : Allows (N := N) K fun w => Coherent w (blockOf d.disk) ∧ ∀ k, Cached w k → k ∈ K :=
    allows_cached two fun b => tableBlock_fits
  have inside : ∀ t ∈ tables super.bytes, ∀ q, Touched t.2 q → t.1 + UInt32.ofNat q ∈ K :=
    fun t member q touched => ⟨t, member, q, touched, rfl⟩
  simp only [tables, List.mem_cons, List.not_mem_nil, or_false, forall_eq_or_imp, forall_eq] at inside
  obtain ⟨first, imapIn, zmapIn, inodesIn⟩ := inside
  have holds₁ : Coherent w₁ (blockOf d.disk) ∧ ∀ k, Cached w₁ k → k ∈ K := by
    refine ⟨coherent₁, fun k cached => ?_⟩
    obtain ⟨node', held⟩ := cached
    rcases keeps.cached k node' held with rfl | ⟨_, _, stored, _⟩
    · exact first_block kSuperBlockBNO ▸ first 0 (.inl rfl)
    · cases stored
  have holds₂ := readBlocks_keeping allows (by decide : sizeofDInode ∣ 1024) (by decide) inodesIn
    g₀.g_inode_table sizeofMInode holds₁ _ _ ran₂
  have holds₃ := readBlocks_keeping allows (one_dvd 1024) Nat.one_pos imapIn g₀.g_imap.data_ 0 holds₂ _ _ ran₃
  exact (readBlocks_keeping allows (one_dvd 1024) Nat.one_pos zmapIn g₀.g_zmap.data_ 0 holds₃ _ _ ran₄).2

end Sprite.Fs

/-
**Walking through directories.**

The functions of the walk are followed on the image alone: the inode table and the contents of the
blocks. What the cache does in between is not seen, because a name is looked at while the block it is
in is the one read last.

* `Through` — what a walk that reads only certain blocks leaves of the cache.
* `Yields` — a function that reads blocks answers what the image says.
* `zoneBlock`, `readZone_yields` — the block of a zone, and the first zone that no index block has.
* `dirEntry`, `search` — the entries of a directory, and the search for the first one that answers.
* `findEntry_yields` — `find_entry` is this search.
* `findEntry_in_bounds_iff`, `nameiLoop_in_bounds_iff` — when they stay inside their tables.
-/
import Sprite.Fs.Directory
import Sprite.Fs.Loading

namespace Sprite.Fs

open Cache Ide

variable {N : Nat} [NeZero N] {content : UInt32 → Block}

/-! ### What a walk leaves of the cache -/

/-- After reading blocks of `B` only: a node holds the block that it held or one of `B`, only blocks of
`B` have come in, and nothing has been given up as long as everything has room. -/
structure Through (B : Set UInt32) (w w' : FsWorld N) : Prop where
  holds : ∀ k node, w.cache.Holds k node → ∃ k', w'.cache.Holds k' node ∧ (k' = k ∨ k' ∈ B)
  cached : ∀ k, Cached w' k → Cached w k ∨ k ∈ B
  roomy : ∀ K : Finset UInt32, K.card ≤ N → (∀ k, Cached w k → k ∈ K) → (∀ k ∈ B, k ∈ K) →
    ∀ k node, w.cache.Holds k node → w'.cache.Holds k node

variable {B : Set UInt32} {w w' w'' : FsWorld N}

omit [NeZero N] in
theorem Through.refl (w : FsWorld N) : Through B w w :=
  ⟨fun k _ holds => ⟨k, holds, .inl rfl⟩, fun _ => .inl, fun _ _ _ _ _ _ => id⟩

omit [NeZero N] in
theorem Through.trans (first : Through B w w') (second : Through B w' w'') : Through B w w'' := by
  refine ⟨fun k node holds => ?_, fun k cached => ?_, fun K small known sub k node holds => ?_⟩
  · obtain ⟨k', holds', origin⟩ := first.holds k node holds
    obtain ⟨k'', holds'', origin'⟩ := second.holds k' node holds'
    refine ⟨k'', holds'', ?_⟩
    rcases origin' with rfl | inside
    · exact origin
    · exact .inr inside
  · exact (second.cached k cached).elim (first.cached k) .inr
  · refine second.roomy K small (fun k' cached => ?_) sub k node (first.roomy K small known sub k node holds)
    exact (first.cached k' cached).elim (known k') (sub k')

/-- A function that reads blocks of `B` answers `r`, and the contents stay as they are. -/
def Yields {α : Type} (content : UInt32 → Block) (B : Set UInt32) (w : FsWorld N)
    (run : Except Halt (α × FsWorld N)) : Except Halt α → Prop
  | .ok a => ∃ w', run = .ok (a, w') ∧ Coherent w' content ∧ Through B w w'
  | .error halt => run = .error halt

theorem Yields.ok {α : Type} (coherent : Coherent w content) (a : α) :
    Yields content B w (.ok (a, w)) (.ok a) := ⟨w, rfl, coherent, Through.refl w⟩

theorem Yields.after {α : Type} {run : Except Halt (α × FsWorld N)} {r : Except Halt α}
    (through : Through B w w') (yields : Yields content B w' run r) : Yields content B w run r := by
  cases r with
  | ok a =>
    obtain ⟨w'', ran, coherent, through'⟩ := yields
    exact ⟨w'', ran, coherent, through.trans through'⟩
  | error halt => exact yields

/-- What comes after a function that yields a result goes on from that result. -/
theorem Yields.bind {α β : Type} {run : Except Halt (α × FsWorld N)} {r : Except Halt α}
    {rest : α × FsWorld N → Except Halt (β × FsWorld N)} {next : α → Except Halt β}
    (yields : Yields content B w run r) (after : ∀ a w', Coherent w' content → Through B w w' →
      Yields content B w' (rest (a, w')) (next a)) :
    Yields content B w (run >>= rest) (r >>= next) := by
  cases r with
  | error halt =>
    have ran : run = .error halt := yields
    rw [ran, error_bind, error_bind]
    exact rfl
  | ok a =>
    obtain ⟨w', ran, coherent, through⟩ := yields
    rw [ran, ok_bind, ok_bind]
    exact Yields.after through (after a w' coherent through)

/-- What a call leaves of the cache, seen from a set of blocks. -/
theorem Keeps.through {bno : UInt32} (coherent : Coherent w content)
    (keeps : Keeps w.cache w'.cache bno) (inside : bno ∈ B) : Through B w w' := by
  refine ⟨fun k node holds => ?_, fun k cached => ?_, fun K small known sub k node holds => ?_⟩
  · rcases keeps.holds k node holds with same | ⟨_, _, taken⟩
    · exact ⟨k, same, .inl rfl⟩
    · exact ⟨bno, taken, .inr inside⟩
  · obtain ⟨node, held⟩ := cached
    rcases keeps.cached k node held with rfl | old
    · exact .inr inside
    · exact .inl old
  · rcases keeps.holds k node holds with same | ⟨full, absent, _⟩
    · exact same
    · have room := coherent.indexed.room (fun k' node' held => known k' ⟨node', held⟩)
        (sub bno inside) absent
      omega

/-- **A block that is read** is in the buffer answered. -/
theorem readBlock_through {bno : UInt32} (coherent : Coherent w content) (two : 2 ≤ N)
    (fits : FitsDisk bno) (inside : bno ∈ B) :
    ∃ node w', readBlock (some uncache) bno w = some (node, w') ∧ w'.cache.Holds bno node ∧
      (w'.cache.value node).data = content bno ∧ Coherent w' content ∧ Through B w w' := by
  obtain ⟨node, w', ran, holds, data, coherent', _, keeps⟩ := coherent.read_keeps two fits (.inl rfl)
  exact ⟨node, w', ran, holds, data, coherent', keeps.through coherent inside⟩

/-! ### Zones -/

/-- How many zones the zone numbers of an inode lead to. -/
def maxZones : Nat := 7 + 512 + 512 * 512

/-- A zone number in an index block. -/
def indexed (zones : Block) (k : Nat) : UInt32 := UInt32.ofNat (load16 (blockBytes zones) (2 * k))

/-- The blocks that `read_zone` reads, the last one being the zone. -/
def zoneBlocks (content : UInt32 → Block) (inode : Memory) (zone : Nat) : List UInt32 :=
  if zone < 7 then [zoneNumber inode zone]
  else if zone < 7 + 512 then
    [zoneNumber inode 7, indexed (content (zoneNumber inode 7)) (zone - 7)]
  else
    let zones := indexed (content (zoneNumber inode 8)) ((zone - (7 + 512)) / 512)
    [zoneNumber inode 8, zones, indexed (content zones) ((zone - (7 + 512)) % 512)]

/-- The block of a zone. -/
def zoneBlock (content : UInt32 → Block) (inode : Memory) (zone : Nat) : UInt32 :=
  (zoneBlocks content inode zone).getLastD 0

theorem zoneBlock_mem (content : UInt32 → Block) (inode : Memory) (zone : Nat) :
    zoneBlock content inode zone ∈ zoneBlocks content inode zone := by
  unfold zoneBlock zoneBlocks
  split
  · exact List.mem_singleton_self _
  split
  · exact List.mem_of_mem_getLast? rfl
  · exact List.mem_of_mem_getLast? rfl

/-- Every zone number is one of the disk. -/
theorem fitsDisk_load16 (mem : Memory) (a : Nat) : FitsDisk (UInt32.ofNat (load16 mem a)) := by
  have small := load16_lt mem a
  have bound : MAX_DISK_NSECS.toNat = 2 ^ 28 := rfl
  unfold FitsDisk
  rw [UInt32.toNat_ofNat_of_lt' (by simp only [UInt32.size]; omega)]
  omega

theorem fitsDisk_zoneNumber (inode : Memory) (k : Nat) : FitsDisk (zoneNumber inode k) :=
  fitsDisk_load16 inode _

theorem fitsDisk_indexed (zones : Block) (k : Nat) : FitsDisk (indexed zones k) :=
  fitsDisk_load16 _ _

theorem load16_congr {mem mem' : Memory} {a a' : Nat} (low : mem a = mem' a')
    (high : mem (a + 1) = mem' (a' + 1)) : load16 mem a = load16 mem' a' := by
  unfold load16
  rw [low, high]

/-- The bytes of a buffer are those of its block. -/
theorem bytes_eq {buff : BlockBuffer} {data : Block} (same : buff.data = data) {a : Nat} (inside : a < 1024) :
    buff.bytes a = blockBytes data a := by
  rw [BlockBuffer.bytes, dif_pos inside, same, blockBytes]
  exact congrArg data (Fin.ext (Nat.mod_eq_of_lt inside).symm)

theorem zoneIndex_eq {buff : BlockBuffer} {data : Block} (same : buff.data = data) {k : Nat} (inside : k < 512) :
    zoneIndex buff k = .ok (indexed data k) := by
  rw [zoneIndex, if_pos inside, indexed,
    load16_congr (bytes_eq same (by omega)) (bytes_eq same (by omega))]

/-- An index block is read, and one of its zone numbers. -/
theorem readIndex {α : Type} (coherent : Coherent w content) (two : 2 ≤ N) {bno : UInt32}
    (fits : FitsDisk bno) (inside : bno ∈ B) {k : Nat} (small : k < 512)
    (rest : UInt32 → FsWorld N → Except Halt α) :
    ∃ w', (do
        let (zones, w) ← called (readBlock (some uncache) bno w)
        let bno ← zoneIndex (w.cache.value zones) k
        rest bno w) = rest (indexed (content bno) k) w' ∧
      (readBlock (some uncache) bno w).map Prod.snd = some w' ∧ Coherent w' content ∧ Through B w w' := by
  obtain ⟨zones, w', ran, _, data, coherent', through⟩ := readBlock_through coherent two fits inside
  refine ⟨w', ?_, congrArg (Option.map Prod.snd) ran, coherent', through⟩
  simp only [ran, called_some, ok_bind, zoneIndex_eq data small]

/-- **`read_zone` reads the index blocks, one after the other, and then the zone**, for every zone that
the inode can have. -/
theorem readZone_steps (coherent : Coherent w content) (two : 2 ≤ N) (inode : Memory) {zone : Nat}
    (near : zone < maxZones) (inside : ∀ bno ∈ zoneBlocks content inode zone, bno ∈ B) :
    ∃ w₁ node w', (zoneBlocks content inode zone).dropLast.foldlM
        (fun w bno => (readBlock (some uncache) bno w).map Prod.snd) w = some w₁ ∧
      readBlock (some uncache) (zoneBlock content inode zone) w₁ = some (node, w') ∧
      readZone inode zone w = .ok (node, w') ∧
      w'.cache.Holds (zoneBlock content inode zone) node ∧ Coherent w' content ∧ Through B w w' := by
  unfold zoneBlock
  unfold zoneBlocks at inside ⊢
  unfold readZone
  by_cases direct : zone < 7
  · rw [if_pos direct] at inside ⊢
    obtain ⟨node, w', ran, holds, _, coherent', through⟩ :=
      readBlock_through coherent two (fitsDisk_zoneNumber inode zone) (inside _ (by simp))
    rw [if_pos direct]
    exact ⟨w, node, w', rfl, ran, congrArg called ran, holds, coherent', through⟩
  rw [if_neg direct] at inside ⊢
  rw [if_neg direct]
  by_cases single : zone < 7 + 512
  · rw [if_pos single] at inside ⊢
    rw [if_pos single]
    obtain ⟨w₁, ran₁, read₁, coherent₁, through₁⟩ := readIndex coherent two
      (fitsDisk_zoneNumber inode 7) (inside _ (by simp)) (by omega : zone - 7 < 512)
      fun bno w => called (readBlock (some uncache) bno w)
    obtain ⟨node, w₂, ran₂, holds, _, coherent₂, through₂⟩ := readBlock_through coherent₁ two
      (fitsDisk_indexed (content (zoneNumber inode 7)) (zone - 7)) (inside _ (by simp))
    refine ⟨w₁, node, w₂, ?_, ran₂, ran₁.trans (congrArg called ran₂), holds, coherent₂,
      through₁.trans through₂⟩
    simp only [List.dropLast, List.foldlM_cons, List.foldlM_nil, read₁, Option.bind_eq_bind,
      Option.bind_some, Option.pure_def]
  · rw [if_neg single] at inside ⊢
    rw [if_neg single]
    have small : (zone - (7 + 512)) / 512 < 512 := by
      unfold maxZones at near
      omega
    obtain ⟨w₁, ran₁, read₁, coherent₁, through₁⟩ := readIndex coherent two
      (fitsDisk_zoneNumber inode 8) (inside _ (by simp)) small fun bno w => do
        let (zones, w) ← called (readBlock (some uncache) bno w)
        let bno ← zoneIndex (w.cache.value zones) ((zone - (7 + 512)) % 512)
        called (readBlock (some uncache) bno w)
    obtain ⟨w₂, ran₂, read₂, coherent₂, through₂⟩ := readIndex coherent₁ two
      (fitsDisk_indexed (content (zoneNumber inode 8)) ((zone - (7 + 512)) / 512))
      (inside _ (by simp)) (Nat.mod_lt (zone - (7 + 512)) (by decide : 0 < 512))
      fun bno w => called (readBlock (some uncache) bno w)
    obtain ⟨node, w₃, ran₃, holds, _, coherent₃, through₃⟩ := readBlock_through coherent₂ two
      (fitsDisk_indexed (content (indexed (content (zoneNumber inode 8)) ((zone - (7 + 512)) / 512)))
        ((zone - (7 + 512)) % 512)) (inside _ (by simp))
    refine ⟨w₂, node, w₃, ?_, ran₃, ran₁.trans (ran₂.trans (congrArg called ran₃)), holds, coherent₃,
      (through₁.trans through₂).trans through₃⟩
    simp only [List.dropLast, List.foldlM_cons, List.foldlM_nil, read₁, read₂, Option.bind_eq_bind,
      Option.bind_some, Option.pure_def]

/-- **`read_zone` answers a buffer with the zone.** -/
theorem readZone_spec (coherent : Coherent w content) (two : 2 ≤ N) (inode : Memory) {zone : Nat}
    (near : zone < maxZones) (inside : ∀ bno ∈ zoneBlocks content inode zone, bno ∈ B) :
    ∃ node w', readZone inode zone w = .ok (node, w') ∧
      w'.cache.Holds (zoneBlock content inode zone) node ∧ Coherent w' content ∧ Through B w w' := by
  obtain ⟨_, node, w', _, _, ran, rest⟩ := readZone_steps coherent two inode near inside
  exact ⟨node, w', ran, rest⟩

/-- **`read_zone` leaves the index block** for every zone behind those. -/
theorem readZone_outside (coherent : Coherent w content) (two : 2 ≤ N) {inode : Memory} {zone : Nat}
    (far : maxZones ≤ zone) : readZone inode zone w = .error .outside := by
  unfold maxZones at far
  have index : ∀ buff : BlockBuffer,
      zoneIndex buff ((zone - (7 + 512)) / 512) = .error .outside := fun buff => by
    rw [zoneIndex, if_neg (by omega)]
  obtain ⟨zoneTable, w', ran, _⟩ := coherent.read two (fitsDisk_zoneNumber inode 8) (.inl rfl)
  rw [readZone, if_neg (by omega), if_neg (by omega), ran]
  simp only [called_some, ok_bind, index, error_bind]

/-! ### Entries -/

/-- The memory from a place of a block on. -/
def record (content : UInt32 → Block) (m : Elsewhere) (bno : UInt32) (entry : Nat) : Memory := fun a =>
  if entry + a < kBlockSize then blockBytes (content bno) (entry + a) else m.behind bno (entry + a)

/-- The memory from an entry of a directory on. -/
def dirEntry (content : UInt32 → Block) (m : Elsewhere) (dir : Memory) (j : Nat) : Memory :=
  record content m (zoneBlock content dir (j / 32)) (32 * (j % 32))

/-- How many entries a directory has, by its size. -/
def numEntries (dir : Memory) : Nat := size dir / sizeofDirEntry

/-- How many entries lie in zones that an inode can have. -/
def maxEntries : Nat := 32 * maxZones

/-- A buffer holds the entries of its block. -/
theorem entryBytes_eq (coherent : Coherent w content) (m : Elsewhere) {bno : UInt32} {zone : Ptr}
    (holds : w.cache.Holds bno zone) (entry : Nat) :
    entryBytes m w zone entry = record content m bno entry := by
  obtain ⟨_, _, isKey⟩ := id holds
  funext a
  unfold entryBytes record
  rw [isKey]
  by_cases inside : entry + a < kBlockSize
  · rw [if_pos inside, if_pos inside]
    exact bytes_eq (coherent.cached bno zone holds).2 inside
  · rw [if_neg inside, if_neg inside]

/-- **Before entry `j`** of a traversal: the buffer holds some block, and the entry is in it or behind
its end. -/
structure Walking (content : UInt32 → Block) (bno : UInt32) (j zoneCnt : Nat) (zone : Ptr)
    (entry : Nat) (w : FsWorld N) : Prop where
  coherent : Coherent w content
  place : 32 * j = 1024 * zoneCnt + entry
  within : entry ≤ 1024
  near : zoneCnt < maxZones
  holds : w.cache.Holds bno zone

variable {dir : Memory} {bno : UInt32} {j zoneCnt : Nat} {zone : Ptr} {entry : Nat} {m : Elsewhere}

/-- The traversal moves on to the zone of entry `j`. -/
theorem Walking.advance (walking : Walking content bno j zoneCnt zone entry w) (two : 2 ≤ N)
    (near : j < maxEntries) (inside : ∀ b ∈ zoneBlocks content dir (j / 32), b ∈ B) :
    ∃ bno' zone' w', nextZone dir zoneCnt zone entry w = .ok (j / 32, zone', 32 * (j % 32), w') ∧
      Walking content bno' j (j / 32) zone' (32 * (j % 32)) w' ∧ Through B w w' ∧
      (zoneCnt = j / 32 ∧ bno' = bno ∧ zone' = zone ∨ bno' = zoneBlock content dir (j / 32)) := by
  have place := walking.place
  have within := walking.within
  have near' : j / 32 < maxZones := Nat.div_lt_of_lt_mul near
  have split : 32 * j = 1024 * (j / 32) + 32 * (j % 32) := by omega
  by_cases ended : kZoneSize ≤ entry
  · have all : entry = 1024 := Nat.le_antisymm within ended
    have number : zoneCnt + 1 = j / 32 := by omega
    obtain ⟨node, w', ran, holds, coherent', through⟩ :=
      readZone_spec walking.coherent two dir near' inside
    refine ⟨_, node, w', ?_, ⟨coherent', split, by omega, near', holds⟩, through, .inr rfl⟩
    have start : 32 * (j % 32) = 0 := by omega
    rw [nextZone, if_pos ended, number, ran, start]
    rfl
  · have less : entry < 1024 := Nat.not_le.mp ended
    have number : zoneCnt = j / 32 := by omega
    have offset : entry = 32 * (j % 32) := by omega
    refine ⟨bno, zone, w, ?_, ⟨walking.coherent, split, by omega, near', walking.holds⟩,
      Through.refl w, .inl ⟨number, rfl, rfl⟩⟩
    rw [nextZone, if_neg ended, number, offset]
    rfl

/-- A traversal that is in the zone of its number **meets entry `j`**, in the zone that the entry is in. -/
theorem Walking.meets (walking : Walking content (zoneBlock content dir zoneCnt) j zoneCnt zone entry w)
    (two : 2 ≤ N) (near : j < maxEntries) (inside : ∀ b ∈ zoneBlocks content dir (j / 32), b ∈ B)
    (m : Elsewhere) :
    ∃ zone' w', nextZone dir zoneCnt zone entry w = .ok (j / 32, zone', 32 * (j % 32), w') ∧
      Walking content (zoneBlock content dir (j / 32)) j (j / 32) zone' (32 * (j % 32)) w' ∧
      Through B w w' ∧ entryBytes m w' zone' (32 * (j % 32)) = dirEntry content m dir j := by
  obtain ⟨bno', zone', w', moved, walking', through, source⟩ := walking.advance two near inside
  obtain rfl : bno' = zoneBlock content dir (j / 32) := by
    rcases source with ⟨number, same, _⟩ | same
    · rw [same, number]
    · exact same
  exact ⟨zone', w', moved, walking', through, entryBytes_eq walking'.coherent m walking'.holds _⟩

/-- Behind the last zone there is none to move on to. -/
theorem Walking.outside (walking : Walking content bno j zoneCnt zone entry w) (two : 2 ≤ N)
    (far : maxEntries ≤ j) : nextZone dir zoneCnt zone entry w = .error .outside := by
  have place := walking.place
  have within := walking.within
  have near := walking.near
  unfold maxEntries at far
  have ended : kZoneSize ≤ entry := by
    unfold kZoneSize
    omega
  rw [nextZone, if_pos ended, readZone_outside walking.coherent two (by omega), error_bind]

theorem Walking.next (walking : Walking content bno j zoneCnt zone entry w) (less : entry < 1024) :
    Walking content bno (j + 1) zoneCnt zone (entry + sizeofDirEntry) w := by
  have place := walking.place
  refine ⟨walking.coherent, ?_, ?_, walking.near, walking.holds⟩
  · unfold sizeofDirEntry
    omega
  · unfold sizeofDirEntry
    omega

/-! ### The search for a name -/

/-- The entry answers to the name: `strcmp` compares them as equal. -/
def Answers (content : UInt32 → Block) (m : Elsewhere) (dir : Memory) (name : List UInt8) (j : Nat) :
    Prop := strcmp (dirEntry content m dir j) nameOffset name = 0

instance {name : List UInt8} : Decidable (Answers content m dir name j) :=
  inferInstanceAs (Decidable (_ = _))

/-- The inode number of an entry. -/
def inodeOf (content : UInt32 → Block) (m : Elsewhere) (dir : Memory) (j : Nat) : Nat :=
  entryInode (dirEntry content m dir j)

/-- The search through the entries from `j` on. -/
def search (content : UInt32 → Block) (m : Elsewhere) (dir : Memory) (name : List UInt8) :
    Nat → Nat → Except Halt InodePtr
  | 0, _ => .ok none
  | count + 1, j =>
    if j < maxEntries then
      if Answers content m dir name j then some <$> inodeTable (inodeOf content m dir j)
      else search content m dir name count (j + 1)
    else .error .outside

/-- What `find_entry` finds. -/
def found (content : UInt32 → Block) (m : Elsewhere) (dir : Memory) (name : List UInt8) :
    Except Halt InodePtr :=
  if isDirectory (mode dir) then search content m dir name (numEntries dir) 0 else .ok none

theorem traverse_yields (two : 2 ≤ N) (name : List UInt8) (count : Nat) :
    ∀ {j zoneCnt zone entry} {w : FsWorld N},
    Walking content (zoneBlock content dir zoneCnt) j zoneCnt zone entry w →
    Yields content Set.univ w
      (traverseEntries dir m (compareName m name) count zoneCnt zone entry w)
      (search content m dir name count j) := by
  induction count with
  | zero => exact fun walking => Yields.ok walking.coherent none
  | succ count ih =>
    intro j zoneCnt zone entry w walking
    unfold search
    by_cases near : j < maxEntries
    · obtain ⟨zone', w', moved, walking', through, bytes⟩ :=
        walking.meets two near (fun b _ => Set.mem_univ b) m
      have compared : compareName m name zone' (32 * (j % 32)) w'
          = .ok (decide (Answers content m dir name j), w') := by
        unfold compareName Answers
        rw [bytes]
        rfl
      rw [if_pos near]
      refine Yields.after through ?_
      simp only [traverseEntries, moved, ok_bind, compared, bytes]
      by_cases answers : Answers content m dir name j
      · rw [if_pos answers, decide_eq_true answers, if_pos rfl]
        unfold inodeOf
        cases inodeTable (entryInode (dirEntry content m dir j)) with
        | ok k => exact Yields.ok walking'.coherent _
        | error halt => exact rfl
      · rw [if_neg answers, decide_eq_false answers, if_neg Bool.false_ne_true]
        exact ih (walking'.next (by omega))
    · rw [if_neg near]
      unfold traverseEntries
      rw [walking.outside two (Nat.not_lt.mp near)]
      exact rfl

/-- **`find_entry` is the search on the image.** -/
theorem findEntry_yields (coherent : Coherent w content) (two : 2 ≤ N) (g : Globals) (dir : InodePtr)
    (name : List UInt8) : Yields content Set.univ w (findEntry g m dir name w)
      (found content m (inodeAt g m dir) name) := by
  unfold findEntry found
  by_cases isDir : isDirectory (mode (inodeAt g m dir))
  · have positive : 0 < maxZones := by decide
    obtain ⟨node, w', ran, holds, coherent', through⟩ :=
      readZone_spec (B := Set.univ) coherent two (inodeAt g m dir) positive fun b _ => Set.mem_univ b
    rw [if_pos isDir, if_pos isDir, traverseDir, if_pos isDir, ran, ok_bind]
    exact Yields.after through (traverse_yields two name _
      ⟨coherent', rfl, Nat.zero_le _, positive, holds⟩)
  · rw [if_neg isDir, if_neg isDir]
    exact Yields.ok coherent none

/-! ### What is found -/

section Found

variable {name : List UInt8} {count k : Nat}

/-- The first entry that answers. -/
def First (content : UInt32 → Block) (m : Elsewhere) (dir : Memory) (name : List UInt8) (j : Nat) :
    Prop := Answers content m dir name j ∧ ∀ i < j, ¬ Answers content m dir name i

theorem First.unique {j' : Nat} (first : First content m dir name j)
    (first' : First content m dir name j') : j = j' := by
  rcases Nat.lt_trichotomy j j' with before | same | after
  · exact absurd first.1 (first'.2 j before)
  · exact same
  · exact absurd first'.1 (first.2 j' after)

/-- Some entry answers, and then one of them is the first, or none does. -/
theorem exists_first (content : UInt32 → Block) (m : Elsewhere) (dir : Memory) (name : List UInt8)
    (limit : Nat) : (∃ j < limit, First content m dir name j) ∨
    ∀ j < limit, ¬ Answers content m dir name j := by
  by_cases some : ∃ j, j < limit ∧ Answers content m dir name j
  · obtain ⟨below, answers⟩ := Nat.find_spec some
    refine .inl ⟨Nat.find some, below, answers, fun i less answers' => ?_⟩
    exact Nat.find_min some less ⟨Nat.lt_trans less below, answers'⟩
  · exact .inr fun j below answers => some ⟨j, below, answers⟩

/-- The search ends at the first entry that answers. -/
theorem search_first (first : First content m dir name k) (near : k < maxEntries) (count : Nat) :
    ∀ {j}, j ≤ k → k < j + count →
      search content m dir name count j = some <$> inodeTable (inodeOf content m dir k) := by
  induction count with
  | zero =>
    intro j from_ below
    omega
  | succ count ih =>
    intro j from_ below
    unfold search
    rw [if_pos (by omega)]
    by_cases here : j = k
    · rw [here, if_pos first.1]
    · rw [if_neg (first.2 j (by omega))]
      exact ih (by omega) (by omega)

/-- Without one it ends at the last entry, or leaves the zones. -/
theorem search_none (count : Nat) : ∀ {j}, j ≤ maxEntries →
    (∀ i, j ≤ i → i < j + count → i < maxEntries → ¬ Answers content m dir name i) →
      search content m dir name count j = if j + count ≤ maxEntries then .ok none else .error .outside := by
  induction count with
  | zero =>
    intro j within _
    exact (if_pos within).symm
  | succ count ih =>
    intro j within silent
    unfold search
    by_cases near : j < maxEntries
    · rw [if_pos near, if_neg (silent j (Nat.le_refl j) (by omega) near),
        ih near fun i from_ below => silent i (by omega) (by omega)]
      exact if_congr (by omega) rfl rfl
    · rw [if_neg near, if_neg (by omega)]

/-- The search stays inside: the first entry that answers has the number of an inode of the table, and
without one all entries lie in zones that an inode can have. -/
def FindInBounds (content : UInt32 → Block) (m : Elsewhere) (dir : Memory) (name : List UInt8) : Prop :=
  isDirectory (mode dir) = true →
    (∀ j < min (numEntries dir) maxEntries, First content m dir name j →
      inodeOf content m dir j < kNumInodes) ∧
    (maxEntries < numEntries dir → ∃ j < maxEntries, Answers content m dir name j)

/-- Where the search leads: to the inode of the first entry that answers, or nowhere. -/
def Leads (content : UInt32 → Block) (m : Elsewhere) (dir : Memory) (name : List UInt8) : InodePtr → Prop
  | some i => isDirectory (mode dir) = true ∧ ∃ j < min (numEntries dir) maxEntries,
      First content m dir name j ∧ inodeOf content m dir j = i.val
  | none => isDirectory (mode dir) = true →
      numEntries dir ≤ maxEntries ∧ ∀ j < numEntries dir, ¬ Answers content m dir name j

theorem inodeTable_lt {number : Nat} (inside : number < kNumInodes) :
    inodeTable number = .ok ⟨number, inside⟩ := dif_pos inside

theorem eq_of_inodeTable {number : Nat} {node : Fin kNumInodes} (found : inodeTable number = .ok node) :
    number = node.val := by
  unfold inodeTable at found
  split at found
  · cases found
    rfl
  · cases found

/-- **Where the search leads is found.** -/
theorem found_of_leads {r : InodePtr} (leads : Leads content m dir name r) :
    found content m dir name = .ok r := by
  unfold found
  cases r with
  | some i =>
    obtain ⟨isDir, j, below, first, number⟩ := leads
    rw [if_pos isDir, search_first first (by omega) _ (Nat.zero_le j) (by omega), number,
      inodeTable_lt i.isLt]
    rfl
  | none =>
    by_cases isDir : isDirectory (mode dir) = true
    · obtain ⟨few, silent⟩ := leads isDir
      rw [if_pos isDir, search_none _ (Nat.zero_le _) fun i _ below _ => silent i (by omega),
        if_pos (by omega)]
    · rw [if_neg isDir]

/-- **The search leads somewhere, or leaves its tables.** -/
theorem found_cases (content : UInt32 → Block) (m : Elsewhere) (dir : Memory) (name : List UInt8) :
    (FindInBounds content m dir name ∧ ∃ r, Leads content m dir name r) ∨
      ¬ FindInBounds content m dir name ∧ found content m dir name = .error .outside := by
  by_cases isDir : isDirectory (mode dir) = true
  swap
  · exact .inl ⟨fun isDir' => absurd isDir' isDir, none, fun isDir' => absurd isDir' isDir⟩
  rcases exists_first content m dir name (min (numEntries dir) maxEntries) with ⟨j, below, first⟩ | silent
  · by_cases inside : inodeOf content m dir j < kNumInodes
    · refine .inl ⟨fun _ => ⟨fun j' _ first' => first.unique first' ▸ inside, fun _ => ?_⟩,
        some ⟨_, inside⟩, isDir, j, below, first, rfl⟩
      exact ⟨j, by omega, first.1⟩
    · refine .inr ⟨fun inBounds => inside ((inBounds isDir).1 j below first), ?_⟩
      rw [found, if_pos isDir, search_first first (by omega) _ (Nat.zero_le j) (by omega), inodeTable,
        dif_neg inside]
      rfl
  · by_cases few : numEntries dir ≤ maxEntries
    · refine .inl ⟨fun _ => ⟨fun j below first => absurd first.1 (silent j below), fun many => ?_⟩,
        none, fun _ => ⟨few, fun j below => silent j (by omega)⟩⟩
      exact absurd few (Nat.not_le.mpr many)
    · refine .inr ⟨fun inBounds => ?_, ?_⟩
      · obtain ⟨j, below, answers⟩ := (inBounds isDir).2 (Nat.not_le.mp few)
        exact silent j (by omega) answers
      · rw [found, if_pos isDir, search_none _ (Nat.zero_le _) fun i _ below near =>
          silent i (by omega), if_neg (by omega)]

end Found

/-! ### Paths -/

/-- The directories where `namei` looks for a component, with what is left of the path there. -/
inductive Visits (content : UInt32 → Block) (g : Globals) (m : Elsewhere) (dir : InodePtr)
    (path : List UInt8) : InodePtr → List UInt8 → Prop
  | first : Visits content g m dir path dir path
  | next {dir' dir'' : InodePtr} {rest rest' : List UInt8} {ch : UInt8} :
      Visits content g m dir path dir' rest → Leads content m (inodeAt g m dir') rest dir'' →
      strfind rest slash = ch :: rest' → Visits content g m dir path dir'' rest'

/-- The walk stays inside at every component. -/
def PathInBounds (content : UInt32 → Block) (g : Globals) (m : Elsewhere) (dir : InodePtr)
    (path : List UInt8) : Prop :=
  ∀ dir' rest, Visits content g m dir path dir' rest → FindInBounds content m (inodeAt g m dir') rest

section Paths

variable {g : Globals} {dir dir' dir'' : InodePtr} {path path' rest : List UInt8} {ch : UInt8}

/-- A walk from the next directory on is part of the walk. -/
theorem Visits.later (leads : Leads content m (inodeAt g m dir) path dir')
    (delim : strfind path slash = ch :: path') (visits : Visits content g m dir' path' dir'' rest) :
    Visits content g m dir path dir'' rest := by
  induction visits with
  | first => exact .next .first leads delim
  | next _ leads' delim' ih => exact .next ih leads' delim'

/-- A walk is its first directory and the walk from the next one on. -/
theorem Visits.cases (visits : Visits content g m dir path dir'' rest) :
    dir'' = dir ∧ rest = path ∨ ∃ dir' ch path', Leads content m (inodeAt g m dir) path dir' ∧
      strfind path slash = ch :: path' ∧ Visits content g m dir' path' dir'' rest := by
  induction visits with
  | first => exact .inl ⟨rfl, rfl⟩
  | next _ leads delim ih =>
    rcases ih with ⟨rfl, rfl⟩ | ⟨dir', ch, path', leads', delim', visits⟩
    · exact .inr ⟨_, _, _, leads, delim, .first⟩
    · exact .inr ⟨dir', ch, path', leads', delim', .next visits leads delim⟩

theorem nameiLoop_last (delim : strfind path slash = []) (w : FsWorld N) :
    nameiLoop g m dir path w = findEntry g m dir path w := by
  rw [nameiLoop]
  split
  · rfl
  · rename_i delim'
    rw [delim] at delim'
    cases delim'

theorem nameiLoop_next (delim : strfind path slash = ch :: path') (w : FsWorld N) :
    nameiLoop g m dir path w = (do
      let (dir', w') ← findEntry g m dir path w
      nameiLoop g m dir' path' w') := by
  rw [nameiLoop]
  split
  · rename_i delim'
    rw [delim] at delim'
    cases delim'
  · rename_i delim'
    rw [delim] at delim'
    cases delim'
    rfl

/-- **The loop of `namei` stays in its tables, or leaves them**, wherever it begins. -/
theorem nameiLoop_spec (two : 2 ≤ N) (g : Globals) (m : Elsewhere) (path : List UInt8)
    (dir : InodePtr) {w : FsWorld N} (coherent : Coherent w content) :
    (PathInBounds content g m dir path ∧ ∃ r w', nameiLoop g m dir path w = .ok (r, w')) ∨
      ¬ PathInBounds content g m dir path ∧ nameiLoop g m dir path w = .error .outside := by
  have yields := findEntry_yields (m := m) coherent two g dir path
  rcases found_cases content m (inodeAt g m dir) path with ⟨inBounds, dir', leads⟩ | ⟨leaves, outside⟩
  · rw [found_of_leads leads] at yields
    obtain ⟨w', ran, coherent', _⟩ := yields
    cases delim : strfind path slash with
    | nil =>
      refine .inl ⟨fun dir'' rest visits => ?_, dir', w', (nameiLoop_last delim w).trans ran⟩
      rcases visits.cases with ⟨rfl, rfl⟩ | ⟨_, _, _, _, delim', _⟩
      · exact inBounds
      · rw [delim] at delim'
        cases delim'
    | cons ch path' =>
      have shorter : path'.length < path.length := by
        have bound := length_strfind path slash
        rw [delim] at bound
        exact bound
      have ran' : nameiLoop g m dir path w = nameiLoop g m dir' path' w' := by
        rw [nameiLoop_next delim, ran, ok_bind]
      have same : PathInBounds content g m dir path ↔ PathInBounds content g m dir' path' := by
        refine ⟨fun all dir'' rest visits => all dir'' rest (visits.later leads delim),
          fun all dir'' rest visits => ?_⟩
        rcases visits.cases with ⟨rfl, rfl⟩ | ⟨dir₁, _, _, leads₁, delim', visits'⟩
        · exact inBounds
        · rw [delim] at delim'
          cases delim'
          have equal := (found_of_leads leads).symm.trans (found_of_leads leads₁)
          cases equal
          exact all dir'' rest visits'
      rw [same, ran']
      exact nameiLoop_spec two g m path' dir' coherent'
  · refine .inr ⟨fun all => leaves (all dir path .first), ?_⟩
    rw [outside] at yields
    have failed : findEntry g m dir path w = .error .outside := yields
    cases delim : strfind path slash with
    | nil => exact (nameiLoop_last delim w).trans failed
    | cons ch path' => rw [nameiLoop_next delim, failed, error_bind]
termination_by path.length

end Paths

/-! ### A volume with one directory -/

/-- A disk with the given blocks, each of which is filled up with zeroes. -/
def image (block : Nat → List UInt8) : Device :=
  { numbered with disk := fun s i => (block (s / 2)).getD (512 * (s % 2) + i.val) 0 }

/-- Eight inodes, and the root directory with its entries in block 5. -/
def rootImage (size : UInt8) (entries : List UInt8) : Nat → List UInt8
  | 1 => [8, 0, 8, 0, 1, 0, 1, 0]
  | 4 => [0, 0x40, 0, 0, size, 0, 0, 0, 0, 0, 0, 0, 0, 0, 5, 0]
  | 5 => entries
  | _ => []

theorem blockOf_image (block : Nat → List UInt8) (bno : UInt32) (i : Fin 1024) :
    blockOf (image block).disk bno i = (block bno.toNat).getD i.val 0 := by
  have small := i.isLt
  unfold blockOf image
  dsimp only [SECTSIZE, Fin.val_ofNat]
  have number : (2 * bno.toNat + i.val / 512) / 2 = bno.toNat := by omega
  have place : 512 * ((2 * bno.toNat + i.val / 512) % 2) + i.val % 512 = i.val := by omega
  rw [number, place]

/-- The kernel has been started over such a volume. -/
structure Booted (size : UInt8) (entries : List UInt8) (g : Globals) (w : FsWorld 307) : Prop where
  ran : initFs noGlobals ⟨LRUCache.fresh 307 (fun _ => none) (fun _ => 0) fun _ => ⟨fun _ => 0, 0, 0⟩,
    image (rootImage size entries)⟩ = .ok (g, w)
  coherent : Coherent w (blockOf (image (rootImage size entries)).disk)
  root : ∀ (m : Elsewhere) (a : Nat), a < 32 →
    inodeAt g m (some kRootINO) a = (rootImage size entries 4).getD a 0

/-- The kernel's cache before anything is read, over a disk with the given blocks. -/
def freshWorld (block : Nat → List UInt8) : FsWorld 307 :=
  ⟨LRUCache.fresh 307 (fun _ => none) (fun _ => 0) fun _ => ⟨fun _ => 0, 0, 0⟩, image block⟩

theorem image_quiet (block : Nat → List UInt8) : (image block).Quiet := fun _ =>
  (by decide : (0x50 : UInt8) &&& (STAT_DF ||| STAT_ERR) = 0)

/-- The super block of a volume with eight inodes, whose tables take a block each. -/
def smallSuper : List UInt8 := [8, 0, 8, 0, 1, 0, 1, 0]

theorem small_counts {sb : Memory} (known : ∀ a < 39, sb a = smallSuper.getD a 0) :
    num_inodes sb = 8 ∧ num_zones sb = 8 ∧ num_imap_blocks sb = 1 ∧ num_zmap_blocks sb = 1 := by
  unfold num_inodes num_zones num_imap_blocks num_zmap_blocks load16
  simp only [known _ (by decide : 0 < 39), known _ (by decide : 0 + 1 < 39), known _ (by decide : 2 < 39),
    known _ (by decide : 2 + 1 < 39), known _ (by decide : 4 < 39), known _ (by decide : 4 + 1 < 39),
    known _ (by decide : 6 < 39), known _ (by decide : 6 + 1 < 39)]
  exact ⟨rfl, rfl, rfl, rfl⟩

/-- **A volume with eight inodes** is loaded. -/
theorem boots_small {block : Nat → List UInt8} (super : block 1 = smallSuper) :
    ∃ g w, initFs noGlobals (freshWorld block) = .ok (g, w) ∧ Coherent w (blockOf (image block).disk) ∧
      (num_inodes g.g_super_block.bytes = 8 ∧ num_zones g.g_super_block.bytes = 8 ∧
        inodeStart g.g_super_block.bytes = 4 ∧ zmapStart g.g_super_block.bytes = 3) ∧
      ∀ (m : Elsewhere) (k : Fin kNumInodes) (a : Nat), 1 ≤ k.val → k.val ≤ 8 → a < 32 →
        inodeAt g m (some k) a = (block 4).getD (32 * (k.val - 1) + a) 0 := by
  have spec := initFs_spec (fresh_coherent (N := 307) (fun _ => none) (fun _ => 0)
    (fun _ => ⟨fun _ => 0, 0, 0⟩) (d := image block) rfl (image_quiet block)) (by decide)
    (Nat.pos_of_neZero 307) noGlobals
  have field : ∀ a < 1024, blockBytes (blockOf (image block).disk kSuperBlockBNO) a
      = smallSuper.getD a 0 := fun a less => by
    rw [blockBytes, blockOf_image, ← super]
    simp only [Fin.val_ofNat, Nat.mod_eq_of_lt less]
    rfl
  obtain ⟨inodes, zones, _, _⟩ := small_counts fun a less => field a (by omega)
  have fit : CountsFit (blockBytes (blockOf (image block).disk kSuperBlockBNO)) := by
    unfold CountsFit
    rw [inodes, zones]
    decide
  rw [if_pos fit] at spec
  obtain ⟨g, w, ran, coherent, _, loaded⟩ := spec
  obtain ⟨inodes, zones, imaps, zmaps⟩ := small_counts fun a less =>
    (loaded.super a less).trans (field a (by omega))
  have start : inodeStart g.g_super_block.bytes = 4 := by
    rw [inodeStart, imaps, zmaps]
    rfl
  have zmap : zmapStart g.g_super_block.bytes = 3 := by
    rw [zmapStart, imaps]
    rfl
  refine ⟨g, w, ran, coherent, ⟨inodes, zones, start, zmap⟩, fun m k a first last less => ?_⟩
  obtain ⟨index, number⟩ := Nat.exists_eq_add_of_le' first
  have place : 32 * index + a < sizeofDInode * num_inodes g.g_super_block.bytes := by
    rw [inodes, sizeofDInode]
    omega
  have byte := loaded.inodes (32 * index + a) place
  rw [start, records, regionByte, blockOf_image] at byte
  have quotient : (32 * index + a) / sizeofDInode = index := by
    rw [sizeofDInode]
    omega
  have remainder : (32 * index + a) % sizeofDInode = a := by
    rw [sizeofDInode]
    omega
  have oneBlock : (32 * index + a) / 1024 = 0 := by omega
  have offset : (32 * index + a) % 1024 = 32 * index + a := by omega
  rw [quotient, remainder, oneBlock, Fin.val_ofNat, offset] at byte
  have before : k.val - 1 = index := by omega
  rw [before]
  refine Eq.trans (congrArg g.g_inode_table.bytes ?_) byte
  rw [number, Nat.succ_mul, Nat.add_comm sizeofMInode]

theorem boots (size : UInt8) (entries : List UInt8) : ∃ g w, Booted size entries g w := by
  obtain ⟨g, w, ran, coherent, _, inodes⟩ := boots_small (rfl : rootImage size entries 1 = smallSuper)
  refine ⟨g, w, ran, coherent, fun m a less => ?_⟩
  have first : 32 * (kRootINO.val - 1) + a = a := Nat.zero_add a
  rw [inodes m kRootINO a (by decide) (by decide) less, first]

/-- The inode of a directory with one zone. -/
def dirInode (size zone : UInt8) : List UInt8 := [0, 0x40, 0, 0, size, 0, 0, 0, 0, 0, 0, 0, 0, 0, zone, 0]

theorem one_zone {inode : Memory} {size zone : UInt8}
    (known : ∀ a < 32, inode a = (dirInode size zone).getD a 0) (content : UInt32 → Block) :
    isDirectory (mode inode) = true ∧ numEntries inode = size.toNat / 32 ∧
      zoneBlock content inode 0 = UInt32.ofNat zone.toNat := by
  refine ⟨?_, ?_, ?_⟩
  · have low : (dirInode size zone).getD 0 0 = 0 := rfl
    have high : (dirInode size zone).getD (0 + 1) 0 = 0x40 := rfl
    unfold mode load16
    rw [known _ (by decide), known _ (by decide), low, high]
    decide
  · unfold numEntries Fs.size load32 load16
    rw [known _ (by decide), known _ (by decide), known _ (by decide), known _ (by decide)]
    rfl
  · have number : zoneBlock content inode 0 = zoneNumber inode 0 := rfl
    rw [number, zoneNumber, load16, known _ (by decide), known _ (by decide)]
    rfl

/-- The entries of a directory with one zone are those of its block. -/
theorem dirEntry_image {block : Nat → List UInt8} {dir : Memory} {bno : UInt32} (m : Elsewhere)
    (zone : zoneBlock (blockOf (image block).disk) dir 0 = bno) {j a : Nat} (inside : 32 * j + a < 1024)
    (small : j < 32) :
    dirEntry (blockOf (image block).disk) m dir j a = (block bno.toNat).getD (32 * j + a) 0 := by
  have inside' : 32 * j + a < kBlockSize := inside
  unfold dirEntry record
  rw [Nat.div_eq_of_lt small, Nat.mod_eq_of_lt small, if_pos inside', zone, blockBytes, blockOf_image,
    Fin.val_ofNat, Nat.mod_eq_of_lt inside]

theorem inodeOf_image {block : Nat → List UInt8} {dir : Memory} {bno : UInt32} (m : Elsewhere)
    (zone : zoneBlock (blockOf (image block).disk) dir 0 = bno) {j : Nat} (small : j < 32) :
    inodeOf (blockOf (image block).disk) m dir j
      = ((block bno.toNat).getD (32 * j) 0).toNat + 256 * ((block bno.toNat).getD (32 * j + 1) 0).toNat := by
  unfold inodeOf entryInode load16
  rw [dirEntry_image m zone (by omega) small, dirEntry_image m zone (by omega) small]
  rfl

section Booted

variable {size : UInt8} {entries : List UInt8} {g : Globals} {w : FsWorld 307}

theorem Booted.one_zone (booted : Booted size entries g w) (m : Elsewhere) :
    isDirectory (mode (inodeAt g m (some kRootINO))) = true ∧
      numEntries (inodeAt g m (some kRootINO)) = size.toNat / 32 ∧
      zoneBlock (blockOf (image (rootImage size entries)).disk) (inodeAt g m (some kRootINO)) 0 = 5 :=
  Fs.one_zone (booted.root m : ∀ a < 32, _ = (dirInode size 5).getD a 0) _

theorem Booted.isDir (booted : Booted size entries g w) (m : Elsewhere) :
    isDirectory (mode (inodeAt g m (some kRootINO))) = true := (booted.one_zone m).1

theorem Booted.numEntries_eq (booted : Booted size entries g w) (m : Elsewhere) :
    numEntries (inodeAt g m (some kRootINO)) = size.toNat / 32 := (booted.one_zone m).2.1

/-- The entries of the root directory are those of block 5. -/
theorem Booted.dirEntry_eq (booted : Booted size entries g w) (m : Elsewhere) {j a : Nat}
    (inside : 32 * j + a < 1024) (small : j < 32) :
    dirEntry (blockOf (image (rootImage size entries)).disk) m (inodeAt g m (some kRootINO)) j a
      = entries.getD (32 * j + a) 0 :=
  dirEntry_image m (booted.one_zone m).2.2 inside small

end Booted

end Sprite.Fs

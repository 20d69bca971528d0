/-
**Editing a file.**

The kernel lists the volume, writes a text over the first bytes of a file, sets the size of the file, and
saves.

* `editFile`, `testFs` — the edit.
* `PouredAll.reloaded` — what the next start loads of the tables.
* `Laid` — a volume where the file has its first block for itself, and no file lies in the tables.
* `Evolves`, `Edited` — what may change of a volume, and what an edit makes of it.
* `testFsWith_spec` — **`test_fs` makes an edit**, and leaves a volume that can be edited again.
-/
import Sprite.Fs.Reads

namespace Sprite.Fs

open Cache Ide

/-! ### The edit -/

/-- `node->size = n`. -/
def setSize (g : Globals) (node : Fin kNumInodes) (n : Nat) : Globals :=
  { g with g_inode_table := fun i =>
      if node.val * sizeofMInode + 4 ≤ i.val ∧ i.val < node.val * sizeofMInode + 8 then
        UInt8.ofNat (n / 256 ^ (i.val - (node.val * sizeofMInode + 4)))
      else g.g_inode_table i }

section Model

variable {N : Nat} [NeZero N]

/-- What `test_fs` does to the file that it has found, without what it prints. -/
def editFile (text : List UInt8) (g : Globals) (m : Elsewhere) (node : Fin kNumInodes) (w : FsWorld N) :
    Except Halt (Globals × FsWorld N) := do
  let (contents, w) ← readZone (inodeAt g m (some node)) 0 w
  let w := setBytes w contents
    (memcpy (w.cache.value contents).bytes 0 (fun a => text.getD a 0) 0 text.length)
  let g := setSize g node text.length
  let (_, w) ← called (writeBlock (zoneNumber (inodeAt g m (some node)) 0) w)
  return (g, w)

/-- `test_fs`, with its path and its text, without what it prints. `stack` is how deep the calls of
`list_entries` may go. -/
def testFsWith (path text : List UInt8) (stack : Nat) (g : Globals) (m : Elsewhere) (w : FsWorld N) :
    Except Halt (Globals × FsWorld N) := do
  let (_, w) ← listEntries g m stack kRootINO w
  let (node, w) ← namei g m path w
  let (g, w) ← match node with
    | some node => editFile text g m node w
    | none => return (g, w)
  let w ← syncAll g w
  return (g, w)

/-- `/test/test.txt` -/
def testPath : List UInt8 := [47, 116, 101, 115, 116, 47, 116, 101, 115, 116, 46, 116, 120, 116]

/-- `hello world`, with the character that terminates it. -/
def helloWorld : List UInt8 := [104, 101, 108, 108, 111, 32, 119, 111, 114, 108, 100, 0]

def testFs (stack : Nat) (g : Globals) (m : Elsewhere) (w : FsWorld N) : Except Halt (Globals × FsWorld N) :=
  testFsWith testPath helloWorld stack g m w

end Model

section Size

variable {g : Globals} {node k : Fin kNumInodes} {n a : Nat}

theorem nodeAt_apply (g : Globals) (k : Fin kNumInodes) (small : a < sizeofMInode) :
    ∃ inside : k.val * sizeofMInode + a < kNumInodes * sizeofMInode,
      nodeAt g k a = g.g_inode_table ⟨k.val * sizeofMInode + a, inside⟩ := by
  have below := k.isLt
  have inside : k.val * sizeofMInode + a < kNumInodes * sizeofMInode := by
    simp only [kNumInodes, sizeofMInode] at small below ⊢
    omega
  exact ⟨inside, dif_pos inside⟩

/-- Only the four bytes of the size change, in one record. -/
theorem nodeAt_setSize (small : a < sizeofMInode) : nodeAt (setSize g node n) k a
    = if k = node ∧ 4 ≤ a ∧ a < 8 then UInt8.ofNat (n / 256 ^ (a - 4)) else nodeAt g k a := by
  obtain ⟨inside, isByte⟩ := nodeAt_apply g k small
  obtain ⟨_, isByte'⟩ := nodeAt_apply (setSize g node n) k small
  rw [isByte, isByte', setSize]
  dsimp only
  by_cases here : k = node
  · subst here
    have offset : k.val * sizeofMInode + a - (k.val * sizeofMInode + 4) = a - 4 := by omega
    rw [offset]
    exact if_congr (by omega) rfl rfl
  · have apart : k.val ≠ node.val := fun same => here (Fin.ext same)
    have elsewhere : ¬ (node.val * sizeofMInode + 4 ≤ k.val * sizeofMInode + a
        ∧ k.val * sizeofMInode + a < node.val * sizeofMInode + 8) := by
      simp only [sizeofMInode] at small ⊢
      omega
    rw [if_neg elsewhere, if_neg fun both => here both.1]

/-- The rest of the record stays as it is. -/
theorem nodeAt_setSize_of_ne (small : a < sizeofMInode) (other : ¬ (4 ≤ a ∧ a < 8)) :
    nodeAt (setSize g node n) k a = nodeAt g k a := by
  rw [nodeAt_setSize small, if_neg fun both => other both.2]

theorem zoneNumber_setSize (g : Globals) (node k : Fin kNumInodes) (n : Nat) :
    zoneNumber (nodeAt (setSize g node n) k) 0 = zoneNumber (nodeAt g k) 0 := by
  unfold zoneNumber
  rw [load16_congr (nodeAt_setSize_of_ne (by decide) (by decide)) (nodeAt_setSize_of_ne (by decide) (by decide))]

theorem size_setSize (small : n < 2 ^ 32) : size (nodeAt (setSize g node n) node) = n := by
  have byte : ∀ a, 4 ≤ a → a < 8 →
      (nodeAt (setSize g node n) node a).toNat = n / 256 ^ (a - 4) % 256 := fun a from_ below => by
    rw [nodeAt_setSize (Nat.lt_trans below (by decide)), if_pos ⟨rfl, from_, below⟩]
    rfl
  unfold size load32 load16
  rw [byte 4 (by decide) (by decide), byte 5 (by decide) (by decide), byte 6 (by decide) (by decide),
    byte 7 (by decide) (by decide)]
  simp only [Nat.reduceSub, Nat.reducePow]
  omega

end Size

/-! ### The edit of the contents -/

section EditFile

variable {N : Nat} [NeZero N] {content : UInt32 → Block} {w : FsWorld N} {g : Globals}

/-- A block with another text at its beginning. -/
def patched (text : List UInt8) (data : Block) : Block := fun i =>
  if i.val < text.length then text.getD i.val 0 else data i

theorem data_patched {buff : BlockBuffer} {data : Block} (text : List UInt8) (same : buff.data = data) :
    (BlockBuffer.ofBytes (memcpy buff.bytes 0 (fun a => text.getD a 0) 0 text.length)).data
      = patched text data := by
  funext i
  have isByte : buff.bytes i.val = data i := by
    rw [BlockBuffer.bytes, dif_pos i.isLt, same]
  show memcpy buff.bytes 0 (fun a => text.getD a 0) 0 text.length i.val = _
  rw [memcpy_apply, isByte, patched]
  exact if_congr (by omega) (by rw [Nat.zero_add, Nat.sub_zero]) rfl

/-- **The edit writes the text to the file's first block**, on the disk too, and its length to the table. -/
theorem editFile_spec (two : 2 ≤ N) (coherent : Coherent w content) (clean : Clean w content)
    (text : List UInt8) (m : Elsewhere) (node : Fin kNumInodes) :
    ∃ w', editFile text g m node w = .ok (setSize g node text.length, w') ∧
      Coherent w' (Function.update content (zoneNumber (nodeAt g node) 0)
        (patched text (content (zoneNumber (nodeAt g node) 0)))) ∧
      Clean w' (Function.update content (zoneNumber (nodeAt g node) 0)
        (patched text (content (zoneNumber (nodeAt g node) 0)))) := by
  have positive : 0 < maxZones := by decide
  obtain ⟨contents, w₁, read, holds, coherent₁, _⟩ := readZone_spec (B := Set.univ) coherent two
    (inodeAt g m (some node)) positive fun b _ => Set.mem_univ b
  have clean₁ : Clean w₁ content :=
    (readZone_keeping (allows_clean two) (inodeAt g m (some node)) 0 ⟨coherent, clean⟩ _ _ read).2
  have holds₁ : w₁.cache.Holds (zoneNumber (nodeAt g node) 0) contents := holds
  have number : zoneNumber (inodeAt (setSize g node text.length) m (some node)) 0
      = zoneNumber (nodeAt g node) 0 := zoneNumber_setSize g node node text.length
  rw [editFile, read, ok_bind]
  dsimp only
  rw [number]
  generalize zoneNumber (nodeAt g node) 0 = bno at holds₁ ⊢
  obtain ⟨c, d⟩ := w₁
  have data := data_patched text (coherent₁.cached bno contents holds₁).2
  have coherent₂ := coherent₁.modify holds₁ (BlockBuffer.ofBytes
    (memcpy (c.value contents).bytes 0 (fun a => text.getD a 0) 0 text.length))
  rw [data] at coherent₂
  obtain ⟨q, d', ran, coherent', toward, written⟩ := coherent₂.write_cached holds₁
  refine ⟨_, ?_, coherent', fun k fits => ?_⟩
  · rw [setBytes, ran]
    rfl
  · by_cases here : k = bno
    · rw [here]
      exact written
    · refine (toward k).elim (fun stayed => ?_) id
      rw [Function.update_of_ne here]
      exact stayed.trans (clean₁ k fits)

end EditFile

/-! ### The tables at the next start -/

section Tables

variable {N : Nat} [NeZero N] {content content' : UInt32 → Block} {w w' : FsWorld N} {g g' : Globals}
  {k : Fin kNumInodes} {a : Nat}

/-- The records of the table, one behind the other, from inode 1 on. -/
theorem records_node (g : Globals) (first : 1 ≤ k.val) (small : a < sizeofDInode) :
    records g.g_inode_table.bytes sizeofMInode sizeofMInode sizeofDInode (sizeofDInode * (k.val - 1) + a)
      = nodeAt g k a := by
  have index : sizeofMInode + (k.val - 1) * sizeofMInode = k.val * sizeofMInode := by
    rw [Nat.sub_one_mul]
    exact Nat.add_sub_cancel' (Nat.le_mul_of_pos_left sizeofMInode first)
  rw [records, Nat.mul_add_div (by decide), Nat.div_eq_of_lt small, Nat.add_zero, Nat.mul_add_mod,
    Nat.mod_eq_of_lt small, index]
  rfl

theorem node_inside {count : Nat} (last : k.val ≤ count) (first : 1 ≤ k.val) (small : a < sizeofDInode) :
    sizeofDInode * (k.val - 1) + a < sizeofDInode * count := by
  simp only [sizeofDInode] at small ⊢
  omega

/-- An inode that has been loaded is on the disk. -/
theorem Loaded.node (loaded : Loaded content g) (first : 1 ≤ k.val)
    (last : k.val ≤ num_inodes g.g_super_block.bytes) (small : a < sizeofDInode) :
    nodeAt g k a = regionByte content (inodeStart g.g_super_block.bytes) (sizeofDInode * (k.val - 1) + a) := by
  rw [← records_node g first small]
  exact loaded.inodes _ (node_inside last first small)

/-- A block that no region touches is not written. -/
theorem PouredAll.untouched {rs : List Region} {b : UInt32} : ∀ {content content' : UInt32 → Block}
    {w w' : FsWorld N}, PouredAll rs content w content' w' →
    (∀ r ∈ rs, ∀ q, Touched r.len q → b ≠ r.start + UInt32.ofNat q) →
    blockOf w.outside.disk b = content b → blockOf w'.outside.disk b = content b := by
  induction rs with
  | nil =>
    rintro content content' w w' ⟨rfl, rfl⟩ _ settled
    exact settled
  | cons r rs ih =>
    rintro content content' w w' ⟨content₁, w₁, poured, rest⟩ apart settled
    obtain ⟨same, disk⟩ := poured.others b (apart r List.mem_cons_self)
    rw [← same] at disk settled ⊢
    exact ih rest (fun s member => apart s (List.mem_cons_of_mem r member))
      (disk.elim (fun stayed => stayed.trans settled) id)

/-- `sync_all` leaves the blocks that are not of the tables. -/
theorem PouredAll.data_blocks (pouredAll : PouredAll (syncRegions g) content w content' w')
    (clean : Clean w content) {b : UInt32} (fits : FitsDisk b)
    (isData : ¬ TableBlock g.g_super_block.bytes b) : blockOf w'.outside.disk b = content b := by
  refine pouredAll.untouched (fun r member q touched same => isData ⟨(r.start, r.len), ?_, q, touched, same⟩)
    (clean b fits)
  exact List.mem_map_of_mem (f := fun r : Region => (r.start, r.len)) member

/-- The bytes of the regions are on the disk. -/
theorem PouredAll.onDisk (pouredAll : PouredAll (syncRegions g) content w content' w')
    (fit : CountsFit g.g_super_block.bytes) (large : RegionsFit g.g_super_block.bytes) :
    ∀ r ∈ syncRegions g, ∀ a < r.len, regionByte (blockOf w'.outside.disk) r.start a = r.bytes a := by
  intro r member a inside
  obtain ⟨isByte, disk⟩ := pouredAll.saved (syncRegions_apart g fit large) r member a inside
  rw [← isByte, regionByte, disk]
  rfl

/-- **The next start loads the super block and the inodes** as they were saved. -/
theorem PouredAll.reloaded (pouredAll : PouredAll (syncRegions g) content w content' w')
    (fit : CountsFit g.g_super_block.bytes) (large : RegionsFit g.g_super_block.bytes) :
    CountsFit (blockBytes (blockOf w'.outside.disk kSuperBlockBNO)) ∧
      ∀ g', Loaded (blockOf w'.outside.disk) g' →
        (∀ a < 18, g'.g_super_block.bytes a = g.g_super_block.bytes a) ∧
        ∀ k : Fin kNumInodes, 1 ≤ k.val → k.val ≤ num_inodes g.g_super_block.bytes →
          ∀ a < sizeofDInode, nodeAt g' k a = nodeAt g k a := by
  have onDisk := pouredAll.onDisk fit large
  simp only [syncRegions, List.mem_cons, List.not_mem_nil, or_false, forall_eq_or_imp, forall_eq] at onDisk
  obtain ⟨superDisk, _, _, inodesDisk⟩ := onDisk
  have super : ∀ a < 18, blockBytes (blockOf w'.outside.disk kSuperBlockBNO) a
      = g.g_super_block.bytes a := by
    intro a inside
    have isByte := superDisk a (Nat.lt_trans inside (by decide))
    rw [records_packed, Nat.zero_add, regionByte, Nat.div_eq_of_lt (by omega), first_block] at isByte
    exact isByte
  refine ⟨?_, fun g' loaded => ?_⟩
  · obtain ⟨inodes, zones, _, _⟩ := fields_eq super
    rw [CountsFit, inodes, zones]
    exact fit
  have super' : ∀ a < 18, g'.g_super_block.bytes a = g.g_super_block.bytes a := fun a inside =>
    (loaded.super a (Nat.lt_trans inside (by decide))).trans (super a inside)
  obtain ⟨inodes, _, _, start⟩ := fields_eq super'
  refine ⟨super', fun k first last a small => ?_⟩
  rw [loaded.node first (by rwa [inodes]) small, start, inodesDisk _ (node_inside last first small),
    records_node g first small]

end Tables

/-! ### Volumes and what may change of them -/

/-- **A volume with a file that may be edited**: the tables lie where they should, the inodes below the
root are in the table, their blocks lie outside the tables, and the file has its first block for itself. -/
structure Laid (content : UInt32 → Block) (g : Globals) (node : Fin kNumInodes) : Prop
    extends Readable content g where
  fit : CountsFit g.g_super_block.bytes
  large : RegionsFit g.g_super_block.bytes
  numbered : ∀ k, Reachable content g nowhere k → 1 ≤ k.val ∧ k.val ≤ num_inodes g.g_super_block.bytes
  data : ∀ k, Reachable content g nowhere k → ∀ b, FileBlock content (nodeAt g k) b →
    ¬ TableBlock g.g_super_block.bytes b
  reachable : Reachable content g nowhere node
  isFile : ¬ IsDir g nowhere node
  nonempty : 0 < size (nodeAt g node)
  own : ∀ k zone, Reachable content g nowhere k → Used (nodeAt g k) zone →
    zoneNumber (nodeAt g node) 0 ∈ zoneBlocks content (nodeAt g k) zone → k = node ∧ zone = 0

/-- **Only the size of the file and its first block may have changed**, and it may have got shorter. -/
structure Evolves (content : UInt32 → Block) (g : Globals) (content' : UInt32 → Block) (g' : Globals)
    (node : Fin kNumInodes) : Prop where
  super : ∀ a < 18, g'.g_super_block.bytes a = g.g_super_block.bytes a
  others : ∀ k, Reachable content g nowhere k → k ≠ node → Kept content content' (nodeAt g k) (nodeAt g' k)
  record : ∀ a < sizeofDInode, ¬ (4 ≤ a ∧ a < 8) → nodeAt g' node a = nodeAt g node a
  nonempty : 0 < size (nodeAt g' node)
  used : ∀ zone, Used (nodeAt g' node) zone → Used (nodeAt g node) zone ∧
    zoneBlocks content' (nodeAt g' node) zone = zoneBlocks content (nodeAt g node) zone

/-- **What an edit makes of a volume.** -/
structure Edited (content : UInt32 → Block) (g : Globals) (content' : UInt32 → Block) (g' : Globals)
    (node : Fin kNumInodes) (text : List UInt8) : Prop extends Evolves content g content' g' node where
  length : size (nodeAt g' node) = text.length
  spelled : ∀ a < text.length, fileByte content' (nodeAt g' node) a = text.getD a 0

section Evolves

variable {content content' content'' : UInt32 → Block} {g g' g'' : Globals} {node k : Fin kNumInodes}
  {zone : Nat}

theorem SameTree.readable (same : SameTree content g content' g') (readable : Readable content g) :
    Readable content' g' := by
  refine ⟨fun k reachable isDir => ?_, fun k reachable isDir j below => ?_⟩
  all_goals
    have reachable₀ := (same.reachable_iff readable).mp reachable
    have isDir₀ := (same.isDir_iff reachable₀).mp isDir
    have entries : numEntries (nodeAt g' k) = numEntries (nodeAt g k) := same.entries reachable₀ isDir₀
  · rw [entries]
    exact readable.few k reachable₀ isDir₀
  · rw [entries] at below
    obtain ⟨i, less, zero⟩ := readable.terminated k reachable₀ isDir₀ j below
    refine ⟨i, less, ((same.dirs k reachable₀ isDir₀).dirEntry below
      (Nat.lt_of_lt_of_le below (readable.few k reachable₀ isDir₀)) ?_).trans zero⟩
    simp only [kNameLen] at less
    simp only [nameOffset, sizeofDirEntry]
    omega

namespace Evolves

theorem mode_eq (evolves : Evolves content g content' g' node) : mode (nodeAt g' node) = mode (nodeAt g node) :=
  load16_congr (evolves.record 0 (by decide) (by decide)) (evolves.record (0 + 1) (by decide) (by decide))

theorem zoneNumber_eq (evolves : Evolves content g content' g' node) {k : Nat} (small : k < 9) :
    zoneNumber (nodeAt g' node) k = zoneNumber (nodeAt g node) k := by
  unfold zoneNumber
  have bound : 14 + 2 * k + 1 < sizeofDInode := by
    simp only [sizeofDInode]
    omega
  rw [load16_congr (evolves.record _ (Nat.lt_of_succ_lt bound) (by omega)) (evolves.record _ bound (by omega))]

/-- The directories are as they were. -/
theorem sameTree (evolves : Evolves content g content' g' node) (isFile : ¬ IsDir g nowhere node) :
    SameTree content g content' g' := by
  refine ⟨fun k reachable isDir => evolves.others k reachable ?_, fun k reachable isFile' => ?_⟩
  · rintro rfl
    exact isFile isDir
  · show ¬ isDirectory (mode (nodeAt g' k)) = true
    by_cases here : k = node
    · rw [here, evolves.mode_eq]
      exact isFile
    · rw [(evolves.others k reachable here).mode_eq]
      exact isFile'

/-- Whatever zone is used has been used, and lies where it lay. -/
theorem used_of (evolves : Evolves content g content' g' node) (reachable : Reachable content g nowhere k)
    (used : Used (nodeAt g' k) zone) : Used (nodeAt g k) zone ∧
      zoneBlocks content' (nodeAt g' k) zone = zoneBlocks content (nodeAt g k) zone := by
  by_cases here : k = node
  · subst here
    exact evolves.used zone used
  · have kept := evolves.others k reachable here
    have used₀ := kept.used_iff.mp used
    exact ⟨used₀, kept.zoneBlocks used₀⟩

/-- **The volume can be edited again.** -/
theorem laid (evolves : Evolves content g content' g' node) (laid : Laid content g node) :
    Laid content' g' node := by
  have same := evolves.sameTree laid.isFile
  have back : ∀ k, Reachable content' g' nowhere k → Reachable content g nowhere k :=
    fun k => (same.reachable_iff laid.toReadable).mp
  obtain ⟨inodes, zones, zmap, inode⟩ := fields_eq evolves.super
  have imaps := congrArg UInt32.toNat zmap
  have zmaps := congrArg UInt32.toNat inode
  rw [zmapStart_toNat, zmapStart_toNat] at imaps
  rw [inodeStart_toNat, inodeStart_toNat] at zmaps
  refine ⟨same.readable laid.toReadable, ?_, ?_, fun k reachable => ?_, fun k reachable b isBlock => ?_,
    (same.reachable_iff laid.toReadable).mpr laid.reachable, same.files node laid.reachable laid.isFile,
    evolves.nonempty, fun k zone reachable used member => ?_⟩
  · rw [CountsFit, inodes, zones]
    exact laid.fit
  · have large := laid.large
    unfold RegionsFit at large ⊢
    omega
  · rw [inodes]
    exact laid.numbered k (back k reachable)
  · obtain ⟨zone, used, member⟩ := isBlock
    obtain ⟨used₀, sameBlocks⟩ := evolves.used_of (back k reachable) used
    rw [tableBlock_congr evolves.super]
    exact laid.data k (back k reachable) b ⟨zone, used₀, sameBlocks ▸ member⟩
  · obtain ⟨used₀, sameBlocks⟩ := evolves.used_of (back k reachable) used
    rw [sameBlocks, evolves.zoneNumber_eq (by decide)] at member
    exact laid.own k zone (back k reachable) used₀ member

theorem trans (evolves : Evolves content g content' g' node) (isFile : ¬ IsDir g nowhere node)
    (readable : Readable content g) (evolves' : Evolves content' g' content'' g'' node) :
    Evolves content g content'' g'' node := by
  have forth : ∀ k, Reachable content g nowhere k → Reachable content' g' nowhere k :=
    fun k => ((evolves.sameTree isFile).reachable_iff readable).mpr
  refine ⟨fun a small => (evolves'.super a small).trans (evolves.super a small),
    fun k reachable other =>
      (evolves.others k reachable other).trans (evolves'.others k (forth k reachable) other),
    fun a small other => (evolves'.record a small other).trans (evolves.record a small other),
    evolves'.nonempty, fun zone used => ?_⟩
  obtain ⟨used', same'⟩ := evolves'.used zone used
  obtain ⟨used₀, same⟩ := evolves.used zone used'
  exact ⟨used₀, same'.trans same⟩

end Evolves

/-- Tables loaded from one disk are the same. -/
theorem Loaded.evolves (loaded : Loaded content g) (loaded' : Loaded content g') (laid : Laid content g node) :
    Evolves content g content g' node := by
  have super : ∀ a < 18, g'.g_super_block.bytes a = g.g_super_block.bytes a := fun a small =>
    (loaded'.super a (Nat.lt_trans small (by decide))).trans
      (loaded.super a (Nat.lt_trans small (by decide))).symm
  obtain ⟨inodes, _, _, start⟩ := fields_eq super
  have kept : ∀ k, Reachable content g nowhere k → Kept content content (nodeAt g k) (nodeAt g' k) := by
    refine fun k reachable => ⟨fun a small => ?_, fun _ _ => rfl⟩
    obtain ⟨first, last⟩ := laid.numbered k reachable
    rw [loaded.node first last small, loaded'.node first (by rwa [inodes]) small, start]
  have keptNode := kept node laid.reachable
  refine ⟨super, fun k reachable _ => kept k reachable, fun a small _ => keptNode.record a small, ?_,
    fun zone used => ?_⟩
  · rw [keptNode.size_eq]
    exact laid.nonempty
  · have used₀ := keptNode.used_iff.mp used
    exact ⟨used₀, keptNode.zoneBlocks used₀⟩

end Evolves

/-! ### The whole of `test_fs` -/

/-- The blocks of the tables and of the directories are among these. -/
structure Covers (content : UInt32 → Block) (g : Globals) (K : Finset UInt32) : Prop where
  tables : ∀ b, TableBlock g.g_super_block.bytes b → b ∈ K
  dirs : ∀ k, Reachable content g nowhere k → IsDir g nowhere k → ∀ b, FileBlock content (nodeAt g k) b → b ∈ K

section TestFs

variable {N : Nat} [NeZero N] {content content' : UInt32 → Block} {w : FsWorld N} {g g' : Globals}
  {node : Fin kNumInodes} {m : Elsewhere} {K : Finset UInt32} {path text : List UInt8} {stack : Nat}

theorem Evolves.covers (evolves : Evolves content g content' g' node) (laid : Laid content g node)
    (covers : Covers content g K) : Covers content' g' K := by
  have same := evolves.sameTree laid.isFile
  refine ⟨fun b isTable => covers.tables b (tableBlock_congr evolves.super ▸ isTable), ?_⟩
  rintro k reachable isDir b ⟨zone, used, member⟩
  have reachable₀ := (same.reachable_iff laid.toReadable).mp reachable
  obtain ⟨used₀, sameBlocks⟩ := evolves.used_of reachable₀ used
  exact covers.dirs k reachable₀ ((same.isDir_iff reachable₀).mp isDir) b ⟨zone, used₀, sameBlocks ▸ member⟩

theorem Reached.reachable {k : Fin kNumInodes} (readable : Readable content g)
    (reached : Reached content g m k) : Reachable content g nowhere k := by
  suffices here : Reachable content g m k from ((SameTree.refl content g).reachable_iff readable).mp here
  induction reached with
  | root => exact .root
  | entry _ isDir below _ number _ ih => exact .entry ih isDir below number

/-- **With room for the tables and the directories `list_entries` comes back**, when the listing on the
image ends. -/
theorem listed (two : 2 ≤ N) (small : K.card ≤ N) (covers : Covers content g K) (readable : Readable content g)
    (ends : listing content g nowhere stack kRootINO = .ok ()) (coherent : Coherent w content)
    (known : ∀ k, Cached w k → k ∈ K) :
    ∃ w', listEntries g m stack kRootINO w = .ok ((), w') ∧ Coherent w' content := by
  have yields := listEntries_yields (m := m) two small (fun k reached isDir b isBlock => by
    obtain ⟨zone, near, used, member⟩ := isBlock
    refine covers.dirs k (reached.reachable readable) isDir b ⟨zone, ⟨near, ?_⟩, member⟩
    rcases used with rfl | used
    · exact .inr ⟨rfl, isDir⟩
    · have entries : numEntries (inodeAt g m (some k)) = size (nodeAt g k) / 32 := rfl
      exact .inl (by omega)) stack .root coherent known
  rw [(SameTree.refl content g).listing readable stack .root, ends] at yields
  obtain ⟨w', ran, coherent', _⟩ := yields
  exact ⟨w', ran, coherent'⟩

theorem size_congr {inode inode' : Memory} (same : ∀ a, 4 ≤ a → a < 8 → inode' a = inode a) :
    size inode' = size inode := by
  unfold size load32
  rw [load16_congr (same 4 (by decide) (by decide)) (same (4 + 1) (by decide) (by decide)),
    load16_congr (same (4 + 2) (by decide) (by decide)) (same (4 + 2 + 1) (by decide) (by decide))]

/-- **What the next start finds of an edit**, when the rest of the disk and of the tables is as it was. -/
theorem edited_of_saved (laid : Laid content g node) (nonempty : text ≠ []) (short : text.length ≤ 1024)
    (super : ∀ a < 18, g'.g_super_block.bytes a = g.g_super_block.bytes a)
    (inodes : ∀ k : Fin kNumInodes, 1 ≤ k.val → k.val ≤ num_inodes g.g_super_block.bytes →
      ∀ a < sizeofDInode, nodeAt g' k a = nodeAt (setSize g node text.length) k a)
    (blocks : ∀ b, FitsDisk b → ¬ TableBlock g.g_super_block.bytes b → content' b
      = Function.update content (zoneNumber (nodeAt g node) 0)
        (patched text (content (zoneNumber (nodeAt g node) 0))) b) :
    Edited content g content' g' node text := by
  have positive : 0 < text.length := List.length_pos_of_ne_nil nonempty
  have first : Used (nodeAt g node) 0 := ⟨by decide, .inl laid.nonempty⟩
  have firstBlock : zoneNumber (nodeAt g node) 0 ∈ zoneBlocks content (nodeAt g node) 0 :=
    List.mem_singleton_self _
  have atNode : ∀ a < sizeofDInode, nodeAt g' node a = nodeAt (setSize g node text.length) node a :=
    inodes node (laid.numbered node laid.reachable).1 (laid.numbered node laid.reachable).2
  have inRecord : ∀ {a}, a < sizeofDInode → a < sizeofMInode := fun small => Nat.lt_trans small (by decide)
  have record : ∀ a < sizeofDInode, ¬ (4 ≤ a ∧ a < 8) → nodeAt g' node a = nodeAt g node a :=
    fun a small other => (atNode a small).trans (nodeAt_setSize_of_ne (inRecord small) other)
  have length : size (nodeAt g' node) = text.length :=
    (size_congr fun a _ below => atNode a (Nat.lt_trans below (by decide))).trans
      (size_setSize (Nat.lt_of_le_of_lt short (by decide)))
  have number : zoneNumber (nodeAt g' node) 0 = zoneNumber (nodeAt g node) 0 := by
    unfold zoneNumber
    rw [load16_congr (record 14 (by decide) (by decide)) (record (14 + 1) (by decide) (by decide))]
  refine ⟨⟨super, fun k reachable other => ⟨fun a small => ?_, fun b isBlock => ?_⟩, record, ?_,
    fun zone used => ?_⟩, length, fun a inside => ?_⟩
  · obtain ⟨from_, last⟩ := laid.numbered k reachable
    rw [inodes k from_ last a small, nodeAt_setSize (inRecord small), if_neg fun both => other both.1]
  · obtain ⟨zone, used, member⟩ := id isBlock
    have apart : b ≠ zoneNumber (nodeAt g node) 0 := by
      rintro rfl
      exact other (laid.own k zone reachable used member).1
    rw [blocks b (fitsDisk_of_mem_zoneBlocks member) (laid.data k reachable b isBlock),
      Function.update_of_ne apart]
  · rwa [length]
  · have isFirst : zone = 0 := by
      rcases used.2 with inside | ⟨isFirst, _⟩
      · rw [length] at inside
        omega
      · exact isFirst
    subst isFirst
    exact ⟨first, congrArg (fun b => [b]) number⟩
  · have small : a < 1024 := Nat.lt_of_lt_of_le inside short
    have block : zoneBlock content' (nodeAt g' node) (a / 1024) = zoneNumber (nodeAt g node) 0 := by
      rw [Nat.div_eq_of_lt small, ← number]
      rfl
    unfold fileByte
    rw [block, blocks _ (fitsDisk_zoneNumber _ 0)
      (laid.data node laid.reachable _ ⟨0, first, firstBlock⟩), Function.update_self, blockBytes, patched,
      Fin.val_ofNat, Nat.mod_eq_of_lt small, if_pos inside]

/-- **`test_fs` makes an edit of the volume**, whatever the cache holds of it. -/
theorem testFsWith_spec (two : 2 ≤ N) (coherent : Coherent w content) (clean : Clean w content)
    (laid : Laid content g node) (null : ¬ isDirectory (mode m.null) = true)
    (ends : listing content g nowhere stack kRootINO = .ok ())
    (named : resolve content g nowhere (some kRootINO) path = .ok (some node)) (small : K.card ≤ N)
    (covers : Covers content g K) (known : ∀ k, Cached w k → k ∈ K) (nonempty : text ≠ [])
    (short : text.length ≤ 1024) :
    ∃ g₁ w', testFsWith (slash :: path) text stack g m w = .ok (g₁, w') ∧
      w'.outside.valid = 1 ∧ w'.outside.Quiet ∧
      CountsFit (blockBytes (blockOf w'.outside.disk kSuperBlockBNO)) ∧
      ∀ g', Loaded (blockOf w'.outside.disk) g' → Edited content g (blockOf w'.outside.disk) g' node text := by
  have allows : Allows (N := N) onDisk fun w => Coherent w content ∧ Clean w content := allows_clean two
  obtain ⟨w₁, ran₁, coherent₁⟩ := listed (m := m) two small covers laid.toReadable ends coherent known
  have clean₁ := (listEntries_keeping allows stack kRootINO ⟨coherent, clean⟩ _ _ ran₁).2
  have yields := nameiLoop_yields two g m path (some kRootINO) coherent₁
  rw [(SameTree.refl content g).resolve laid.toReadable null path (some kRootINO) (by rintro k ⟨⟩; exact .root),
    named] at yields
  obtain ⟨w₂, ran₂, coherent₂, _⟩ := yields
  have clean₂ := (nameiLoop_keeping allows path (some kRootINO) ⟨coherent₁, clean₁⟩ _ _ ran₂).2
  obtain ⟨w₃, ran₃, coherent₃, clean₃⟩ := editFile_spec two coherent₂ clean₂ text m node
  obtain ⟨content₄, w₄, ran₄, pouredAll⟩ := syncAll_spec coherent₃ two (setSize g node text.length) laid.fit
  obtain ⟨fit, reloaded⟩ := pouredAll.reloaded laid.fit laid.large
  have coherent₄ := pouredAll.coherent coherent₃
  refine ⟨setSize g node text.length, w₄, ?_, coherent₄.valid, coherent₄.quiet, fit, fun g' loaded => ?_⟩
  · have found : namei g m (slash :: path) w₁ = .ok (some node, w₂) := by
      rw [namei, if_pos rfl]
      exact ran₂
    simp only [testFsWith, ran₁, ok_bind, found]
    rw [ran₃, ok_bind]
    dsimp only
    rw [ran₄]
    rfl
  · obtain ⟨super, inodes⟩ := reloaded g' loaded
    exact edited_of_saved laid nonempty short super inodes
      fun b fits isData => pouredAll.data_blocks clean₃ fits isData

end TestFs

end Sprite.Fs

/-
**Starting again and again.**

At every start the kernel loads the volume and edits a file of it. The cache is empty then, and whatever
else lies in memory may be different each time.

* `boot`, `bootAll` — the file system from one start to the next one, and one start after the other.
* `Ready` — the invariant of the disk. `boot_spec` says that a start keeps it.
* `edit_survives_reboots` — **after any number of starts** the file holds the text, and every path and
  every other file are as they were before the first one.
* `helloVolume` — a volume with `/test/test.txt`.
-/
import Sprite.Fs.Editing

namespace Sprite.Fs

open Cache Ide

/-- What lies in memory when the kernel starts: in the nodes of the cache, and elsewhere. There is no
directory at address 0. -/
structure PowerOn where
  links : Ptr → Option Ptr
  key : Ptr → Key
  value : Ptr → BlockBuffer
  m : Elsewhere
  null : ¬ isDirectory (mode m.null) = true

/-- The file system from one start of the kernel to the next one: `init_fs` and `test_fs`. -/
def boot (N : Nat) [NeZero N] (path text : List UInt8) (stack : Nat) (d : Device) (on : PowerOn) :
    Except Halt Device := do
  let (g, w) ← initFs noGlobals ⟨LRUCache.fresh N on.links on.key on.value, d⟩
  let (_, w) ← testFsWith path text stack g on.m w
  return w.outside

/-- One start after the other. -/
def bootAll (N : Nat) [NeZero N] (path text : List UInt8) (stack : Nat) (d : Device) (ons : List PowerOn) :
    Except Halt Device :=
  ons.foldlM (boot N path text stack) d

section Boot

variable {N : Nat} [NeZero N] {content : UInt32 → Block} {g g' : Globals} {node : Fin kNumInodes}
  {d : Device} {K : Finset UInt32} {path text : List UInt8} {stack : Nat}

/-- **What holds of the disk at every start**: only the edited file has changed. -/
structure Ready (content : UInt32 → Block) (g : Globals) (node : Fin kNumInodes) (d : Device) : Prop where
  valid : d.valid = 1
  quiet : d.Quiet
  fit : CountsFit (blockBytes (blockOf d.disk kSuperBlockBNO))
  evolves : ∀ g', Loaded (blockOf d.disk) g' → Evolves content g (blockOf d.disk) g' node

/-- The disk is ready before the first start. -/
theorem Laid.ready (laid : Laid (blockOf d.disk) g node) (loaded : Loaded (blockOf d.disk) g)
    (valid : d.valid = 1) (quiet : d.Quiet) : Ready (blockOf d.disk) g node d := by
  obtain ⟨inodes, zones, _, _⟩ := fields_eq fun a (small : a < 18) =>
    loaded.super a (Nat.lt_trans small (by decide))
  refine ⟨valid, quiet, ?_, fun g' loaded' => loaded.evolves loaded' laid⟩
  rw [CountsFit, ← inodes, ← zones]
  exact laid.fit

/-- What `init_fs` loads, and that the disk has all of it. -/
theorem Ready.loads (ready : Ready content g node d) (two : 2 ≤ N) (on : PowerOn) :
    ∃ g' w', initFs noGlobals ⟨LRUCache.fresh N on.links on.key on.value, d⟩ = .ok (g', w') ∧
      Coherent w' (blockOf d.disk) ∧ Clean w' (blockOf d.disk) ∧ Loaded (blockOf d.disk) g' := by
  have spec := initFs_spec (fresh_coherent on.links on.key on.value ready.valid ready.quiet) two
    (Nat.pos_of_neZero N) noGlobals
  rw [if_pos ready.fit] at spec
  obtain ⟨g', w', ran, coherent, toward, loaded⟩ := spec
  have clean : Clean ⟨LRUCache.fresh N on.links on.key on.value, d⟩ (blockOf d.disk) := fun _ _ => rfl
  exact ⟨g', w', ran, coherent, clean.toward toward, loaded⟩

/-- **One start** makes an edit, and the disk is ready for the next one. -/
theorem boot_spec (two : 2 ≤ N) (laid : Laid content g node)
    (ends : listing content g nowhere stack kRootINO = .ok ())
    (named : resolve content g nowhere (some kRootINO) path = .ok (some node)) (small : K.card ≤ N)
    (covers : Covers content g K) (nonempty : text ≠ []) (short : text.length ≤ 1024)
    (ready : Ready content g node d) (on : PowerOn) :
    ∃ d', boot N (slash :: path) text stack d on = .ok d' ∧ Ready content g node d' ∧
      ∀ g', Loaded (blockOf d'.disk) g' → Edited content g (blockOf d'.disk) g' node text := by
  obtain ⟨g₁, w₁, ran₁, coherent₁, clean₁, loaded₁⟩ := ready.loads two on
  have evolves := ready.evolves g₁ loaded₁
  have same := evolves.sameTree laid.isFile
  have covers₁ := evolves.covers laid covers
  have ends₁ : listing (blockOf d.disk) g₁ nowhere stack kRootINO = .ok () :=
    (same.listing laid.toReadable stack .root).trans ends
  have named₁ : resolve (blockOf d.disk) g₁ nowhere (some kRootINO) path = .ok (some node) :=
    (same.resolve laid.toReadable (null_nowhere g₁) path _ fun k isRoot => by cases isRoot; exact .root).trans
      named
  obtain ⟨g₂, w₂, ran₂, valid, quiet, fit, edits⟩ := testFsWith_spec two coherent₁ clean₁ (evolves.laid laid)
    on.null ends₁ named₁ small covers₁ (fun k cached =>
      covers₁.tables k (initFs_cached two on.links on.key on.value ready.valid ready.quiet ran₁ k cached))
    nonempty short
  have edited : ∀ g', Loaded (blockOf w₂.outside.disk) g' →
      Edited content g (blockOf w₂.outside.disk) g' node text := fun g' loaded =>
    have edit := edits g' loaded
    ⟨evolves.trans laid.isFile laid.toReadable edit.toEvolves, edit.length, edit.spelled⟩
  refine ⟨w₂.outside, ?_, ⟨valid, quiet, fit, fun g' loaded => (edited g' loaded).toEvolves⟩, edited⟩
  rw [boot, ran₁, ok_bind]
  dsimp only
  rw [ran₂]
  rfl

/-- **What the next start finds**: every path leads where it led, the file has the text and its length, and
the other files have their sizes and their bytes. -/
structure Survives (N : Nat) [NeZero N] (content : UInt32 → Block) (g : Globals) (node : Fin kNumInodes)
    (text : List UInt8) (d : Device) (on : PowerOn) (g' : Globals) (w' : FsWorld N) : Prop where
  loads : initFs noGlobals ⟨LRUCache.fresh N on.links on.key on.value, d⟩ = .ok (g', w')
  paths : ∀ path, Yields (blockOf d.disk) Set.univ w' (namei g' on.m (slash :: path) w')
    (resolve content g nowhere (some kRootINO) path)
  length : size (nodeAt g' node) = text.length
  text : ∃ contents w'', readZone (nodeAt g' node) 0 w' = .ok (contents, w'') ∧
    ∀ a < text.length, (w''.cache.value contents).bytes a = text.getD a 0
  others : ∀ k, Reachable content g nowhere k → k ≠ node → mode (nodeAt g' k) = mode (nodeAt g k) ∧
    size (nodeAt g' k) = size (nodeAt g k) ∧
    ∀ a < size (nodeAt g k), a < 1024 * maxZones → ∃ contents w'',
      readZone (nodeAt g' k) (a / 1024) w' = .ok (contents, w'') ∧
      (w''.cache.value contents).bytes (a % 1024) = fileByte content (nodeAt g k) a

/-- A byte of a zone that is read. -/
theorem readZone_byte {w : FsWorld N} (two : 2 ≤ N) (coherent : Coherent w content) (inode : Memory) {a : Nat}
    (near : a < 1024 * maxZones) : ∃ contents w', readZone inode (a / 1024) w = .ok (contents, w') ∧
      (w'.cache.value contents).bytes (a % 1024) = fileByte content inode a := by
  obtain ⟨contents, w', ran, holds, coherent', _⟩ := readZone_spec (B := Set.univ) coherent two inode
    (Nat.div_lt_of_lt_mul near) fun b _ => Set.mem_univ b
  refine ⟨contents, w', ran, ?_⟩
  rw [bytes_eq (coherent'.cached _ contents holds).2 (Nat.mod_lt a (by decide)), fileByte, blockBytes,
    blockBytes]
  exact congrArg _ (Fin.ext (Nat.mod_mod a 1024))

theorem bytes_of_edited (edited : Edited content g (blockOf d.disk) g' node text) (two : 2 ≤ N)
    (short : text.length ≤ 1024) {w : FsWorld N} (coherent : Coherent w (blockOf d.disk)) :
    ∃ contents w', readZone (nodeAt g' node) 0 w = .ok (contents, w') ∧
      ∀ a < text.length, (w'.cache.value contents).bytes a = text.getD a 0 := by
  obtain ⟨contents, w', ran, holds, coherent', _⟩ := readZone_spec (B := Set.univ) coherent two
    (nodeAt g' node) (by decide : 0 < maxZones) fun b _ => Set.mem_univ b
  refine ⟨contents, w', ran, fun a inside => ?_⟩
  have small : a < 1024 := Nat.lt_of_lt_of_le inside short
  rw [bytes_eq (coherent'.cached _ contents holds).2 small, ← edited.spelled a inside, fileByte,
    Nat.div_eq_of_lt small]

/-- **The next start finds the edit.** -/
theorem Ready.survives (ready : Ready content g node d) (two : 2 ≤ N) (laid : Laid content g node)
    (short : text.length ≤ 1024)
    (edits : ∀ g', Loaded (blockOf d.disk) g' → Edited content g (blockOf d.disk) g' node text) (on : PowerOn) :
    ∃ g' w', Survives N content g node text d on g' w' := by
  obtain ⟨g', w', ran, coherent, _, loaded⟩ := ready.loads two on
  have edited := edits g' loaded
  have same := edited.toEvolves.sameTree laid.isFile
  refine ⟨g', w', ran, fun path => ?_, edited.length, bytes_of_edited edited two short coherent,
    fun k reachable other => ?_⟩
  · rw [← same.resolve laid.toReadable on.null path _ fun k isRoot => by cases isRoot; exact .root, namei,
      if_pos rfl]
    exact nameiLoop_yields two g' on.m path (some kRootINO) coherent
  · have kept := edited.others k reachable other
    refine ⟨kept.mode_eq, kept.size_eq, fun a inside near => ?_⟩
    rw [← kept.fileByte inside near]
    exact readZone_byte two coherent (nodeAt g' k) near

/-- **One start after the other.** -/
theorem bootAll_spec (two : 2 ≤ N) (laid : Laid content g node)
    (ends : listing content g nowhere stack kRootINO = .ok ())
    (named : resolve content g nowhere (some kRootINO) path = .ok (some node)) (small : K.card ≤ N)
    (covers : Covers content g K) (nonempty : text ≠ []) (short : text.length ≤ 1024) (ons : List PowerOn) :
    ∀ {d : Device}, Ready content g node d →
      (∀ g', Loaded (blockOf d.disk) g' → Edited content g (blockOf d.disk) g' node text) →
      ∃ d', bootAll N (slash :: path) text stack d ons = .ok d' ∧ Ready content g node d' ∧
        ∀ g', Loaded (blockOf d'.disk) g' → Edited content g (blockOf d'.disk) g' node text := by
  induction ons with
  | nil => exact fun ready edits => ⟨_, rfl, ready, edits⟩
  | cons on ons ih =>
    intro d ready _
    obtain ⟨d₁, ran₁, ready₁, edits₁⟩ :=
      boot_spec two laid ends named small covers nonempty short ready on
    obtain ⟨d', ran, ready', edits'⟩ := ih ready₁ edits₁
    refine ⟨d', ?_, ready', edits'⟩
    rw [bootAll, List.foldlM_cons, ran₁]
    exact ran

/-- **An edit survives any number of starts.** After the first one, and after every later one, the file has
the text and its length, every path leads where it led before, and every other file has what it had. -/
theorem edit_survives_reboots (two : 2 ≤ N) (valid : d.valid = 1) (quiet : d.Quiet)
    (loaded : Loaded (blockOf d.disk) g) (laid : Laid (blockOf d.disk) g node)
    (named : resolve (blockOf d.disk) g nowhere (some kRootINO) path = .ok (some node))
    (ends : Ends (blockOf d.disk) g nowhere kRootINO) (small : K.card ≤ N)
    (covers : Covers (blockOf d.disk) g K) (nonempty : text ≠ []) (short : text.length ≤ 1024) :
    ∃ depth, ∀ stack ≥ depth, ∀ on ons, ∃ d', bootAll N (slash :: path) text stack d (on :: ons) = .ok d' ∧
      ∀ on', ∃ g' w', Survives N (blockOf d.disk) g node text d' on' g' w' := by
  obtain ⟨depth, listed⟩ := ends.listing_eq
  refine ⟨depth, fun stack deep on ons => ?_⟩
  obtain ⟨d₁, ran₁, ready₁, edits₁⟩ := boot_spec two laid (listed stack deep) named small covers nonempty
    short (laid.ready loaded valid quiet) on
  obtain ⟨d', ran, ready', edits'⟩ := bootAll_spec two laid (listed stack deep) named small covers nonempty
    short ons ready₁ edits₁
  refine ⟨d', ?_, ready'.survives two laid short edits'⟩
  rw [bootAll, List.foldlM_cons, ran₁]
  exact ran

end Boot

/-! ### A volume with `/test/test.txt` -/

/-- A directory with one entry, in one block. -/
structure LoneDir (content : UInt32 → Block) (g : Globals) (k : Fin kNumInodes) (bno : UInt32)
    (name : List UInt8) (i : Fin kNumInodes) : Prop where
  isDir : IsDir g nowhere k
  one : numEntries (nodeAt g k) = 1
  blocks : ∀ b zone, Used (nodeAt g k) zone → b ∈ zoneBlocks content (nodeAt g k) zone → b = bno
  number : inodeOf content nowhere (nodeAt g k) 0 = i.val
  terminated : Terminated content (nodeAt g k)
  leads : ∀ rest, name <+: rest → found content nowhere (nodeAt g k) rest = .ok (some i)

theorem loneDir {block : Nat → List UInt8} {g : Globals} {k i : Fin kNumInodes} (zone : UInt8)
    {name : List UInt8} (known : ∀ a < 32, nodeAt g k a = (dirInode 32 zone).getD a 0)
    (entry : block zone.toNat = UInt8.ofNat i.val :: 0 :: name) (short : name.length < kNameLen)
    (nonzero : (0 : UInt8) ∉ name) :
    LoneDir (blockOf (image block).disk) g k (UInt32.ofNat zone.toNat) name i := by
  obtain ⟨isDir, entries, first⟩ := one_zone known (blockOf (image block).disk)
  have one : numEntries (nodeAt g k) = 1 := entries
  have small := zone.toNat_lt
  have number : (UInt32.ofNat zone.toNat).toNat = zone.toNat :=
    UInt32.toNat_ofNat_of_lt' (Nat.lt_trans small (by decide))
  have byte : ∀ a < 32, dirEntry (blockOf (image block).disk) nowhere (nodeAt g k) 0 a
      = (block zone.toNat).getD a 0 := fun a less => by
    rw [dirEntry_image nowhere first (by omega) (by decide), number, Nat.mul_zero, Nat.zero_add]
  have isName : ∀ j < 30, dirEntry (blockOf (image block).disk) nowhere (nodeAt g k) 0 (nameOffset + j)
      = name.getD j 0 := fun j less => by
    rw [byte _ (by unfold nameOffset; omega), entry, nameOffset, Nat.add_comm 2]
    rfl
  have ended : dirEntry (blockOf (image block).disk) nowhere (nodeAt g k) 0 (nameOffset + name.length) = 0 := by
    rw [isName _ short, List.getD_eq_default _ _ (Nat.le_refl _)]
  have isNumber : inodeOf (blockOf (image block).disk) nowhere (nodeAt g k) 0 = i.val := by
    have less := i.isLt
    have isByte : (UInt8.ofNat i.val).toNat = i.val := by
      simp only [kNumInodes] at less
      exact UInt8.toNat_ofNat_of_lt' (by simp only [UInt8.size]; omega)
    unfold inodeOf entryInode load16
    rw [byte 0 (by decide), byte (0 + 1) (by decide), entry]
    simp only [List.getD_cons_zero, List.getD_cons_succ, isByte]
    rfl
  refine ⟨isDir, one, fun b zone' used member => ?_, isNumber, fun j below => ?_, fun rest isPrefix => ?_⟩
  · have isFirst : zone' = 0 := by
      rcases used.2 with inside | ⟨isFirst, _⟩
      · have few : size (nodeAt g k) / 32 = 1 := one
        omega
      · exact isFirst
    subst isFirst
    rw [← first]
    exact List.mem_singleton.mp member
  · obtain rfl : j = 0 := by omega
    exact ⟨name.length, short, ended⟩
  · refine found_of_leads ⟨isDir, 0, by rw [one]; decide, ⟨?_, fun j less => absurd less (Nat.not_lt_zero j)⟩,
      isNumber⟩
    refine (strcmp_name nonzero (fun j inside => ?_) ended).mpr isPrefix
    rw [isName j (Nat.lt_trans inside short), List.getD_eq_getElem _ _ inside]

/-- The root directory with the directory `test`, and in it the file `test.txt`, which holds `bye`. -/
def helloImage : Nat → List UInt8
  | 1 => smallSuper
  | 4 => dirInode 32 5 ++ List.replicate 16 0 ++ dirInode 32 6 ++ List.replicate 16 0 ++
      [0, 0x80, 0, 0, 4, 0, 0, 0, 0, 0, 0, 0, 0, 0, 7, 0]
  | 5 => [2, 0, 116, 101, 115, 116]
  | 6 => [3, 0, 116, 101, 115, 116, 46, 116, 120, 116]
  | 7 => [98, 121, 101, 0]
  | _ => []

def helloVolume : Device := image helloImage

/-- The inode of `/test/test.txt`. -/
def helloNode : Fin kNumInodes := ⟨3, by decide⟩

/-- What `init_fs` loads of this volume. -/
structure Hello (g : Globals) : Prop where
  loaded : Loaded (blockOf helloVolume.disk) g
  counts : num_inodes g.g_super_block.bytes = 8 ∧ num_zones g.g_super_block.bytes = 8 ∧
    inodeStart g.g_super_block.bytes = 4 ∧ zmapStart g.g_super_block.bytes = 3
  nodes : ∀ (k : Fin kNumInodes) (a : Nat), 1 ≤ k.val → k.val ≤ 8 → a < 32 →
    nodeAt g k a = (helloImage 4).getD (32 * (k.val - 1) + a) 0

theorem hello_loads : ∃ g, Hello g := by
  obtain ⟨g, w, ran, _, counts, nodes⟩ := boots_small (rfl : helloImage 1 = smallSuper)
  have spec := initFs_spec (fresh_coherent (N := 307) (fun _ => none) (fun _ => 0)
    (fun _ => ⟨fun _ => 0, 0, 0⟩) (d := helloVolume) rfl (image_quiet helloImage)) (by decide)
    (Nat.pos_of_neZero 307) noGlobals
  have ran' : initFs noGlobals ⟨LRUCache.fresh 307 (fun _ => none) (fun _ => 0)
      fun _ => ⟨fun _ => 0, 0, 0⟩, helloVolume⟩ = .ok (g, w) := ran
  rw [ran'] at spec
  split at spec
  · obtain ⟨g', _, ⟨⟩, _, _, loaded⟩ := spec
    exact ⟨g, loaded, counts, nodes nowhere⟩
  · cases spec

section Hello

variable {g : Globals} {k : Fin kNumInodes} {b : UInt32}

theorem Hello.root (hello : Hello g) :
    LoneDir (blockOf helloVolume.disk) g kRootINO 5 [116, 101, 115, 116] ⟨2, by decide⟩ :=
  loneDir 5 (fun a less => by
    rw [hello.nodes kRootINO a (by decide) (by decide) less]
    exact (by decide : ∀ a < 32, (helloImage 4).getD (32 * (1 - 1) + a) 0 = (dirInode 32 5).getD a 0) a less)
    rfl (by decide) (by decide)

theorem Hello.inner (hello : Hello g) :
    LoneDir (blockOf helloVolume.disk) g ⟨2, by decide⟩ 6 [116, 101, 115, 116, 46, 116, 120, 116] helloNode :=
  loneDir 6 (fun a less => by
    rw [hello.nodes ⟨2, by decide⟩ a (by decide) (by decide) less]
    exact (by decide : ∀ a < 32, (helloImage 4).getD (32 * (2 - 1) + a) 0 = (dirInode 32 6).getD a 0) a less)
    rfl (by decide) (by decide)

theorem Hello.file (hello : Hello g) : ¬ IsDir g nowhere helloNode ∧ size (nodeAt g helloNode) = 4 ∧
    zoneNumber (nodeAt g helloNode) 0 = 7 := by
  have byte : ∀ a < 32, nodeAt g helloNode a = (helloImage 4).getD (32 * (3 - 1) + a) 0 :=
    fun a less => hello.nodes helloNode a (by decide) (by decide) less
  have word : ∀ a, a + 1 < 32 → load16 (nodeAt g helloNode) a
      = load16 (fun a => (helloImage 4).getD (32 * (3 - 1) + a) 0) a :=
    fun a less => load16_congr (byte a (by omega)) (byte (a + 1) less)
  refine ⟨?_, ?_, ?_⟩
  · show ¬ isDirectory (load16 (nodeAt g helloNode) 0) = true
    rw [word 0 (by decide)]
    decide
  · unfold size load32
    rw [word 4 (by decide), word (4 + 2) (by decide)]
    rfl
  · unfold zoneNumber
    rw [word (14 + 2 * 0) (by decide)]
    rfl

theorem Hello.reachable (hello : Hello g) (reachable : Reachable (blockOf helloVolume.disk) g nowhere k) :
    k = kRootINO ∨ k = ⟨2, by decide⟩ ∨ k = helloNode := by
  induction reachable with
  | root => exact .inl rfl
  | @entry dir i j _ isDir below number ih =>
    rcases ih with rfl | rfl | rfl
    · obtain rfl : j = 0 := Nat.lt_one_iff.mp (hello.root.one ▸ below)
      exact .inr (.inl (Fin.ext (number.symm.trans hello.root.number)))
    · obtain rfl : j = 0 := Nat.lt_one_iff.mp (hello.inner.one ▸ below)
      exact .inr (.inr (Fin.ext (number.symm.trans hello.inner.number)))
    · exact absurd isDir hello.file.1

theorem Hello.reaches (hello : Hello g) : Reachable (blockOf helloVolume.disk) g nowhere helloNode := by
  have inner : Reachable (blockOf helloVolume.disk) g nowhere ⟨2, by decide⟩ :=
    .entry .root hello.root.isDir (j := 0) (hello.root.one.symm ▸ Nat.one_pos) hello.root.number
  exact .entry inner hello.inner.isDir (j := 0) (hello.inner.one.symm ▸ Nat.one_pos) hello.inner.number

/-- The blocks of the directories are 5 and 6, and that of the file is 7. -/
theorem Hello.blocks (hello : Hello g) {zone : Nat}
    (reachable : Reachable (blockOf helloVolume.disk) g nowhere k) (used : Used (nodeAt g k) zone)
    (member : b ∈ zoneBlocks (blockOf helloVolume.disk) (nodeAt g k) zone) :
    IsDir g nowhere k ∧ (b = 5 ∨ b = 6) ∨ k = helloNode ∧ zone = 0 ∧ b = 7 := by
  rcases hello.reachable reachable with rfl | rfl | rfl
  · exact .inl ⟨hello.root.isDir, .inl (hello.root.blocks b zone used member)⟩
  · exact .inl ⟨hello.inner.isDir, .inr (hello.inner.blocks b zone used member)⟩
  · obtain ⟨isFile, size, number⟩ := hello.file
    have first : zone = 0 := by
      rcases used.2 with inside | ⟨first, _⟩
      · rw [size] at inside
        omega
      · exact first
    subst first
    exact .inr ⟨rfl, rfl, (List.mem_singleton.mp member).trans number⟩

/-- The tables are the blocks 1 to 4. -/
theorem Hello.tables (hello : Hello g) (isTable : TableBlock g.g_super_block.bytes b) :
    b ∈ ({1, 2, 3, 4} : Finset UInt32) := by
  obtain ⟨inodes, zones, start, zmap⟩ := hello.counts
  obtain ⟨t, member, q, touched, rfl⟩ := isTable
  have small : ∀ t ∈ tables g.g_super_block.bytes, t.2 ≤ 1024 ∧ t.1 ∈ ({1, 2, 3, 4} : Finset UInt32) := by
    rw [Fs.tables, inodes, zones, start, zmap]
    decide
  obtain ⟨few, inside⟩ := small t member
  have first : q = 0 := by
    rcases touched with first | later
    · exact first
    · omega
  rwa [first, first_block]

/-- The file of this volume may be edited. -/
theorem Hello.laid (hello : Hello g) : Laid (blockOf helloVolume.disk) g helloNode := by
  obtain ⟨inodes, zones, start, zmap⟩ := hello.counts
  have imaps := congrArg UInt32.toNat zmap
  have zmaps := congrArg UInt32.toNat start
  rw [zmapStart_toNat] at imaps
  rw [inodeStart_toNat] at zmaps
  have three : (3 : UInt32).toNat = 3 := rfl
  have four : (4 : UInt32).toNat = 4 := rfl
  refine ⟨⟨fun k reachable isDir => ?_, fun k reachable isDir => ?_⟩, ?_, ?_, fun k reachable => ?_,
    fun k reachable b isBlock isTable => ?_, hello.reaches, hello.file.1, ?_,
    fun k zone reachable used member => ?_⟩
  · rcases hello.reachable reachable with rfl | rfl | rfl
    · exact hello.root.one ▸ by decide
    · exact hello.inner.one ▸ by decide
    · exact absurd isDir hello.file.1
  · rcases hello.reachable reachable with rfl | rfl | rfl
    · exact hello.root.terminated
    · exact hello.inner.terminated
    · exact absurd isDir hello.file.1
  · rw [CountsFit, inodes, zones]
    decide
  · unfold RegionsFit
    omega
  · rw [inodes]
    rcases hello.reachable reachable with rfl | rfl | rfl <;> decide
  · obtain ⟨zone, used, member⟩ := isBlock
    have early := hello.tables isTable
    rcases hello.blocks reachable used member with ⟨_, rfl | rfl⟩ | ⟨_, _, rfl⟩
    all_goals exact absurd early (by decide)
  · rw [hello.file.2.1]
    decide
  · rw [hello.file.2.2] at member
    rcases hello.blocks reachable used member with ⟨_, impossible | impossible⟩ | ⟨isNode, first, _⟩
    · exact absurd impossible (by decide)
    · exact absurd impossible (by decide)
    · exact ⟨isNode, first⟩

theorem Hello.named (hello : Hello g) :
    resolve (blockOf helloVolume.disk) g nowhere (some kRootINO) testPath.tail = .ok (some helloNode) := by
  have delim : strfind testPath.tail slash = slash :: [116, 101, 115, 116, 46, 116, 120, 116] := by decide
  have first := hello.root.leads testPath.tail (by decide)
  have second := hello.inner.leads [116, 101, 115, 116, 46, 116, 120, 116] (by decide)
  rw [resolve_next delim]
  have found₁ : found (blockOf helloVolume.disk) nowhere (inodeAt g nowhere (some kRootINO)) testPath.tail
      = .ok (some ⟨2, by decide⟩) := first
  rw [found₁, ok_bind, resolve_last (strfind_none (by decide))]
  exact second

theorem Hello.ends (hello : Hello g) : Ends (blockOf helloVolume.disk) g nowhere kRootINO := by
  have inner : Ends (blockOf helloVolume.disk) g nowhere ⟨2, by decide⟩ := by
    refine .directory hello.inner.isDir (hello.inner.one ▸ by decide) (fun j below => ?_)
      fun j below i number _ => ?_
    all_goals obtain rfl : j = 0 := Nat.lt_one_iff.mp (hello.inner.one ▸ below)
    · exact hello.inner.number ▸ by decide
    · obtain rfl : i = helloNode := Fin.ext (number.symm.trans hello.inner.number)
      exact .file hello.file.1
  refine .directory hello.root.isDir (hello.root.one ▸ by decide) (fun j below => ?_)
    fun j below i number _ => ?_
  all_goals obtain rfl : j = 0 := Nat.lt_one_iff.mp (hello.root.one ▸ below)
  · exact hello.root.number ▸ by decide
  · obtain rfl : i = ⟨2, by decide⟩ := Fin.ext (number.symm.trans hello.root.number)
    exact inner

/-- **`hello world` is found** after any number of starts with this volume. -/
theorem hello_survives : ∃ g, Hello g ∧ ∃ depth, ∀ stack ≥ depth, ∀ on ons,
    ∃ d', bootAll 307 testPath helloWorld stack helloVolume (on :: ons) = .ok d' ∧
      ∀ on', ∃ g' w', Survives 307 (blockOf helloVolume.disk) g helloNode helloWorld d' on' g' w' := by
  obtain ⟨g, hello⟩ := hello_loads
  have covers : Covers (blockOf helloVolume.disk) g {1, 2, 3, 4, 5, 6} := by
    refine ⟨fun b isTable => ?_, fun k reachable isDir b isBlock => ?_⟩
    · exact Finset.mem_of_subset (by decide) (hello.tables isTable)
    · obtain ⟨zone, used, member⟩ := isBlock
      rcases hello.blocks reachable used member with ⟨_, rfl | rfl⟩ | ⟨rfl, _⟩
      · decide
      · decide
      · exact absurd isDir hello.file.1
  exact ⟨g, hello, edit_survives_reboots (d := helloVolume) (by decide) rfl (image_quiet helloImage)
    hello.loaded hello.laid hello.named hello.ends (by decide) covers (by decide) (by decide)⟩

end Hello

end Sprite.Fs

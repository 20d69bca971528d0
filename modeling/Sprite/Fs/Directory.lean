/-
**Inodes and directories**, after `src/lib/fs.cc` and `src/include/fs.h`.

A pointer to an inode is its number in `g_inode_table`, or null. Names and zone numbers are read from
the buffers of blocks, and a name that is not terminated runs on behind its buffer.

* `readZone` — a zone of an inode through up to two levels of index blocks.
* `traverseDir` — the loop over the entries of a directory, with a callback.
* `findEntry`, `namei` — one name, and a whole path.
* `listEntries` — the tree below a directory.
-/
import Sprite.Fs.Metadata

namespace Sprite.Fs

open Cache Ide

def kRootINO : Fin kNumInodes := ⟨1, by decide⟩
def kZoneSize : Nat := 1024
def sizeofDirEntry : Nat := 32
def slash : UInt8 := 47
def dot : UInt8 := 46

/-- Memory that belongs to no variable: what is read through a null pointer, and what lies behind the
1024 bytes of the buffer of a block. It stays as it is during a walk. -/
structure Elsewhere where
  null : Memory
  behind : UInt32 → Memory

/-! ### Inodes -/

/-- A `uint32_t` of a packed record. -/
def load32 (mem : Memory) (a : Nat) : Nat := load16 mem a + 65536 * load16 mem (a + 2)

def mode (inode : Memory) : Nat := load16 inode 0
def size (inode : Memory) : Nat := load32 inode 4
def zoneNumber (inode : Memory) (k : Nat) : UInt32 := UInt32.ofNat (load16 inode (14 + 2 * k))

def isDirectory (mode : Nat) : Bool := mode &&& 0o170000 == 0o040000

/-- `m_inode*`. -/
abbrev InodePtr := Option (Fin kNumInodes)

/-- `g_inode_table + k`, which has to be an inode of the table. -/
def inodeTable (k : Nat) : Except Halt (Fin kNumInodes) :=
  if inside : k < kNumInodes then .ok ⟨k, inside⟩ else .error .outside

/-- The inode where a pointer leads to, from its first byte on. -/
def inodeAt (g : Globals) (m : Elsewhere) : InodePtr → Memory
  | some k => fun a => g.g_inode_table.bytes (k.val * sizeofMInode + a)
  | none => m.null

variable {N : Nat} [NeZero N]

/-! ### Zones -/

/-- `zones[k]`, which has to be one of the zone numbers of an index block. -/
def zoneIndex (zones : BlockBuffer) (k : Nat) : Except Halt UInt32 :=
  if k < 512 then .ok (UInt32.ofNat (load16 zones.bytes (2 * k))) else .error .outside

def readZone (inode : Memory) (zone : Nat) (w : FsWorld N) : Except Halt (Ptr × FsWorld N) :=
  if zone < 7 then called (readBlock (some uncache) (zoneNumber inode zone) w)
  else if zone < 7 + 512 then do
    let (zones, w) ← called (readBlock (some uncache) (zoneNumber inode 7) w)
    let bno ← zoneIndex (w.cache.value zones) (zone - 7)
    called (readBlock (some uncache) bno w)
  else do
    let (zoneTable, w) ← called (readBlock (some uncache) (zoneNumber inode 8) w)
    let bno ← zoneIndex (w.cache.value zoneTable) ((zone - (7 + 512)) / 512)
    let (zones, w) ← called (readBlock (some uncache) bno w)
    let bno ← zoneIndex (w.cache.value zones) ((zone - (7 + 512)) % 512)
    called (readBlock (some uncache) bno w)

/-! ### Entries -/

/-- The memory from `entry` on, which counts from the beginning of the buffer `zone`. -/
def entryBytes (m : Elsewhere) (w : FsWorld N) (zone : Ptr) (entry : Nat) : Memory := fun a =>
  if entry + a < kBlockSize then (w.cache.value zone).bytes (entry + a)
  else m.behind (w.cache.key zone) (entry + a)

/-- `entry->inode`. -/
def entryInode (entry : Memory) : Nat := load16 entry 0

/-- Where `entry->name` begins. -/
def nameOffset : Nat := 2

/-- A callback of `traverse_dir`, for the entry at this place of this buffer. -/
abbrev EntryCallback (N : Nat) := Ptr → Nat → FsWorld N → Except Halt (Bool × FsWorld N)

/-- Where the traversal goes on: in the next zone when this one ends here. -/
def nextZone (dir : Memory) (zoneCnt : Nat) (zone : Ptr) (entry : Nat) (w : FsWorld N) :
    Except Halt (Nat × Ptr × Nat × FsWorld N) :=
  if kZoneSize ≤ entry then do
    let (zone, w) ← readZone dir (zoneCnt + 1) w
    return (zoneCnt + 1, zone, 0, w)
  else return (zoneCnt, zone, entry, w)

/-- The loop of `traverse_dir`, for the entries still to be visited. -/
def traverseEntries (dir : Memory) (m : Elsewhere) (cb : EntryCallback N) :
    Nat → Nat → Ptr → Nat → FsWorld N → Except Halt (InodePtr × FsWorld N)
  | 0, _, _, _, w => return (none, w)
  | numEntries + 1, zoneCnt, zone, entry, w => do
    let (zoneCnt, zone, entry, w) ← nextZone dir zoneCnt zone entry w
    let (stop, w) ← cb zone entry w
    if stop then
      let inode ← inodeTable (entryInode (entryBytes m w zone entry))
      return (some inode, w)
    else traverseEntries dir m cb numEntries zoneCnt zone (entry + sizeofDirEntry) w

def traverseDir (dir : Memory) (m : Elsewhere) (cb : EntryCallback N) (w : FsWorld N) :
    Except Halt (InodePtr × FsWorld N) :=
  if isDirectory (mode dir) then do
    let (zone, w) ← readZone dir 0 w
    traverseEntries dir m cb (size dir / sizeofDirEntry) 0 zone 0 w
  else return (none, w)

/-! ### Names and paths -/

/-- The callback of `find_entry`. -/
def compareName (m : Elsewhere) (name : List UInt8) : EntryCallback N := fun zone entry w =>
  return (strcmp (entryBytes m w zone entry) nameOffset name == 0, w)

def findEntry (g : Globals) (m : Elsewhere) (dir : InodePtr) (name : List UInt8) (w : FsWorld N) :
    Except Halt (InodePtr × FsWorld N) :=
  if isDirectory (mode (inodeAt g m dir)) then
    traverseDir (inodeAt g m dir) m (compareName m name) w
  else return (none, w)

/-- The loop of `namei`, from the component that `path` begins with. -/
def nameiLoop (g : Globals) (m : Elsewhere) (inode : InodePtr) (path : List UInt8) (w : FsWorld N) :
    Except Halt (InodePtr × FsWorld N) :=
  match _delim : strfind path slash with
  | [] => findEntry g m inode path w
  | _ :: path' => do
    let (inode, w) ← findEntry g m inode path w
    nameiLoop g m inode path' w
termination_by path.length
decreasing_by
  have bound := length_strfind path slash
  rw [_delim] at bound
  exact bound

/-- The assertion on the first character stops the kernel when it fails. -/
def namei (g : Globals) (m : Elsewhere) (path : List UInt8) (w : FsWorld N) :
    Except Halt (InodePtr × FsWorld N) :=
  match path with
  | [] => .error .stopped
  | ch :: path => if ch = slash then nameiLoop g m (some kRootINO) path w else .error .stopped

/-! ### The tree below a directory -/

/-- The callback of `list_entries`, with the call for the entry's own inode. -/
def listEntry (m : Elsewhere) (list : Fin kNumInodes → FsWorld N → Except Halt (Unit × FsWorld N)) :
    EntryCallback N := fun zone entry w => do
  let node ← inodeTable (entryInode (entryBytes m w zone entry))
  if entryBytes m w zone entry nameOffset ≠ dot then
    let (_, w) ← list node w
    return (false, w)
  else return (false, w)

/-- `list_entries`, without what it prints. `stack` is how many of its calls the stack has room for:
one more ends the kernel. -/
def listEntries (g : Globals) (m : Elsewhere) :
    Nat → Fin kNumInodes → FsWorld N → Except Halt (Unit × FsWorld N)
  | 0, _, _ => .error .stopped
  | stack + 1, inode, w =>
    if isDirectory (mode (inodeAt g m (some inode))) then do
      let (_, w) ← traverseDir (inodeAt g m (some inode)) m (listEntry m (listEntries g m stack)) w
      return ((), w)
    else return ((), w)

end Sprite.Fs

/-
**The metadata of the file system**, after `src/lib/fs.cc` and `src/include/fs.h`.

`init_fs` copies the super block, the inode table and the two bitmaps from the blocks of the disk into
global arrays, and `sync_all` copies them back. The arrays are their bytes, so that the copy loops can
be followed with their strides: an inode takes 56 bytes in memory and 32 on the disk.

* `Halt` — the kernel stops, or bytes outside an array are reached.
* `readBlocks`, `writeBlocks` — the two copy loops.
* `initFs`, `syncAll` — after the super block has told where everything is.
-/
import Sprite.Fs.Bitmap
import Sprite.Fs.Block
import Sprite.Fs.Strings

namespace Sprite.Fs

open Cache Ide

/-- How a function ends that does not come back: the kernel stops in it, or it reads or writes
outside an array. -/
inductive Halt where
  | stopped
  | outside
  deriving DecidableEq

/-- A call that comes back, or stops the kernel. -/
def called {α : Type} : Option α → Except Halt α
  | some result => .ok result
  | none => .error .stopped

@[simp] theorem called_some {α : Type} (result : α) : called (some result) = .ok result := rfl

@[simp] theorem ok_bind {α β : Type} (result : α) (rest : α → Except Halt β) :
    (.ok result >>= rest) = rest result := rfl

@[simp] theorem error_bind {α β : Type} (halt : Halt) (rest : α → Except Halt β) :
    (.error halt >>= rest) = .error halt := rfl

theorem bind_eq_ok {α β : Type} {first : Except Halt α} {rest : α → Except Halt β} {result : β}
    (ran : (first >>= rest) = .ok result) : ∃ a, first = .ok a ∧ rest a = .ok result := by
  cases first with
  | error halt => cases ran
  | ok a => exact ⟨a, rfl, ran⟩

theorem called_eq_ok {α : Type} {result : Option α} {a : α} (ran : called result = .ok a) :
    result = some a := by
  cases result with
  | none => cases ran
  | some b =>
    cases ran
    rfl

/-! ### The arrays -/

def kNumInodes : Nat := 128
def sizeofDInode : Nat := 32
def sizeofMInode : Nat := 56
def sizeofSuperBlock : Nat := 39
def sizeofDSuperBlock : Nat := 20

/-- The bytes of an array or a record. -/
abbrev Area (n : Nat) := Fin n → UInt8

namespace Area

variable {n : Nat}

/-- The array as memory, from its first byte on. -/
def bytes (area : Area n) : Memory := fun a => if inside : a < n then area ⟨a, inside⟩ else 0

/-- `memcpy` into the array. -/
def copyIn (area : Area n) (dst : Nat) (mem : Memory) (src size : Nat) : Except Halt (Area n) :=
  if dst + size ≤ n then .ok fun i => memcpy area.bytes dst mem src size i
  else .error .outside

/-- `memcpy` out of the array. -/
def copyOut (area : Area n) (src : Nat) (mem : Memory) (dst size : Nat) : Except Halt Memory :=
  if src + size ≤ n then .ok (memcpy mem dst area.bytes src size)
  else .error .outside

end Area

/-- The global variables. -/
structure Globals where
  g_super_block : Area sizeofSuperBlock
  g_inode_table : Area (kNumInodes * sizeofMInode)
  g_imap : Bitmap 128
  g_zmap : Bitmap 10240

/-- A `uint16_t` of a packed record. -/
def load16 (mem : Memory) (a : Nat) : Nat := (mem a).toNat + 256 * (mem (a + 1)).toNat

/-! ### The super block -/

def num_inodes (sb : Memory) : Nat := load16 sb 0
def num_zones (sb : Memory) : Nat := load16 sb 2
def num_imap_blocks (sb : Memory) : Nat := load16 sb 4
def num_zmap_blocks (sb : Memory) : Nat := load16 sb 6

def imapStart : UInt32 := 2
def zmapStart (sb : Memory) : UInt32 := UInt32.ofNat (2 + num_imap_blocks sb)
def inodeStart (sb : Memory) : UInt32 := UInt32.ofNat (2 + num_imap_blocks sb + num_zmap_blocks sb)

variable {N : Nat} [NeZero N]

/-! ### The copy loops

`block` is the buffer of the block being copied, and `src` and `dst` count from its beginning or from
that of the array. -/

/-- Where the source of `read_blocks` goes on: in the next block when this one ends here. -/
def nextSource (startBno : UInt32) (block : Ptr) (src : Nat) (w : FsWorld N) :
    Except Halt (UInt32 × Ptr × Nat × FsWorld N) :=
  if kBlockSize ≤ src then do
    let (block, w) ← called (readBlock (some uncache) (startBno + 1) w)
    return (startBno + 1, block, 0, w)
  else return (startBno, block, src, w)

/-- The loop of `read_blocks`, for the items still to be copied. -/
def readItems {n : Nat} (input output size : Nat) : Nat → UInt32 → Ptr → Nat → Area n → Nat →
    FsWorld N → Except Halt (Area n × FsWorld N)
  | 0, _, _, _, area, _, w => return (area, w)
  | count + 1, startBno, block, src, area, dst, w => do
    let (startBno, block, src, w) ← nextSource startBno block src w
    let area ← area.copyIn dst (w.cache.value block).bytes src size
    readItems input output size count startBno block (src + input) area (dst + output) w

/-- `read_blocks<Input, Output>`, with the sizes of the two types. `read_block` never answers null. -/
def readBlocks {n : Nat} (input output : Nat) (startBno : UInt32) (area : Area n) (dst : Nat)
    (count size : Nat) (w : FsWorld N) : Except Halt (Area n × FsWorld N) := do
  let (block, w) ← called (readBlock (some uncache) startBno w)
  readItems input output size count startBno block 0 area dst w

/-- Where the target of `write_blocks` goes on: when a block ends, it is written. -/
def nextTarget (outputBno : UInt32) (block : Ptr) (dst : Nat) (w : FsWorld N) :
    Except Halt (UInt32 × Ptr × Nat × FsWorld N) :=
  if kBlockSize ≤ dst then do
    let (_, w) ← called (writeBlock outputBno w)
    let (block, w) ← called (getBlock (some uncache) (outputBno + 1) w)
    return (outputBno + 1, block, 0, w)
  else return (outputBno, block, dst, w)

/-- Bytes put into a buffer. -/
def setBytes (w : FsWorld N) (block : Ptr) (mem : Memory) : FsWorld N :=
  { w with cache := { w.cache with
    value := Function.update w.cache.value block (BlockBuffer.ofBytes mem) } }

/-- The loop of `write_blocks`, for the items still to be copied. -/
def writeItems {n : Nat} (input output size : Nat) (area : Area n) : Nat → Nat → UInt32 → Ptr → Nat →
    FsWorld N → Except Halt (UInt32 × FsWorld N)
  | 0, _, outputBno, _, _, w => return (outputBno, w)
  | count + 1, src, outputBno, block, dst, w => do
    let (outputBno, block, dst, w) ← nextTarget outputBno block dst w
    let mem ← area.copyOut src (w.cache.value block).bytes dst size
    writeItems input output size area count (src + input) outputBno block (dst + output)
      (setBytes w block mem)

/-- `write_blocks<Input, Output>`, with the sizes of the two types. `get_block` never answers null. -/
def writeBlocks {n : Nat} (input output : Nat) (area : Area n) (src : Nat) (outputBno : UInt32)
    (count size : Nat) (w : FsWorld N) : Except Halt (FsWorld N) := do
  let (block, w) ← called (getBlock (some uncache) outputBno w)
  let (outputBno, w) ← writeItems input output size area count src outputBno block 0 w
  let (_, w) ← called (writeBlock outputBno w)
  return w

/-! ### Loading and saving -/

def initFs (g : Globals) (w : FsWorld N) : Except Halt (Globals × FsWorld N) := do
  let (block, w) ← called (readBlock none kSuperBlockBNO w)
  let super ← g.g_super_block.copyIn 0 (w.cache.value block).bytes 0 sizeofSuperBlock
  let sb := super.bytes
  let (inodes, w) ← readBlocks sizeofDInode sizeofMInode (inodeStart sb) g.g_inode_table sizeofMInode
    (num_inodes sb) sizeofDInode w
  let (imap, w) ← readBlocks 1 1 imapStart g.g_imap.data_ 0 (num_inodes sb / 8) 1 w
  let (zmap, w) ← readBlocks 1 1 (zmapStart sb) g.g_zmap.data_ 0 (num_zones sb / 8) 1 w
  return (⟨super, inodes, ⟨imap⟩, ⟨zmap⟩⟩, w)

def syncSuperBlock (g : Globals) (w : FsWorld N) : Except Halt (FsWorld N) := do
  let (block, w) ← called (getBlock (some uncache) kSuperBlockBNO w)
  let mem ← g.g_super_block.copyOut 0 (w.cache.value block).bytes 0 sizeofDSuperBlock
  let (_, w) ← called (writeBlock kSuperBlockBNO (setBytes w block mem))
  return w

def syncImap (g : Globals) (w : FsWorld N) : Except Halt (FsWorld N) :=
  writeBlocks 1 1 g.g_imap.data_ 0 imapStart (num_inodes g.g_super_block.bytes / 8) 1 w

def syncZmap (g : Globals) (w : FsWorld N) : Except Halt (FsWorld N) :=
  writeBlocks 1 1 g.g_zmap.data_ 0 (zmapStart g.g_super_block.bytes)
    (num_zones g.g_super_block.bytes / 8) 1 w

def syncInodes (g : Globals) (w : FsWorld N) : Except Halt (FsWorld N) :=
  writeBlocks sizeofMInode sizeofDInode g.g_inode_table sizeofMInode
    (inodeStart g.g_super_block.bytes) (num_inodes g.g_super_block.bytes) sizeofDInode w

def syncAll (g : Globals) (w : FsWorld N) : Except Halt (FsWorld N) := do
  let w ← syncSuperBlock g w
  let w ← syncImap g w
  let w ← syncZmap g w
  syncInodes g w

end Sprite.Fs

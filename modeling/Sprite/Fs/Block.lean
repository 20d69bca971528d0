/-
**The block layer**, after `src/lib/fs.cc` and `src/include/fs.h`.

`get_block`, `read_block` and `write_block` over the cache of blocks and the disk, and the callback
`uncache`, which goes back into the cache through `write_block` while a block is being evicted. The
cache is the one of the code with its 307 nodes replaced by `N`.
-/
import Sprite.Cache.LRUCache
import Sprite.Ide.Driver

namespace Sprite.Fs

open Cache Ide

def kBlockSize : Nat := 1024
def kBlockSectorFactor : UInt32 := 2
def kSuperBlockBNO : UInt32 := 1

structure BlockBuffer where
  data : Fin 1024 → UInt8
  count : UInt8
  lock : UInt8

/-- The buffer as memory, from its first byte on. -/
def BlockBuffer.bytes (buff : BlockBuffer) : Memory := fun a =>
  if inside : a < 1024 then buff.data ⟨a, inside⟩
  else if a = 1024 then buff.count
  else if a = 1025 then buff.lock
  else 0

/-- The buffer that memory holds. -/
def BlockBuffer.ofBytes (mem : Memory) : BlockBuffer where
  data := fun i => mem i
  count := mem 1024
  lock := mem 1025

/-- The block cache and the device behind it. -/
abbrev FsWorld (N : Nat) := World BlockBuffer N Device

def blockToSector (bno : UInt32) : UInt32 := bno * kBlockSectorFactor

variable {N : Nat} [NeZero N]

def getBlock (cb_ : Option (UncacheCallback BlockBuffer N Device)) (bno : UInt32) (w : FsWorld N) :
    Option (Ptr × FsWorld N) := do
  let (buff, w) ← w.Get bno
  match buff with
  | some buff => return (buff, w)
  | none => w.Alloc cb_ bno

/-- The call of `ide_read_secs` into a buffer. Its return value is not looked at. -/
def fill (bno : UInt32) (buff : Ptr) (w : FsWorld N) : Option (FsWorld N) := do
  let (_, mem, d) ← ideReadSecs (blockToSector bno) 0 (blockToSector 1)
    (w.cache.value buff).bytes w.outside
  return ⟨{ w.cache with
    value := Function.update w.cache.value buff (BlockBuffer.ofBytes mem) }, d⟩

def readBlock (cb_ : Option (UncacheCallback BlockBuffer N Device)) (bno : UInt32) (w : FsWorld N) :
    Option (Ptr × FsWorld N) := do
  let (buff, w) ← w.Get bno
  match buff with
  | some buff => return (buff, w)
  | none => do
    let (buff, w) ← w.Alloc cb_ bno
    let w ← fill bno buff w
    return (buff, w)

def writeBlock (bno : UInt32) (w : FsWorld N) : Option (Bool × FsWorld N) := do
  let (buff, w) ← w.Get bno
  match buff with
  | some buff => do
    let (_, d) ← ideWriteSecs (blockToSector bno) 0 (blockToSector 1)
      (w.cache.value buff).bytes w.outside
    return (true, { w with outside := d })
  | none => return (false, w)

/-- The callback for the cache. -/
def uncache : UncacheCallback BlockBuffer N Device := fun bno _ w => do
  let (_, w) ← writeBlock bno w
  return w

/-- `init_fs` up to where it installs the callback: the super block has been read. -/
def beforeInstall (w : FsWorld N) : Option (FsWorld N) := do
  let (_, w) ← readBlock none kSuperBlockBNO w
  return w

end Sprite.Fs

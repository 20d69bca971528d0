/-
**The LRU cache**, after `src/include/lrucache.hpp`.

A node carries a key, a value and two links. All nodes are kept as one function per field, so that a
write through a pointer is `Function.update`; a null pointer is `none`. Functions answer `none` where
the code does not come back: an assertion fails, a null pointer is dereferenced, a probe loop never
ends. Both probe loops pass every slot within `N` probes and would go round for ever after that.

* `Queue` — the ring of nodes with its operations `detach`, `pushBack`, `popFront`.
* `LRUCache` — with the node pool and the hash table: `Get`, `Alloc`, `clear`.
* `World` — the callback of an eviction may do anything to the cache and to what is around it.
-/
import Sprite.Lib.Probing

namespace Sprite.Cache

/-- `size_t`. -/
abbrev Key := UInt32

/-- The node `new ListNode()` made as its `n`-th one. -/
abbrev Ptr := Nat

/-! ### Queue operations -/

/-- The LRU queue: its head, its length, and the links of all nodes. -/
structure Queue where
  queue_ : Option Ptr
  count_ : Nat
  prev : Ptr → Option Ptr
  next : Ptr → Option Ptr

/-- `--count_` on a `size_t`. -/
def decrement : Nat → Nat
  | 0 => 0xFFFFFFFF
  | count + 1 => count

namespace Queue

def detach (q : Queue) (x : Ptr) : Option Queue := do
  let q := { q with count_ := decrement q.count_ }
  let before ← q.prev x
  let q := { q with next := Function.update q.next before (q.next x) }
  let after ← q.next x
  return { q with prev := Function.update q.prev after (q.prev x) }

def pushBack (q : Queue) (size : Nat) (x : Ptr) : Option Queue :=
  if q.count_ < size then
    let q := { q with count_ := q.count_ + 1 }
    match q.queue_ with
    | some head => do
        let last ← q.prev head
        let q := { q with next := Function.update q.next last (some x) }
        let q := { q with prev := Function.update q.prev x (some last) }
        let q := { q with next := Function.update q.next x (some head) }
        return { q with prev := Function.update q.prev head (some x) }
    | none =>
        some { q with
          queue_ := some x
          prev := Function.update q.prev x (some x)
          next := Function.update q.next x (some x) }
  else none

def front (q : Queue) : Option Ptr := q.queue_

def popFront (q : Queue) : Option Queue := do
  let q := { q with count_ := decrement q.count_ }
  let head ← q.queue_
  let last := q.prev head
  let successor ← q.next head
  let q := { q with prev := Function.update q.prev successor last }
  let last ← last
  let q := { q with next := Function.update q.next last (some successor) }
  return { q with queue_ := some successor }

/-- What `Promote` does to the queue. -/
def requeue (q : Queue) (size : Nat) (node : Ptr) : Option Queue := do
  let q ← q.detach node
  let q := if q.queue_ = some node then { q with queue_ := q.next node } else q
  q.pushBack size node

end Queue

/-! ### The cache -/

/-- The cache: the queue, the pool of nodes, the hash table, and the other fields of the nodes. Of
the nodes, `made` have been made. -/
structure LRUCache (T : Type) (N : Nat) extends Queue where
  free_ : Option Ptr
  table_ : Fin N → Option Ptr
  key : Ptr → Key
  value : Ptr → T
  made : Nat

/-- The cache, and what only the callback and the clients of the cache work on. -/
structure World (T : Type) (N : Nat) (Outside : Type) where
  cache : LRUCache T N
  outside : Outside

/-- `uncache_callback`: it is handed a key and the node whose value that is. -/
abbrev UncacheCallback (T : Type) (N : Nat) (Outside : Type) :=
  Key → Ptr → World T N Outside → Option (World T N Outside)

variable {T : Type} {N : Nat} {Outside : Type}

namespace LRUCache

/-- A cache nothing was put into, over memory that holds any values. -/
def fresh (N : Nat) (links : Ptr → Option Ptr) (key : Ptr → Key) (value : Ptr → T) : LRUCache T N where
  queue_ := none
  count_ := 0
  prev := links
  next := links
  free_ := none
  table_ := fun _ => none
  key := key
  value := value
  made := 0

def count (c : LRUCache T N) : Nat := c.count_

section Table

variable [NeZero N]

def hash (value : Key) : Fin N := Fin.ofNat N value.toNat

/-- `hash(++value)`. -/
def rehash (slot : Fin N) : Fin N := Probing.walk slot 1

def Promote (c : LRUCache T N) (slot : Fin N) : Option (LRUCache T N) := do
  let node ← c.table_ slot
  let q ← c.toQueue.requeue N node
  return { c with toQueue := q }

def Get (c : LRUCache T N) (k : Key) : Option (Option Ptr × LRUCache T N) :=
  match Probing.scan (Probing.stopsAt c.table_ c.key k) N (hash k) with
  | none => some (none, c)
  | some slot =>
    match c.table_ slot with
    | none => some (none, c)
    | some node => do
        let c ← c.Promote slot
        return (some node, c)

/-- A node from the pool, or a new one. The value and the key of a new one are not set. -/
def alloc (c : LRUCache T N) : Ptr × LRUCache T N :=
  match c.free_ with
  | some tmp => (tmp, { c with free_ := c.next tmp })
  | none =>
      (c.made, { c with
        prev := Function.update c.prev c.made none
        next := Function.update c.next c.made none
        made := c.made + 1 })

end Table

/-- The `do` loop of `clear`, from `iter` round to `queue_`: the nodes deleted. Each node that was made
can be deleted once, which bounds the steps. -/
def deleteRing (next : Ptr → Option Ptr) (queue_ : Ptr) : Nat → Ptr → List Ptr → Option (List Ptr)
  | 0, _, _ => none
  | steps + 1, iter, deleted =>
      if iter ∈ deleted then none
      else if next iter = some queue_ then some (iter :: deleted)
      else do
        let tmp ← next iter
        deleteRing next queue_ steps tmp (iter :: deleted)

/-- The `while` loop of `clear` over the pool. -/
def deletePool (next : Ptr → Option Ptr) : Nat → Option Ptr → List Ptr → Option (List Ptr)
  | _, none, deleted => some deleted
  | 0, some _, _ => none
  | steps + 1, some node, deleted =>
      if node ∈ deleted then none else deletePool next steps (next node) (node :: deleted)

/-- `clear`, which does not touch `count_`. -/
def clear (c : LRUCache T N) : Option (LRUCache T N) := do
  let c := { c with table_ := fun _ => none }
  let deleted ← match c.queue_ with
    | some head => deleteRing c.next head c.made head []
    | none => some []
  let c := { c with queue_ := none }
  let _ ← deletePool c.next c.made c.free_ deleted
  return { c with free_ := none }

end LRUCache

namespace World

open LRUCache

variable [NeZero N]

/-- `if (cb_) cb_(k, &node->value)`. -/
def runCallback (cb_ : Option (UncacheCallback T N Outside)) (k : Key) (node : Ptr)
    (w : World T N Outside) : Option (World T N Outside) :=
  match cb_ with
  | some cb => cb k node w
  | none => some w

/-- The callback is called before the node goes back to the pool. -/
def free (cb_ : Option (UncacheCallback T N Outside)) (node : Ptr) (w : World T N Outside) :
    Option (World T N Outside) := do
  let w ← w.runCallback cb_ (w.cache.key node) node
  return { w with cache := { w.cache with
    next := Function.update w.cache.next node w.cache.free_
    free_ := some node } }

def erase (cb_ : Option (UncacheCallback T N Outside)) (k : Key) (w : World T N Outside) :
    Option (World T N Outside) := do
  let slot ← Probing.scan (Probing.stopsAt w.cache.table_ w.cache.key k) N (hash k)
  let node ← w.cache.table_ slot
  let w ← w.free cb_ node
  return { w with cache := { w.cache with table_ := Function.update w.cache.table_ slot none } }

/-- The first part of `Set`: when the cache is full, its front node is given up. -/
def makeRoom (cb_ : Option (UncacheCallback T N Outside)) (w : World T N Outside) :
    Option (World T N Outside) :=
  if N ≤ w.cache.count then do
    let tmp ← w.cache.front
    let q ← w.cache.popFront
    ({ w with cache := { w.cache with toQueue := q } } : World T N Outside).erase cb_
      (w.cache.key tmp)
  else some w

/-- The second part of `Set`: the first empty slot for the key gets a node. -/
def enter (k : Key) (v : Option T) (w : World T N Outside) : Option (Ptr × World T N Outside) := do
  let slot ← Probing.scan (fun slot => (w.cache.table_ slot).isNone) N (hash k)
  let (entry, c) := w.cache.alloc
  let c := { c with table_ := Function.update c.table_ slot (some entry) }
  let q ← c.toQueue.pushBack N entry
  let c := { c with toQueue := q }
  let c := { c with key := Function.update c.key entry k }
  let c := match v with
    | some v => { c with value := Function.update c.value entry v }
    | none => c
  let c ← c.Promote slot
  return (entry, { w with cache := c })

def Set (cb_ : Option (UncacheCallback T N Outside)) (k : Key) (v : Option T)
    (w : World T N Outside) : Option (Ptr × World T N Outside) := do
  let w ← w.makeRoom cb_
  w.enter k v

def Alloc (cb_ : Option (UncacheCallback T N Outside)) (k : Key) (w : World T N Outside) :
    Option (Ptr × World T N Outside) :=
  w.Set cb_ k none

def Get (k : Key) (w : World T N Outside) : Option (Option Ptr × World T N Outside) := do
  let (node, c) ← w.cache.Get k
  return (node, { w with cache := c })

end World

end Sprite.Cache

/-
**Directory slots without an inode.**

A slot of a directory whose inode number is zero is not in use, and inode 0 of the table is not on the
disk. None of the walks looks at the number before it takes the slot for an entry.

* `Shadowed` — a free slot answers only after another entry. `findEntry_free_iff`, `namei_free_iff`.
* `Prints` — the lines that `list_entries` prints, also in runs that do not come back.
* `Listed` — the entries that the listing on the image comes to. `prints_listed` and `listed_prints`
  say that these are the same while the cache has room.
* `free_slots_not_found_iff` — **exactly when free slots are not taken for files**.
* `free_slot_found` — a free slot `a` before the entry `a`.
-/
import Sprite.Fs.Missing
import Sprite.Fs.Listing
import Sprite.Fs.Traversal

namespace Sprite.Fs

open Cache Ide

variable {N : Nat} [NeZero N] {content : UInt32 → Block} {g : Globals} {m : Elsewhere}

/-- `g_inode_table + 0`, which is no inode of the disk. -/
def noInode : Fin kNumInodes := ⟨0, by decide⟩

/-! ### Names of free slots -/

/-- **Every free slot is shadowed**: one that answers to the name has an entry before it that answers. -/
def Shadowed (content : UInt32 → Block) (m : Elsewhere) (dir : Memory) (name : List UInt8) : Prop :=
  isDirectory (mode dir) = true → ∀ j < min (numEntries dir) maxEntries,
    inodeOf content m dir j = 0 → Answers content m dir name j → ∃ i < j, Answers content m dir name i

section Names

variable {dir dir' : InodePtr} {path rest : List UInt8} {w w' : FsWorld N} {r : InodePtr}

theorem leads_free_iff {dir : Memory} {name : List UInt8} :
    Leads content m dir name (some noInode) ↔ ¬ Shadowed content m dir name := by
  constructor
  · rintro ⟨isDir, j, below, first, number⟩ shadowed
    obtain ⟨i, before, answers⟩ := shadowed isDir j below number first.1
    exact first.2 i before answers
  · intro open_
    unfold Shadowed at open_
    push Not at open_
    obtain ⟨isDir, j, below, number, answers, silent⟩ := open_
    exact ⟨isDir, j, below, ⟨answers, silent⟩, number⟩

/-- **When `find_entry` answers no free slot.** -/
theorem findEntry_free_iff (two : 2 ≤ N) (coherent : Coherent w content) (dir : InodePtr)
    (name : List UInt8) : (∀ w', findEntry g m dir name w ≠ .ok (some noInode, w')) ↔
      Shadowed content m (inodeAt g m dir) name := by
  rw [← not_iff_not, ← leads_free_iff]
  push Not
  constructor
  · rintro ⟨w', ran⟩
    exact (leads_of_ok two coherent ran).1
  · intro leads
    obtain ⟨w', ran, _⟩ := ok_of_leads two coherent leads
    exact ⟨w', ran⟩

/-- What the loop of `namei` answers is the answer to its last component. -/
theorem nameiLoop_last_round (two : 2 ≤ N) (path : List UInt8) (dir : InodePtr) {w : FsWorld N}
    (coherent : Coherent w content) (ran : nameiLoop g m dir path w = .ok (r, w')) :
    ∃ dir' rest, Visits content g m dir path dir' rest ∧ slash ∉ rest ∧
      Leads content m (inodeAt g m dir') rest r := by
  by_cases more : slash ∈ path
  · obtain ⟨ch, path', delim⟩ := strfind_of_mem more
    have shorter : path'.length < path.length := by
      have bound := length_strfind path slash
      rw [delim] at bound
      exact bound
    rw [nameiLoop_next delim] at ran
    obtain ⟨⟨dir₁, w₁⟩, found, rest⟩ := bind_eq_ok ran
    obtain ⟨leads, coherent₁⟩ := leads_of_ok two coherent found
    obtain ⟨dir', last, visits, noSlash, leads'⟩ := nameiLoop_last_round two path' dir₁ coherent₁ rest
    exact ⟨dir', last, visits.later leads delim, noSlash, leads'⟩
  · rw [nameiLoop_last (strfind_none more)] at ran
    exact ⟨dir, path, .first, more, (leads_of_ok two coherent ran).1⟩
termination_by path.length

/-- **When `namei` answers no free slot**: in the directory of the last component it is shadowed. -/
theorem namei_free_iff (two : 2 ≤ N) (coherent : Coherent w content) (path : List UInt8) :
    (∀ w', namei g m (slash :: path) w ≠ .ok (some noInode, w')) ↔
      ∀ dir rest, Visits content g m (some kRootINO) path dir rest → slash ∉ rest →
        Shadowed content m (inodeAt g m dir) rest := by
  constructor
  · intro never dir rest visits last
    obtain ⟨w', same, coherent'⟩ := visits.answers two coherent last
    refine (findEntry_free_iff (g := g) two coherent' dir rest).mp fun w'' ran => ?_
    exact never w'' (same.trans ran)
  · intro shadowed w' ran
    rw [namei, if_pos rfl] at ran
    obtain ⟨dir, rest, visits, last, leads⟩ := nameiLoop_last_round two path _ coherent ran
    exact leads_free_iff.mp leads (shadowed dir rest visits last)

end Names

/-! ### What is printed -/

/-- The callback of `list_entries`, with nothing captured. -/
def lister (g : Globals) (m : Elsewhere) (stack : Nat) : Callback Unit N :=
  EntryCallback.stateless (listEntry m (listEntries g m stack))

section Called

variable {stack entry : Nat} {node : Fin kNumInodes} {zone : Ptr} {w : FsWorld N}

/-- The callback passes an entry whose name begins with a dot. -/
theorem lister_hidden (number : inodeTable (entryInode (entryBytes m w zone entry)) = .ok node)
    (hidden : entryBytes m w zone entry nameOffset = dot) :
    lister g m stack zone entry () w = .ok (false, (), w) := by
  unfold lister EntryCallback.stateless listEntry
  rw [number, ok_bind, if_neg (not_not_intro hidden)]
  rfl

/-- The callback lists any other entry. -/
theorem lister_shown (number : inodeTable (entryInode (entryBytes m w zone entry)) = .ok node)
    (shown : entryBytes m w zone entry nameOffset ≠ dot) :
    lister g m stack zone entry () w = (fun r => (false, (), r.2)) <$> listEntries g m stack node w := by
  unfold lister EntryCallback.stateless listEntry
  rw [number, ok_bind, if_pos shown]
  cases listEntries g m stack node w with
  | error halt => rfl
  | ok r => rfl

/-- The callback does not come back from an entry of an inode that the table does not have. -/
theorem lister_outside {halt : Halt}
    (number : inodeTable (entryInode (entryBytes m w zone entry)) = .error halt) :
    lister g m stack zone entry () w = .error halt := by
  unfold lister EntryCallback.stateless listEntry
  rw [number, error_bind]
  rfl

end Called

/-- **The call of `list_entries` for an inode prints the entry** at this place of this buffer, with so
many calls on the stack: its name does not begin with a dot, and neither does that of an entry on
the way to it. -/
inductive Prints (g : Globals) (m : Elsewhere) :
    Nat → Fin kNumInodes → FsWorld N → Ptr → Nat → FsWorld N → Prop
  | here {stack i : Nat} {k node : Fin kNumInodes} {zone : Ptr} {w w' : FsWorld N} :
      IsDir g m k → i < numEntries (inodeAt g m (some k)) →
      Offered (inodeAt g m (some k)) (lister g m stack) () w i zone () w' →
      inodeTable (entryInode (entryBytes m w' zone (32 * (i % 32)))) = .ok node →
      entryBytes m w' zone (32 * (i % 32)) nameOffset ≠ dot →
      Prints g m (stack + 1) k w zone (32 * (i % 32)) w'
  | deeper {stack i entry : Nat} {k node : Fin kNumInodes} {zone zone' : Ptr} {w w' w'' : FsWorld N} :
      IsDir g m k → i < numEntries (inodeAt g m (some k)) →
      Offered (inodeAt g m (some k)) (lister g m stack) () w i zone () w' →
      inodeTable (entryInode (entryBytes m w' zone (32 * (i % 32)))) = .ok node →
      entryBytes m w' zone (32 * (i % 32)) nameOffset ≠ dot →
      Prints g m stack node w' zone' entry w'' → Prints g m (stack + 1) k w zone' entry w''

/-- **No free slot is listed** below an inode. -/
def ListsNoFree (g : Globals) (m : Elsewhere) (k : Fin kNumInodes) (w : FsWorld N) : Prop :=
  ∀ stack zone entry w', Prints g m stack k w zone entry w' →
    entryInode (entryBytes m w' zone entry) ≠ 0

/-! ### The listing on the image -/

/-- **The listing of an inode comes to entry `j` of directory `k'`**, and its name does not begin with a
dot. -/
inductive Listed (content : UInt32 → Block) (g : Globals) (m : Elsewhere) :
    Fin kNumInodes → Fin kNumInodes → Nat → Prop
  | here {k : Fin kNumInodes} {j : Nat} : IsDir g m k → j < numEntries (inodeAt g m (some k)) →
      j < maxEntries → Comes content m (Ends content g m) (inodeAt g m (some k)) j →
      inodeOf content m (inodeAt g m (some k)) j < kNumInodes →
      ¬ Hidden content m (inodeAt g m (some k)) j → Listed content g m k k j
  | deeper {k i k' : Fin kNumInodes} {j j' : Nat} : IsDir g m k →
      j < numEntries (inodeAt g m (some k)) → j < maxEntries →
      Comes content m (Ends content g m) (inodeAt g m (some k)) j →
      inodeOf content m (inodeAt g m (some k)) j = i.val →
      ¬ Hidden content m (inodeAt g m (some k)) j → Listed content g m i k' j' →
      Listed content g m k k' j'

section Room

variable {K : Finset UInt32} {w w' : FsWorld N} {k : Fin kNumInodes} {i j stack : Nat} {zone : Ptr}

/-- What is known while the tree below the root is being listed with room for all its blocks. -/
structure InTree (content : UInt32 → Block) (g : Globals) (m : Elsewhere) (K : Finset UInt32)
    (k : Fin kNumInodes) (w : FsWorld N) : Prop where
  small : K.card ≤ N
  blocks : ∀ k, Reached content g m k → IsDir g m k → ∀ b,
    DirBlock content (inodeAt g m (some k)) b → b ∈ K
  reached : Reached content g m k
  coherent : Coherent w content
  cached : ∀ k, Cached w k → k ∈ K

theorem InTree.into (inTree : InTree content g m K k w) {k' : Fin kNumInodes} {w' : FsWorld N}
    (reached : Reached content g m k') (coherent : Coherent w' content) (cached : ∀ k, Cached w' k → k ∈ K) :
    InTree content g m K k' w' := ⟨inTree.small, inTree.blocks, reached, coherent, cached⟩

/-- The listing of an inode of the tree is the one on the image. -/
theorem InTree.listed (two : 2 ≤ N) (inTree : InTree content g m K k w) (stack : Nat) :
    Yields content {b | b ∈ K} w (listEntries g m stack k w) (listing content g m stack k) :=
  listEntries_yields two inTree.small inTree.blocks stack inTree.reached inTree.coherent inTree.cached

/-- **Before entry `i`** the buffer holds the block of its zone. -/
structure BeforeEntry (content : UInt32 → Block) (g : Globals) (m : Elsewhere) (K : Finset UInt32)
    (k : Fin kNumInodes) (i : Nat) (zone : Ptr) (w : FsWorld N) : Prop where
  inTree : InTree content g m K k w
  near : i < maxEntries
  holds : w.cache.Holds (zoneBlock content (inodeAt g m (some k)) (i / 32)) zone

/-- The entry is the one of the image. -/
theorem BeforeEntry.bytes (before : BeforeEntry content g m K k i zone w) :
    entryBytes m w zone (32 * (i % 32)) = dirEntry content m (inodeAt g m (some k)) i :=
  entryBytes_eq before.inTree.coherent m before.holds _

/-- The inode of the entry is in the table. -/
theorem BeforeEntry.number (before : BeforeEntry content g m K k i zone w)
    (inside : inodeOf content m (inodeAt g m (some k)) i < kNumInodes) :
    inodeTable (entryInode (entryBytes m w zone (32 * (i % 32)))) = .ok ⟨_, inside⟩ := by
  rw [before.bytes]
  exact inodeTable_lt inside

/-- Entry `i` of a directory leads further down the tree. -/
theorem BeforeEntry.below (before : BeforeEntry content g m K k i zone w) (isDir : IsDir g m k)
    (less : i < numEntries (inodeAt g m (some k))) {node : Fin kNumInodes}
    (number : inodeOf content m (inodeAt g m (some k)) i = node.val)
    (shown : ¬ Hidden content m (inodeAt g m (some k)) i) : InTree content g m K node w :=
  before.inTree.into (.entry before.inTree.reached isDir less before.near number shown)
    before.inTree.coherent before.inTree.cached

/-- A zone is opened in the tree. -/
theorem InTree.opens (two : 2 ≤ N) (inTree : InTree content g m K k w) (isDir : IsDir g m k)
    (near : i < maxEntries) (first : i = 0 ∨ i < numEntries (inodeAt g m (some k))) :
    ∃ zone w', readZone (inodeAt g m (some k)) (i / 32) w = .ok (zone, w') ∧
      BeforeEntry content g m K k i zone w' := by
  have nearZone : i / 32 < maxZones := Nat.div_lt_of_lt_mul near
  obtain ⟨zone, w', ran, holds, coherent', through⟩ := readZone_spec (B := {b | b ∈ K}) inTree.coherent
    two (inodeAt g m (some k)) nearZone fun b member =>
      inTree.blocks k inTree.reached isDir b ⟨i / 32, nearZone, by omega, member⟩
  exact ⟨zone, w', ran, inTree.into inTree.reached coherent' (through.cached_mem inTree.cached), near, holds⟩

/-- The zone of the next entry. -/
theorem BeforeEntry.next (two : 2 ≤ N) (before : BeforeEntry content g m K k i zone w) (isDir : IsDir g m k)
    (near : i + 1 < maxEntries) (less : i + 1 < numEntries (inodeAt g m (some k))) :
    ∃ zone' w', zoneOf (inodeAt g m (some k)) (i + 1) zone w = .ok (zone', w') ∧
      BeforeEntry content g m K k (i + 1) zone' w' := by
  unfold zoneOf
  by_cases turns : (i + 1) % 32 = 0
  · rw [if_pos turns]
    exact before.inTree.opens two isDir near (.inr less)
  · have sameZone : (i + 1) / 32 = i / 32 := by omega
    rw [if_neg turns]
    refine ⟨zone, w, rfl, before.inTree, near, ?_⟩
    rw [sameZone]
    exact before.holds

/-- What the callback has done when it comes back from entry `i`. -/
theorem BeforeEntry.passed (two : 2 ≤ N) (before : BeforeEntry content g m K k i zone w) (isDir : IsDir g m k)
    (less : i < numEntries (inodeAt g m (some k))) {stop : Bool}
    (called : lister g m stack zone (32 * (i % 32)) () w = .ok (stop, (), w')) :
    inodeOf content m (inodeAt g m (some k)) i < kNumInodes ∧
      (∀ node : Fin kNumInodes, inodeOf content m (inodeAt g m (some k)) i = node.val →
        ¬ Hidden content m (inodeAt g m (some k)) i → listing content g m stack node = .ok ()) ∧
      BeforeEntry content g m K k i zone w' := by
  by_cases inside : inodeOf content m (inodeAt g m (some k)) i < kNumInodes
  swap
  · have far : inodeTable (entryInode (entryBytes m w zone (32 * (i % 32)))) = .error .outside := by
      rw [before.bytes]
      exact dif_neg inside
    rw [lister_outside far] at called
    cases called
  have number := before.number inside
  refine ⟨inside, ?_⟩
  by_cases hidden : Hidden content m (inodeAt g m (some k)) i
  · rw [lister_hidden number (before.bytes ▸ hidden)] at called
    cases called
    exact ⟨fun _ _ shown => absurd hidden shown, before⟩
  · rw [lister_shown number (before.bytes ▸ hidden)] at called
    have inTree : InTree content g m K ⟨_, inside⟩ w := before.below isDir less rfl hidden
    have yields := inTree.listed two stack
    cases ran : listing content g m stack ⟨_, inside⟩ with
    | error halt =>
      rw [ran] at yields
      have failed : listEntries g m stack ⟨_, inside⟩ w = .error halt := yields
      rw [failed] at called
      cases called
    | ok _ =>
      rw [ran] at yields
      obtain ⟨w₁, ran', coherent₁, through⟩ := yields
      rw [ran'] at called
      cases called
      refine ⟨fun node number _ => ?_, ⟨before.inTree.into before.inTree.reached coherent₁
        (through.cached_mem before.inTree.cached), before.near, ?_⟩⟩
      · obtain rfl : (⟨_, inside⟩ : Fin kNumInodes) = node := Fin.ext number
        exact ran
      · exact through.roomy K before.inTree.small before.inTree.cached (fun _ => id) _ _ before.holds

/-- The callback comes back from an entry that the listing on the image passes. -/
theorem BeforeEntry.comes_back (stack : Nat) (two : 2 ≤ N) (before : BeforeEntry content g m K k i zone w)
    (isDir : IsDir g m k) (less : i < numEntries (inodeAt g m (some k)))
    (inside : inodeOf content m (inodeAt g m (some k)) i < kNumInodes)
    (ends : ¬ Hidden content m (inodeAt g m (some k)) i → listing content g m stack ⟨_, inside⟩ = .ok ()) :
    ∃ w', lister g m stack zone (32 * (i % 32)) () w = .ok (false, (), w') := by
  have number := before.number inside
  by_cases hidden : Hidden content m (inodeAt g m (some k)) i
  · exact ⟨w, lister_hidden number (before.bytes ▸ hidden)⟩
  · have inTree : InTree content g m K ⟨_, inside⟩ w := before.below isDir less rfl hidden
    have yields := inTree.listed two stack
    rw [ends hidden] at yields
    obtain ⟨w', ran, _⟩ := yields
    refine ⟨w', ?_⟩
    rw [lister_shown number (before.bytes ▸ hidden), ran]
    rfl

/-- **Every entry that is offered** is one that the listing on the image comes to. -/
theorem offered_comes (two : 2 ≤ N) {s : Unit} (inTree : InTree content g m K k w) (isDir : IsDir g m k)
    (offered : Offered (inodeAt g m (some k)) (lister g m stack) () w i zone s w') :
    i < numEntries (inodeAt g m (some k)) → i < maxEntries →
    BeforeEntry content g m K k i zone w' ∧
      Comes content m (fun i => listing content g m stack i = .ok ()) (inodeAt g m (some k)) i := by
  induction offered with
  | first ran =>
    intro _ near
    obtain ⟨zone', w₁, ran', before⟩ := inTree.opens two isDir near (.inl rfl)
    cases ran.symm.trans ran'
    exact ⟨before, Nat.zero_le _, fun _ none => absurd none (Nat.not_lt_zero _),
      fun _ none => absurd none (Nat.not_lt_zero _)⟩
  | @next i zone zone' s₁ s₂ w₁ w₂ w₃ _ called opened ih =>
    intro less near
    obtain ⟨before, comes⟩ := ih (Nat.lt_of_succ_lt less) (Nat.lt_of_succ_lt near)
    obtain ⟨inside, ends, before'⟩ := before.passed two isDir (Nat.lt_of_succ_lt less) called
    obtain ⟨zone₃, w₃', opened', before₃⟩ := before'.next two isDir near less
    cases opened.symm.trans opened'
    exact ⟨before₃, comes.succ (Nat.lt_of_succ_lt near) inside ends⟩

/-- No entry is offered in zones that an inode cannot have. -/
theorem offered_near (two : 2 ≤ N) {s : Unit} (inTree : InTree content g m K k w) (isDir : IsDir g m k)
    (offered : Offered (inodeAt g m (some k)) (lister g m stack) () w i zone s w') :
    i < numEntries (inodeAt g m (some k)) → i < maxEntries := by
  induction offered with
  | first _ => exact fun _ => by decide
  | @next i _ _ _ _ _ w₂ w₃ offered' called opened ih =>
    intro less
    have near := ih (Nat.lt_of_succ_lt less)
    obtain ⟨before, _⟩ := offered_comes two inTree isDir offered' (Nat.lt_of_succ_lt less) near
    obtain ⟨_, _, before'⟩ := before.passed two isDir (Nat.lt_of_succ_lt less) called
    by_contra far
    have far : maxEntries ≤ i + 1 := Nat.not_lt.mp far
    have number : i + 1 = 32 * maxZones := Nat.le_antisymm near far
    have turns : (i + 1) % 32 = 0 := by omega
    rw [zoneOf, if_pos turns, readZone_outside before'.inTree.coherent two (by omega)] at opened
    cases opened

/-- **The listing on the image comes to an entry** only when that is offered. -/
theorem comes_offered (two : 2 ≤ N) (inTree : InTree content g m K k w) (isDir : IsDir g m k) (j : Nat) :
    j < numEntries (inodeAt g m (some k)) → j < maxEntries →
    Comes content m (fun i => listing content g m stack i = .ok ()) (inodeAt g m (some k)) j →
    ∃ zone w', Offered (inodeAt g m (some k)) (lister g m stack) () w j zone () w' ∧
      BeforeEntry content g m K k j zone w' := by
  induction j with
  | zero =>
    intro _ near _
    obtain ⟨zone, w', ran, before⟩ := inTree.opens two isDir near (.inl rfl)
    exact ⟨zone, w', .first ran, before⟩
  | succ j ih =>
    intro less near comes
    have less' := Nat.lt_of_succ_lt less
    obtain ⟨zone, w₁, offered, before⟩ := ih less' (Nat.lt_of_succ_lt near)
      ⟨Nat.le_of_succ_le comes.near, fun j' below => comes.numbers j' (Nat.lt_succ_of_lt below),
        fun j' below => comes.ends j' (Nat.lt_succ_of_lt below)⟩
    obtain ⟨w₂, called⟩ := before.comes_back stack two isDir less'
      (comes.numbers j (Nat.lt_succ_self j)) (comes.ends j (Nat.lt_succ_self j) _ rfl)
    obtain ⟨_, _, before'⟩ := before.passed two isDir less' called
    obtain ⟨zone', w₃, opened, before₃⟩ := before'.next two isDir near less
    exact ⟨zone', w₃, .next offered called opened, before₃⟩

/-- A listing that comes to an entry with some stack comes to it. -/
theorem Comes.ending {dir : Memory} (comes : Comes content m (fun i => listing content g m stack i = .ok ()) dir j) :
    Comes content m (Ends content g m) dir j :=
  ⟨comes.near, comes.numbers, fun j' below i number shown =>
    (listing_cases stack i).1 (comes.ends j' below i number shown)⟩

/-- **What is printed** is listed on the image. -/
theorem prints_listed (two : 2 ≤ N) {entry : Nat} (prints : Prints g m stack k w zone entry w') :
    InTree content g m K k w → ∃ k' j, Listed content g m k k' j ∧
      entryBytes m w' zone entry = dirEntry content m (inodeAt g m (some k')) j := by
  induction prints with
  | @here stack i k node zone w w' isDir less offered number shown =>
    intro inTree
    have near := offered_near two inTree isDir offered less
    obtain ⟨before, comes⟩ := offered_comes two inTree isDir offered less near
    rw [before.bytes] at number shown
    have isNode : inodeOf content m (inodeAt g m (some k)) i = node.val := eq_of_inodeTable number
    exact ⟨k, i, .here isDir less near comes.ending (isNode ▸ node.isLt) shown, before.bytes⟩
  | @deeper stack i entry k node zone zone' w w' w'' isDir less offered number shown _ ih =>
    intro inTree
    have near := offered_near two inTree isDir offered less
    obtain ⟨before, comes⟩ := offered_comes two inTree isDir offered less near
    rw [before.bytes] at number shown
    have isNode : inodeOf content m (inodeAt g m (some k)) i = node.val := eq_of_inodeTable number
    obtain ⟨k', j, listed, bytes⟩ := ih (before.below isDir less isNode shown)
    exact ⟨k', j, .deeper isDir less near comes.ending isNode shown listed, bytes⟩

/-- A listing that comes to an entry does so with enough stack. -/
theorem Comes.deep {dir : Memory} (comes : Comes content m (Ends content g m) dir j) :
    ∃ depth, ∀ stack ≥ depth, Comes content m (fun i => listing content g m stack i = .ok ()) dir j :=
  Comes.depth ⟨comes.near, comes.numbers, fun j' below i number shown =>
    (comes.ends j' below i number shown).listing_eq⟩

/-- **What is listed on the image** is printed when the stack has room for it. -/
theorem listed_prints (two : 2 ≤ N) {k k' : Fin kNumInodes} (listed : Listed content g m k k' j) :
    ∃ depth, ∀ stack ≥ depth, ∀ w : FsWorld N, InTree content g m K k w →
      ∃ zone entry w', Prints g m stack k w zone entry w' ∧
        entryBytes m w' zone entry = dirEntry content m (inodeAt g m (some k')) j := by
  induction listed with
  | @here k j isDir less near comes inside shown =>
    obtain ⟨depth, deep⟩ := comes.deep
    refine ⟨depth + 1, fun stack enough w inTree => ?_⟩
    obtain ⟨stack, rfl⟩ := Nat.exists_eq_add_of_le' (Nat.le_trans (Nat.le_add_left 1 depth) enough)
    obtain ⟨zone, w', offered, before⟩ :=
      comes_offered two inTree isDir j less near (deep stack (Nat.le_of_succ_le_succ enough))
    exact ⟨zone, _, w', .here isDir less offered (before.number inside) (before.bytes ▸ shown), before.bytes⟩
  | @deeper k i k' j j' isDir less near comes number shown _ ih =>
    obtain ⟨depth, deep⟩ := comes.deep
    obtain ⟨depth', deep'⟩ := ih
    refine ⟨max depth depth' + 1, fun stack enough w inTree => ?_⟩
    obtain ⟨stack, rfl⟩ := Nat.exists_eq_add_of_le' (Nat.le_trans (Nat.le_add_left 1 _) enough)
    have enough := Nat.le_of_succ_le_succ enough
    obtain ⟨zone, w', offered, before⟩ := comes_offered two inTree isDir j less near
      (deep stack (Nat.le_trans (Nat.le_max_left _ _) enough))
    obtain ⟨zone', entry, w'', prints, bytes⟩ := deep' stack (Nat.le_trans (Nat.le_max_right _ _) enough)
      w' (before.below isDir less number shown)
    have into : inodeTable (entryInode (entryBytes m w' zone (32 * (j % 32)))) = .ok i := by
      have same : entryInode (dirEntry content m (inodeAt g m (some k)) j) = i.val := number
      rw [before.bytes, same]
      exact inodeTable_lt i.isLt
    refine ⟨zone', entry, w'', .deeper isDir less offered into ?_ prints, bytes⟩
    rw [before.bytes]
    exact shown

end Room

/-! ### Without room -/

section Reused

variable {S : Set (Fin kNumInodes)} {B : Set UInt32} {w w' : FsWorld N} {k : Fin kNumInodes}
  {i entry stack : Nat} {zone : Ptr}

/-- Every entry that is offered is a record of some block that may come into a buffer. -/
theorem offered_record (two : 2 ≤ N) (closed : Closed content g m S B) (member : k ∈ S) (isDir : IsDir g m k)
    (coherent : Coherent w content) {s : Unit}
    (offered : Offered (inodeAt g m (some k)) (lister g m stack) () w i zone s w') :
    i < numEntries (inodeAt g m (some k)) →
    Coherent w' content ∧ ∃ bno ∈ B, w'.cache.Holds bno zone := by
  have few := closed.sizes k member isDir
  have blocks := closed.blocks k member isDir
  have opens : ∀ {i} {w : FsWorld N}, Coherent w content → i < numEntries (inodeAt g m (some k)) →
      ∃ zone w', readZone (inodeAt g m (some k)) (i / 32) w = .ok (zone, w') ∧
        Coherent w' content ∧ ∃ bno ∈ B, w'.cache.Holds bno zone := by
    intro i w coherent less
    have nearZone : i / 32 < maxZones := Nat.div_lt_of_lt_mul (Nat.lt_of_lt_of_le less few)
    have inDir : ∀ b ∈ zoneBlocks content (inodeAt g m (some k)) (i / 32), b ∈ B :=
      fun b here => blocks b ⟨i / 32, nearZone, by omega, here⟩
    obtain ⟨zone, w', ran, holds, coherent', _⟩ :=
      readZone_spec coherent two (inodeAt g m (some k)) nearZone inDir
    exact ⟨zone, w', ran, coherent', _, inDir _ (zoneBlock_mem content _ (i / 32)), holds⟩
  induction offered with
  | first ran =>
    intro less
    obtain ⟨zone', w₁, ran', rest⟩ := opens coherent less
    cases ran.symm.trans ran'
    exact rest
  | @next i zone zone' s₁ s₂ w₁ w₂ w₃ _ called opened ih =>
    intro less
    obtain ⟨coherent₁, bno, inside, holds⟩ := ih (Nat.lt_of_succ_lt less)
    have bytes := entryBytes_eq coherent₁ m holds (32 * (i % 32))
    have number := closed.numbers bno inside (i % 32) (Nat.mod_lt i (by decide))
    have passed : Coherent w₂ content ∧ ∃ bno ∈ B, w₂.cache.Holds bno zone := by
      have entry : inodeTable (entryInode (entryBytes m w₁ zone (32 * (i % 32)))) = .ok ⟨_, number⟩ := by
        rw [bytes]
        exact inodeTable_lt number
      by_cases hidden : entryBytes m w₁ zone (32 * (i % 32)) nameOffset = dot
      · rw [lister_hidden entry hidden] at called
        cases called
        exact ⟨coherent₁, bno, inside, holds⟩
      · rw [lister_shown entry hidden] at called
        have shown := bytes ▸ hidden
        have inS := closed.shown bno inside (i % 32) (Nat.mod_lt i (by decide)) ⟨_, number⟩ rfl shown
        obtain ⟨r, yields, _⟩ := listEntries_safe two closed stack ⟨_, number⟩ inS coherent₁
        cases r with
        | error halt =>
          have failed : listEntries g m stack ⟨_, number⟩ w₁ = .error halt := yields
          rw [failed] at called
          cases called
        | ok _ =>
          obtain ⟨w', ran, coherent', through⟩ := yields
          rw [ran] at called
          cases called
          obtain ⟨bno', holds', origin⟩ := through.holds bno zone holds
          refine ⟨coherent', bno', ?_, holds'⟩
          rcases origin with rfl | here
          · exact inside
          · exact here
    rcases zoneOf_cases opened with ⟨_, rfl, rfl⟩ | ran
    · exact passed
    · obtain ⟨zone₃, w₃', ran', rest⟩ := opens passed.1 less
      cases ran.symm.trans ran'
      exact rest

/-- What is printed is a record of some block that may come into a buffer. -/
theorem prints_record (two : 2 ≤ N) (closed : Closed content g m S B)
    (prints : Prints g m stack k w zone entry w') : k ∈ S → Coherent w content →
    ∃ bno ∈ B, ∃ r < 32, entryBytes m w' zone entry = record content m bno (32 * r) ∧
      entryBytes m w' zone entry nameOffset ≠ dot := by
  induction prints with
  | @here stack i k node zone w w' isDir less offered number shown =>
    intro member coherent
    obtain ⟨coherent', bno, inside, holds⟩ := offered_record two closed member isDir coherent offered less
    exact ⟨bno, inside, i % 32, Nat.mod_lt i (by decide), entryBytes_eq coherent' m holds _, shown⟩
  | @deeper stack i entry k node zone zone' w w' w'' isDir less offered number shown _ ih =>
    intro member coherent
    obtain ⟨coherent', bno, inside, holds⟩ := offered_record two closed member isDir coherent offered less
    rw [entryBytes_eq coherent' m holds] at number shown
    have small := closed.numbers bno inside (i % 32) (Nat.mod_lt i (by decide))
    rw [inodeTable_lt small] at number
    cases number
    exact ih (closed.shown bno inside (i % 32) (Nat.mod_lt i (by decide)) _ rfl shown) coherent'

end Reused

/-- Two entries `a` with these inode numbers. -/
def twoSlots (first second : UInt8) : List UInt8 :=
  [first, 0, 97] ++ List.replicate 29 0 ++ [second, 0, 97]

section Deleted

variable {first second : UInt8} {w : FsWorld 307}

/-- Both answer to `a`. -/
theorem slots_answer (booted : Booted 64 (twoSlots first second) g w) (m : Elsewhere) :
    ∀ j < 2, Answers (blockOf (image (rootImage 64 (twoSlots first second))).disk) m
      (inodeAt g m (some kRootINO)) [97] j := by
  intro j less
  have byte : ∀ a < 32, dirEntry (blockOf (image (rootImage 64 (twoSlots first second))).disk) m
      (inodeAt g m (some kRootINO)) j a = (twoSlots first second).getD (32 * j + a) 0 := fun a small =>
    booted.dirEntry_eq m (by omega) (by omega)
  have name : (twoSlots first second).getD (32 * j + 2) 0 = 97 ∧
      (twoSlots first second).getD (32 * j + 3) 0 = 0 := by
    obtain rfl | rfl : j = 0 ∨ j = 1 := by omega
    · exact ⟨rfl, rfl⟩
    · exact ⟨rfl, rfl⟩
  refine strcmp_eq_zero.mpr ⟨1, (byte 3 (by decide)).trans name.2, fun i less => ?_⟩
  obtain rfl : i = 0 := by omega
  rw [Nat.add_zero, byte nameOffset (by decide)]
  exact ⟨name.1.trans_ne (by decide), congrArg some name.1.symm⟩

end Deleted

end Sprite.Fs

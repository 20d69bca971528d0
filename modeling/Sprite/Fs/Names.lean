/-
**Resolving paths by name.**

`find_entry` is given the whole rest of the path, and takes the first entry whose string is found at
its beginning. A name of 30 bytes has no terminating character and runs on into the bytes behind it.

* `WellFormed` — directories as a file system has them.
* `answers_short`, `prefix_of_answers` — which entries answer.
* `Resolves` — a path is resolved component by component, by the names of the entries.
* `Clear`, `namei_by_name_iff` — **exactly when `namei` resolves a path like this**.
* `prefix_found_first` — `/ab` with an entry `a` before the entry `ab`.
-/
import Mathlib.Data.List.TakeWhile
import Sprite.Fs.Walk

namespace Sprite.Fs

open Cache Ide

def kNameLen : Nat := 30

variable {content : UInt32 → Block} {g : Globals} {m : Elsewhere} {dir : Memory} {j : Nat}

/-! ### Names of entries -/

/-- The name of an entry: its bytes up to the first zero, if there is one. -/
def nameOf (content : UInt32 → Block) (m : Elsewhere) (dir : Memory) (j : Nat) : List UInt8 :=
  ((List.range kNameLen).map fun i => dirEntry content m dir j (nameOffset + i)).takeWhile (· ≠ 0)

/-- **A well formed directory.** -/
structure WellFormed (content : UInt32 → Block) (m : Elsewhere) (dir : Memory) : Prop where
  few : numEntries dir ≤ maxEntries
  named : ∀ j < numEntries dir, nameOf content m dir j ≠ []
  noSlash : ∀ j < numEntries dir, slash ∉ nameOf content m dir j
  padded : ∀ j < numEntries dir, ∀ i < kNameLen, (nameOf content m dir j).length ≤ i →
    dirEntry content m dir j (nameOffset + i) = 0
  unique : ∀ i < numEntries dir, ∀ j < numEntries dir,
    nameOf content m dir i = nameOf content m dir j → i = j
  numbers : ∀ j < numEntries dir, inodeOf content m dir j < kNumInodes

theorem nameOf_nonzero (content : UInt32 → Block) (m : Elsewhere) (dir : Memory) (j : Nat) :
    (0 : UInt8) ∉ nameOf content m dir j := by
  intro member
  have kept := List.mem_takeWhile_imp member
  exact absurd rfl (of_decide_eq_true kept)

theorem nameOf_getElem (i : Nat) (inside : i < (nameOf content m dir j).length) :
    dirEntry content m dir j (nameOffset + i) = (nameOf content m dir j)[i] := by
  have taken : nameOf content m dir j
      <+: (List.range kNameLen).map fun i => dirEntry content m dir j (nameOffset + i) :=
    List.takeWhile_prefix _
  rw [taken.getElem inside, List.getElem_map, List.getElem_range]

/-- **An entry with a short name** answers when its name is a prefix of what is left of the path. -/
theorem answers_short {rest : List UInt8} (short : (nameOf content m dir j).length < kNameLen)
    (padded : ∀ i < kNameLen, (nameOf content m dir j).length ≤ i →
      dirEntry content m dir j (nameOffset + i) = 0) :
    Answers content m dir rest j ↔ nameOf content m dir j <+: rest :=
  strcmp_name (nameOf_nonzero content m dir j) nameOf_getElem
    (padded _ short (Nat.le_refl _))

/-- No entry answers whose name is not a prefix. -/
theorem prefix_of_answers {rest : List UInt8} (answers : Answers content m dir rest j) :
    nameOf content m dir j <+: rest :=
  prefix_of_strcmp (nameOf_nonzero content m dir j) nameOf_getElem answers

/-! ### Paths -/

/-- A component of a path. -/
structure IsComponent (c : List UInt8) : Prop where
  nonempty : c ≠ []
  noSlash : slash ∉ c
  nonzero : (0 : UInt8) ∉ c

/-- The text of a path, without the slash at its beginning. -/
def pathOf : List (List UInt8) → List UInt8
  | [] => []
  | [c] => c
  | c :: cs => c ++ slash :: pathOf cs

theorem strfind_none {c : List UInt8} (noSlash : slash ∉ c) : strfind c slash = [] := by
  induction c with
  | nil => rfl
  | cons ch c ih =>
    rw [List.mem_cons, not_or] at noSlash
    rw [strfind, if_neg (Ne.symm noSlash.1), ih noSlash.2]

theorem strfind_append {c rest : List UInt8} (noSlash : slash ∉ c) :
    strfind (c ++ slash :: rest) slash = slash :: rest := by
  induction c with
  | nil => exact if_pos rfl
  | cons ch c ih =>
    rw [List.mem_cons, not_or] at noSlash
    rw [List.cons_append, strfind, if_neg (Ne.symm noSlash.1), ih noSlash.2]

/-- A name without a slash is a prefix of a path when it is one of its first component. -/
theorem prefix_pathOf {name c : List UInt8} {cs : List (List UInt8)} (noSlash : slash ∉ name) :
    name <+: pathOf (c :: cs) ↔ name <+: c := by
  cases cs with
  | nil => exact Iff.rfl
  | cons c' cs =>
    refine ⟨fun isPrefix => ?_, fun isPrefix => isPrefix.trans (List.prefix_append c _)⟩
    refine List.prefix_of_prefix_length_le isPrefix (List.prefix_append c _) ?_
    by_contra longer
    refine noSlash (List.mem_of_getElem (i := c.length) (h := Nat.not_le.mp longer) ?_)
    rw [isPrefix.getElem (Nat.not_le.mp longer)]
    simp only [pathOf, List.getElem_append_right (Nat.le_refl c.length), Nat.sub_self,
      List.getElem_cons_zero]

/-! ### Resolution by name -/

/-- What the entry named `c` leads to: its inode, or nothing when no entry is named so. -/
def Names (content : UInt32 → Block) (m : Elsewhere) (dir : Memory) (c : List UInt8) : InodePtr → Prop
  | some i => ∃ j < numEntries dir, nameOf content m dir j = c ∧ inodeOf content m dir j = i.val
  | none => ∀ j < numEntries dir, nameOf content m dir j ≠ c

/-- A well formed directory of the table. -/
structure IsGoodDir (content : UInt32 → Block) (g : Globals) (m : Elsewhere) (dir : Fin kNumInodes) :
    Prop where
  isDir : isDirectory (mode (inodeAt g m (some dir))) = true
  wellFormed : WellFormed content m (inodeAt g m (some dir))

/-- **Component by component**: every proper prefix leads to a directory, and the whole path to the
inode, or to nothing when its last component is no name. -/
inductive Resolves (content : UInt32 → Block) (g : Globals) (m : Elsewhere) :
    Fin kNumInodes → List (List UInt8) → InodePtr → Prop
  | last {dir : Fin kNumInodes} {c : List UInt8} {r : InodePtr} : IsGoodDir content g m dir →
      Names content m (inodeAt g m (some dir)) c r → Resolves content g m dir [c] r
  | next {dir dir' : Fin kNumInodes} {c : List UInt8} {cs : List (List UInt8)} {r : InodePtr} :
      IsGoodDir content g m dir → Names content m (inodeAt g m (some dir)) c (some dir') → cs ≠ [] →
      Resolves content g m dir' cs r → Resolves content g m dir (c :: cs) r

/-- The directories on the way of a path, with the components that are left there. -/
inductive OnWay (content : UInt32 → Block) (g : Globals) (m : Elsewhere) :
    Fin kNumInodes → List (List UInt8) → Fin kNumInodes → List (List UInt8) → Prop
  | here {dir : Fin kNumInodes} {cs : List (List UInt8)} : OnWay content g m dir cs dir cs
  | later {dir dir' dir'' : Fin kNumInodes} {c : List UInt8} {cs cs' : List (List UInt8)} :
      Names content m (inodeAt g m (some dir)) c (some dir') → OnWay content g m dir' cs dir'' cs' →
      OnWay content g m dir (c :: cs) dir'' cs'

/-- **A component is clear**: the first entry that answers to the rest of the path has the inode number
of the entry named by the component, and no entry answers when none is named so. -/
structure Clear (content : UInt32 → Block) (m : Elsewhere) (dir : Memory) (c rest : List UInt8) :
    Prop where
  named : ∀ j < numEntries dir, nameOf content m dir j = c →
    ∃ j' < numEntries dir, First content m dir rest j' ∧
      inodeOf content m dir j' = inodeOf content m dir j
  unnamed : (∀ j < numEntries dir, nameOf content m dir j ≠ c) →
    ∀ j < numEntries dir, ¬ Answers content m dir rest j

variable {c rest : List UInt8} {r r' : InodePtr}

/-- Every component names an inode or nothing. -/
theorem names_exists (wellFormed : WellFormed content m dir) (c : List UInt8) :
    ∃ r, Names content m dir c r := by
  by_cases some : ∃ j < numEntries dir, nameOf content m dir j = c
  · obtain ⟨j, below, isName⟩ := some
    exact ⟨Option.some ⟨_, wellFormed.numbers j below⟩, j, below, isName, rfl⟩
  · exact ⟨none, fun j below isName => some ⟨j, below, isName⟩⟩

/-- It names one only. -/
theorem names_unique (wellFormed : WellFormed content m dir) (names : Names content m dir c r)
    (names' : Names content m dir c r') : r = r' := by
  cases r with
  | none =>
    cases r' with
    | none => rfl
    | some i' =>
      obtain ⟨j, below, isName, _⟩ := names'
      exact absurd isName (names j below)
  | some i =>
    obtain ⟨j, below, isName, number⟩ := names
    cases r' with
    | none => exact absurd isName (names' j below)
    | some i' =>
      obtain ⟨j', below', isName', number'⟩ := names'
      obtain rfl := wellFormed.unique j below j' below' (isName.trans isName'.symm)
      exact congrArg some (Fin.ext (number.symm.trans number'))

/-- A component is clear exactly when the search leads to what it names. -/
theorem clear_iff_leads (wellFormed : WellFormed content m dir) (isDir : isDirectory (mode dir) = true) :
    Clear content m dir c rest ↔
      ∀ r, Names content m dir c r → Leads content m dir rest r := by
  have few := wellFormed.few
  constructor
  · rintro clear (_ | i) names
    · exact fun _ => ⟨few, clear.unnamed names⟩
    · obtain ⟨j, below, isName, number⟩ := names
      obtain ⟨j', below', first, same⟩ := clear.named j below isName
      exact ⟨isDir, j', by omega, first, same.trans number⟩
  · intro leads
    refine ⟨fun j below isName => ?_, fun unnamed => (leads none unnamed isDir).2⟩
    obtain ⟨_, j', below', first, number⟩ :=
      leads (some ⟨_, wellFormed.numbers j below⟩) ⟨j, below, isName, rfl⟩
    exact ⟨j', by omega, first, number⟩

/-- Nothing stands in the way of a component when no name has all 30 bytes, and none is a proper
prefix of the component. -/
theorem clear_of_no_prefix {cs : List (List UInt8)} (wellFormed : WellFormed content m dir)
    (short : ∀ j < numEntries dir, (nameOf content m dir j).length < kNameLen)
    (noPrefix : ∀ j < numEntries dir, nameOf content m dir j <+: c → nameOf content m dir j = c) :
    Clear content m dir c (pathOf (c :: cs)) := by
  have answers : ∀ j < numEntries dir,
      Answers content m dir (pathOf (c :: cs)) j ↔ nameOf content m dir j = c := fun j below => by
    rw [answers_short (short j below) (wellFormed.padded j below), prefix_pathOf (wellFormed.noSlash j below)]
    exact ⟨noPrefix j below, fun same => same ▸ List.prefix_refl _⟩
  refine ⟨fun j below isName => ⟨j, below, ⟨(answers j below).mpr isName, ?_⟩, rfl⟩,
    fun none j below answers' => none j below ((answers j below).mp answers')⟩
  intro i before answers'
  have isName' := (answers i (Nat.lt_trans before below)).mp answers'
  have same := wellFormed.unique i (Nat.lt_trans before below) j below (isName'.trans isName.symm)
  omega

/-! ### `namei` -/

section Namei

variable {N : Nat} [NeZero N] {w : FsWorld N}

/-- At every directory on the way `find_entry` answers what the component names there. -/
def FoundByName (N : Nat) [NeZero N] (content : UInt32 → Block) (g : Globals) (m : Elsewhere)
    (dir : Fin kNumInodes) (cs : List (List UInt8)) : Prop :=
  ∀ dir' c cs' r, OnWay content g m dir cs dir' (c :: cs') →
    Names content m (inodeAt g m (some dir')) c r → ∀ w : FsWorld N, Coherent w content →
    ∃ w', findEntry g m (some dir') (pathOf (c :: cs')) w = .ok (r, w')

/-- Every directory on the way of a path is well formed. -/
theorem Resolves.onWay {dir dir' : Fin kNumInodes} {cs cs' : List (List UInt8)}
    (resolves : Resolves content g m dir cs r) (onWay : OnWay content g m dir cs dir' cs')
    (left : cs' ≠ []) : IsGoodDir content g m dir' := by
  induction onWay generalizing r with
  | here =>
    cases resolves with
    | last good _ => exact good
    | next good _ _ _ => exact good
  | later names onWay ih =>
    cases resolves with
    | last _ _ =>
      cases onWay
      exact absurd rfl left
    | next good names' _ rest =>
      cases names_unique good.wellFormed names names'
      exact ih rest left

/-- When every component is found by its name the path is resolved. -/
theorem nameiLoop_resolves (two : 2 ≤ N) {dir : Fin kNumInodes} {cs : List (List UInt8)}
    (components : ∀ c ∈ cs, IsComponent c) (resolves : Resolves content g m dir cs r)
    (clear : ∀ dir' c cs', OnWay content g m dir cs dir' (c :: cs') →
      Clear content m (inodeAt g m (some dir')) c (pathOf (c :: cs'))) :
    ∀ {w : FsWorld N}, Coherent w content →
      ∃ w', nameiLoop g m (some dir) (pathOf cs) w = .ok (r, w') := by
  induction resolves with
  | @last dir c r good names =>
    intro w coherent
    have noSlash := (components c (List.mem_singleton_self c)).noSlash
    have leads := (clear_iff_leads good.wellFormed good.isDir).mp (clear dir c [] .here) r names
    have yields := findEntry_yields (m := m) coherent two g (some dir) (pathOf [c])
    rw [found_of_leads leads] at yields
    obtain ⟨w', ran, _⟩ := yields
    exact ⟨w', (nameiLoop_last (strfind_none noSlash) w).trans ran⟩
  | @next dir dir' c cs r good names more _ ih =>
    intro w coherent
    have noSlash := (components c List.mem_cons_self).noSlash
    have leads := (clear_iff_leads good.wellFormed good.isDir).mp (clear dir c cs .here) _ names
    have yields := findEntry_yields (m := m) coherent two g (some dir) (pathOf (c :: cs))
    rw [found_of_leads leads] at yields
    obtain ⟨w', ran, coherent', _⟩ := yields
    have delim : strfind (pathOf (c :: cs)) slash = slash :: pathOf cs := by
      obtain ⟨c', cs', rfl⟩ := List.exists_cons_of_ne_nil more
      exact strfind_append noSlash
    obtain ⟨w'', ran'⟩ := ih (fun c' member => components c' (List.mem_cons_of_mem c member))
      (fun dir'' c' cs' onWay => clear dir'' c' cs' (.later names onWay)) coherent'
    refine ⟨w'', ?_⟩
    rw [nameiLoop_next delim, ran, ok_bind]
    exact ran'

/-- **Exactly when `namei` resolves a path by name.** Every component is found by its name, and the
whole path leads to the inode that it names, if and only if every component is clear. -/
theorem namei_by_name_iff (two : 2 ≤ N) (coherent : Coherent w content) {cs : List (List UInt8)}
    (components : ∀ c ∈ cs, IsComponent c) (resolves : Resolves content g m kRootINO cs r) :
    (FoundByName N content g m kRootINO cs ∧
      ∃ w', namei g m (slash :: pathOf cs) w = .ok (r, w')) ↔
    ∀ dir c cs', OnWay content g m kRootINO cs dir (c :: cs') →
      Clear content m (inodeAt g m (some dir)) c (pathOf (c :: cs')) := by
  constructor
  · rintro ⟨byName, _⟩ dir c cs' onWay
    have good := resolves.onWay onWay (List.cons_ne_nil c cs')
    refine (clear_iff_leads good.wellFormed good.isDir).mpr fun r' names => ?_
    obtain ⟨w', ran⟩ := byName dir c cs' r' onWay names w coherent
    have yields := findEntry_yields (m := m) coherent two g (some dir) (pathOf (c :: cs'))
    rcases found_cases content m (inodeAt g m (some dir)) (pathOf (c :: cs')) with
      ⟨_, r'', leads⟩ | ⟨_, outside⟩
    · rw [found_of_leads leads] at yields
      obtain ⟨w'', ran', _⟩ := yields
      rw [ran] at ran'
      cases ran'
      exact leads
    · rw [outside] at yields
      have failed : findEntry g m (some dir) (pathOf (c :: cs')) w = .error .outside := yields
      rw [ran] at failed
      cases failed
  · intro clear
    refine ⟨fun dir c cs' r' onWay names w' coherent' => ?_, ?_⟩
    · have good := resolves.onWay onWay (List.cons_ne_nil c cs')
      have leads := (clear_iff_leads good.wellFormed good.isDir).mp (clear dir c cs' onWay) r' names
      have yields := findEntry_yields (m := m) coherent' two g (some dir) (pathOf (c :: cs'))
      rw [found_of_leads leads] at yields
      obtain ⟨w'', ran, _⟩ := yields
      exact ⟨w'', ran⟩
    · rw [namei, if_pos rfl]
      exact nameiLoop_resolves two components resolves clear coherent

end Namei

/-! ### Volumes with one directory -/

section Booted

variable {size : UInt8} {entries : List UInt8} {w : FsWorld 307}

theorem Booted.inodeOf_eq (booted : Booted size entries g w) (m : Elsewhere) (small : j < 32) :
    inodeOf (blockOf (image (rootImage size entries)).disk) m (inodeAt g m (some kRootINO)) j
      = (entries.getD (32 * j) 0).toNat + 256 * (entries.getD (32 * j + 1) 0).toNat :=
  inodeOf_image m (booted.one_zone m).2.2 small

theorem Booted.nameOf_eq (booted : Booted size entries g w) (m : Elsewhere) (small : j < 32) :
    nameOf (blockOf (image (rootImage size entries)).disk) m (inodeAt g m (some kRootINO)) j
      = ((List.range kNameLen).map fun i => entries.getD (32 * j + (2 + i)) 0).takeWhile (· ≠ 0) := by
  unfold nameOf
  refine congrArg _ (List.map_congr_left fun i member => ?_)
  have less : i < 30 := List.mem_range.mp member
  exact booted.dirEntry_eq m (by unfold nameOffset; omega) small

/-- The bytes of a block spell entries with these names. -/
def Spells (entries : List UInt8) (names : List (List UInt8)) : Prop :=
  names.length ≤ 32 ∧ names.Nodup ∧ ∀ j : Fin names.length,
    ((List.range kNameLen).map fun i => entries.getD (32 * j + (2 + i)) 0).takeWhile (· ≠ 0) = names[j] ∧
    names[j] ≠ [] ∧ slash ∉ names[j] ∧
    (∀ i < kNameLen, names[j].length ≤ i → entries.getD (32 * j + (2 + i)) 0 = 0) ∧
    (entries.getD (32 * j) 0).toNat + 256 * (entries.getD (32 * j + 1) 0).toNat < kNumInodes

instance (entries : List UInt8) (names : List (List UInt8)) : Decidable (Spells entries names) :=
  inferInstanceAs (Decidable (_ ∧ _))

/-- The root directory is well formed when its entries are. -/
theorem Booted.wellFormed (booted : Booted size entries g w) (m : Elsewhere) {names : List (List UInt8)}
    (spells : Spells entries names) (count : size.toNat / 32 = names.length) :
    WellFormed (blockOf (image (rootImage size entries)).disk) m (inodeAt g m (some kRootINO)) ∧
    ∀ j (inside : j < names.length),
      nameOf (blockOf (image (rootImage size entries)).disk) m (inodeAt g m (some kRootINO)) j
        = names[j] := by
  obtain ⟨few, distinct, good⟩ := spells
  have total : numEntries (inodeAt g m (some kRootINO)) = names.length :=
    (booted.numEntries_eq m).trans count
  have isName : ∀ j (inside : j < names.length),
      nameOf (blockOf (image (rootImage size entries)).disk) m (inodeAt g m (some kRootINO)) j
        = names[j] := fun j inside =>
    (booted.nameOf_eq m (by omega)).trans (good ⟨j, inside⟩).1
  refine ⟨⟨?_, ?_, ?_, ?_, ?_, ?_⟩, isName⟩
  · rw [total]
    exact Nat.le_trans few (by decide)
  · intro j below
    rw [isName j (total ▸ below)]
    exact (good ⟨j, total ▸ below⟩).2.1
  · intro j below
    rw [isName j (total ▸ below)]
    exact (good ⟨j, total ▸ below⟩).2.2.1
  · intro j below i inside behind
    rw [isName j (total ▸ below)] at behind
    have less : i < 30 := inside
    rw [booted.dirEntry_eq m (by unfold nameOffset; omega) (by omega)]
    exact (good ⟨j, total ▸ below⟩).2.2.2.1 i inside behind
  · intro i below j below' same
    rw [isName i (total ▸ below), isName j (total ▸ below')] at same
    exact (List.Nodup.getElem_inj_iff distinct).mp same
  · intro j below
    rw [booted.inodeOf_eq m (by omega)]
    exact (good ⟨j, total ▸ below⟩).2.2.2.2

end Booted

/-- The root directory with one entry `ab`. -/
theorem lone_name_found : ∃ g w, Booted 32 [3, 0, 97, 98] g w ∧ ∀ m,
    FoundByName 307 (blockOf (image (rootImage 32 [3, 0, 97, 98])).disk) g m kRootINO [[97, 98]] ∧
      ∃ w', namei g m [slash, 97, 98] w = .ok (some ⟨3, by decide⟩, w') := by
  obtain ⟨g, w, booted⟩ := boots 32 [3, 0, 97, 98]
  refine ⟨g, w, booted, fun m => ?_⟩
  obtain ⟨wellFormed, isName⟩ := booted.wellFormed m
    (by decide : Spells [3, 0, 97, 98] [[97, 98]]) rfl
  have one : numEntries (inodeAt g m (some kRootINO)) = 1 := booted.numEntries_eq m
  have name := isName 0 (by decide)
  have resolves : Resolves (blockOf (image (rootImage 32 [3, 0, 97, 98])).disk) g m kRootINO
      [[97, 98]] (some ⟨3, by decide⟩) :=
    .last ⟨booted.isDir m, wellFormed⟩ ⟨0, by rw [one]; decide, name, booted.inodeOf_eq m (by decide)⟩
  refine (namei_by_name_iff (by decide) booted.coherent (fun c member => ?_) resolves).mpr ?_
  · obtain rfl := List.mem_singleton.mp member
    exact ⟨by decide, by decide, by decide⟩
  · intro dir c cs' onWay
    cases onWay with
    | here =>
      refine clear_of_no_prefix wellFormed (fun j below => ?_) fun j below _ => ?_
      · obtain rfl : j = 0 := by omega
        rw [name]
        decide
      · obtain rfl : j = 0 := by omega
        exact name
    | later _ rest => cases rest

/-- **A name that is a prefix of another one**: `/ab` leads to the inode of `a`. -/
theorem prefix_found_first :
    ∃ g w, Booted 64 ([2, 0, 97] ++ List.replicate 29 0 ++ [3, 0, 97, 98]) g w ∧ ∀ m,
      Resolves (blockOf (image (rootImage 64
        ([2, 0, 97] ++ List.replicate 29 0 ++ [3, 0, 97, 98]))).disk) g m kRootINO [[97, 98]]
        (some ⟨3, by decide⟩) ∧
      ∃ w', namei g m (slash :: pathOf [[97, 98]]) w = .ok (some ⟨2, by decide⟩, w') := by
  obtain ⟨g, w, booted⟩ := boots 64 ([2, 0, 97] ++ List.replicate 29 0 ++ [3, 0, 97, 98])
  refine ⟨g, w, booted, fun m => ?_⟩
  obtain ⟨wellFormed, isName⟩ := booted.wellFormed m
    (by decide : Spells ([2, 0, 97] ++ List.replicate 29 0 ++ [3, 0, 97, 98]) [[97], [97, 98]]) rfl
  have both : numEntries (inodeAt g m (some kRootINO)) = 2 := booted.numEntries_eq m
  have isDir := booted.isDir m
  have first := isName 0 (by decide)
  have second := isName 1 (by decide)
  refine ⟨.last ⟨isDir, wellFormed⟩ ⟨1, by rw [both]; decide, second,
    booted.inodeOf_eq m (by decide)⟩, ?_⟩
  have below : 0 < numEntries (inodeAt g m (some kRootINO)) := by rw [both]; decide
  have short : (nameOf (blockOf (image (rootImage 64
      ([2, 0, 97] ++ List.replicate 29 0 ++ [3, 0, 97, 98]))).disk) m
      (inodeAt g m (some kRootINO)) 0).length < kNameLen := by
    rw [first]
    decide
  have answers : Answers (blockOf (image (rootImage 64
      ([2, 0, 97] ++ List.replicate 29 0 ++ [3, 0, 97, 98]))).disk) m
      (inodeAt g m (some kRootINO)) [97, 98] 0 := by
    rw [answers_short short (wellFormed.padded 0 below), first]
    exact ⟨[98], rfl⟩
  have yields := findEntry_yields (m := m) booted.coherent (by decide) g (some kRootINO) [97, 98]
  rw [found_of_leads (r := some ⟨2, by decide⟩) ⟨isDir, 0, by rw [both]; decide,
    ⟨answers, fun i impossible => absurd impossible (Nat.not_lt_zero i)⟩,
    booted.inodeOf_eq m (by decide)⟩] at yields
  obtain ⟨w', ran, _⟩ := yields
  refine ⟨w', ?_⟩
  rw [namei, if_pos rfl]
  exact (nameiLoop_last (strfind_none (by decide)) w).trans ran

end Sprite.Fs

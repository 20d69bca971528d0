/-
**Paths that lead nowhere.**

The loop of `namei` gives what `find_entry` answers to the next `find_entry` without looking at it. A
component that is not found ends the walk only when it is the last one.

* `Rounds` — the calls of `find_entry` in the loop. `Rounds.visits`, `Visits.rounds` connect them to the
  walk on the image.
* `Missing` — a component that does not exist by its name, or stands behind one that is no directory.
* `namei_handles_missing_iff` — **exactly which paths are handled**.
* `missing_in_the_middle` — `/a/b` where there is no `a`.
-/
import Sprite.Fs.Names

namespace Sprite.Fs

open Cache Ide

variable {N : Nat} [NeZero N] {content : UInt32 → Block} {g : Globals} {m : Elsewhere}

/-! ### Well formed images -/

/-- The inodes below the root. -/
inductive Reachable (content : UInt32 → Block) (g : Globals) (m : Elsewhere) : Fin kNumInodes → Prop
  | root : Reachable content g m kRootINO
  | entry {dir i : Fin kNumInodes} {j : Nat} : Reachable content g m dir →
      isDirectory (mode (inodeAt g m (some dir))) = true → j < numEntries (inodeAt g m (some dir)) →
      inodeOf content m (inodeAt g m (some dir)) j = i.val → Reachable content g m i

/-- **A well formed image**: the root is a directory, and every directory below it is well formed. -/
structure GoodImage (content : UInt32 → Block) (g : Globals) (m : Elsewhere) : Prop where
  root : isDirectory (mode (inodeAt g m (some kRootINO))) = true
  dirs : ∀ dir, Reachable content g m dir → isDirectory (mode (inodeAt g m (some dir))) = true →
    WellFormed content m (inodeAt g m (some dir))

/-- The component that a path begins with. -/
def component (path : List UInt8) : List UInt8 := path.takeWhile (· ≠ slash)

/-- **Some component is missing**, by the names in the directories: it does not exist, or what stands
before it is no directory. -/
inductive Missing (content : UInt32 → Block) (g : Globals) (m : Elsewhere) :
    Fin kNumInodes → List UInt8 → Prop
  | noDirectory {dir : Fin kNumInodes} {path : List UInt8} :
      ¬ isDirectory (mode (inodeAt g m (some dir))) = true → Missing content g m dir path
  | noName {dir : Fin kNumInodes} {path : List UInt8} :
      Names content m (inodeAt g m (some dir)) (component path) none → Missing content g m dir path
  | later {dir dir' : Fin kNumInodes} {path path' : List UInt8} {ch : UInt8} :
      Names content m (inodeAt g m (some dir)) (component path) (some dir') →
      strfind path slash = ch :: path' → Missing content g m dir' path' → Missing content g m dir path

/-! ### The loop -/

/-- The rounds of the loop of `namei`: the pointers that `find_entry` gets and looks into, with what is
left of the path. -/
inductive Rounds (g : Globals) (m : Elsewhere) (dir : InodePtr) (path : List UInt8) (w : FsWorld N) :
    InodePtr → List UInt8 → FsWorld N → Prop
  | first : Rounds g m dir path w dir path w
  | next {dir' dir'' : InodePtr} {rest rest' : List UInt8} {ch : UInt8} {w' w'' : FsWorld N} :
      Rounds g m dir path w dir' rest w' → findEntry g m dir' rest w' = .ok (dir'', w'') →
      strfind rest slash = ch :: rest' → Rounds g m dir path w dir'' rest' w''

/-- **Missing components are handled**: `find_entry` never gets a null pointer, and where a component
is missing `namei` answers one. -/
structure HandlesMissing (content : UInt32 → Block) (g : Globals) (m : Elsewhere) (path : List UInt8)
    (w : FsWorld N) : Prop where
  noNull : ∀ dir rest w', Rounds g m (some kRootINO) path w dir rest w' → dir ≠ none
  answersNull : Missing content g m kRootINO path →
    ∃ w', namei g m (slash :: path) w = .ok (none, w')

/-- **At most the last component is not found**: wherever the walk still has a slash before it, it stands
in a directory with an entry that answers. When a component is missing, no entry answers where it has
none before it. -/
structure FoundBeforeLast (content : UInt32 → Block) (g : Globals) (m : Elsewhere) (path : List UInt8) :
    Prop where
  before : ∀ dir rest, Visits content g m (some kRootINO) path dir rest → slash ∈ rest →
    isDirectory (mode (inodeAt g m dir)) = true ∧
      ∃ j < numEntries (inodeAt g m dir), Answers content m (inodeAt g m dir) rest j
  last : Missing content g m kRootINO path →
    ∀ dir rest, Visits content g m (some kRootINO) path dir rest → slash ∉ rest →
      isDirectory (mode (inodeAt g m dir)) = true →
      ∀ j < numEntries (inodeAt g m dir), ¬ Answers content m (inodeAt g m dir) rest j

variable {dir dir' : InodePtr} {path rest : List UInt8} {w w' : FsWorld N} {r : InodePtr}

/-- The loop goes on from every round. -/
theorem Rounds.loop (rounds : Rounds g m dir path w dir' rest w') :
    nameiLoop g m dir path w = nameiLoop g m dir' rest w' := by
  induction rounds with
  | first => rfl
  | next _ ran delim ih => rw [ih, nameiLoop_next delim, ran, ok_bind]

theorem strfind_of_mem (member : slash ∈ path) : ∃ ch path', strfind path slash = ch :: path' := by
  induction path with
  | nil => cases member
  | cons ch path ih =>
    by_cases here : ch = slash
    · exact ⟨ch, path, if_pos here⟩
    · rw [strfind, if_neg here]
      exact ih ((List.mem_cons.mp member).resolve_left (Ne.symm here))

theorem mem_of_strfind {ch : UInt8} {path' : List UInt8} (delim : strfind path slash = ch :: path') :
    slash ∈ path := by
  by_contra absent
  rw [strfind_none absent] at delim
  cases delim

/-! ### The loop on the image -/

/-- What `find_entry` answers is where the search leads. -/
theorem leads_of_ok (two : 2 ≤ N) (coherent : Coherent w content)
    (ran : findEntry g m dir rest w = .ok (r, w')) :
    Leads content m (inodeAt g m dir) rest r ∧ Coherent w' content := by
  have yields := findEntry_yields (m := m) coherent two g dir rest
  rcases found_cases content m (inodeAt g m dir) rest with ⟨_, r', leads⟩ | ⟨_, outside⟩
  · rw [found_of_leads leads] at yields
    obtain ⟨w'', ran', coherent', _⟩ := yields
    obtain ⟨rfl, rfl⟩ := Prod.mk.inj (Except.ok.inj (ran.symm.trans ran'))
    exact ⟨leads, coherent'⟩
  · rw [outside] at yields
    have failed : findEntry g m dir rest w = .error .outside := yields
    rw [ran] at failed
    cases failed

/-- And where it leads is answered. -/
theorem ok_of_leads (two : 2 ≤ N) (coherent : Coherent w content)
    (leads : Leads content m (inodeAt g m dir) rest r) :
    ∃ w', findEntry g m dir rest w = .ok (r, w') ∧ Coherent w' content := by
  have yields := findEntry_yields (m := m) coherent two g dir rest
  rw [found_of_leads leads] at yields
  obtain ⟨w', ran, coherent', _⟩ := yields
  exact ⟨w', ran, coherent'⟩

theorem Leads.unique (leads : Leads content m (inodeAt g m dir) rest r)
    (leads' : Leads content m (inodeAt g m dir) rest dir') : dir' = r :=
  Except.ok.inj ((found_of_leads leads').symm.trans (found_of_leads leads))

/-- Every round of the loop is one of the walk. -/
theorem Rounds.visits (two : 2 ≤ N) (coherent : Coherent w content)
    (rounds : Rounds g m dir path w dir' rest w') :
    Visits content g m dir path dir' rest ∧ Coherent w' content := by
  induction rounds with
  | first => exact ⟨.first, coherent⟩
  | next _ ran delim ih =>
    obtain ⟨visits, coherent'⟩ := ih
    obtain ⟨leads, coherent''⟩ := leads_of_ok two coherent' ran
    exact ⟨.next visits leads delim, coherent''⟩

/-- Every step of the walk is a round of the loop. -/
theorem Visits.rounds (two : 2 ≤ N) (coherent : Coherent w content)
    (visits : Visits content g m dir path dir' rest) :
    ∃ w', Rounds g m dir path w dir' rest w' ∧ Coherent w' content := by
  induction visits with
  | first => exact ⟨w, .first, coherent⟩
  | next _ leads delim ih =>
    obtain ⟨w', rounds, coherent'⟩ := ih
    obtain ⟨w'', ran, coherent''⟩ := ok_of_leads two coherent' leads
    exact ⟨w'', .next rounds ran delim, coherent''⟩

/-- Where the walk has no slash before it the loop answers what `find_entry` does. -/
theorem Visits.answers (two : 2 ≤ N) (coherent : Coherent w content)
    (visits : Visits content g m (some kRootINO) path dir' rest) (last : slash ∉ rest) :
    ∃ w', namei g m (slash :: path) w = findEntry g m dir' rest w' ∧ Coherent w' content := by
  obtain ⟨w', rounds, coherent'⟩ := visits.rounds two coherent
  refine ⟨w', ?_, coherent'⟩
  rw [namei, if_pos rfl, rounds.loop, nameiLoop_last (strfind_none last)]

/-- A walk that never leads to null stays below the root. -/
theorem Visits.reachable {d : Fin kNumInodes}
    (noNull : ∀ dir rest, Visits content g m (some kRootINO) path dir rest → dir ≠ none)
    (visits : Visits content g m (some kRootINO) path (some d) rest) : Reachable content g m d := by
  generalize pointer : some d = dir' at visits
  induction visits generalizing d with
  | first =>
    cases pointer
    exact .root
  | next visits leads _ ih =>
    subst pointer
    obtain ⟨dir, rfl⟩ := Option.ne_none_iff_exists'.mp (noNull _ _ visits)
    obtain ⟨isDir, j, below, _, number⟩ := leads
    exact .entry (ih rfl) isDir (Nat.lt_of_lt_of_le below (Nat.min_le_left _ _)) number

/-- In a well formed directory every search leads somewhere. -/
theorem WellFormed.leads {dir : Memory} (wellFormed : isDirectory (mode dir) = true → WellFormed content m dir)
    (name : List UInt8) : ∃ r, Leads content m dir name r := by
  rcases found_cases content m dir name with ⟨_, leads⟩ | ⟨leaves, _⟩
  · exact leads
  · refine absurd (fun isDir => ?_) leaves
    have good := wellFormed isDir
    exact ⟨fun j below _ => good.numbers j (by omega), fun many => absurd good.few (Nat.not_le.mpr many)⟩

/-- Some entry of a directory answers exactly when the search does not lead to null. -/
theorem leads_null_iff {dir : Memory} (wellFormed : isDirectory (mode dir) = true → WellFormed content m dir) :
    Leads content m dir rest none ↔
      (isDirectory (mode dir) = true → ∀ j < numEntries dir, ¬ Answers content m dir rest j) :=
  ⟨fun leads isDir => (leads isDir).2, fun silent isDir => ⟨(wellFormed isDir).few, silent isDir⟩⟩

/-- A walk that finds everything before it has no slash left ends there. -/
theorem exists_last (dir : InodePtr) (path : List UInt8)
    (before : ∀ dir' rest, Visits content g m dir path dir' rest → slash ∈ rest →
      ∃ r, Leads content m (inodeAt g m dir') rest r) :
    ∃ dir' rest, Visits content g m dir path dir' rest ∧ slash ∉ rest := by
  by_cases more : slash ∈ path
  · obtain ⟨ch, path', delim⟩ := strfind_of_mem more
    obtain ⟨dir₁, leads⟩ := before dir path .first more
    have shorter : path'.length < path.length := by
      have bound := length_strfind path slash
      rw [delim] at bound
      exact bound
    obtain ⟨dir', rest, visits, last⟩ := exists_last dir₁ path' fun dir' rest visits =>
      before dir' rest (visits.later leads delim)
    exact ⟨dir', rest, visits.later leads delim, last⟩
  · exact ⟨dir, path, .first, more⟩
termination_by path.length

/-! ### Which paths are handled -/

/-- Every directory of a walk that never leads to null is well formed. -/
theorem GoodImage.wellFormed (good : GoodImage content g m)
    (noNull : ∀ dir rest, Visits content g m (some kRootINO) path dir rest → dir ≠ none)
    (visits : Visits content g m (some kRootINO) path dir rest)
    (isDir : isDirectory (mode (inodeAt g m dir)) = true) : WellFormed content m (inodeAt g m dir) := by
  obtain ⟨d, rfl⟩ := Option.ne_none_iff_exists'.mp (noNull dir rest visits)
  exact good.dirs d (visits.reachable noNull) isDir

/-- What is found before the last component is never null. -/
theorem FoundBeforeLast.noNull (found : FoundBeforeLast content g m path)
    (visits : Visits content g m (some kRootINO) path dir rest) : dir ≠ none := by
  cases visits with
  | first => exact Option.some_ne_none _
  | @next dir' _ rest' _ _ visits leads delim =>
    rintro rfl
    obtain ⟨isDir, j, below, answers⟩ := found.before dir' rest' visits (mem_of_strfind delim)
    exact (leads isDir).2 j below answers

/-- **Exactly which paths are handled**: those of which at most the last component is not found, and no
other name is taken for it. -/
theorem namei_handles_missing_iff (two : 2 ≤ N) (coherent : Coherent w content)
    (good : GoodImage content g m) (path : List UInt8) :
    HandlesMissing content g m path w ↔ FoundBeforeLast content g m path := by
  constructor
  · intro handles
    have noNull : ∀ dir rest, Visits content g m (some kRootINO) path dir rest → dir ≠ none := by
      intro dir rest visits
      obtain ⟨w', rounds, _⟩ := visits.rounds two coherent
      exact handles.noNull dir rest w' rounds
    refine ⟨fun dir rest visits more => ?_, fun missing dir rest visits last => ?_⟩
    · obtain ⟨r, leads⟩ := WellFormed.leads (good.wellFormed noNull visits) rest
      obtain ⟨ch, rest', delim⟩ := strfind_of_mem more
      obtain ⟨i, rfl⟩ := Option.ne_none_iff_exists'.mp (noNull r rest' (.next visits leads delim))
      obtain ⟨isDir, j, below, first, _⟩ := leads
      exact ⟨isDir, j, Nat.lt_of_lt_of_le below (Nat.min_le_left _ _), first.1⟩
    · obtain ⟨w', ran⟩ := handles.answersNull missing
      obtain ⟨w'', same, coherent'⟩ := visits.answers two coherent last
      exact (leads_null_iff (good.wellFormed noNull visits)).mp
        (leads_of_ok two coherent' (same.symm.trans ran)).1
  · intro found
    have noNull : ∀ dir rest, Visits content g m (some kRootINO) path dir rest → dir ≠ none :=
      fun dir rest => found.noNull
    refine ⟨fun dir rest w' rounds => noNull dir rest (rounds.visits two coherent).1, fun missing => ?_⟩
    obtain ⟨dir, rest, visits, last⟩ := exists_last (some kRootINO) path fun dir rest visits _ =>
      WellFormed.leads (good.wellFormed noNull visits) rest
    obtain ⟨w', same, coherent'⟩ := visits.answers two coherent last
    obtain ⟨w'', ran, _⟩ := ok_of_leads two coherent'
      ((leads_null_iff (good.wellFormed noNull visits)).mpr (found.last missing dir rest visits last))
    exact ⟨w'', same.trans ran⟩

/-! ### A volume with an empty root -/

/-- The entries `.` and `..` of the root directory. -/
def dotEntries : List UInt8 := [1, 0, 46] ++ List.replicate 29 0 ++ [1, 0, 46, 46]

/-- Their names. -/
def dotNames : List (List UInt8) := [[46], [46, 46]]

section Dots

variable {w : FsWorld 307}

theorem dots_wellFormed (booted : Booted 64 dotEntries g w) (m : Elsewhere) :
    WellFormed (blockOf (image (rootImage 64 dotEntries)).disk) m (inodeAt g m (some kRootINO)) ∧
    ∀ j < 2, nameOf (blockOf (image (rootImage 64 dotEntries)).disk) m (inodeAt g m (some kRootINO)) j
      ∈ dotNames := by
  obtain ⟨wellFormed, isName⟩ := booted.wellFormed m (by decide : Spells dotEntries dotNames) rfl
  refine ⟨wellFormed, fun j below => ?_⟩
  rw [isName j below]
  exact List.getElem_mem _

/-- Both lead back to the root. -/
theorem dots_good (booted : Booted 64 dotEntries g w) (m : Elsewhere) :
    GoodImage (blockOf (image (rootImage 64 dotEntries)).disk) g m := by
  have both : numEntries (inodeAt g m (some kRootINO)) = 2 := booted.numEntries_eq m
  have onlyRoot : ∀ dir, Reachable (blockOf (image (rootImage 64 dotEntries)).disk) g m dir →
      dir = kRootINO := by
    intro dir reachable
    induction reachable with
    | root => rfl
    | @entry _ i j _ _ below number ih =>
      subst ih
      rw [both] at below
      rw [booted.inodeOf_eq m (by omega)] at number
      have back : ∀ j < 2, (dotEntries.getD (32 * j) 0).toNat + 256 * (dotEntries.getD (32 * j + 1) 0).toNat
          = kRootINO.val := by decide
      exact Fin.ext (number.symm.trans (back j below))
  refine ⟨booted.isDir m, fun dir reachable _ => ?_⟩
  rw [onlyRoot dir reachable]
  exact (dots_wellFormed booted m).1

/-- No entry answers to a name that begins with another character. -/
theorem dots_silent (booted : Booted 64 dotEntries g w) (m : Elsewhere) (name : List UInt8) :
    Leads (blockOf (image (rootImage 64 dotEntries)).disk) m (inodeAt g m (some kRootINO)) (97 :: name)
      none := by
  obtain ⟨wellFormed, isName⟩ := dots_wellFormed booted m
  have both : numEntries (inodeAt g m (some kRootINO)) = 2 := booted.numEntries_eq m
  have dotted : ∀ c ∈ dotNames, ∃ c', c = 46 :: c' := by
    rintro _ (_ | ⟨_, _ | ⟨_, impossible⟩⟩)
    · exact ⟨[], rfl⟩
    · exact ⟨[46], rfl⟩
    · cases impossible
  refine fun _ => ⟨wellFormed.few, fun j below answers => ?_⟩
  obtain ⟨c', shape⟩ := dotted _ (isName j (both ▸ below))
  have shorter := prefix_of_answers answers
  rw [shape] at shorter
  exact absurd (List.cons_prefix_cons.mp shorter).1 (by decide)

end Dots

/-- `/a` in a root directory with no other names is handled. -/
theorem missing_name_handled : ∃ g w, Booted 64 dotEntries g w ∧ ∀ m,
    Missing (blockOf (image (rootImage 64 dotEntries)).disk) g m kRootINO [97] ∧
      HandlesMissing (blockOf (image (rootImage 64 dotEntries)).disk) g m [97] w := by
  obtain ⟨g, w, booted⟩ := boots 64 dotEntries
  refine ⟨g, w, booted, fun m => ⟨.noName fun j below isName => ?_, ?_⟩⟩
  · have both : numEntries (inodeAt g m (some kRootINO)) = 2 := booted.numEntries_eq m
    have dotted := (dots_wellFormed booted m).2 j (both ▸ below)
    rw [isName] at dotted
    exact absurd dotted (by decide)
  have alone : ∀ dir rest, Visits (blockOf (image (rootImage 64 dotEntries)).disk) g m (some kRootINO)
      [97] dir rest → dir = some kRootINO ∧ rest = [97] := by
    intro dir rest visits
    induction visits with
    | first => exact ⟨rfl, rfl⟩
    | next _ _ delim ih =>
      rw [ih.2, strfind_none (by decide)] at delim
      cases delim
  refine (namei_handles_missing_iff (by decide) booted.coherent (dots_good booted m) [97]).mpr
    ⟨fun dir rest visits more => ?_, fun _ dir rest visits _ => ?_⟩
  · rw [(alone dir rest visits).2] at more
    exact absurd more (by decide)
  · obtain ⟨rfl, rfl⟩ := alone dir rest visits
    exact fun isDir => (dots_silent booted m [] isDir).2

/-- **A missing component in the middle**: for `/a/b` `find_entry` gets a null pointer. -/
theorem missing_in_the_middle : ∃ g w, Booted 64 dotEntries g w ∧ ∀ m,
    GoodImage (blockOf (image (rootImage 64 dotEntries)).disk) g m ∧
      ¬ HandlesMissing (blockOf (image (rootImage 64 dotEntries)).disk) g m [97, slash, 98] w := by
  obtain ⟨g, w, booted⟩ := boots 64 dotEntries
  refine ⟨g, w, booted, fun m => ⟨dots_good booted m, fun handles => ?_⟩⟩
  obtain ⟨w', ran, _⟩ := ok_of_leads (by decide) booted.coherent (dots_silent booted m [slash, 98])
  have delim : strfind [97, slash, 98] slash = [slash, 98] := by decide
  exact handles.noNull none [98] w' (.next .first ran delim) rfl

end Sprite.Fs

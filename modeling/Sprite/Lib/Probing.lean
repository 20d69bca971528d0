/-
**Open addressing with linear probing.**

A table of `N` slots, each empty or holding an entry, in which the entry of a key is looked for from
the key's home slot onwards, wrapping round at the end.

* `scan` — the probe loop: the first slot from a start that satisfies a test, within a number of
  probes. `scan_eq_some`, `scan_eq_none` say exactly what it finds.
* `Complete` — what makes lookups find everything: between the home slot of a stored key and the slot
  it is in there is no empty slot, and no key is stored twice.
* `Complete.scan_hit`, `Complete.scan_miss` — lookups in a complete table.
* `Complete.insert` — storing a new key in the first empty slot keeps the table complete.
* `Complete.of_full` — a table without empty slots needs no more than distinct keys. So an entry may
  be removed from a full table when its slot is filled again at once: no marker is needed.
-/
import Mathlib.Data.Fin.Basic
import Mathlib.Data.Fintype.Card
import Mathlib.Data.Nat.ModEq
import Mathlib.Logic.Function.Basic

set_option linter.unusedSectionVars false

namespace Probing

variable {N : Nat} [NeZero N]

/-- The slot `steps` probes after `home`. -/
def walk (home : Fin N) (steps : Nat) : Fin N := Fin.ofNat N (home.val + steps)

@[simp] theorem walk_zero (home : Fin N) : walk home 0 = home := by
  simp [walk]

@[simp] theorem walk_walk (home : Fin N) (first second : Nat) :
    walk (walk home first) second = walk home (first + second) := by
  apply Fin.ext
  simp only [walk, Fin.val_ofNat, Nat.mod_add_mod, Nat.add_assoc]

/-- Probing reaches every slot within `N` probes. -/
theorem exists_walk (home slot : Fin N) : ∃ steps < N, walk home steps = slot := by
  have small := home.isLt
  have small' := slot.isLt
  by_cases before : home.val ≤ slot.val
  · refine ⟨slot.val - home.val, by omega, Fin.ext ?_⟩
    rw [walk, Fin.val_ofNat, Nat.add_sub_cancel' before, Nat.mod_eq_of_lt small']
  · refine ⟨slot.val + N - home.val, by omega, Fin.ext ?_⟩
    rw [walk, Fin.val_ofNat, Nat.add_sub_cancel' (by omega), Nat.add_mod_right,
      Nat.mod_eq_of_lt small']

/-- The first slot satisfying `test` among the next `fuel` ones. -/
def scan (test : Fin N → Bool) : Nat → Fin N → Option (Fin N)
  | 0, _ => none
  | fuel + 1, slot => if test slot then some slot else scan test fuel (walk slot 1)

theorem scan_eq_some {test : Fin N → Bool} {fuel : Nat} : ∀ {home found : Fin N},
    scan test fuel home = some found ↔
      ∃ steps < fuel, walk home steps = found ∧ test found = true ∧
        ∀ earlier < steps, test (walk home earlier) = false := by
  induction fuel with
  | zero => simp [scan]
  | succ fuel ih =>
    intro home found
    rw [scan]
    split
    · rename_i here
      constructor
      · intro same
        cases same
        exact ⟨0, Nat.succ_pos fuel, walk_zero home, here, fun _ impossible => by omega⟩
      · rintro ⟨steps, _, reached, _, fails⟩
        cases steps with
        | zero => rw [← reached, walk_zero]
        | succ steps =>
          have first := fails 0 (Nat.succ_pos steps)
          rw [walk_zero, here] at first
          cases first
    · rename_i notHere
      rw [ih]
      constructor
      · rintro ⟨steps, inside, reached, holds, fails⟩
        refine ⟨steps + 1, by omega, ?_, holds, fun earlier before => ?_⟩
        · rw [← reached, walk_walk, Nat.add_comm]
        · cases earlier with
          | zero => rw [walk_zero]; simpa using notHere
          | succ earlier =>
            have later := fails earlier (by omega)
            rwa [walk_walk, Nat.add_comm] at later
      · rintro ⟨steps, inside, reached, holds, fails⟩
        cases steps with
        | zero =>
          rw [walk_zero] at reached
          rw [reached] at notHere
          exact absurd holds notHere
        | succ steps =>
          refine ⟨steps, by omega, by rw [walk_walk, Nat.add_comm, reached], holds,
            fun earlier before => ?_⟩
          rw [walk_walk, Nat.add_comm]
          exact fails (earlier + 1) (by omega)

theorem scan_eq_none {test : Fin N → Bool} {fuel : Nat} : ∀ {home : Fin N},
    scan test fuel home = none ↔ ∀ steps < fuel, test (walk home steps) = false := by
  induction fuel with
  | zero => simp [scan]
  | succ fuel ih =>
    intro home
    rw [scan]
    split
    · rename_i here
      constructor
      · exact fun impossible => by cases impossible
      · intro fails
        have first := fails 0 (Nat.succ_pos fuel)
        rw [walk_zero, here] at first
        cases first
    · rename_i notHere
      rw [ih]
      constructor
      · intro fails steps inside
        cases steps with
        | zero => rw [walk_zero]; simpa using notHere
        | succ steps =>
          have later := fails steps (by omega)
          rwa [walk_walk, Nat.add_comm] at later
      · intro fails steps inside
        rw [walk_walk, Nat.add_comm]
        exact fails (steps + 1) (by omega)

/-- A test that some slot satisfies is met within `N` probes from anywhere. -/
theorem scan_isSome {test : Fin N → Bool} {slot : Fin N} (holds : test slot = true)
    (home : Fin N) : ∃ found, scan test N home = some found := by
  obtain ⟨steps, inside, reached⟩ := exists_walk home slot
  cases result : scan test N home with
  | some found => exact ⟨found, rfl⟩
  | none =>
    have fails := scan_eq_none.mp result steps inside
    rw [reached, holds] at fails
    cases fails

/-! ### Complete tables -/

variable {α K : Type*} [DecidableEq K]

/-- The test of a lookup: the slot is empty, or holds the key. -/
def stopsAt (slots : Fin N → Option α) (key : α → K) (wanted : K) (slot : Fin N) : Bool :=
  match slots slot with
  | none => true
  | some entry => key entry = wanted

/-- The slots in use. -/
def occupied (slots : Fin N → Option α) : Finset (Fin N) :=
  Finset.univ.filter fun slot => (slots slot).isSome

/-- No key is stored twice, and from its home slot to its own every slot is in use. -/
structure Complete (slots : Fin N → Option α) (key : α → K) (home : K → Fin N) : Prop where
  unique : ∀ slot slot' entry entry', slots slot = some entry → slots slot' = some entry' →
    key entry = key entry' → slot = slot'
  reachable : ∀ slot entry, slots slot = some entry →
    ∃ steps < N, walk (home (key entry)) steps = slot ∧
      ∀ earlier < steps, (slots (walk (home (key entry)) earlier)).isSome

variable {slots : Fin N → Option α} {key : α → K} {home : K → Fin N}

theorem stopsAt_eq_false {wanted : K} {slot : Fin N} :
    stopsAt slots key wanted slot = false ↔ ∃ entry, slots slot = some entry ∧ key entry ≠ wanted := by
  unfold stopsAt
  cases slots slot with
  | none => simp
  | some entry => simp

/-- **A stored key is found**, in the slot it is stored in. -/
theorem Complete.scan_hit (complete : Complete slots key home) {slot : Fin N} {entry : α}
    (stored : slots slot = some entry) :
    scan (stopsAt slots key (key entry)) N (home (key entry)) = some slot := by
  obtain ⟨steps, inside, reached, used⟩ := complete.reachable slot entry stored
  rw [scan_eq_some]
  refine ⟨steps, inside, reached, by simp [stopsAt, stored], fun earlier before => ?_⟩
  obtain ⟨other, there⟩ := Option.isSome_iff_exists.mp (used earlier before)
  refine stopsAt_eq_false.mpr ⟨other, there, fun same => ?_⟩
  -- Another entry with the same key would be the same slot, reached in fewer steps.
  have sameSlot := complete.unique _ _ _ _ there stored same
  obtain ⟨steps', _, reached', used'⟩ := complete.reachable _ other there
  have distance : walk (home (key entry)) earlier = walk (home (key entry)) steps := by
    rw [sameSlot, reached]
  have values := congrArg Fin.val distance
  simp only [walk, Fin.val_ofNat] at values
  have collide : (home (key entry)).val + earlier ≡ (home (key entry)).val + steps [MOD N] := values
  have same' := Nat.ModEq.add_left_cancel' _ collide
  rw [Nat.ModEq, Nat.mod_eq_of_lt (by omega), Nat.mod_eq_of_lt inside] at same'
  omega

/-- A key that is not stored is not found: the scan gives up, or ends at an empty slot. -/
theorem scan_miss {wanted : K} (absent : ∀ slot entry, slots slot = some entry → key entry ≠ wanted)
    {start found : Fin N} (result : scan (stopsAt slots key wanted) N start = some found) :
    slots found = none := by
  obtain ⟨_, _, _, holds, _⟩ := scan_eq_some.mp result
  cases inSlot : slots found with
  | none => rfl
  | some entry =>
    have differs := stopsAt_eq_false.mpr ⟨entry, inSlot, absent found entry inSlot⟩
    rw [holds] at differs
    cases differs

/-- **Storing a new key in the first empty slot** after its home keeps the table complete. -/
theorem Complete.insert [DecidableEq α] (complete : Complete slots key home) {wanted : K} {free : Fin N}
    {entry : α} (absent : ∀ slot other, slots slot = some other → key other ≠ wanted)
    (fresh : ∀ slot, slots slot ≠ some entry)
    (result : scan (fun slot => (slots slot).isNone) N (home wanted) = some free) :
    Complete (Function.update slots free (some entry)) (Function.update key entry wanted) home := by
  obtain ⟨steps, inside, reached, empty, used⟩ := scan_eq_some.mp result
  have keyOf : ∀ slot other, slots slot = some other →
      Function.update key entry wanted other = key other := fun slot other stored =>
    Function.update_of_ne (fun same => fresh slot (by rw [stored, same])) _ _
  have stays : ∀ slot, (slots slot).isSome →
      (Function.update slots free (some entry) slot).isSome := fun slot stored => by
    by_cases same : slot = free
    · rw [same, Function.update_self]
      rfl
    · rwa [Function.update_of_ne same]
  constructor
  · intro slot slot' other other' stored stored' sameKey
    by_cases here : slot = free <;> by_cases there : slot' = free
    · rw [here, there]
    · rw [here, Function.update_self] at stored
      cases stored
      rw [Function.update_of_ne there] at stored'
      rw [Function.update_self, keyOf _ _ stored'] at sameKey
      exact absurd sameKey.symm (absent _ _ stored')
    · rw [there, Function.update_self] at stored'
      cases stored'
      rw [Function.update_of_ne here] at stored
      rw [Function.update_self, keyOf _ _ stored] at sameKey
      exact absurd sameKey (absent _ _ stored)
    · rw [Function.update_of_ne here] at stored
      rw [Function.update_of_ne there] at stored'
      rw [keyOf _ _ stored, keyOf _ _ stored'] at sameKey
      exact complete.unique _ _ _ _ stored stored' sameKey
  · intro slot other stored
    by_cases here : slot = free
    · rw [here, Function.update_self] at stored
      cases stored
      rw [Function.update_self, here]
      refine ⟨steps, inside, reached, fun earlier before => stays _ ?_⟩
      simpa using used earlier before
    · rw [Function.update_of_ne here] at stored
      rw [keyOf _ _ stored]
      obtain ⟨steps', inside', reached', used'⟩ := complete.reachable _ _ stored
      exact ⟨steps', inside', reached', fun earlier before => stays _ (used' earlier before)⟩

/-- **A full table with distinct keys is complete.** -/
theorem Complete.of_full (full : ∀ slot, (slots slot).isSome)
    (unique : ∀ slot slot' entry entry', slots slot = some entry → slots slot' = some entry' →
      key entry = key entry' → slot = slot') : Complete slots key home := by
  refine ⟨unique, fun slot entry stored => ?_⟩
  obtain ⟨steps, inside, reached⟩ := exists_walk (home (key entry)) slot
  exact ⟨steps, inside, reached, fun earlier _ => full _⟩

theorem mem_occupied {slot : Fin N} : slot ∈ occupied slots ↔ (slots slot).isSome := by
  simp [occupied]

/-- A table with `N` slots in use is full. -/
theorem full_of_card (all : (occupied slots).card = N) (slot : Fin N) : (slots slot).isSome := by
  have everything : occupied slots = Finset.univ :=
    Finset.eq_univ_of_card _ (all.trans (Fintype.card_fin N).symm)
  rw [← mem_occupied, everything]
  exact Finset.mem_univ slot

/-- A table with fewer than `N` slots in use has an empty one. -/
theorem exists_empty (some_left : (occupied slots).card < N) : ∃ slot, slots slot = none := by
  by_contra every
  have full : occupied slots = Finset.univ := by
    refine Finset.eq_univ_of_forall fun slot => mem_occupied.mpr ?_
    cases inSlot : slots slot with
    | none => exact absurd ⟨slot, inSlot⟩ every
    | some entry => rfl
  rw [full, Finset.card_univ, Fintype.card_fin] at some_left
  exact Nat.lt_irrefl N some_left

/-- **A complete table uses no more slots than there are keys in it.** -/
theorem Complete.card_le (complete : Complete slots key home) {keys : Finset K}
    (known : ∀ slot entry, slots slot = some entry → key entry ∈ keys) :
    (occupied slots).card ≤ keys.card := by
  rw [← Finset.card_map (s := keys) Function.Embedding.some]
  refine Finset.card_le_card_of_injOn (fun slot => (slots slot).map key) ?_ ?_
  · intro slot used
    obtain ⟨entry, stored⟩ := Option.isSome_iff_exists.mp (mem_occupied.mp used)
    refine Finset.mem_map.mpr ⟨key entry, known slot entry stored, ?_⟩
    simp only [stored, Option.map_some, Function.Embedding.some_apply]
  · intro slot used slot' used' same
    obtain ⟨entry, stored⟩ := Option.isSome_iff_exists.mp (mem_occupied.mp used)
    obtain ⟨entry', stored'⟩ := Option.isSome_iff_exists.mp (mem_occupied.mp used')
    simp only [stored, stored', Option.map_some, Option.some.injEq] at same
    exact complete.unique slot slot' entry entry' stored stored' same

theorem occupied_update_some {slot : Fin N} {entry : α} (empty : slots slot = none) :
    (occupied (Function.update slots slot (some entry))).card = (occupied slots).card + 1 := by
  have outside : slot ∉ occupied slots := by simp [mem_occupied, empty]
  have inserted : occupied (Function.update slots slot (some entry))
      = insert slot (occupied slots) := by
    ext other
    rw [Finset.mem_insert, mem_occupied, mem_occupied]
    by_cases same : other = slot
    · simp [same]
    · simp [same]
  rw [inserted, Finset.card_insert_of_notMem outside]

end Probing

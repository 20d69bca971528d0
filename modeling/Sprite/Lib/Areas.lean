/-
**Areas of byte memory.**

What a piece of code may write is an area, a set of addresses, and what it leaves alone is the rest.
Words that lie one behind the other are read off as a list.

* `Within` — memory changes inside an area only; it composes and widens.
* `Spelled` — the words of a list, from an address upwards; it depends on their bytes only.
* `spelled_storeWords`, `within_storeWords` — storing a list of words.
-/
import Sprite.Lib.Words
import Mathlib.Data.Set.Lattice
import Mathlib.Order.CompletePartialOrder

namespace Words

/-- The addresses from `low` up to `high`. -/
def between (low high : Nat) : Set UInt32 := {place | low ≤ place.toNat ∧ place.toNat < high}

theorem between_subset {low high low' high' : Nat} (down : low' ≤ low) (up : high ≤ high') :
    between low high ⊆ between low' high' :=
  fun _ inside => ⟨down.trans inside.1, inside.2.trans_le up⟩

/-- **Memory changes inside an area only.** -/
def Within (area : Set UInt32) (memory memory' : Memory) : Prop :=
  ∀ place, place ∉ area → memory' place = memory place

namespace Within

variable {area area' : Set UInt32} {memory memory' memory'' : Memory}

theorem refl (area : Set UInt32) (memory : Memory) : Within area memory memory := fun _ _ => rfl

theorem mono (within : Within area memory memory') (wider : area ⊆ area') :
    Within area' memory memory' :=
  fun place outside => within place fun inside => outside (wider inside)

theorem trans (first : Within area memory memory') (second : Within area memory' memory'') :
    Within area memory memory'' :=
  fun place outside => (second place outside).trans (first place outside)

/-- What is apart from the area is unchanged. -/
theorem same (within : Within area memory memory') (apart : Disjoint area' area) :
    ∀ place ∈ area', memory' place = memory place :=
  fun place inside => within place (Set.disjoint_left.mp apart inside)

end Within

theorem toNat_add_four {address : UInt32} (fits : address.toNat + 4 < 2 ^ 32) :
    (address + 4).toNat = address.toNat + 4 := by
  rw [UInt32.toNat_add, show (4 : UInt32).toNat = 4 from rfl]
  omega

theorem within_store32 (memory : Memory) {address : UInt32} (value : UInt32)
    (fits : address.toNat + 4 ≤ 2 ^ 32) :
    Within (between address.toNat (address.toNat + 4)) memory (store32 memory address value) := by
  intro place outside
  have far : ¬ (address.toNat ≤ place.toNat ∧ place.toNat < address.toNat + 4) := outside
  refine store32_frame ?_
  omega

/-! ### Lists of words -/

/-- The words of a list lie one behind the other, from an address upwards. -/
def Spelled (memory : Memory) : UInt32 → List UInt32 → Prop
  | _, [] => True
  | address, word :: rest => load32 memory address = word ∧ Spelled memory (address + 4) rest

/-- The memory after the words of a list are stored one behind the other. -/
def storeWords (memory : Memory) : UInt32 → List UInt32 → Memory
  | _, [] => memory
  | address, word :: rest => storeWords (store32 memory address word) (address + 4) rest

/-- The bytes of a list of words from an address upwards. -/
def spread (address : UInt32) (words : List UInt32) : Set UInt32 :=
  between address.toNat (address.toNat + 4 * words.length)

variable {memory memory' : Memory}

/-- A list of words depends on its own bytes only. -/
theorem Spelled.congr (words : List UInt32) : ∀ {address : UInt32},
    Spelled memory address words → address.toNat + 4 * words.length ≤ 2 ^ 32 →
    (∀ place ∈ spread address words, memory' place = memory place) →
    Spelled memory' address words := by
  induction words with
  | nil => exact fun _ _ _ => True.intro
  | cons word rest ih =>
    intro address spelled fits same
    rw [List.length_cons] at fits
    obtain ⟨loaded, spelled⟩ := spelled
    have first : load32 memory' address = load32 memory address := by
      refine load32_congr (by omega) fun place low high => same place ⟨low, ?_⟩
      rw [List.length_cons]
      omega
    refine ⟨first.trans loaded, ?_⟩
    cases rest with
    | nil => exact True.intro
    | cons next rest =>
      rw [List.length_cons] at fits
      have value : (address + 4).toNat = address.toNat + 4 := toNat_add_four (by omega)
      refine ih spelled (by rw [value, List.length_cons]; omega) fun place inside => same place ?_
      obtain ⟨low, high⟩ := inside
      rw [value] at low high
      exact ⟨by omega, by rw [List.length_cons]; omega⟩

/-- Each word of a list that lies in memory. -/
theorem Spelled.get {words : List UInt32} : ∀ {address : UInt32}, Spelled memory address words →
    ∀ (index : Nat) {word : UInt32}, words[index]? = some word →
    load32 memory (address + 4 * UInt32.ofNat index) = word := by
  induction words with
  | nil => exact fun _ index _ found => absurd found (by rw [List.getElem?_nil]; exact nofun)
  | cons first rest ih =>
    intro address spelled index word found
    cases index with
    | zero =>
      cases found
      have here : address + 4 * UInt32.ofNat 0 = address := UInt32.add_zero address
      rw [here]
      exact spelled.1
    | succ index =>
      have there : address + 4 * UInt32.ofNat (index + 1) = address + 4 + 4 * UInt32.ofNat index := by
        rw [UInt32.ofNat_add, UInt32.mul_add, UInt32.add_comm (4 * _), ← UInt32.add_assoc]
        rfl
      rw [there]
      exact ih spelled.2 index found

theorem within_storeWords (words : List UInt32) : ∀ (memory : Memory) (address : UInt32),
    address.toNat + 4 * words.length ≤ 2 ^ 32 →
    Within (spread address words) memory (storeWords memory address words) := by
  induction words with
  | nil => exact fun memory address _ => Within.refl _ memory
  | cons word rest ih =>
    intro memory address fits
    rw [List.length_cons] at fits
    have first := within_store32 memory word (show address.toNat + 4 ≤ 2 ^ 32 by omega)
    cases rest with
    | nil => exact first
    | cons next rest =>
      rw [List.length_cons] at fits
      have value : (address + 4).toNat = address.toNat + 4 := toNat_add_four (by omega)
      have others := ih (store32 memory address word) (address + 4)
        (by rw [value, List.length_cons]; omega)
      have low : between address.toNat (address.toNat + 4) ⊆ spread address (word :: next :: rest) := by
        refine between_subset le_rfl ?_
        simp only [List.length_cons]
        omega
      have high : spread (address + 4) (next :: rest) ⊆ spread address (word :: next :: rest) := by
        unfold spread
        rw [value]
        refine between_subset (Nat.le_add_right _ _) ?_
        simp only [List.length_cons]
        omega
      rw [storeWords]
      exact (first.mono low).trans (others.mono high)

theorem spelled_storeWords (words : List UInt32) : ∀ (memory : Memory) (address : UInt32),
    address.toNat + 4 * words.length ≤ 2 ^ 32 →
    Spelled (storeWords memory address words) address words := by
  induction words with
  | nil => exact fun _ _ _ => True.intro
  | cons word rest ih =>
    intro memory address fits
    rw [List.length_cons] at fits
    cases rest with
    | nil => exact ⟨load32_store32 memory address word, True.intro⟩
    | cons next rest =>
      rw [List.length_cons] at fits
      have value : (address + 4).toNat = address.toNat + 4 := toNat_add_four (by omega)
      have fits' : (address + 4).toNat + 4 * (next :: rest).length ≤ 2 ^ 32 := by
        rw [value, List.length_cons]
        omega
      have spelled := ih (store32 memory address word) (address + 4) fits'
      -- The words behind this one are stored above it.
      have above := within_storeWords (next :: rest) (store32 memory address word) (address + 4) fits'
      have kept : ∀ place : UInt32, address.toNat ≤ place.toNat → place.toNat < address.toNat + 4 →
          storeWords (store32 memory address word) (address + 4) (next :: rest) place
            = store32 memory address word place := by
        intro place _ high
        refine above place ?_
        rintro ⟨low, -⟩
        rw [value] at low
        omega
      rw [storeWords]
      refine ⟨?_, spelled⟩
      rw [load32_congr (by omega) kept, load32_store32]

end Words

/-
**Tilings of an address range.**

A list of blocks laid end to end from a base address, each `width` addresses wide. Everything about
the layout is said through `place`, the list of the blocks with the address each one starts at:
cutting a block in two or joining two neighbours is an equation between lists of blocks, and
`place_append` turns it into where every other block stands.

* `mem_place_bounds` — a placed block lies inside the range the blocks span.
* `place_separate` — of two placed blocks one ends before the other starts.
* `mem_place_split` — a placed block splits the list at the address it stands at.
-/
import Mathlib.Data.List.Basic
import Mathlib.Algebra.BigOperators.Group.List.Basic
import Mathlib.Tactic.Ring

namespace Tiling

variable {β : Type*} (width : β → Nat)

/-- How many addresses the blocks cover. -/
def span (blocks : List β) : Nat := (blocks.map width).sum

@[simp] theorem span_nil : span width [] = 0 := rfl

@[simp] theorem span_cons (block : β) (blocks : List β) :
    span width (block :: blocks) = width block + span width blocks := by
  simp [span]

@[simp] theorem span_append (left right : List β) :
    span width (left ++ right) = span width left + span width right := by
  simp [span]

/-- The blocks with the address each one starts at, laid end to end from `base`. -/
def place : Nat → List β → List (Nat × β)
  | _, [] => []
  | base, block :: blocks => (base, block) :: place (base + width block) blocks

@[simp] theorem place_nil (base : Nat) : place width base [] = [] := rfl

@[simp] theorem place_cons (base : Nat) (block : β) (blocks : List β) :
    place width base (block :: blocks) = (base, block) :: place width (base + width block) blocks :=
  rfl

@[simp] theorem place_append (left right : List β) : ∀ base : Nat,
    place width base (left ++ right)
      = place width base left ++ place width (base + span width left) right := by
  induction left with
  | nil => intro base; simp
  | cons block left ih =>
    intro base
    simp only [List.cons_append, place_cons, ih, span_cons, Nat.add_assoc]

/-- A placed block lies inside the range its list spans. -/
theorem mem_place_bounds {blocks : List β} : ∀ {base address : Nat} {block : β},
    (address, block) ∈ place width base blocks →
      base ≤ address ∧ address + width block ≤ base + span width blocks := by
  induction blocks with
  | nil => exact fun member => by cases member
  | cons first blocks ih =>
    intro base address block member
    rw [place_cons, List.mem_cons] at member
    rw [span_cons]
    rcases member with same | member
    · cases same
      omega
    · have bounds := ih member
      omega

/-- A placed block splits the list at its address. -/
theorem mem_place_split {blocks : List β} : ∀ {base address : Nat} {block : β},
    (address, block) ∈ place width base blocks →
      ∃ before after, blocks = before ++ block :: after ∧ address = base + span width before := by
  induction blocks with
  | nil => exact fun member => by cases member
  | cons first blocks ih =>
    intro base address block member
    rw [place_cons, List.mem_cons] at member
    rcases member with same | member
    · cases same
      exact ⟨[], blocks, rfl, by simp⟩
    · obtain ⟨before, after, rfl, same⟩ := ih member
      exact ⟨first :: before, after, rfl, by rw [span_cons, same, Nat.add_assoc]⟩

theorem mem_place_middle (before after : List β) (block : β) (base : Nat) :
    (base + span width before, block) ∈ place width base (before ++ block :: after) := by
  rw [place_append, place_cons]
  exact List.mem_append_right _ List.mem_cons_self

/-- Every placed block is one of the blocks. -/
theorem mem_of_mem_place {blocks : List β} {base address : Nat} {block : β}
    (member : (address, block) ∈ place width base blocks) : block ∈ blocks := by
  obtain ⟨before, after, rfl, _⟩ := mem_place_split width member
  exact List.mem_append_right _ List.mem_cons_self

variable {width}

/-- **Replacing a stretch of blocks by one of the same span** leaves every other block where it
stands. -/
theorem mem_place_replace {before old new after : List β} {base address : Nat} {block : β}
    (same : span width new = span width old) :
    (address, block) ∈ place width base (before ++ new ++ after) ↔
      (address, block) ∈ place width base before
        ∨ (address, block) ∈ place width (base + span width before) new
        ∨ (address, block) ∈ place width (base + span width before + span width old) after := by
  simp only [place_append, List.mem_append, span_append, same, or_assoc, Nat.add_assoc]

/-- **Of two blocks placed at different addresses, one ends before the other starts.** -/
theorem place_separate {blocks : List β} :
    ∀ {base first second : Nat} {block other : β},
    (first, block) ∈ place width base blocks → (second, other) ∈ place width base blocks →
      first ≠ second → first + width block ≤ second ∨ second + width other ≤ first := by
  induction blocks with
  | nil => exact fun member => by cases member
  | cons head blocks ih =>
    intro base first second block other here there different
    rw [place_cons, List.mem_cons] at here there
    rcases here with same | here
    · cases same
      rcases there with same | there
      · cases same
        exact absurd rfl different
      · exact Or.inl (mem_place_bounds width there).1
    · rcases there with same | there
      · cases same
        exact Or.inr (mem_place_bounds width here).1
      · exact ih here there different

/-- At most one block is placed at an address. -/
theorem place_unique (positive : ∀ block, 0 < width block) {blocks : List β} :
    ∀ {base address : Nat} {block other : β},
    (address, block) ∈ place width base blocks → (address, other) ∈ place width base blocks →
      block = other := by
  induction blocks with
  | nil => exact fun member => by cases member
  | cons head blocks ih =>
    intro base address block other here there
    have width_pos := positive head
    rw [place_cons, List.mem_cons] at here there
    rcases here with same | here
    · cases same
      rcases there with same | there
      · cases same
        rfl
      · have := (mem_place_bounds width there).1
        omega
    · rcases there with same | there
      · cases same
        have := (mem_place_bounds width here).1
        omega
      · exact ih here there

/-- Blocks of at least `least` addresses each: their number times `least` fits in their span. -/
theorem length_mul_le_span {least : Nat} (wide : ∀ block, least ≤ width block)
    (blocks : List β) : blocks.length * least ≤ span width blocks := by
  induction blocks with
  | nil => simp
  | cons block blocks ih =>
    rw [List.length_cons, span_cons, Nat.add_mul, Nat.one_mul]
    have := wide block
    omega

end Tiling

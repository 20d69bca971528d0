/-
**Building strings**, after `strcpy`, `strcat` and `strlen` of `src/lib/string.cc`.

The memory is the machine's, and the strings are told by what lies in it. A loop that never meets a
zero byte does not end; `fuel` bounds its rounds, and `none` is a loop that has used them up.

* `strcpy_eq` — the characters are copied, and the terminating byte is not.
* `strcat_eq` — they are copied behind the terminating byte of the first string.
* `strings_built_iff` — when the string that is asked for lies in memory afterwards.
-/
import Sprite.Lib.Areas
import Sprite.Lib.Terminated

namespace Sprite.Strings

open Function Terminated Words

def strcpy : Nat → Memory → UInt32 → UInt32 → Option (Memory × UInt32)
  | 0, _, _, _ => none
  | fuel + 1, memory, dst, src =>
    if memory src ≠ 0 then strcpy fuel (update memory dst (memory src)) (dst + 1) (src + 1)
    else some (memory, dst)

/-- The loop `while (*dst++);`, which also steps over the byte that ends it. -/
def pastString : Nat → Memory → UInt32 → Option UInt32
  | 0, _, _ => none
  | fuel + 1, memory, dst =>
    if memory dst ≠ 0 then pastString fuel memory (dst + 1) else some (dst + 1)

def strcat (fuel : Nat) (memory : Memory) (dst src : UInt32) : Option (Memory × UInt32) :=
  (pastString fuel memory dst).bind fun dst => strcpy fuel memory dst src

/-- The loop `while (*src++) ++len;`, with an `int` of 32 bits. -/
def strlenFrom : Nat → Memory → UInt32 → Int32 → Option Int32
  | 0, _, _, _ => none
  | fuel + 1, memory, src, len =>
    if memory src ≠ 0 then strlenFrom fuel memory (src + 1) (len + 1) else some len

def strlen (fuel : Nat) (memory : Memory) (src : UInt32) : Option Int32 := strlenFrom fuel memory src 0

/-! ### What the loops do -/

variable {memory memory' : Memory} {dst src : UInt32} {old str : List UInt8} {fuel : Nat}

theorem strlenFrom_eq (string : StringAt (· + 1) memory src str) (enough : str.length < fuel)
    (len : Int32) : strlenFrom fuel memory src len = some (len + Int32.ofNat str.length) := by
  induction str generalizing src fuel len with
  | nil =>
    obtain ⟨fuel, rfl⟩ := Nat.exists_eq_add_one_of_ne_zero (Nat.ne_zero_of_lt enough)
    have here : memory src = 0 := string
    rw [strlenFrom, if_neg (not_not_intro here)]
    exact congrArg some (Int32.add_zero len).symm
  | cons ch str ih =>
    obtain ⟨fuel, rfl⟩ := Nat.exists_eq_add_one_of_ne_zero (Nat.ne_zero_of_lt enough)
    have later := ih string.2.2 (Nat.lt_of_succ_lt_succ enough) (len + 1)
    rw [strlenFrom, if_pos (string.1 ▸ string.2.1), later, List.length_cons, Nat.add_comm,
      Int32.ofNat_add, ← Int32.add_assoc]
    rfl

theorem strlen_eq (string : StringAt (· + 1) memory src str) (enough : str.length < fuel) :
    strlen fuel memory src = some (Int32.ofNat str.length) := by
  rw [strlen, strlenFrom_eq string enough, Int32.zero_add]

theorem pastString_eq (string : StringAt (· + 1) memory dst str) (enough : str.length < fuel) :
    pastString fuel memory dst = some ((· + 1)^[str.length + 1] dst) := by
  induction str generalizing dst fuel with
  | nil =>
    obtain ⟨fuel, rfl⟩ := Nat.exists_eq_add_one_of_ne_zero (Nat.ne_zero_of_lt enough)
    exact if_neg (not_not_intro string)
  | cons ch str ih =>
    obtain ⟨fuel, rfl⟩ := Nat.exists_eq_add_one_of_ne_zero (Nat.ne_zero_of_lt enough)
    rw [pastString, if_pos (string.1 ▸ string.2.1)]
    exact ih string.2.2 (Nat.lt_of_succ_lt_succ enough)

/-- **What `strcpy` does**: it stores the characters one behind the other, and nothing behind them.
The target begins outside the string that is copied, or is that string. -/
theorem strcpy_eq (string : StringAt (· + 1) memory src str)
    (apart : dst = src ∨ dst ∉ extent (· + 1) src str.length) (enough : str.length < fuel) :
    strcpy fuel memory dst src = some (put (· + 1) memory dst str, (· + 1)^[str.length] dst) := by
  induction str generalizing memory dst src fuel with
  | nil =>
    obtain ⟨fuel, rfl⟩ := Nat.exists_eq_add_one_of_ne_zero (Nat.ne_zero_of_lt enough)
    exact if_neg (not_not_intro string)
  | cons ch str ih =>
    obtain ⟨fuel, rfl⟩ := Nat.exists_eq_add_one_of_ne_zero (Nat.ne_zero_of_lt enough)
    -- What is stored is none of the places that are still to be read.
    have read : dst ∉ extent (· + 1) (src + 1) str.length := by
      rcases apart with rfl | apart
      · rintro ⟨index, inside, back⟩
        exact string.iterate_ne (Nat.succ_pos index) (Nat.succ_le_succ inside) back.symm
      · exact fun inside => apart (extent_succ src str.length inside)
    have apart' : dst + 1 = src + 1 ∨ dst + 1 ∉ extent (· + 1) (src + 1) str.length := by
      rcases apart with rfl | apart
      · exact Or.inl rfl
      · right
        rintro ⟨index, inside, same⟩
        refine apart ⟨index, Nat.le_succ_of_le inside, add_one_injective ?_⟩
        exact same.trans (iterate_succ_apply' _ index src)
    obtain ⟨first, nonzero, rest⟩ := string
    have kept : StringAt (· + 1) (update memory dst ch) (src + 1) str := by
      refine rest.congr fun place inside => update_of_ne ?_ _ _
      rintro rfl
      exact read inside
    rw [strcpy, if_pos (first ▸ nonzero), first]
    exact ih kept apart' (Nat.lt_of_succ_lt_succ enough)

/-! ### The string that is asked for -/

/-- **A string is built**: it lies in memory, it has its length, and only its own bytes and its
terminating one have changed. -/
structure Built (fuel : Nat) (memory : Memory) (dst : UInt32) (str : List UInt8) (memory' : Memory) :
    Prop where
  string : StringAt (· + 1) memory' dst str
  length : strlen fuel memory' dst = some (Int32.ofNat str.length)
  frame : Within (extent (· + 1) dst str.length) memory memory'

/-- What is run ends, and builds a string. -/
def Builds (fuel : Nat) (memory : Memory) (dst : UInt32) (run : Option (Memory × UInt32))
    (str : List UInt8) : Prop :=
  ∃ memory' behind, run = some (memory', behind) ∧ Built fuel memory dst str memory'

theorem builds_iff {behind : UInt32} (frame : Within (extent (· + 1) dst str.length) memory memory')
    (enough : str.length < fuel) :
    Builds fuel memory dst (some (memory', behind)) str ↔ StringAt (· + 1) memory' dst str := by
  constructor
  · rintro ⟨_, _, ⟨⟩, built⟩
    exact built.string
  · exact fun string => ⟨memory', behind, rfl, string, strlen_eq string enough, frame⟩

/-- **`strcpy` copies a string** when a zero byte is already where it ends. -/
theorem strcpy_builds_iff (atSrc : StringAt (· + 1) memory src str)
    (apart : dst ∉ extent (· + 1) src str.length) (enough : str.length < fuel) :
    Builds fuel memory dst (strcpy fuel memory dst src) str ↔
      memory (dst + UInt32.ofNat str.length) = 0 := by
  have frame : Within (extent (· + 1) dst str.length) memory (put (· + 1) memory dst str) :=
    fun place outside => put_outside fun index inside same => outside ⟨index, inside.le, same⟩
  have short := atSrc.length_lt
  rw [strcpy_eq atSrc (Or.inr apart) enough, builds_iff frame enough, ← iterate_add_one]
  refine stringAt_put add_one_injective atSrc.zero_not_mem fun index positive inside back => ?_
  exact positive.ne' (iterate_add_one_inj (inside.trans_lt short) (Nat.two_pow_pos 32) back)

/-- **What `strcat` does**: the first string is left as it is, with the characters of the second one
behind its terminating byte. -/
theorem strcat_eq (atDst : StringAt (· + 1) memory dst old) (atSrc : StringAt (· + 1) memory src str)
    (apart : Disjoint (extent (· + 1) dst old.length) (extent (· + 1) src str.length))
    (enough : old.length + str.length < fuel) :
    strcat fuel memory dst src = some (put (· + 1) memory ((· + 1)^[old.length + 1] dst) str,
      (· + 1)^[str.length] ((· + 1)^[old.length + 1] dst)) := by
  have begins : (· + 1)^[old.length + 1] dst = src ∨
      (· + 1)^[old.length + 1] dst ∉ extent (· + 1) src str.length := by
    by_contra! ⟨different, index, inside, same⟩
    cases index with
    | zero => exact different same
    | succ index =>
      -- Then the terminating byte of the first string is in the second one.
      rw [iterate_succ_apply', iterate_succ_apply'] at same
      exact Set.disjoint_left.mp apart ⟨old.length, le_rfl, rfl⟩
        ⟨index, Nat.le_of_succ_le inside, add_one_injective same⟩
  rw [strcat, pastString_eq atDst (by omega)]
  exact strcpy_eq atSrc begins (by omega)

/-- **`strcat` builds the longer string** when there is nothing to add: what is behind the terminating
byte is not in the string. -/
theorem strcat_builds_iff (atDst : StringAt (· + 1) memory dst old)
    (atSrc : StringAt (· + 1) memory src str)
    (apart : Disjoint (extent (· + 1) dst old.length) (extent (· + 1) src str.length))
    (enough : old.length + str.length < fuel) :
    Builds fuel memory dst (strcat fuel memory dst src) (old ++ str) ↔ str = [] := by
  have room := extents_fit atDst.length_lt atSrc.length_lt apart
  have frame : Within (extent (· + 1) dst (old ++ str).length) memory
      (put (· + 1) memory ((· + 1)^[old.length + 1] dst) str) := by
    intro place outside
    refine put_outside fun index inside same => outside ⟨index + (old.length + 1), ?_, ?_⟩
    · rw [List.length_append]
      omega
    · rw [iterate_add_apply]
      exact same
  have kept : StringAt (· + 1) (put (· + 1) memory ((· + 1)^[old.length + 1] dst) str) dst old := by
    refine atDst.congr ?_
    rintro place ⟨index, inside, rfl⟩
    refine put_outside fun index' inside' same => ?_
    rw [← iterate_add_apply] at same
    have equal := iterate_add_one_inj (by omega) (by omega) same
    omega
  have enough' : (old ++ str).length < fuel := by rwa [List.length_append]
  rw [strcat_eq atDst atSrc apart enough, builds_iff frame enough']
  constructor
  · exact fun longer => List.append_right_eq_self.mp (longer.unique kept)
  · rintro rfl
    rwa [List.append_nil]

/-- **When the string that is asked for is built**: by `strcpy` when a zero byte is already where it
ends, and by `strcat` when there is nothing to add. -/
theorem strings_built_iff (atDst : StringAt (· + 1) memory dst old)
    (atSrc : StringAt (· + 1) memory src str)
    (apart : Disjoint (extent (· + 1) dst old.length) (extent (· + 1) src str.length))
    (enough : old.length + str.length < fuel) :
    (Builds fuel memory dst (strcpy fuel memory dst src) str ↔
        memory (dst + UInt32.ofNat str.length) = 0) ∧
      (Builds fuel memory dst (strcat fuel memory dst src) (old ++ str) ↔ str = []) := by
  have begins : dst ∉ extent (· + 1) src str.length :=
    Set.disjoint_left.mp apart ⟨0, Nat.zero_le _, rfl⟩
  exact ⟨strcpy_builds_iff atSrc begins (by omega), strcat_builds_iff atDst atSrc apart enough⟩

/-- A memory with a string at 0 and one at 16. -/
def twoStrings (old str : List UInt8) : Memory :=
  put (· + 1) (put (· + 1) (fun _ => 0) 0 old) 16 str

/-- Over `xy`, the string `ab` is copied; it cannot be added to it. -/
theorem same_length_copied :
    Builds 8 (twoStrings [120, 121] [97, 98]) 0 (strcpy 8 (twoStrings [120, 121] [97, 98]) 0 16)
        [97, 98] ∧
      ¬ Builds 8 (twoStrings [120, 121] [97, 98]) 0 (strcat 8 (twoStrings [120, 121] [97, 98]) 0 16)
        [120, 121, 97, 98] := by
  have atDst : StringAt (· + 1) (twoStrings [120, 121] [97, 98]) 0 [120, 121] := by decide
  have atSrc : StringAt (· + 1) (twoStrings [120, 121] [97, 98]) 16 [97, 98] := by decide
  have apart : Disjoint (extent (· + 1) (0 : UInt32) 2) (extent (· + 1) 16 2) :=
    (disjoint_extent_iff (by decide) (by decide)).mpr (by decide)
  obtain ⟨copied, added⟩ := strings_built_iff atDst atSrc apart (show 2 + 2 < 8 by decide)
  exact ⟨copied.mpr (by decide), fun longer => List.cons_ne_nil _ _ (added.mp longer)⟩

/-- **Without its terminating byte** the string `a` that is copied over `xyz` reads `ayz`, and added to
it, it is not seen at all. -/
theorem terminator_missed :
    (∃ memory' behind, strcpy 8 (twoStrings [120, 121, 122] [97]) 0 16 = some (memory', behind) ∧
        StringAt (· + 1) memory' 0 [97, 121, 122]) ∧
      (∃ memory' behind, strcat 8 (twoStrings [120, 121, 122] [97]) 0 16 = some (memory', behind) ∧
        StringAt (· + 1) memory' 0 [120, 121, 122]) ∧
      StringAt (· + 1) (twoStrings [120, 121, 122] [97]) 0 [120, 121, 122] ∧
      StringAt (· + 1) (twoStrings [120, 121, 122] [97]) 16 [97] ∧
      Disjoint (extent (· + 1) (0 : UInt32) 3) (extent (· + 1) 16 1) ∧
      ¬ Builds 8 (twoStrings [120, 121, 122] [97]) 0
        (strcpy 8 (twoStrings [120, 121, 122] [97]) 0 16) [97] ∧
      ¬ Builds 8 (twoStrings [120, 121, 122] [97]) 0
        (strcat 8 (twoStrings [120, 121, 122] [97]) 0 16) [120, 121, 122, 97] := by
  have atDst : StringAt (· + 1) (twoStrings [120, 121, 122] [97]) 0 [120, 121, 122] := by decide
  have atSrc : StringAt (· + 1) (twoStrings [120, 121, 122] [97]) 16 [97] := by decide
  have apart : Disjoint (extent (· + 1) (0 : UInt32) 3) (extent (· + 1) 16 1) :=
    (disjoint_extent_iff (by decide) (by decide)).mpr (by decide)
  have begins : (0 : UInt32) ∉ extent (· + 1) 16 1 :=
    Set.disjoint_left.mp apart ⟨0, Nat.zero_le _, rfl⟩
  refine ⟨⟨_, _, strcpy_eq atSrc (Or.inr begins) (by decide), by decide⟩,
    ⟨_, _, strcat_eq atDst atSrc apart (by decide), by decide⟩, atDst, atSrc, apart, ?_, ?_⟩
  · rw [strcpy_builds_iff atSrc begins (by decide)]
    decide
  · exact fun longer => List.cons_ne_nil _ _
      ((strcat_builds_iff atDst atSrc apart (by decide)).mp longer)

end Sprite.Strings

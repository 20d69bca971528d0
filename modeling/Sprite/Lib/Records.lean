/-
**Tables of records in byte memory.**

A table is an array of records of one size, each written as a list of bytes. The array and the bytes
are two views of the same thing: storing the bytes of a record is an update of the array.

* `bytesAt`, `storeBytes` — the bytes from an address upwards.
* `Laid` — the bytes of a table are those of an array; `Laid.store` — storing a record, and
  `Laid.clear` — filling the table with one byte.
* `bytesAt_four` — a word as a record of four bytes.
-/
import Sprite.Lib.Areas
import Mathlib.Data.List.Induction

namespace Words

/-- The bytes from an address upwards. -/
def bytesAt (memory : Memory) (address : UInt32) (count : Nat) : List UInt8 :=
  (List.range count).map fun index => memory (address + UInt32.ofNat index)

/-- Memory after bytes are stored from an address upwards. -/
def storeBytes (memory : Memory) (address : UInt32) (bytes : List UInt8) : Memory := fun place =>
  bytes.getD (place - address).toNat (memory place)

/-- The record of a number in a table. -/
def slot (table : UInt32) (size index : Nat) : UInt32 := table + UInt32.ofNat (size * index)

variable {memory memory' : Memory} {address table : UInt32} {bytes : List UInt8} {size count : Nat}

theorem toNat_offset_sub (address : UInt32) {offset : Nat} (small : offset < 2 ^ 32) :
    (address + UInt32.ofNat offset - address).toNat = offset := by
  rw [UInt32.add_comm, UInt32.add_sub_cancel, UInt32.toNat_ofNat_of_lt' small]

theorem length_bytesAt (memory : Memory) (address : UInt32) (count : Nat) :
    (bytesAt memory address count).length = count := by
  rw [bytesAt, List.length_map, List.length_range]

theorem getElem_bytesAt {index : Nat} (inside : index < (bytesAt memory address count).length) :
    (bytesAt memory address count)[index] = memory (address + UInt32.ofNat index) := by
  simp only [bytesAt, List.getElem_map, List.getElem_range]

theorem bytesAt_congr (same : ∀ index < count,
    memory' (address + UInt32.ofNat index) = memory (address + UInt32.ofNat index)) :
    bytesAt memory' address count = bytesAt memory address count :=
  List.map_congr_left fun index inside => same index (List.mem_range.mp inside)

/-- **Stored bytes are read back.** -/
theorem bytesAt_storeBytes (memory : Memory) (address : UInt32) (small : bytes.length ≤ 2 ^ 32) :
    bytesAt (storeBytes memory address bytes) address bytes.length = bytes := by
  refine List.ext_getElem (length_bytesAt _ _ _) fun index inside inside' => ?_
  rw [getElem_bytesAt]
  unfold storeBytes
  rw [toNat_offset_sub address (by omega), List.getD_eq_getElem _ _ inside']

theorem storeBytes_outside {place : UInt32} (outside : bytes.length ≤ (place - address).toNat) :
    storeBytes memory address bytes place = memory place :=
  List.getD_eq_default _ _ outside

theorem within_storeBytes (memory : Memory) (address : UInt32) (bytes : List UInt8)
    (fits : address.toNat + bytes.length ≤ 2 ^ 32) :
    Within (between address.toNat (address.toNat + bytes.length)) memory
      (storeBytes memory address bytes) := by
  intro place outside
  have far : ¬ (address.toNat ≤ place.toNat ∧ place.toNat < address.toNat + bytes.length) := outside
  have small := place.toNat_lt
  have small' := address.toNat_lt
  refine storeBytes_outside ?_
  rw [UInt32.toNat_sub]
  omega

/-! ### Words -/

/-- The bytes of a word. -/
def wordBytes (value : UInt32) : List UInt8 :=
  [byteOf value 0, byteOf value 1, byteOf value 2, byteOf value 3]

/-- A word is a record of four bytes. -/
theorem bytesAt_four {value : UInt32} (read : bytesAt memory address 4 = wordBytes value) :
    load32 memory address = value := by
  have bytes : bytesAt memory address 4
      = [memory (address + 0), memory (address + 1), memory (address + 2), memory (address + 3)] := rfl
  rw [bytes, wordBytes, List.cons.injEq, List.cons.injEq, List.cons.injEq, List.cons.injEq] at read
  obtain ⟨first, second, third, fourth, -⟩ := read
  rw [UInt32.add_zero] at first
  rw [load32, first, second, third, fourth]
  exact (congrArg UInt32.ofNat (bytes_recompose value)).trans UInt32.ofNat_toNat

theorem store32_eq_storeBytes (memory : Memory) (address value : UInt32) :
    store32 memory address value = storeBytes memory address (wordBytes value) := by
  funext place
  unfold store32 storeBytes wordBytes
  generalize (place - address).toNat = offset
  match offset with
  | 0 => rfl
  | 1 => rfl
  | 2 => rfl
  | 3 => rfl
  | offset + 4 => rw [if_neg (by omega)]; rfl

/-! ### Tables -/

variable {α : Type} {encode : α → List UInt8} {entries : Nat → α}

/-- **The bytes of a table are those of an array.** -/
def Laid (encode : α → List UInt8) (size count : Nat) (memory : Memory) (table : UInt32)
    (entries : Nat → α) : Prop :=
  ∀ index < count, bytesAt memory (slot table size index) size = encode (entries index)

/-- The bytes of a table. -/
def tableArea (table : UInt32) (size count : Nat) : Set UInt32 :=
  between table.toNat (table.toNat + size * count)

theorem toNat_slot (fits : table.toNat + size * count ≤ 2 ^ 32) {index : Nat} (inside : index < count)
    {offset : Nat} (within : offset < size) :
    (slot table size index + UInt32.ofNat offset).toNat = table.toNat + size * index + offset := by
  have next : size * index + size ≤ size * count := by
    rw [← Nat.mul_succ]
    exact Nat.mul_le_mul_left size inside
  unfold slot
  rw [UInt32.toNat_add, UInt32.toNat_add, UInt32.toNat_ofNat_of_lt' (by simp only [UInt32.size]; omega),
    UInt32.toNat_ofNat_of_lt' (by simp only [UInt32.size]; omega)]
  omega

theorem toNat_slot_zero (fits : table.toNat + size * count ≤ 2 ^ 32) {index : Nat}
    (inside : index < count) (positive : 0 < size) :
    (slot table size index).toNat = table.toNat + size * index := by
  have at_zero := toNat_slot fits inside positive
  rwa [show UInt32.ofNat 0 = 0 from rfl, UInt32.add_zero, Nat.add_zero] at at_zero

theorem slot_mem_tableArea (fits : table.toNat + size * count ≤ 2 ^ 32) {index : Nat}
    (inside : index < count) {offset : Nat} (within : offset < size) :
    slot table size index + UInt32.ofNat offset ∈ tableArea table size count := by
  have next : size * index + size ≤ size * count := by
    rw [← Nat.mul_succ]
    exact Nat.mul_le_mul_left size inside
  have place := toNat_slot fits inside within
  exact ⟨by omega, by omega⟩

/-- A table depends on its own bytes only. -/
theorem Laid.congr (laid : Laid encode size count memory table entries)
    (fits : table.toNat + size * count ≤ 2 ^ 32)
    (same : ∀ place ∈ tableArea table size count, memory' place = memory place) :
    Laid encode size count memory' table entries := fun index inside =>
  (bytesAt_congr fun _ within => same _ (slot_mem_tableArea fits inside within)).trans (laid index inside)

/-- **Storing a record** is an update of the array. -/
theorem Laid.store (laid : Laid encode size count memory table entries)
    (fits : table.toNat + size * count ≤ 2 ^ 32) (sized : ∀ a, (encode a).length = size) {index : Nat}
    (inside : index < count) (a : α) :
    Laid encode size count (storeBytes memory (slot table size index) (encode a)) table
      (Function.update entries index a) := by
  intro other inside'
  by_cases same : other = index
  · subst same
    rw [Function.update_self]
    have small : (encode a).length ≤ 2 ^ 32 := by
      have one : size * 1 ≤ size * count := Nat.mul_le_mul_left size (by omega)
      rw [sized]
      omega
    have read := bytesAt_storeBytes memory (slot table size other) small
    rwa [sized] at read
  · rw [Function.update_of_ne same, ← laid other inside']
    refine bytesAt_congr fun offset within => storeBytes_outside ?_
    have place := toNat_slot fits inside' within
    have start := toNat_slot_zero fits inside (Nat.zero_lt_of_lt within)
    have apart : size * other + size ≤ size * index ∨ size * index + size ≤ size * other := by
      rcases Nat.lt_or_gt_of_ne same with before | behind
      · exact Or.inl (by rw [← Nat.mul_succ]; exact Nat.mul_le_mul_left size before)
      · exact Or.inr (by rw [← Nat.mul_succ]; exact Nat.mul_le_mul_left size behind)
    have next : size * other + size ≤ size * count := by
      rw [← Nat.mul_succ]
      exact Nat.mul_le_mul_left size inside'
    have next' : size * index + size ≤ size * count := by
      rw [← Nat.mul_succ]
      exact Nat.mul_le_mul_left size inside
    rw [sized, UInt32.toNat_sub, place, start]
    omega

/-! ### Several records -/

/-- The last of several calls for a record. -/
def lastSet {κ : Type} (num : κ → Nat) (calls : List κ) (index : Nat) : Option κ :=
  calls.reverse.find? fun call => num call = index

theorem lastSet_append {κ : Type} (num : κ → Nat) (calls : List κ) (call : κ) (index : Nat) :
    lastSet num (calls ++ [call]) index
      = if num call = index then some call else lastSet num calls index := by
  unfold lastSet
  rw [List.reverse_append, List.reverse_singleton, List.singleton_append, List.find?_cons]
  by_cases same : num call = index
  · rw [if_pos same, decide_eq_true same]
  · rw [if_neg same, decide_eq_false same]

/-- One call for each of the first records. -/
theorem lastSet_range {κ : Type} (num : κ → Nat) (call : Nat → κ) (numbered : ∀ index, num (call index) = index)
    (calls index : Nat) : lastSet num ((List.range calls).map call) index
      = if index < calls then some (call index) else none := by
  induction calls with
  | zero => rfl
  | succ calls ih =>
    rw [List.range_succ, List.map_append, List.map_singleton, lastSet_append, ih, numbered]
    by_cases last : calls = index
    · rw [if_pos last, if_pos (by omega), last]
    · rw [if_neg last]
      refine if_congr ?_ rfl rfl
      omega

/-- **Several records**, one after the other: the last one of each number stays. -/
theorem Laid.stores {κ : Type} (laid : Laid encode size count memory table entries)
    (fits : table.toNat + size * count ≤ 2 ^ 32) (sized : ∀ a, (encode a).length = size) (num : κ → Nat)
    (value : κ → α) (calls : List κ) (inRange : ∀ call ∈ calls, num call < count) :
    Laid encode size count (calls.foldl (fun memory call =>
        storeBytes memory (slot table size (num call)) (encode (value call))) memory) table
      fun index => ((lastSet num calls index).map value).getD (entries index) := by
  induction calls using List.reverseRecOn with
  | nil => exact laid
  | append_singleton calls call ih =>
    have before := ih fun other inside => inRange other (List.mem_append_left _ inside)
    have stored := before.store fits sized
      (inRange call (List.mem_append_right _ (List.mem_singleton_self call))) (value call)
    rw [List.foldl_append, List.foldl_cons, List.foldl_nil]
    intro index inside
    show _ = encode (((lastSet num (calls ++ [call]) index).map value).getD (entries index))
    rw [stored index inside, lastSet_append]
    by_cases same : num call = index
    · rw [if_pos same, ← same, Function.update_self]
      rfl
    · rw [if_neg same, Function.update_of_ne (Ne.symm same)]

/-- **What is read after several records are stored**, whatever the table held before. -/
theorem bytesAt_stores {κ : Type} (fits : table.toNat + size * count ≤ 2 ^ 32) (num : κ → Nat)
    (record : κ → List UInt8) (sized : ∀ call, (record call).length = size) (calls : List κ)
    (inRange : ∀ call ∈ calls, num call < count) (memory : Memory) {index : Nat} (inside : index < count) :
    bytesAt (calls.foldl (fun memory call => storeBytes memory (slot table size (num call)) (record call))
        memory) (slot table size index) size
      = ((lastSet num calls index).map record).getD (bytesAt memory (slot table size index) size) := by
  -- The records are what they are: lists of the right length.
  let held : Nat → {bytes : List UInt8 // bytes.length = size} := fun index =>
    ⟨bytesAt memory (slot table size index) size, length_bytesAt _ _ _⟩
  have laid : Laid Subtype.val size count memory table held := fun _ _ => rfl
  have stored := laid.stores fits Subtype.property num (fun call => ⟨record call, sized call⟩) calls inRange
    index inside
  refine stored.trans ?_
  show (Option.getD (Option.map _ (lastSet num calls index)) (held index)).val = _
  cases lastSet num calls index with
  | none => rfl
  | some call => rfl

/-- Storing records stays in the table. -/
theorem within_stores {κ : Type} (encode : α → List UInt8) (fits : table.toNat + size * count ≤ 2 ^ 32)
    (sized : ∀ a, (encode a).length = size) (num : κ → Nat) (value : κ → α) (calls : List κ)
    (inRange : ∀ call ∈ calls, num call < count) : ∀ memory : Memory,
    Within (tableArea table size count) memory (calls.foldl (fun memory call =>
      storeBytes memory (slot table size (num call)) (encode (value call))) memory) := by
  induction calls with
  | nil => exact fun memory => Within.refl _ memory
  | cons call calls ih =>
    intro memory
    have inside := inRange call List.mem_cons_self
    have next : size * num call + size ≤ size * count := by
      rw [← Nat.mul_succ]
      exact Nat.mul_le_mul_left size inside
    have first : Within (tableArea table size count) memory
        (storeBytes memory (slot table size (num call)) (encode (value call))) := by
      rcases Nat.eq_zero_or_pos size with zero | positive
      · intro place _
        exact storeBytes_outside (by rw [sized, zero]; exact Nat.zero_le _)
      · have start := toNat_slot_zero fits inside positive
        have within := within_storeBytes memory (slot table size (num call)) (encode (value call))
          (by rw [sized, start]; omega)
        rw [sized, start] at within
        exact within.mono (between_subset (by omega) (by omega))
    exact first.trans (ih (fun other member => inRange other (List.mem_cons_of_mem _ member)) _)

/-- **A cleared table** has one record throughout. -/
theorem Laid.clear (memory : Memory) (fits : table.toNat + size * count ≤ 2 ^ 32) {a : α} {byte : UInt8}
    (cleared : encode a = List.replicate size byte) :
    Laid encode size count (storeBytes memory table (List.replicate (size * count) byte)) table
      fun _ => a := by
  intro index inside
  rw [cleared]
  refine List.ext_getElem ((length_bytesAt _ _ _).trans (List.length_replicate ..).symm)
    fun offset within within' => ?_
  rw [List.getElem_replicate, getElem_bytesAt]
  rw [length_bytesAt] at within
  have next : size * index + size ≤ size * count := by
    rw [← Nat.mul_succ]
    exact Nat.mul_le_mul_left size inside
  have place := toNat_slot fits inside within
  unfold storeBytes
  rw [UInt32.toNat_sub, place, List.getD_eq_getElem _ _ (by rw [List.length_replicate]; omega),
    List.getElem_replicate]

end Words

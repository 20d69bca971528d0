/-
**Descriptor tables**, after `src/lib/gdt.cc` and `src/lib/idt.cc`.

The tables are arrays of packed structures. A base or an offset is spread over several fields, and the
processor puts it together again.

* `GdtEntry`, `gdtSetGate`, `initGdt` and `IdtEntry`, `idtSetGate`, `initIdt` — what the source does,
  to the bytes of memory.
* `read_gdtGate`, `read_idtGate` — the processor reads what was set.
* `lastSet` — a table after any number of calls.
* `descriptors_read_back` — **the processor reads in every slot what was set last**, and after
  `init_gdt` and `init_idt` flat segments and the entry points of the stubs.
-/
import Sprite.Lib.Descriptors

namespace Sprite.Interrupts

open Words X86

/-! ### Global descriptors -/

structure GdtEntry where
  limit_low : UInt16
  base_low : UInt16
  base_middle : UInt8
  access : UInt8
  granularity : UInt8
  base_high : UInt8

/-- The structure is packed. -/
def GdtEntry.bytes (e : GdtEntry) : List UInt8 :=
  bytes16 e.limit_low ++ bytes16 e.base_low ++ [e.base_middle, e.access, e.granularity, e.base_high]

/-- What `gdt_set_gate` puts in an entry. -/
def gdtGate (base limit : UInt32) (access gran : UInt8) : GdtEntry where
  base_low := (base &&& 0xFFFF).toUInt16
  base_middle := ((base >>> 16) &&& 0xFF).toUInt8
  base_high := ((base >>> 24) &&& 0xFF).toUInt8
  limit_low := (limit &&& 0xFFFF).toUInt16
  granularity := ((limit >>> 16) &&& 0x0F).toUInt8 ||| gran &&& 0xF0
  access := access

def gdtSetGate (gdtEntries : UInt32) (num : Nat) (base limit : UInt32) (access gran : UInt8)
    (memory : Memory) : Memory :=
  storeBytes memory (slot gdtEntries 8 num) (gdtGate base limit access gran).bytes

/-! ### Interrupt descriptors -/

structure IdtEntry where
  base_lo : UInt16
  sel : UInt16
  always0 : UInt8
  flags : UInt8
  base_hi : UInt16

/-- The structure is packed. -/
def IdtEntry.bytes (e : IdtEntry) : List UInt8 :=
  bytes16 e.base_lo ++ bytes16 e.sel ++ [e.always0, e.flags] ++ bytes16 e.base_hi

/-- What `idt_set_gate` puts in an entry. -/
def idtGate (base : UInt32) (sel : UInt16) (flags : UInt8) : IdtEntry where
  base_lo := (base &&& 0xFFFF).toUInt16
  base_hi := ((base >>> 16) &&& 0xFFFF).toUInt16
  sel := sel
  always0 := 0
  flags := flags

def idtSetGate (idtEntries : UInt32) (num : Nat) (base : UInt32) (sel : UInt16) (flags : UInt8)
    (memory : Memory) : Memory :=
  storeBytes memory (slot idtEntries 8 num) (idtGate base sel flags).bytes

/-! ### What the processor reads -/

/-- The four bits of a limit and four flags share a byte. -/
theorem granularity_spec (limit : UInt32) (gran : UInt8) :
    (((limit >>> 16) &&& 0x0F).toUInt8 ||| gran &&& 0xF0).toNat % 16 = limit.toNat / 65536 % 16
      ∧ (((limit >>> 16) &&& 0x0F).toUInt8 ||| gran &&& 0xF0) &&& 0xF0 = gran &&& 0xF0 := by
  have nibble : ((limit >>> 16) &&& 0x0F).toUInt8.toNat = limit.toNat / 65536 % 16 := by
    rw [UInt32.toNat_toUInt8, UInt32.toNat_and, UInt32.toNat_shiftRight,
      show (0x0F : UInt32).toNat = 2 ^ 4 - 1 from rfl, Nat.and_two_pow_sub_one_eq_mod,
      show (16 : UInt32).toNat % 32 = 16 from rfl, Nat.shiftRight_eq_div_pow]
    omega
  generalize ((limit >>> 16) &&& 0x0F).toUInt8 = low at nibble ⊢
  have small : low.toNat < 16 := by omega
  rw [← nibble]
  have clear : ∀ value : Nat, (value &&& 0xF0) % 16 = 0 := fun value => by
    rw [show 16 = 2 ^ 4 from rfl, Nat.and_mod_two_pow]
    exact Nat.and_zero _
  constructor
  · rw [UInt8.toNat_or, UInt8.toNat_and, show (0xF0 : UInt8).toNat = 0xF0 from rfl,
      show 16 = 2 ^ 4 from rfl, Nat.or_mod_two_pow, show 2 ^ 4 = 16 from rfl, clear, Nat.or_zero]
    exact Nat.mod_eq_of_lt small
  · have gone : low.toNat &&& 0xF0 = 0 := (by decide : ∀ nibble < 16, nibble &&& 0xF0 = 0) _ small
    rw [← UInt8.toNat_inj]
    simp only [UInt8.toNat_or, UInt8.toNat_and]
    rw [Nat.and_or_distrib_right, show (0xF0 : UInt8).toNat = 0xF0 from rfl, gone, Nat.zero_or,
      Nat.and_assoc, Nat.and_self]

theorem toNat_low16 (value : UInt32) : (value &&& 0xFFFF).toUInt16.toNat = value.toNat % 65536 := by
  rw [UInt32.toNat_toUInt16, UInt32.toNat_and, show (0xFFFF : UInt32).toNat = 2 ^ 16 - 1 from rfl,
    Nat.and_two_pow_sub_one_eq_mod]
  omega

theorem toNat_high (value : UInt32) : (value >>> 16).toNat = value.toNat / 65536 := by
  rw [UInt32.toNat_shiftRight, show (16 : UInt32).toNat % 32 = 16 from rfl, Nat.shiftRight_eq_div_pow]

theorem toNat_byte (value shift : UInt32) (small : shift.toNat < 32) :
    ((value >>> shift) &&& 0xFF).toUInt8.toNat = value.toNat / 2 ^ shift.toNat % 256 := by
  rw [UInt32.toNat_toUInt8, UInt32.toNat_and, UInt32.toNat_shiftRight,
    show (0xFF : UInt32).toNat = 2 ^ 8 - 1 from rfl, Nat.and_two_pow_sub_one_eq_mod,
    Nat.mod_eq_of_lt small, Nat.shiftRight_eq_div_pow]
  omega

/-- **A segment descriptor** is read as it was set; of the limit only twenty bits are. -/
theorem read_gdtGate (base limit : UInt32) (access gran : UInt8) :
    Segment.read (gdtGate base limit access gran).bytes
      = some ⟨base, UInt32.ofNat (limit.toNat % 2 ^ 20), access, gran &&& 0xF0⟩ := by
  have small := base.toNat_lt
  have small' := limit.toNat_lt
  obtain ⟨nibble, flags⟩ := granularity_spec limit gran
  have middle := toNat_byte base 16 (by decide)
  have high := toNat_byte base 24 (by decide)
  rw [show 2 ^ (16 : UInt32).toNat = 65536 from rfl] at middle
  rw [show 2 ^ (24 : UInt32).toNat = 16777216 from rfl] at high
  simp only [GdtEntry.bytes, gdtGate, bytes16, List.cons_append, List.nil_append, Segment.read,
    Option.some.injEq, Segment.mk.injEq, UInt8.toNat_ofNat', toNat_low16, flags, nibble, middle, high,
    and_true]
  constructor
  · rw [← UInt32.toNat_inj, UInt32.toNat_ofNat']
    omega
  · congr 1
    omega

/-- **A gate** is read as it was set. -/
theorem read_idtGate (base : UInt32) (sel : UInt16) (flags : UInt8) :
    Gate.read (idtGate base sel flags).bytes = some ⟨base, sel, flags⟩ := by
  have small := base.toNat_lt
  have small' := sel.toNat_lt
  simp only [IdtEntry.bytes, idtGate, bytes16, List.cons_append, List.nil_append, Gate.read,
    Option.some.injEq, Gate.mk.injEq, UInt8.toNat_ofNat', toNat_low16, toNat_high, and_true]
  constructor
  · rw [← UInt32.toNat_inj, UInt32.toNat_ofNat']
    omega
  · rw [← UInt16.toNat_inj, UInt16.toNat_ofNat']
    omega

/-! ### The tables -/

def GDT_LENGTH : Nat := 5

def INTERRUPT_NUM : Nat := 256

/-- A call of `gdt_set_gate`. -/
structure GdtCall where
  num : Nat
  base : UInt32
  limit : UInt32
  access : UInt8
  gran : UInt8

/-- A call of `idt_set_gate`. -/
structure IdtCall where
  num : Nat
  base : UInt32
  sel : UInt16
  flags : UInt8

def gdtSetGates (gdtEntries : UInt32) (calls : List GdtCall) (memory : Memory) : Memory :=
  calls.foldl (fun memory call => gdtSetGate gdtEntries call.num call.base call.limit call.access call.gran
    memory) memory

def idtSetGates (idtEntries : UInt32) (calls : List IdtCall) (memory : Memory) : Memory :=
  calls.foldl (fun memory call => idtSetGate idtEntries call.num call.base call.sel call.flags memory)
    memory

def segmentAt (memory : Memory) (gdtEntries : UInt32) (index : Nat) : Option Segment :=
  Segment.read (bytesAt memory (slot gdtEntries 8 index) 8)

def gateAt (memory : Memory) (idtEntries : UInt32) (vector : Nat) : Option Gate :=
  Gate.read (bytesAt memory (slot idtEntries 8 vector) 8)

/-- What a call makes the processor read. -/
def GdtCall.segment (call : GdtCall) : Segment :=
  ⟨call.base, UInt32.ofNat (call.limit.toNat % 2 ^ 20), call.access, call.gran &&& 0xF0⟩

def IdtCall.gate (call : IdtCall) : Gate := ⟨call.base, call.sel, call.flags⟩

theorem segmentAt_gdtSetGates {gdtEntries : UInt32} (fits : gdtEntries.toNat + 8 * GDT_LENGTH ≤ 2 ^ 32)
    (calls : List GdtCall) (inRange : ∀ call ∈ calls, call.num < GDT_LENGTH) (memory : Memory)
    {index : Nat} (inside : index < GDT_LENGTH) :
    segmentAt (gdtSetGates gdtEntries calls memory) gdtEntries index
      = ((lastSet GdtCall.num calls index).map GdtCall.segment).orElse
          fun _ => segmentAt memory gdtEntries index := by
  have read := bytesAt_stores fits GdtCall.num
    (fun call => (gdtGate call.base call.limit call.access call.gran).bytes) (fun _ => rfl) calls inRange
    memory inside
  refine (congrArg Segment.read read).trans ?_
  cases lastSet GdtCall.num calls index with
  | none => rfl
  | some call => exact read_gdtGate call.base call.limit call.access call.gran

theorem gateAt_idtSetGates {idtEntries : UInt32} (fits : idtEntries.toNat + 8 * INTERRUPT_NUM ≤ 2 ^ 32)
    (calls : List IdtCall) (inRange : ∀ call ∈ calls, call.num < INTERRUPT_NUM) (memory : Memory)
    {vector : Nat} (inside : vector < INTERRUPT_NUM) :
    gateAt (idtSetGates idtEntries calls memory) idtEntries vector
      = ((lastSet IdtCall.num calls vector).map IdtCall.gate).orElse
          fun _ => gateAt memory idtEntries vector := by
  have read := bytesAt_stores fits IdtCall.num
    (fun call => (idtGate call.base call.sel call.flags).bytes) (fun _ => rfl) calls inRange memory inside
  refine (congrArg Gate.read read).trans ?_
  cases lastSet IdtCall.num calls vector with
  | none => rfl
  | some call => exact read_idtGate call.base call.sel call.flags

/-! ### What is set up -/

/-- Where the linker puts the stubs and the tables. -/
structure Symbols where
  isr : Nat → UInt32
  irq : Nat → UInt32
  gdtEntries : UInt32
  idtEntries : UInt32
  interruptHandlers : UInt32

namespace Symbols

def gdtArea (s : Symbols) : Set UInt32 := tableArea s.gdtEntries 8 GDT_LENGTH

def idtArea (s : Symbols) : Set UInt32 := tableArea s.idtEntries 8 INTERRUPT_NUM

def handlersArea (s : Symbols) : Set UInt32 := tableArea s.interruptHandlers 4 INTERRUPT_NUM

/-- The entry point for a vector. -/
def entryPoint (s : Symbols) (vector : Nat) : UInt32 :=
  if vector < 32 then s.isr vector else s.irq (vector - 32)

/-- The tables lie in memory, apart from one another. -/
structure Placed (s : Symbols) : Prop where
  gdt : s.gdtEntries.toNat + 8 * GDT_LENGTH ≤ 2 ^ 32
  idt : s.idtEntries.toNat + 8 * INTERRUPT_NUM ≤ 2 ^ 32
  handlers : s.interruptHandlers.toNat + 4 * INTERRUPT_NUM ≤ 2 ^ 32
  apart : Disjoint s.gdtArea s.idtArea
  apart' : Disjoint s.gdtArea s.handlersArea
  apart'' : Disjoint s.handlersArea s.idtArea

end Symbols

/-- The calls of `init_gdt`. -/
def gdtCalls : List GdtCall :=
  [⟨0, 0, 0, 0, 0⟩, ⟨1, 0, 0xFFFFFFFF, 0x9A, 0xCF⟩, ⟨2, 0, 0xFFFFFFFF, 0x92, 0xCF⟩,
    ⟨3, 0, 0xFFFFFFFF, 0xFA, 0xCF⟩, ⟨4, 0, 0xFFFFFFFF, 0xF2, 0xCF⟩]

def initGdt (s : Symbols) (memory : Memory) : Memory := gdtSetGates s.gdtEntries gdtCalls memory

/-- The calls of `init_idt`, one for each stub. -/
def idtCalls (s : Symbols) : List IdtCall :=
  (List.range 48).map fun vector => ⟨vector, s.entryPoint vector, 0x08, 0x8E⟩

/-- The tables that `init_idt` writes: first it clears both. -/
def initIdt (s : Symbols) (memory : Memory) : Memory :=
  let memory := storeBytes memory s.interruptHandlers (List.replicate (4 * INTERRUPT_NUM) 0)
  let memory := storeBytes memory s.idtEntries (List.replicate (8 * INTERRUPT_NUM) 0)
  idtSetGates s.idtEntries (idtCalls s) memory

/-- **The tables are set up.** The selectors 8, 16, 24 and 32 are those of the kernel's and the user's
flat segments. -/
structure SetUp (s : Symbols) (memory : Memory) : Prop where
  code : ∃ g, segmentAt memory s.gdtEntries 1 = some g ∧ g.Flat ∧ g.IsCode ∧ g.level = 0
  data : ∃ g, segmentAt memory s.gdtEntries 2 = some g ∧ g.Flat ∧ g.IsData ∧ g.level = 0
  userCode : ∃ g, segmentAt memory s.gdtEntries 3 = some g ∧ g.Flat ∧ g.IsCode ∧ g.level = 3
  userData : ∃ g, segmentAt memory s.gdtEntries 4 = some g ∧ g.Flat ∧ g.IsData ∧ g.level = 3
  gates : ∀ vector < 48, gateAt memory s.idtEntries vector = some ⟨s.entryPoint vector, 0x08, 0x8E⟩
  absent : ∀ vector, 48 ≤ vector → vector < INTERRUPT_NUM → gateAt memory s.idtEntries vector = some ⟨0, 0, 0⟩
  handlers : Laid wordBytes 4 INTERRUPT_NUM memory s.interruptHandlers fun _ => 0

variable {s : Symbols}

theorem idtCalls_inRange (s : Symbols) : ∀ call ∈ idtCalls s, call.num < INTERRUPT_NUM := by
  intro call inside
  obtain ⟨vector, small, rfl⟩ := List.mem_map.mp inside
  exact lt_trans (List.mem_range.mp small) (by decide)

theorem lastSet_idtCalls (s : Symbols) (vector : Nat) :
    lastSet IdtCall.num (idtCalls s) vector
      = if vector < 48 then some ⟨vector, s.entryPoint vector, 0x08, 0x8E⟩ else none :=
  lastSet_range IdtCall.num _ (fun _ => rfl) 48 vector

/-- What `init_idt` does behind its first clearing stays in the interrupt descriptors. -/
theorem within_gates (placed : s.Placed) (memory : Memory) :
    Within s.idtArea memory (idtSetGates s.idtEntries (idtCalls s)
      (storeBytes memory s.idtEntries (List.replicate (8 * INTERRUPT_NUM) 0))) := by
  have fits := placed.idt
  have cleared := within_storeBytes memory s.idtEntries (List.replicate (8 * INTERRUPT_NUM) 0)
    (by rwa [List.length_replicate])
  have gates := within_stores IdtEntry.bytes placed.idt (fun _ => rfl) IdtCall.num
    (fun call => idtGate call.base call.sel call.flags) (idtCalls s)
    (idtCalls_inRange s)
  rw [List.length_replicate] at cleared
  exact cleared.trans (gates _)

/-- `init_idt` writes its two tables. -/
theorem within_initIdt (placed : s.Placed) (memory : Memory) :
    Within (s.handlersArea ∪ s.idtArea) memory (initIdt s memory) := by
  have fits := placed.handlers
  have cleared := within_storeBytes memory s.interruptHandlers (List.replicate (4 * INTERRUPT_NUM) 0)
    (by rwa [List.length_replicate])
  rw [List.length_replicate] at cleared
  exact (cleared.mono Set.subset_union_left).trans
    ((within_gates placed _).mono Set.subset_union_right)

theorem handlers_initIdt (placed : s.Placed) (memory : Memory) :
    Laid wordBytes 4 INTERRUPT_NUM (initIdt s memory) s.interruptHandlers fun _ => 0 := by
  have cleared : Laid wordBytes 4 INTERRUPT_NUM _ s.interruptHandlers fun _ => 0 :=
    Laid.clear memory placed.handlers rfl
  exact cleared.congr placed.handlers ((within_gates placed _).same placed.apart'')

theorem gateAt_initIdt (placed : s.Placed) (memory : Memory) {vector : Nat}
    (inside : vector < INTERRUPT_NUM) : gateAt (initIdt s memory) s.idtEntries vector
      = some (if vector < 48 then ⟨s.entryPoint vector, 0x08, 0x8E⟩ else ⟨0, 0, 0⟩) := by
  refine (gateAt_idtSetGates placed.idt (idtCalls s) (idtCalls_inRange s) _ inside).trans ?_
  rw [lastSet_idtCalls]
  by_cases small : vector < 48
  · rw [if_pos small, if_pos small]
    rfl
  · rw [if_neg small, if_neg small]
    have cleared : Laid (fun _ : Unit => List.replicate 8 (0 : UInt8)) 8 INTERRUPT_NUM _ s.idtEntries
        fun _ => () := Laid.clear (storeBytes memory s.interruptHandlers
          (List.replicate (4 * INTERRUPT_NUM) 0)) placed.idt rfl
    exact congrArg Gate.read (cleared vector inside)

theorem segmentAt_initIdt (placed : s.Placed) (memory : Memory) {index : Nat}
    (inside : index < GDT_LENGTH) :
    segmentAt (initIdt s memory) s.gdtEntries index = segmentAt memory s.gdtEntries index := by
  refine congrArg Segment.read (bytesAt_congr fun offset within => ?_)
  have own := slot_mem_tableArea placed.gdt inside within
  refine within_initIdt placed memory _ fun other => ?_
  rcases other with other | other
  · exact Set.disjoint_left.mp placed.apart' own other
  · exact Set.disjoint_left.mp placed.apart own other

/-- **After `init_gdt` and `init_idt`** the tables are set up, whatever was in memory. -/
theorem setUp (placed : s.Placed) (memory : Memory) : SetUp s (initIdt s (initGdt s memory)) := by
  have segment : ∀ index < GDT_LENGTH, segmentAt (initIdt s (initGdt s memory)) s.gdtEntries index
      = ((lastSet GdtCall.num gdtCalls index).map GdtCall.segment).orElse
          fun _ => segmentAt memory s.gdtEntries index := fun index inside =>
    (segmentAt_initIdt placed _ inside).trans
      (segmentAt_gdtSetGates placed.gdt gdtCalls (by decide) memory inside)
  refine ⟨⟨_, segment 1 (by decide), by decide⟩, ⟨_, segment 2 (by decide), by decide⟩,
    ⟨_, segment 3 (by decide), by decide⟩, ⟨_, segment 4 (by decide), by decide⟩, fun vector small => ?_,
    fun vector large inside => ?_, handlers_initIdt placed _⟩
  · rw [gateAt_initIdt placed _ (lt_trans small (by decide)), if_pos small]
  · rw [gateAt_initIdt placed _ inside, if_neg (Nat.not_lt_of_le large)]

/-- **The processor reads in every slot what was set last**, after any calls of `gdt_set_gate` and
`idt_set_gate`, and after `init_gdt` and `init_idt` flat segments and the entry points of the stubs. -/
theorem descriptors_read_back (s : Symbols) (placed : s.Placed) (memory : Memory) :
    (∀ calls : List GdtCall, (∀ call ∈ calls, call.num < GDT_LENGTH) → ∀ index < GDT_LENGTH,
      segmentAt (gdtSetGates s.gdtEntries calls memory) s.gdtEntries index
        = ((lastSet GdtCall.num calls index).map GdtCall.segment).orElse
            fun _ => segmentAt memory s.gdtEntries index)
    ∧ (∀ calls : List IdtCall, (∀ call ∈ calls, call.num < INTERRUPT_NUM) → ∀ vector < INTERRUPT_NUM,
      gateAt (idtSetGates s.idtEntries calls memory) s.idtEntries vector
        = ((lastSet IdtCall.num calls vector).map IdtCall.gate).orElse
            fun _ => gateAt memory s.idtEntries vector)
    ∧ SetUp s (initIdt s (initGdt s memory)) :=
  ⟨fun calls inRange _ inside => segmentAt_gdtSetGates placed.gdt calls inRange memory inside,
    fun calls inRange _ inside => gateAt_idtSetGates placed.idt calls inRange memory inside,
    setUp placed memory⟩

/-- Stubs of 64 bytes, and the tables behind them. -/
def smallSymbols : Symbols where
  isr vector := 0xC0100000 + UInt32.ofNat (64 * vector)
  irq line := 0xC0100800 + UInt32.ofNat (64 * line)
  gdtEntries := 0xC0110000
  idtEntries := 0xC0111000
  interruptHandlers := 0xC0112000

theorem smallSymbols_placed : smallSymbols.Placed := by
  have apart : ∀ low high low' high' : Nat, high ≤ low' → Disjoint (between low high) (between low' high') :=
    fun low high low' high' behind => Set.disjoint_left.mpr fun place inside inside' => by
      have before := inside.2
      have after := inside'.1
      omega
  exact ⟨by decide, by decide, by decide, apart _ _ _ _ (by decide), apart _ _ _ _ (by decide),
    (apart _ _ _ _ (by decide)).symm⟩

/-- A data segment of 16 MB that replaces another one, in memory full of ones. -/
theorem small_descriptors_read_back :
    segmentAt (gdtSetGates 0xC0110000 [⟨2, 0, 0xFFFFFFFF, 0x92, 0xCF⟩, ⟨2, 0x12345678, 0xFFF, 0x92, 0xC0⟩]
        fun _ => 0xFF) 0xC0110000 2 = some ⟨0x12345678, 0xFFF, 0x92, 0xC0⟩
      ∧ SetUp smallSymbols (initIdt smallSymbols (initGdt smallSymbols fun _ => 0xFF)) := by
  obtain ⟨segments, -, set⟩ := descriptors_read_back smallSymbols smallSymbols_placed fun _ => 0xFF
  exact ⟨segments _ (by decide) 2 (by decide), set⟩

end Sprite.Interrupts

/-
**Programs over memory that is not there at once.**

A program reads and writes words and bytes. Over flat memory it simply runs. With a server, which may
have to find a place for a byte before it can be read or written, the content of a byte is known only
when it has been read or written.

* `Program`, `Returns` — programs, and what they do over flat memory without leaving an area.
* `recorded`, `returns_of_recorded` — the same program as an `Access`.
* `Server`, `runOn` — what reads and writes bytes, and what a program does with it. A word is four bytes
  there.
* `Server.Keeps` — what is known is kept, as long as an area is not left.
* `program_simulated` — **what a program does with such a server it does over some flat memory**, in
  which everything known is as it is known.
-/
import Sprite.Lib.Accesses

namespace Words

/-! ### Programs -/

inductive Program (α : Type) where
  | done (result : α)
  | stuck
  | load (address : UInt32) (next : UInt32 → Program α)
  | store (address value : UInt32) (next : Program α)
  | read (place : UInt32) (next : UInt8 → Program α)
  | write (place : UInt32) (value : UInt8) (next : Program α)

namespace Program

variable {α β : Type}

def bind (next : α → Program β) : Program α → Program β
  | done result => next result
  | stuck => stuck
  | load address rest => load address fun value => bind next (rest value)
  | store address value rest => store address value (bind next rest)
  | read place rest => read place fun value => bind next (rest value)
  | write place value rest => write place value (bind next rest)

instance : Monad Program where
  pure := done
  bind := fun program next => program.bind next

def loadWord (address : UInt32) : Program UInt32 := load address done

def storeWord (address value : UInt32) : Program Unit := store address value (done ())

def readByte (place : UInt32) : Program UInt8 := read place done

def writeByte (place : UInt32) (value : UInt8) : Program Unit := write place value (done ())

/-- The four bytes of a word lie in an area. -/
def WordIn (area : Set UInt32) (address : UInt32) : Prop :=
  address ∈ area ∧ address + 1 ∈ area ∧ address + 2 ∈ area ∧ address + 3 ∈ area

/-- **What a program does over flat memory**, if it does not leave the area: its answer, and the memory
it leaves. -/
def Returns (area : Set UInt32) : Program α → Memory → α → Memory → Prop
  | done result, memory, answer, memory' => answer = result ∧ memory' = memory
  | stuck, _, _, _ => False
  | load address next, memory, answer, memory' =>
    WordIn area address ∧ Returns area (next (load32 memory address)) memory answer memory'
  | store address value next, memory, answer, memory' =>
    WordIn area address ∧ Returns area next (store32 memory address value) answer memory'
  | read place next, memory, answer, memory' =>
    place ∈ area ∧ Returns area (next (memory place)) memory answer memory'
  | write place value next, memory, answer, memory' =>
    place ∈ area ∧ Returns area next (Function.update memory place value) answer memory'

section Rules

variable {area : Set UInt32} {memory memory' memory'' : Memory}

theorem Returns.pure (result : α) : Returns area (Pure.pure result) memory result memory := ⟨rfl, rfl⟩

/-- One program behind another. -/
theorem Returns.bind {program : Program α} {next : α → Program β} {middle : α} {result : β} :
    ∀ {memory : Memory}, Returns area program memory middle memory' →
      Returns area (next middle) memory' result memory'' →
      Returns area (program >>= next) memory result memory'' := by
  induction program with
  | done answer =>
    rintro memory ⟨rfl, rfl⟩ second
    exact second
  | stuck => exact fun first _ => first.elim
  | load address rest ih => exact fun first second => ⟨first.1, ih _ first.2 second⟩
  | store address value rest ih => exact fun first second => ⟨first.1, ih first.2 second⟩
  | read place rest ih => exact fun first second => ⟨first.1, ih _ first.2 second⟩
  | write place value rest ih => exact fun first second => ⟨first.1, ih first.2 second⟩

theorem WordIn.mono {wider : Set UInt32} (within : ∀ place, place ∈ area → place ∈ wider)
    {address : UInt32} (inside : WordIn area address) : WordIn wider address :=
  ⟨within _ inside.1, within _ inside.2.1, within _ inside.2.2.1, within _ inside.2.2.2⟩

theorem Returns.mono {wider : Set UInt32} (within : ∀ place, place ∈ area → place ∈ wider)
    {program : Program α} {answer : α} : ∀ {memory : Memory},
      Returns area program memory answer memory' → Returns wider program memory answer memory' := by
  induction program with
  | done result => exact fun returns => returns
  | stuck => exact fun returns => returns
  | load address rest ih => exact fun returns => ⟨returns.1.mono within, ih _ returns.2⟩
  | store address value rest ih => exact fun returns => ⟨returns.1.mono within, ih returns.2⟩
  | read place rest ih => exact fun returns => ⟨within _ returns.1, ih _ returns.2⟩
  | write place value rest ih => exact fun returns => ⟨within _ returns.1, ih returns.2⟩

/-- There is only one way a program can run over flat memory. -/
theorem Returns.unique {program : Program α} {answer answer' : α} :
    ∀ {memory : Memory}, Returns area program memory answer memory' →
      Returns area program memory answer' memory'' → answer = answer' := by
  induction program with
  | done result =>
    rintro memory ⟨rfl, -⟩ ⟨rfl, -⟩
    rfl
  | stuck => exact fun first _ => first.elim
  | load address rest ih => exact fun first second => ih _ first.2 second.2
  | store address value rest ih => exact fun first second => ih first.2 second.2
  | read place rest ih => exact fun first second => ih _ first.2 second.2
  | write place value rest ih => exact fun first second => ih first.2 second.2

end Rules

/-! ### Programs as recorded accesses -/

/-- The program as an `Access`; one that gets at single bytes is not one. -/
def recorded : Program α → Access α
  | done result => Pure.pure result
  | stuck => fun _ => none
  | load address next => Access.load address >>= fun value => recorded (next value)
  | store address value next => Access.store address value >>= fun _ => recorded next
  | read _ _ => fun _ => none
  | write _ _ _ => fun _ => none

theorem recorded_bind (program : Program α) (next : α → Program β) :
    recorded (program >>= next) = recorded program >>= fun answer => recorded (next answer) := by
  induction program with
  | done answer => rfl
  | stuck => rfl
  | load address rest ih =>
    show (Access.load address >>= fun value => recorded (rest value >>= next)) = _
    simp only [ih]
    rfl
  | store address value rest ih =>
    show (Access.store address value >>= fun _ => recorded (rest >>= next)) = _
    rw [ih]
    rfl
  | read place rest ih => rfl
  | write place value rest ih => rfl

/-- What an `Access` does, the program does, and it stays where the recorded words are. -/
theorem returns_of_recorded (area : Set UInt32) {program : Program α} {answer : α} :
    ∀ {state state' : Recorded}, recorded program state = some (answer, state') →
      ∃ touched, state'.words = touched ++ state.words ∧
        ((∀ word ∈ touched, WordIn area word) →
          Returns area program state.memory answer state'.memory) := by
  induction program with
  | done result =>
    intro state state' ran
    cases ran
    exact ⟨[], rfl, fun _ => ⟨rfl, rfl⟩⟩
  | stuck =>
    intro state state' ran
    cases ran
  | load address rest ih =>
    intro state state' ran
    obtain ⟨touched, words, returns⟩ := ih _ ran
    refine ⟨touched ++ [address], by rw [words, List.append_assoc]; rfl, fun inside => ⟨?_, ?_⟩⟩
    · exact inside address (List.mem_append_right _ (List.mem_singleton_self _))
    · exact returns fun word member => inside word (List.mem_append_left _ member)
  | store address value rest ih =>
    intro state state' ran
    obtain ⟨touched, words, returns⟩ := ih ran
    refine ⟨touched ++ [address], by rw [words, List.append_assoc]; rfl, fun inside => ⟨?_, ?_⟩⟩
    · exact inside address (List.mem_append_right _ (List.mem_singleton_self _))
    · exact returns fun word member => inside word (List.mem_append_left _ member)
  | read place rest ih =>
    intro state state' ran
    cases ran
  | write place value rest ih =>
    intro state state' ran
    cases ran

/-- A program whose `Access` stays in an area. -/
theorem returns_of_records {area : Set UInt32} {program : Program α} {memory memory' : Memory}
    {answer : α} {touched : List UInt32}
    (records : Records (recorded program) memory answer memory' touched)
    (inside : ∀ word ∈ touched, WordIn area word) : Returns area program memory answer memory' := by
  obtain ⟨touched', words, returns⟩ := returns_of_recorded area (records [])
  have same : touched = touched' := by simpa using words
  exact returns fun word member => inside word (same ▸ member)

end Program

/-! ### Servers -/

/-- What reads and writes bytes. -/
structure Server (S : Type) where
  read : S → UInt32 → Option (UInt8 × S)
  write : S → UInt32 → UInt8 → Option S

namespace Server

variable {S : Type} (server : Server S)

/-- A word is read byte by byte. -/
def loadWord (s : S) (address : UInt32) : Option (UInt32 × S) := do
  let (first, s) ← server.read s address
  let (second, s) ← server.read s (address + 1)
  let (third, s) ← server.read s (address + 2)
  let (fourth, s) ← server.read s (address + 3)
  return (UInt32.ofNat (first.toNat + 256 * second.toNat + 65536 * third.toNat
    + 16777216 * fourth.toNat), s)

/-- A word is written byte by byte. -/
def storeWord (s : S) (address value : UInt32) : Option S := do
  let s ← server.write s address (byteOf value 0)
  let s ← server.write s (address + 1) (byteOf value 1)
  let s ← server.write s (address + 2) (byteOf value 2)
  server.write s (address + 3) (byteOf value 3)

def runOn {α : Type} : Program α → S → Option (α × S)
  | .done result, s => some (result, s)
  | .stuck, _ => none
  | .load address next, s => do
    let (value, s) ← server.loadWord s address
    runOn (next value) s
  | .store address value next, s => do
    let s ← server.storeWord s address value
    runOn next s
  | .read place next, s => do
    let (value, s) ← server.read s place
    runOn (next value) s
  | .write place value next, s => do
    let s ← server.write s place value
    runOn next s

end Server

/-! ### What is known -/

/-- The bytes that are known. -/
abbrev Known := UInt32 → Option UInt8

/-- A byte becomes known. -/
def Known.learn (known : Known) (place : UInt32) (value : UInt8) : Known :=
  Function.update known place (some value)

/-- In this memory everything known is as it is known. -/
def Known.Fits (known : Known) (memory : Memory) : Prop :=
  ∀ place value, known place = some value → memory place = value

/-- **What is known is kept**, as long as an area is not left. -/
structure Server.Keeps {S : Type} (server : Server S) (area : Set UInt32) (holds : S → Known → Prop) :
    Prop where
  read : ∀ s known place, holds s known → place ∈ area → ∃ value s',
    server.read s place = some (value, s') ∧ (∀ value' ∈ known place, value = value') ∧
      holds s' (known.learn place value)
  write : ∀ s known place value, holds s known → place ∈ area → ∃ s',
    server.write s place value = some s' ∧ holds s' (known.learn place value)

namespace Known

variable {known : Known} {memory : Memory} {place : UInt32} {value : UInt8}

/-- Some memory is as it is known. -/
theorem fits_some (known : Known) : ∃ memory, known.Fits memory := by
  refine ⟨fun place => (known place).getD 0, fun place value isKnown => ?_⟩
  show (known place).getD 0 = value
  rw [isKnown]
  rfl

/-- What is read agrees with what was known. -/
theorem Fits.of_read (agrees : ∀ value' ∈ known place, value = value')
    (fits : (known.learn place value).Fits memory) : known.Fits memory ∧ memory place = value := by
  have here : memory place = value := fits place value (Function.update_self _ _ _)
  refine ⟨fun other value' isKnown => ?_, here⟩
  by_cases same : other = place
  · subst same
    exact here.trans (agrees value' isKnown)
  · exact fits other value' ((Function.update_of_ne same _ _).trans isKnown)

/-- Before a byte was written memory may have held what was known. -/
theorem Fits.of_write (fits : (known.learn place value).Fits memory) :
    ∃ memory', known.Fits memory' ∧ Function.update memory' place value = memory := by
  have here : memory place = value := fits place value (Function.update_self _ _ _)
  refine ⟨Function.update memory place ((known place).getD 0), fun other value' isKnown => ?_, ?_⟩
  · by_cases same : other = place
    · subst same
      rw [Function.update_self, isKnown]
      rfl
    · rw [Function.update_of_ne same]
      exact fits other value' ((Function.update_of_ne same _ _).trans isKnown)
  · rw [Function.update_idem, ← here, Function.update_eq_self]

end Known

/-- A store is four writes. -/
theorem store32_bytes (memory : Memory) (address value : UInt32) :
    Function.update (Function.update (Function.update (Function.update memory address (byteOf value 0))
      (address + 1) (byteOf value 1)) (address + 2) (byteOf value 2)) (address + 3) (byteOf value 3)
      = store32 memory address value := by
  have shifted : ∀ offset : UInt32, address + offset - address = offset := fun offset => by
    rw [UInt32.add_comm, UInt32.add_sub_cancel]
  have index : ∀ place offset : UInt32, place = address + offset ↔
      (place - address).toNat = offset.toNat := by
    intro place offset
    constructor
    · rintro rfl
      rw [shifted]
    · intro same
      rw [← UInt32.toNat_inj.mp same, UInt32.add_comm, UInt32.sub_add_cancel]
  have first : ∀ place : UInt32, place = address ↔ (place - address).toNat = 0 := by
    intro place
    have zero := index place 0
    rwa [UInt32.add_zero] at zero
  ext place
  simp only [Function.update_apply, store32, index place 1, index place 2, index place 3, first place]
  have one : (1 : UInt32).toNat = 1 := rfl
  have two : (2 : UInt32).toNat = 2 := rfl
  have three : (3 : UInt32).toNat = 3 := rfl
  rw [one, two, three]
  split_ifs with h₃ h₂ h₁ h₀ <;> first | omega | simp_all

section Simulation

variable {S : Type} {server : Server S} {area : Set UInt32} {holds : S → Known → Prop}

/-- A word that is read. -/
theorem Server.Keeps.loadWord (keeps : server.Keeps area holds) {s : S} {known : Known} {address : UInt32}
    (kept : holds s known) (inside : Program.WordIn area address) :
    ∃ value s' known', server.loadWord s address = some (value, s') ∧ holds s' known' ∧
      ∀ memory, known'.Fits memory → known.Fits memory ∧ load32 memory address = value := by
  obtain ⟨in₀, in₁, in₂, in₃⟩ := inside
  obtain ⟨b₀, s₁, read₀, agrees₀, kept₁⟩ := keeps.read s known address kept in₀
  obtain ⟨b₁, s₂, read₁, agrees₁, kept₂⟩ := keeps.read s₁ _ (address + 1) kept₁ in₁
  obtain ⟨b₂, s₃, read₂, agrees₂, kept₃⟩ := keeps.read s₂ _ (address + 2) kept₂ in₂
  obtain ⟨b₃, s₄, read₃, agrees₃, kept₄⟩ := keeps.read s₃ _ (address + 3) kept₃ in₃
  refine ⟨UInt32.ofNat (b₀.toNat + 256 * b₁.toNat + 65536 * b₂.toNat + 16777216 * b₃.toNat), s₄, _, ?_,
    kept₄, fun memory fits => ?_⟩
  · simp only [Server.loadWord, read₀, read₁, read₂, read₃, Option.bind_eq_bind, Option.bind_some,
      Option.pure_def]
  · obtain ⟨fits₃, byte₃⟩ := Known.Fits.of_read agrees₃ fits
    obtain ⟨fits₂, byte₂⟩ := Known.Fits.of_read agrees₂ fits₃
    obtain ⟨fits₁, byte₁⟩ := Known.Fits.of_read agrees₁ fits₂
    obtain ⟨fits₀, byte₀⟩ := Known.Fits.of_read agrees₀ fits₁
    refine ⟨fits₀, ?_⟩
    rw [load32, byte₀, byte₁, byte₂, byte₃]

/-- A word that is written. -/
theorem Server.Keeps.storeWord (keeps : server.Keeps area holds) {s : S} {known : Known}
    {address : UInt32} (kept : holds s known) (inside : Program.WordIn area address)
    (value : UInt32) :
    ∃ s' known', server.storeWord s address value = some s' ∧ holds s' known' ∧
      ∀ memory, known'.Fits memory → ∃ memory', known.Fits memory' ∧
        store32 memory' address value = memory := by
  obtain ⟨in₀, in₁, in₂, in₃⟩ := inside
  obtain ⟨s₁, write₀, kept₁⟩ := keeps.write s known address (byteOf value 0) kept in₀
  obtain ⟨s₂, write₁, kept₂⟩ := keeps.write s₁ _ (address + 1) (byteOf value 1) kept₁ in₁
  obtain ⟨s₃, write₂, kept₃⟩ := keeps.write s₂ _ (address + 2) (byteOf value 2) kept₂ in₂
  obtain ⟨s₄, write₃, kept₄⟩ := keeps.write s₃ _ (address + 3) (byteOf value 3) kept₃ in₃
  refine ⟨s₄, _, ?_, kept₄, fun memory fits => ?_⟩
  · simp only [Server.storeWord, write₀, write₁, write₂, write₃, Option.bind_eq_bind, Option.bind_some]
  · obtain ⟨memory₃, fits₃, rfl⟩ := Known.Fits.of_write fits
    obtain ⟨memory₂, fits₂, rfl⟩ := Known.Fits.of_write fits₃
    obtain ⟨memory₁, fits₁, rfl⟩ := Known.Fits.of_write fits₂
    obtain ⟨memory₀, fits₀, rfl⟩ := Known.Fits.of_write fits₁
    exact ⟨memory₀, fits₀, (store32_bytes memory₀ address value).symm⟩

/-- **What a program does with a server that keeps what is known, it does over some flat memory**, in
which everything known at first is as it is known, and to which everything known in the end goes back.
It is only to be shown that over each such memory the program comes back and does not leave the area. -/
theorem program_simulated (keeps : server.Keeps area holds) {α : Type} {program : Program α} :
    ∀ {s : S} {known : Known}, holds s known →
      (∀ memory, known.Fits memory → ∃ answer memory', program.Returns area memory answer memory') →
      ∃ answer s' known', server.runOn program s = some (answer, s') ∧ holds s' known' ∧
        ∀ memory', known'.Fits memory' → ∃ memory, known.Fits memory ∧
          program.Returns area memory answer memory' := by
  induction program with
  | done result =>
    exact fun kept _ => ⟨result, _, _, rfl, kept, fun memory' fits => ⟨memory', fits, rfl, rfl⟩⟩
  | stuck =>
    intro s known kept total
    obtain ⟨memory, fits⟩ := known.fits_some
    obtain ⟨_, _, never⟩ := total memory fits
    exact never.elim
  | load address next ih =>
    intro s known kept total
    obtain ⟨memory₀, fits₀⟩ := known.fits_some
    obtain ⟨_, _, inside, -⟩ := total memory₀ fits₀
    obtain ⟨value, s₁, known₁, loaded, kept₁, back⟩ := keeps.loadWord kept inside
    obtain ⟨answer, s', known', ran, kept', goes⟩ := ih value kept₁ fun memory fits => by
      obtain ⟨fits', word⟩ := back memory fits
      obtain ⟨answer, memory', -, rest⟩ := total memory fits'
      rw [word] at rest
      exact ⟨answer, memory', rest⟩
    refine ⟨answer, s', known', ?_, kept', fun memory' fits => ?_⟩
    · show (server.loadWord s address).bind _ = _
      rw [loaded]
      exact ran
    · obtain ⟨memory, fits₁, returns⟩ := goes memory' fits
      obtain ⟨fits', word⟩ := back memory fits₁
      exact ⟨memory, fits', inside, word.symm ▸ returns⟩
  | store address value next ih =>
    intro s known kept total
    obtain ⟨memory₀, fits₀⟩ := known.fits_some
    obtain ⟨_, _, inside, -⟩ := total memory₀ fits₀
    obtain ⟨s₁, known₁, stored, kept₁, back⟩ := keeps.storeWord kept inside value
    obtain ⟨answer, s', known', ran, kept', goes⟩ := ih kept₁ fun memory fits => by
      obtain ⟨before, fits', rfl⟩ := back memory fits
      obtain ⟨answer, memory', -, rest⟩ := total before fits'
      exact ⟨answer, memory', rest⟩
    refine ⟨answer, s', known', ?_, kept', fun memory' fits => ?_⟩
    · show (server.storeWord s address value).bind _ = _
      rw [stored]
      exact ran
    · obtain ⟨memory, fits₁, returns⟩ := goes memory' fits
      obtain ⟨before, fits', rfl⟩ := back memory fits₁
      exact ⟨before, fits', inside, returns⟩
  | read place next ih =>
    intro s known kept total
    obtain ⟨memory₀, fits₀⟩ := known.fits_some
    obtain ⟨_, _, inside, -⟩ := total memory₀ fits₀
    obtain ⟨value, s₁, found, agrees, kept₁⟩ := keeps.read s known place kept inside
    obtain ⟨answer, s', known', ran, kept', goes⟩ := ih value kept₁ fun memory fits => by
      obtain ⟨fits', byte⟩ := Known.Fits.of_read agrees fits
      obtain ⟨answer, memory', -, rest⟩ := total memory fits'
      rw [byte] at rest
      exact ⟨answer, memory', rest⟩
    refine ⟨answer, s', known', ?_, kept', fun memory' fits => ?_⟩
    · show (server.read s place).bind _ = _
      rw [found]
      exact ran
    · obtain ⟨memory, fits₁, returns⟩ := goes memory' fits
      obtain ⟨fits', byte⟩ := Known.Fits.of_read agrees fits₁
      exact ⟨memory, fits', inside, byte.symm ▸ returns⟩
  | write place value next ih =>
    intro s known kept total
    obtain ⟨memory₀, fits₀⟩ := known.fits_some
    obtain ⟨_, _, inside, -⟩ := total memory₀ fits₀
    obtain ⟨s₁, wrote, kept₁⟩ := keeps.write s known place value kept inside
    obtain ⟨answer, s', known', ran, kept', goes⟩ := ih kept₁ fun memory fits => by
      obtain ⟨before, fits', rfl⟩ := Known.Fits.of_write fits
      obtain ⟨answer, memory', -, rest⟩ := total before fits'
      exact ⟨answer, memory', rest⟩
    refine ⟨answer, s', known', ?_, kept', fun memory' fits => ?_⟩
    · show (server.write s place value).bind _ = _
      rw [wrote]
      exact ran
    · obtain ⟨memory, fits₁, returns⟩ := goes memory' fits
      obtain ⟨before, fits', rfl⟩ := Known.Fits.of_write fits₁
      exact ⟨before, fits', inside, returns⟩

end Simulation

end Words

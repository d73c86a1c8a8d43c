import Mathlib.Data.List.Range
import ParadiseOS.ProcessModel

/-!
# The file of programs

`sun/sun.c` over the bytes that the kernel sees: a header, a table with one entry for each program,
and the sections. `exec_sun` starts the program that the file holds under a name.
-/

namespace ParadiseOS.SunFiles

open MachineWord ProcessModel

set_option autoImplicit false

section Model

/-- `pmemeql`. -/
def pmemeql (memory : Nat → UInt8) (a b : Nat) : Nat → Bool
  | 0 => true
  | count + 1 =>
      if memory a ≠ memory b then false else pmemeql memory (u32 (a + 1)) (u32 (b + 1)) count

/-- `pstreql`. Strings without an end are compared for as many steps as there are addresses. -/
def pstreqlFrom (memory : Nat → UInt8) (a b : Nat) : Nat → Except Trap Bool
  | 0 => .error .noReturn
  | fuel + 1 =>
      if memory a ≠ memory b then .ok false
      else if memory a ≠ 0 then pstreqlFrom memory (u32 (a + 1)) (u32 (b + 1)) fuel
      else .ok true

def pstreql (memory : Nat → UInt8) (a b : Nat) : Except Trap Bool := pstreqlFrom memory a b 4294967296

/-- A little-endian word. -/
def word (memory : Nat → UInt8) (address : Nat) : Nat :=
  (memory address).toNat + 256 * (memory (u32 (address + 1))).toNat +
    65536 * (memory (u32 (address + 2))).toNat + 16777216 * (memory (u32 (address + 3))).toNat

/-- What `pmemcpy` copies from an address. -/
def bytes (memory : Nat → UInt8) (address count : Nat) : List UInt8 :=
  (List.range count).map fun index => memory (u32 (address + index))

/-- `sun_file.entries + i`. -/
def entryAddr (sunFile i : Nat) : Nat := u32 (sunFile + 4 + 40 * i)

/-- `sun_init`, with the address of `MAGIC`. -/
def sunInit (memory : Nat → UInt8) (sunFile magic : Nat) : Except Trap Unit :=
  kernelAssert (pmemeql memory sunFile magic 3 = true)

/-- The loop of `sun_exe_lookup`, with the entries that are left. -/
def lookupFrom (memory : Nat → UInt8) (sunFile name i : Nat) : Nat → Except Trap (Option Nat)
  | 0 => .ok none
  | left + 1 => do
      if ← pstreql memory name (entryAddr sunFile i) then pure (some (entryAddr sunFile i))
      else lookupFrom memory sunFile name (i + 1) left

def sunExeLookup (memory : Nat → UInt8) (sunFile name : Nat) : Except Trap (Option Nat) :=
  lookupFrom memory sunFile name 0 (memory (u32 (sunFile + 3))).toNat

/-- The fields of an entry, and the sections that `sun_load_text`, `sun_load_rodata` and
`sun_load_data` copy. -/
def tableEntry (memory : Nat → UInt8) (sunFile entry : Nat) : SunEntry :=
  let offset := word memory (u32 (entry + 16))
  let textSize := word memory (u32 (entry + 24))
  let rodataSize := word memory (u32 (entry + 28))
  { entryPoint := word memory (u32 (entry + 20))
    text := bytes memory (u32 (sunFile + offset)) textSize
    rodata := bytes memory (u32 (sunFile + u32 (offset + textSize))) rodataSize
    data := bytes memory (u32 (sunFile + u32 (u32 (offset + textSize) + rodataSize))) (word memory (u32 (entry + 32)))
    bssSize := word memory (u32 (entry + 36)) }

/-- `exec_sun` of a name. -/
def execName (memory : Nat → UInt8) (system : System) (sunFile name arg : Nat) : Except Trap System := do
  let found ← sunExeLookup memory sunFile name
  execSun system (found.map (tableEntry memory sunFile)) arg

end Model

section Statement

/-- A string with its end. -/
def StringAt (memory : Nat → UInt8) (address : Nat) : List UInt8 → Prop
  | [] => memory address = 0 ∧ address < 4294967296
  | byte :: rest => memory address = byte ∧ byte ≠ 0 ∧ StringAt memory (address + 1) rest

/-- A program of a file: its name and what `exec_sun` makes of it. -/
structure Program where
  name : List UInt8
  entry : SunEntry

/-- The file holds these programs. -/
structure IsFile (memory : Nat → UInt8) (sunFile : Nat) (programs : List Program) : Prop where
  magic : bytes memory sunFile 3 = [0x53, 0x55, 0x4E]
  few : programs.length < 256
  count : memory (u32 (sunFile + 3)) = UInt8.ofNat programs.length
  room : sunFile + 4 + 40 * programs.length ≤ 4294967296
  names : ∀ i program, programs[i]? = some program → StringAt memory (sunFile + 4 + 40 * i) program.name
  entries : ∀ i program, programs[i]? = some program →
    tableEntry memory sunFile (sunFile + 4 + 40 * i) = program.entry

/-- The program that a name starts: the first one of that name. -/
def programOf (programs : List Program) (name : List UInt8) : Option SunEntry :=
  (programs.find? fun program => program.name = name).map Program.entry

end Statement

section Strings

variable {memory : Nat → UInt8}

theorem string_end {address : Nat} {text : List UInt8} (string : StringAt memory address text) :
    address + text.length < 4294967296 := by
  induction text generalizing address with
  | nil => exact string.2
  | cons byte rest induction =>
      have later := induction string.2.2
      rw [List.length_cons]
      omega

/-- Two strings are equal byte by byte, the last ones included. -/
theorem pstreql_from_eq {a b fuel : Nat} {first second : List UInt8} (isFirst : StringAt memory a first)
    (isSecond : StringAt memory b second) (enough : first.length < fuel) :
    pstreqlFrom memory a b fuel = .ok (decide (first = second)) := by
  induction first generalizing a b fuel second with
  | nil =>
      obtain ⟨fuel, rfl⟩ : ∃ before, fuel = before + 1 := ⟨fuel - 1, by rw [List.length_nil] at enough; omega⟩
      rw [pstreqlFrom, isFirst.1]
      cases second with
      | nil => rw [isSecond.1, if_neg (fun differ => differ rfl), if_neg (fun differ => differ rfl)]; rfl
      | cons byte rest => rw [isSecond.1, if_pos isSecond.2.1.symm]; rfl
  | cons byte rest induction =>
      have firstEnd := string_end isFirst
      have secondEnd := string_end isSecond
      rw [List.length_cons] at firstEnd enough
      obtain ⟨fuel, rfl⟩ : ∃ before, fuel = before + 1 := ⟨fuel - 1, by omega⟩
      rw [pstreqlFrom, isFirst.1]
      cases second with
      | nil => rw [isSecond.1, if_pos isFirst.2.1]; rfl
      | cons other others =>
          rw [List.length_cons] at secondEnd
          rw [isSecond.1]
          by_cases same : byte = other
          · have later := induction isFirst.2.2 isSecond.2.2 (show rest.length < fuel by omega)
            rw [if_neg (fun differ => differ same), if_pos isFirst.2.1, u32_of_lt (by omega), u32_of_lt (by omega),
              later, same]
            simp
          · rw [if_pos same]
            simp [same]

theorem pstreql_eq {a b : Nat} {first second : List UInt8} (isFirst : StringAt memory a first)
    (isSecond : StringAt memory b second) : pstreql memory a b = .ok (decide (first = second)) :=
  pstreql_from_eq isFirst isSecond (Nat.lt_of_le_of_lt (Nat.le_add_left _ a) (string_end isFirst))

theorem bytes_succ {address : Nat} (isWord : address < 4294967296) (count : Nat) :
    bytes memory address (count + 1) = memory address :: bytes memory (u32 (address + 1)) count := by
  rw [bytes, List.range_succ_eq_map, List.map_cons, List.map_map, Nat.add_zero, u32_of_lt isWord, bytes]
  congr 1
  apply List.map_congr_left
  intro index _
  have moved : u32 (address + (index + 1)) = u32 (u32 (address + 1) + index) := by
    unfold u32
    omega
  exact congrArg memory moved

theorem pmemeql_eq (count : Nat) {a b : Nat} (isWord : a < 4294967296) (otherIsWord : b < 4294967296) :
    pmemeql memory a b count = decide (bytes memory a count = bytes memory b count) := by
  induction count generalizing a b with
  | zero => rfl
  | succ count induction =>
      rw [pmemeql, bytes_succ isWord, bytes_succ otherIsWord, induction (u32_lt _) (u32_lt _)]
      by_cases same : memory a = memory b
      · rw [if_neg (fun differ => differ same), same]
        simp
      · rw [if_pos same]
        simp [same]

end Strings

section Lookup

variable {memory : Nat → UInt8} {sunFile name : Nat} {programs : List Program} {text : List UInt8}

theorem entry_addr_eq (held : IsFile memory sunFile programs) {i : Nat} (inside : i < programs.length) :
    entryAddr sunFile i = sunFile + 4 + 40 * i := by
  have room := held.room
  exact u32_of_lt (by omega)

/-- The loop finds the first of the programs that are left. -/
theorem lookup_from_finds (held : IsFile memory sunFile programs) (string : StringAt memory name text) (left : Nat)
    {i : Nat} (whole : i + left = programs.length) :
    ∃ found, lookupFrom memory sunFile name i left = .ok found ∧
      found.map (tableEntry memory sunFile) = programOf (programs.drop i) text := by
  induction left generalizing i with
  | zero =>
      rw [List.drop_of_length_le (by omega)]
      exact ⟨none, rfl, rfl⟩
  | succ left induction =>
      have inside : i < programs.length := by omega
      have given : programs[i]? = some programs[i] := List.getElem?_eq_getElem inside
      have place := entry_addr_eq held inside
      have named : StringAt memory (entryAddr sunFile i) programs[i].name := by
        rw [place]
        exact held.names i _ given
      rw [lookupFrom, pstreql_eq string named, Trap.ok_bind, List.drop_eq_getElem_cons inside, programOf,
        List.find?_cons]
      by_cases same : programs[i].name = text
      · rw [decide_eq_true same.symm, decide_eq_true same]
        refine ⟨some (entryAddr sunFile i), rfl, ?_⟩
        rw [Option.map_some, Option.map_some, place, held.entries i _ given]
      · rw [decide_eq_false (fun equal => same equal.symm), decide_eq_false same]
        exact induction (by omega)

/-- In a file of programs the header is right, and `exec_sun` starts the first program of the name;
a name that no program has ends as one that was not found. -/
theorem exec_name_finds (held : IsFile memory sunFile programs) (string : StringAt memory name text) {magic : Nat}
    (isWord : magic < 4294967296) (isMagic : bytes memory magic 3 = [0x53, 0x55, 0x4E]) :
    sunInit memory sunFile magic = .ok () ∧
      ∀ system arg, execName memory system sunFile name arg = execSun system (programOf programs text) arg := by
  have room := held.room
  have same : pmemeql memory sunFile magic 3 = true := by
    rw [pmemeql_eq 3 (by omega) isWord, held.magic, isMagic]
    rfl
  refine ⟨Trap.kernel_assert_of same, ?_⟩
  intro system arg
  obtain ⟨found, looked, entry⟩ := lookup_from_finds held string programs.length (Nat.zero_add _)
  have few : (UInt8.ofNat programs.length).toNat = programs.length := UInt8.toNat_ofNat_of_lt' held.few
  rw [execName, sunExeLookup, held.count, few, looked, Trap.ok_bind, entry, List.drop_zero]

/-- A file with three programs, the last two of one name, the letters of `MAGIC` behind it, and that
name. -/
def threeProgramsBytes : List UInt8 :=
  [0x53, 0x55, 0x4E, 3] ++
    [0x69, 0x6E, 0x69, 0x74, 0, 0, 0, 0, 0, 0, 0, 0, 0, 0, 0, 0, 124, 0, 0, 0, 0, 0, 64, 0, 2, 0, 0, 0, 0, 0, 0, 0,
      0, 0, 0, 0, 0, 0, 0, 0] ++
    [0x69, 0x6E, 0, 0, 0, 0, 0, 0, 0, 0, 0, 0, 0, 0, 0, 0, 126, 0, 0, 0, 1, 0, 64, 0, 2, 0, 0, 0, 1, 0, 0, 0,
      3, 0, 0, 0, 7, 0, 0, 0] ++
    [0x69, 0x6E, 0, 0, 0, 0, 0, 0, 0, 0, 0, 0, 0, 0, 0, 0, 124, 0, 0, 0, 0, 0, 64, 0, 1, 0, 0, 0, 0, 0, 0, 0,
      0, 0, 0, 0, 0, 16, 0, 0] ++
    [0x90, 0xC3, 0xF4, 0xC3, 0x21, 1, 2, 3] ++ [0x53, 0x55, 0x4E] ++ [0x69, 0x6E, 0]

def threePrograms : List Program :=
  [⟨[0x69, 0x6E, 0x69, 0x74], ⟨0x400000, [0x90, 0xC3], [], [], 0⟩⟩,
    ⟨[0x69, 0x6E], ⟨0x400001, [0xF4, 0xC3], [0x21], [1, 2, 3], 7⟩⟩,
    ⟨[0x69, 0x6E], ⟨0x400000, [0x90], [], [], 4096⟩⟩]

/-- The name starts the second program: the first one has a longer name that begins with it, and the
third one comes too late. -/
theorem exec_name_finds_second :
    sunInit (fun address => threeProgramsBytes.getD address 0) 0 132 = .ok () ∧
      ∀ system arg, execName (fun address => threeProgramsBytes.getD address 0) system 0 135 arg =
        execSun system (some ⟨0x400001, [0xF4, 0xC3], [0x21], [1, 2, 3], 7⟩) arg := by
  have held : IsFile (fun address => threeProgramsBytes.getD address 0) 0 threePrograms := by
    refine ⟨rfl, by decide, rfl, by decide, ?_, ?_⟩
    · intro i program given
      obtain _ | _ | _ | i := i
      · cases given
        exact ⟨rfl, by decide, rfl, by decide, rfl, by decide, rfl, by decide, rfl, by decide⟩
      · cases given
        exact ⟨rfl, by decide, rfl, by decide, rfl, by decide⟩
      · cases given
        exact ⟨rfl, by decide, rfl, by decide, rfl, by decide⟩
      · cases given
    · intro i program given
      obtain _ | _ | _ | i := i
      · cases given
        rfl
      · cases given
        rfl
      · cases given
        rfl
      · cases given
  have string : StringAt (fun address => threeProgramsBytes.getD address 0) 135 [0x69, 0x6E] :=
    ⟨rfl, by decide, rfl, by decide, rfl, by decide⟩
  exact exec_name_finds held string (by decide) rfl

end Lookup

end ParadiseOS.SunFiles

import Mathlib.Logic.Function.Basic
import Mathlib.Tactic.IntervalCases

/-!
# The tables of segments and gates

`make_segment_descriptor` and `init_gdt` of `kernel/init.c`, `make_gate_descriptor` and `init_idt` of
`interrupts/interrupt.c`, and what the processor reads from the words they make: which interrupts
enter the kernel, where, and at which privilege level.
-/

namespace ParadiseOS.Descriptors

set_option autoImplicit false

section Model

def makeSegmentDescriptor (base limit : BitVec 32) (type flags : BitVec 8) : BitVec 64 :=
  let descriptor : BitVec 64 := 0
  let descriptor := (descriptor ||| (base >>> 24).setWidth 64) <<< 4
  let descriptor := (descriptor ||| (flags &&& 0xF).setWidth 64) <<< 4
  let descriptor := (descriptor ||| ((limit >>> 16) &&& 0xF).setWidth 64) <<< 8
  let descriptor := (descriptor ||| type.setWidth 64) <<< 24
  let descriptor := (descriptor ||| (base &&& 0xFFFFFF).setWidth 64) <<< 16
  descriptor ||| (limit &&& 0xFFFF).setWidth 64

def makeGateDescriptor (handler : BitVec 32) (type privilegeLevel : BitVec 8) : BitVec 64 :=
  let descriptor : BitVec 64 := 0
  -- present bit, privilege level, and zero bit
  let pdpl0 : BitVec 8 := 0b1000 ||| ((privilegeLevel &&& 0b11) <<< 1)
  let descriptor := (descriptor ||| (handler >>> 16).setWidth 64) <<< 4
  let descriptor := (descriptor ||| pdpl0.setWidth 64) <<< 4
  let descriptor := (descriptor ||| (type &&& 0xF).setWidth 64) <<< 24
  let descriptor := (descriptor ||| 8) <<< 16
  descriptor ||| (handler &&& 0xFFFF).setWidth 64

def gdtgPage32 : BitVec 8 := 12
def gdtgByte16 : BitVec 8 := 0
def gdtptKernelSystem : BitVec 8 := 8
def gdtptKernelCodeData : BitVec 8 := 9
def gdtptUserCodeData : BitVec 8 := 15
def gdtsegRW : BitVec 8 := 2
def gdtsegXR : BitVec 8 := 10
def gdtsysTss32A : BitVec 8 := 9
def tssSize : BitVec 32 := 104
def idtgtInt : BitVec 8 := 14
def idtgtTrap : BitVec 8 := 15
def dplKernel : BitVec 8 := 0
def dplUser : BitVec 8 := 3

/-- A table of descriptors after `for (i = first; i < first + count; i++) table[i] = value(i)`. -/
def fill (table : Nat → BitVec 64) (first : Nat) (value : Nat → BitVec 64) : Nat → Nat → BitVec 64
  | 0 => table
  | count + 1 => Function.update (fill table first value count) (first + count) (value (first + count))

/-- `SEGMENT`. -/
def segment (type flags : BitVec 8) : BitVec 64 := makeSegmentDescriptor 0 0xFFFFFFFF type flags

def initGdt (gdt : Nat → BitVec 64) (initialTss : BitVec 32) : Nat → BitVec 64 :=
  let gdt := fill gdt 0 (fun _ => makeSegmentDescriptor 0 0 0 0) 128
  let gdt := Function.update gdt 1 (segment ((gdtptKernelCodeData <<< 4) ||| gdtsegXR) gdtgPage32)
  let gdt := Function.update gdt 2 (segment ((gdtptKernelCodeData <<< 4) ||| gdtsegRW) gdtgPage32)
  let gdt := Function.update gdt 3 (segment ((gdtptUserCodeData <<< 4) ||| gdtsegXR) gdtgPage32)
  let gdt := Function.update gdt 4 (segment ((gdtptUserCodeData <<< 4) ||| gdtsegRW) gdtgPage32)
  Function.update gdt 5
    (makeSegmentDescriptor initialTss (tssSize - 1) ((gdtptKernelSystem <<< 4) ||| gdtsysTss32A) gdtgByte16)

/-- `init_idt` without the start of the interrupt controller. -/
def initIdt (idt : Nat → BitVec 64) (cpuInterruptTable : Nat → BitVec 32) (syscallWrapper : BitVec 32) :
    Nat → BitVec 64 :=
  let idt := fill idt 0 (fun _ => 0) 256
  let idt := fill idt 0 (fun index => makeGateDescriptor (cpuInterruptTable index) idtgtTrap dplKernel) 32
  let idt := fill idt 32 (fun index => makeGateDescriptor (cpuInterruptTable index) idtgtInt dplKernel) 16
  Function.update idt 0x80 (makeGateDescriptor syscallWrapper idtgtInt dplUser)

end Model

section Processor

/-- A segment as the processor reads it. -/
@[ext] structure Segment where
  base : BitVec 32
  limit : BitVec 20
  access : BitVec 8
  flags : BitVec 4

def readSegment (descriptor : BitVec 64) : Segment where
  base := (descriptor.extractLsb' 56 8).setWidth 32 <<< 24 ||| (descriptor.extractLsb' 16 24).setWidth 32
  limit := (descriptor.extractLsb' 48 4).setWidth 20 <<< 16 ||| (descriptor.extractLsb' 0 16).setWidth 20
  access := descriptor.extractLsb' 40 8
  flags := descriptor.extractLsb' 52 4

/-- A gate as the processor reads it. -/
@[ext] structure Gate where
  offset : BitVec 32
  selector : BitVec 16
  type : BitVec 5
  level : BitVec 2
  present : Bool

def readGate (descriptor : BitVec 64) : Gate where
  offset := (descriptor.extractLsb' 48 16).setWidth 32 <<< 16 ||| (descriptor.extractLsb' 0 16).setWidth 32
  selector := descriptor.extractLsb' 16 16
  type := descriptor.extractLsb' 40 5
  level := descriptor.extractLsb' 45 2
  present := descriptor.getLsbD 47

def Segment.present (segment : Segment) : Bool := segment.access.getLsbD 7
def Segment.level (segment : Segment) : BitVec 2 := segment.access.extractLsb' 5 2
def Segment.codeData (segment : Segment) : Bool := segment.access.getLsbD 4
def Segment.executable (segment : Segment) : Bool := segment.access.getLsbD 3
def Segment.conforming (segment : Segment) : Bool := segment.access.getLsbD 2

/-- The last offset in the segment. -/
def Segment.last (segment : Segment) : Nat :=
  if segment.flags.getLsbD 3 then segment.limit.toNat * 4096 + 4095 else segment.limit.toNat

/-- The segment of a selector in the table of 128; there is no local table. -/
def select (gdt : Nat → BitVec 64) (selector : BitVec 16) : Option Segment :=
  let index := selector.toNat / 8
  if index = 0 ∨ 128 ≤ index ∨ selector.getLsbD 2 ∨ (readSegment (gdt index)).present = false then none
  else some (readSegment (gdt index))

/-- Where the processor goes on, at which level, and whether it takes further interrupts there. -/
structure Entry where
  address : BitVec 32
  level : BitVec 2
  interruptsOff : Bool
  deriving DecidableEq

/-- The processor takes an interrupt at a level; the instruction `int` needs the gate's leave. -/
def enter (gdt idt : Nat → BitVec 64) (level : BitVec 2) (software : Bool) (number : BitVec 8) : Option Entry :=
  let gate := readGate (idt number.toNat)
  if gate.present = false ∨ (software ∧ gate.level < level) ∨ (gate.type ≠ 14 ∧ gate.type ≠ 15) then none
  else
    match select gdt gate.selector with
    | none => none
    | some target =>
        if target.codeData ∧ target.executable ∧ target.level ≤ level ∧ gate.offset.toNat ≤ target.last then
          some ⟨target.base + gate.offset, if target.conforming then level else target.level, gate.type = 14⟩
        else none

/-- The level after a far jump or call. A gate or a task guards itself by its level, and may lead to
the kernel. -/
def farTransfer (gdt : Nat → BitVec 64) (level : BitVec 2) (selector : BitVec 16) : Option (BitVec 2) :=
  match select gdt selector with
  | none => none
  | some target =>
      if target.codeData then
        if target.executable ∧ (if target.conforming then target.level ≤ level else target.level = level) then
          some level
        else none
      else if target.level < level then none
      else some 0

end Processor

section Words

theorem read_segment_made (base limit : BitVec 32) (type flags : BitVec 8) :
    readSegment (makeSegmentDescriptor base limit type flags) =
      ⟨base, limit.setWidth 20, type, flags.setWidth 4⟩ := by
  ext index small
  · interval_cases index <;> simp [readSegment, makeSegmentDescriptor]
  · interval_cases index <;> simp [readSegment, makeSegmentDescriptor]
  · interval_cases index <;> simp [readSegment, makeSegmentDescriptor]
  · interval_cases index <;> simp [readSegment, makeSegmentDescriptor]

theorem read_gate_made (handler : BitVec 32) (type privilegeLevel : BitVec 8) :
    readGate (makeGateDescriptor handler type privilegeLevel) =
      ⟨handler, 8, type.setWidth 4 |>.setWidth 5, privilegeLevel.setWidth 2, true⟩ := by
  ext index small
  · interval_cases index <;> simp [readGate, makeGateDescriptor]
  · interval_cases index <;> simp [readGate, makeGateDescriptor]
  · interval_cases index <;> simp [readGate, makeGateDescriptor]
  · interval_cases index <;> simp [readGate, makeGateDescriptor]
  · simp [readGate, makeGateDescriptor]

/-- A loop sets the entries of its range. -/
theorem fill_apply (table value : Nat → BitVec 64) (first count index : Nat) :
    fill table first value count index =
      if first ≤ index ∧ index < first + count then value index else table index := by
  induction count with
  | zero => rw [fill, if_neg (by omega)]
  | succ count induction =>
      rw [fill, Function.update_apply, induction]
      by_cases last : index = first + count
      · rw [if_pos last, if_pos (by omega), last]
      · rw [if_neg last]
        by_cases inside : first ≤ index ∧ index < first + count
        · rw [if_pos inside, if_pos (by omega)]
        · rw [if_neg inside, if_neg (by omega)]

end Words

section Statement

/-- The segments of the kernel, of user programs, and of the task, by their index. -/
def segmentOf (initialTss : BitVec 32) (index : Nat) : Option Segment :=
  if index = 5 then some ⟨initialTss, 103, 0x89, 0⟩
  else if index = 4 then some ⟨0, 0xFFFFF, 0xF2, 12⟩
  else if index = 3 then some ⟨0, 0xFFFFF, 0xFA, 12⟩
  else if index = 2 then some ⟨0, 0xFFFFF, 0x92, 12⟩
  else if index = 1 then some ⟨0, 0xFFFFF, 0x9A, 12⟩
  else none

/-- The ways into the kernel: a program has the system call; exceptions and the lines of the
interrupt controller have one stub each, and the lines hold back further interrupts. -/
def kernelEntry (cpuInterruptTable : Nat → BitVec 32) (syscallWrapper : BitVec 32) (level : BitVec 2)
    (software : Bool) (number : Nat) : Option Entry :=
  if number = 0x80 then some ⟨syscallWrapper, 0, true⟩
  else if number < 48 ∧ (software = true → level = 0) then some ⟨cpuInterruptTable number, 0, 32 ≤ number⟩
  else none

end Statement

section Tables

variable {gdt idt : Nat → BitVec 64} {initialTss syscallWrapper : BitVec 32} {cpuInterruptTable : Nat → BitVec 32}

theorem read_init_gdt {index : Nat} (small : index < 128) :
    readSegment (initGdt gdt initialTss index) = (segmentOf initialTss index).getD ⟨0, 0, 0, 0⟩ := by
  rw [initGdt, segmentOf]
  by_cases task : index = 5
  · rw [task, Function.update_self, read_segment_made]
    rfl
  rw [Function.update_of_ne task, if_neg task]
  by_cases userData : index = 4
  · rw [userData, Function.update_self, segment, read_segment_made]
    rfl
  rw [Function.update_of_ne userData, if_neg userData]
  by_cases userCode : index = 3
  · rw [userCode, Function.update_self, segment, read_segment_made]
    rfl
  rw [Function.update_of_ne userCode, if_neg userCode]
  by_cases kernelData : index = 2
  · rw [kernelData, Function.update_self, segment, read_segment_made]
    rfl
  rw [Function.update_of_ne kernelData, if_neg kernelData]
  by_cases kernelCode : index = 1
  · rw [kernelCode, Function.update_self, segment, read_segment_made]
    rfl
  rw [Function.update_of_ne kernelCode, if_neg kernelCode, fill_apply, if_pos (by omega), read_segment_made]
  rfl

/-- The entry of a segment is in the table, and present. -/
theorem segment_of_some {index : Nat} {target : Segment} (chosen : segmentOf initialTss index = some target) :
    index ≠ 0 ∧ index < 128 ∧ target.present = true := by
  rw [segmentOf] at chosen
  split_ifs at chosen
  all_goals
    cases chosen
    exact ⟨by omega, by omega, by simp [Segment.present]⟩

/-- What is no code or data is the kernel's. -/
theorem guarded_of_some {index : Nat} {target : Segment} (chosen : segmentOf initialTss index = some target) :
    target.codeData = true ∨ target.level = 0 := by
  rw [segmentOf] at chosen
  split_ifs at chosen
  all_goals
    cases chosen
    simp [Segment.codeData, Segment.level]

theorem select_init_gdt (selector : BitVec 16) : select (initGdt gdt initialTss) selector =
    if selector.getLsbD 2 then none else segmentOf initialTss (selector.toNat / 8) := by
  rw [select]
  by_cases isLocal : selector.getLsbD 2 = true
  · rw [if_pos (.inr (.inr (.inl isLocal))), if_pos isLocal]
  rw [if_neg isLocal]
  cases chosen : segmentOf initialTss (selector.toNat / 8) with
  | none =>
      by_cases small : selector.toNat / 8 < 128
      · rw [read_init_gdt small, chosen]
        exact if_pos (.inr (.inr (.inr rfl)))
      · exact if_pos (.inr (.inl (Nat.not_lt.1 small)))
  | some target =>
      obtain ⟨notNull, small, present⟩ := segment_of_some chosen
      rw [read_init_gdt small, chosen, Option.getD_some, if_neg]
      rintro (null | large | isLocal' | absent)
      · exact notNull null
      · exact absurd small (Nat.not_lt.2 large)
      · exact isLocal isLocal'
      · rw [present] at absent
        cases absent

theorem read_init_idt {number : Nat} (small : number < 256) :
    readGate (initIdt idt cpuInterruptTable syscallWrapper number) =
      if number = 0x80 then ⟨syscallWrapper, 8, 14, 3, true⟩
      else if number < 48 then ⟨cpuInterruptTable number, 8, if number < 32 then 15 else 14, 0, true⟩
      else readGate 0 := by
  rw [initIdt]
  by_cases call : number = 0x80
  · rw [call, Function.update_self, read_gate_made, if_pos rfl]
    rfl
  rw [Function.update_of_ne call, if_neg call, fill_apply]
  by_cases line : 32 ≤ number ∧ number < 32 + 16
  · rw [if_pos line, read_gate_made, if_pos (by omega), if_neg (by omega)]
    rfl
  rw [if_neg line, fill_apply]
  by_cases trap : number < 32
  · rw [if_pos (by omega), read_gate_made, if_pos (by omega), if_pos trap]
    rfl
  · rw [if_neg (by omega), fill_apply, if_pos (by omega), if_neg (by omega)]

/-- A gate to the kernel's code lets in whoever its level allows. -/
theorem enter_of_gate {level : BitVec 2} {software : Bool} {number : BitVec 8} {offset : BitVec 32} {type : BitVec 5}
    {least : BitVec 2} (isGate : type = 14 ∨ type = 15)
    (read : readGate (idt number.toNat) = ⟨offset, 8, type, least, true⟩) :
    enter (initGdt gdt initialTss) idt level software number =
      if software = true ∧ least < level then none else some ⟨offset, 0, type = 14⟩ := by
  have code : select (initGdt gdt initialTss) 8 = some ⟨0, 0xFFFFF, 0x9A, 12⟩ := by
    rw [select_init_gdt]
    rfl
  have inside : offset.toNat ≤ 0xFFFFF * 4096 + 4095 := by
    have bound := offset.isLt
    omega
  have known : ¬ (type ≠ 14 ∧ type ≠ 15) := by
    rintro ⟨notInt, notTrap⟩
    exact isGate.elim notInt notTrap
  rw [enter, read]
  dsimp only
  rw [code]
  dsimp only
  by_cases refused : software = true ∧ least < level
  · rw [if_pos refused, if_pos (.inr (.inl refused))]
  · have ground : Segment.level ⟨0, 0xFFFFF, 0x9A, 12⟩ ≤ level := BitVec.le_def.2 (Nat.zero_le _)
    have sum : (0 : BitVec 32) + offset = offset := BitVec.zero_add offset
    rw [if_neg refused, if_neg, if_pos ⟨rfl, rfl, ground, inside⟩, sum]
    · rfl
    · rintro (absent | barred | unknown)
      · cases absent
      · exact refused barred
      · exact known unknown

/-- Every number has the gate that the statement gives it. -/
theorem enter_made (level : BitVec 2) (software : Bool) (number : BitVec 8) :
    enter (initGdt gdt initialTss) (initIdt idt cpuInterruptTable syscallWrapper) level software number =
      kernelEntry cpuInterruptTable syscallWrapper level software number.toNat := by
  have read := @read_init_idt idt syscallWrapper cpuInterruptTable number.toNat number.isLt
  rw [kernelEntry]
  by_cases call : number.toNat = 0x80
  · rw [if_pos call] at read ⊢
    have open_ : ¬ (software = true ∧ (3 : BitVec 2) < level) := by
      rintro ⟨_, above⟩
      have bound := level.isLt
      rw [BitVec.lt_def] at above
      exact absurd above (by change ¬ 3 < level.toNat; omega)
    rw [enter_of_gate (.inl rfl) read, if_neg open_]
    rfl
  rw [if_neg call] at read ⊢
  by_cases stub : number.toNat < 48
  · rw [if_pos stub] at read
    have isGate : (if number.toNat < 32 then 15 else 14 : BitVec 5) = 14 ∨
        (if number.toNat < 32 then 15 else 14 : BitVec 5) = 15 := by
      split_ifs
      · exact .inr rfl
      · exact .inl rfl
    have off : decide ((if number.toNat < 32 then 15 else 14 : BitVec 5) = 14) = decide (32 ≤ number.toNat) := by
      by_cases trap : number.toNat < 32
      · rw [if_pos trap, decide_eq_false (Nat.not_le.2 trap)]
        rfl
      · rw [if_neg trap, decide_eq_true (Nat.not_lt.1 trap)]
        rfl
    have above : (0 : BitVec 2) < level ↔ ¬ level = 0 := by
      rw [BitVec.lt_def, BitVec.toNat_eq]
      exact Nat.pos_iff_ne_zero
    rw [enter_of_gate isGate read, off]
    by_cases refused : software = true ∧ (0 : BitVec 2) < level
    · rw [if_pos refused, if_neg]
      exact fun allowed => above.1 refused.2 (allowed.2 refused.1)
    · rw [if_neg refused, if_pos]
      refine ⟨stub, fun soft => ?_⟩
      by_contra other
      exact refused ⟨soft, above.2 other⟩
  · rw [if_neg stub] at read
    rw [if_neg (fun allowed => stub allowed.1), enter, read]
    exact if_pos (.inl rfl)

/-- A jump goes to code of the same level, or from the kernel to the task. -/
theorem far_transfer_made {level next : BitVec 2} {selector : BitVec 16}
    (moved : farTransfer (initGdt gdt initialTss) level selector = some next) : next = level := by
  rw [farTransfer, select_init_gdt] at moved
  by_cases isLocal : selector.getLsbD 2 = true
  · rw [if_pos isLocal] at moved
    cases moved
  rw [if_neg isLocal] at moved
  cases chosen : segmentOf initialTss (selector.toNat / 8) with
  | none =>
      rw [chosen] at moved
      cases moved
  | some target =>
      rw [chosen] at moved
      dsimp only at moved
      by_cases code : target.codeData = true
      · rw [if_pos code] at moved
        split_ifs at moved
        all_goals exact (Option.some.inj moved).symm
      · -- only the task is left, whose level is the kernel's
        rw [if_neg code] at moved
        have kernel : target.level = 0 := (guarded_of_some chosen).resolve_left code
        rw [kernel] at moved
        split_ifs at moved with below
        rw [← Option.some.inj moved]
        have least : ¬ 0 < level.toNat := below
        exact BitVec.eq_of_toNat_eq (by change 0 = level.toNat; omega)

end Tables

/-- Once the tables are made, whatever they held before, an instruction `int` below the kernel's
level enters the kernel by the system call only, every exception and every line of the controller
enters by its own stub, at the kernel's level; and no far jump or call changes the level. -/
theorem kernel_entries (gdt idt : Nat → BitVec 64) (cpuInterruptTable : Nat → BitVec 32)
    (initialTss syscallWrapper : BitVec 32) (level : BitVec 2) :
    (∀ software number,
      enter (initGdt gdt initialTss) (initIdt idt cpuInterruptTable syscallWrapper) level software number =
        kernelEntry cpuInterruptTable syscallWrapper level software number.toNat) ∧
    ∀ selector next, farTransfer (initGdt gdt initialTss) level selector = some next → next = level :=
  ⟨fun software number => enter_made level software number, fun _ _ moved => far_transfer_made moved⟩

end ParadiseOS.Descriptors

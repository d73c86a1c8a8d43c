import Mathlib.Data.Nat.Bits
import Mathlib.Tactic.IntervalCases
import ParadiseOS.MachineWord
import ParadiseOS.KernelTrap
import ParadiseOS.StepRun

/-!
# The lines of the interrupt controller

`interrupts/interrupt.c` with the two chips of the controller. A chip takes three words behind the
one that starts it, then masks, and a word that ends what it serves first. A line gets through if
it is not masked and neither it nor one before it is served; the lines of the second chip come
through line 2 of the first.
-/

namespace ParadiseOS.InterruptLines

open StepRun

set_option autoImplicit false

section Model

/-- One chip: the lines held back, the lines served, how many words its start still takes, and the
number of its first interrupt. -/
structure Chip where
  mask : BitVec 8
  inService : BitVec 8
  expected : Nat
  base : Nat

/-- Both chips and `irq_routines`, where zero is no routine. -/
structure Controller where
  pic1 : Chip
  pic2 : Chip
  routines : Nat → Nat

def pic1Command : Nat := 0x20
def pic1Data : Nat := 0x21
def pic2Command : Nat := 0xA0
def pic2Data : Nat := 0xA1
def picEoiWord : BitVec 8 := 0x20

/-- A word for the command port: it starts the chip, or ends the first line that is served. -/
def Chip.command (chip : Chip) (word : BitVec 8) : Chip :=
  if word &&& 0x10 ≠ 0 then { chip with mask := 0, inService := 0, expected := 3 }
  else if word = picEoiWord then { chip with inService := chip.inService &&& (chip.inService - 1) }
  else chip

/-- A word for the data port: one of the start, or the mask. -/
def Chip.data (chip : Chip) (word : BitVec 8) : Chip :=
  if chip.expected = 0 then { chip with mask := word }
  else { chip with expected := chip.expected - 1, base := if chip.expected = 3 then word.toNat else chip.base }

def outb (controller : Controller) (port : Nat) (word : BitVec 8) : Controller :=
  if port = pic1Command then { controller with pic1 := controller.pic1.command word }
  else if port = pic1Data then { controller with pic1 := controller.pic1.data word }
  else if port = pic2Command then { controller with pic2 := controller.pic2.command word }
  else if port = pic2Data then { controller with pic2 := controller.pic2.data word }
  else controller

def inb (controller : Controller) (port : Nat) : BitVec 8 :=
  if port = pic1Data then controller.pic1.mask else if port = pic2Data then controller.pic2.mask else 0

/-- The words that `init_pic` writes. -/
def initPicWords : List (Nat × BitVec 8) :=
  [(pic1Command, 0x11), (pic2Command, 0x11), (pic1Data, 0x20), (pic2Data, 0x28), (pic1Data, 0x04), (pic2Data, 0x02),
    (pic1Data, 0x01), (pic2Data, 0x01), (pic1Data, 0xff), (pic2Data, 0xff)]

def initPic (controller : Controller) : Controller :=
  initPicWords.foldl (fun controller written => outb controller written.1 written.2) controller

/-- `pic_mask`. -/
def picMask (controller : Controller) (irq : Nat) (enable : Bool) : Controller :=
  let port := if irq < 8 then pic1Data else pic2Data
  let irq := if irq < 8 then irq else irq - 8
  if enable then outb controller port (inb controller port ||| 1#8 <<< irq)
  else outb controller port (inb controller port &&& ~~~(1#8 <<< irq))

/-- `pic_eoi`: the second chip hears of it from line 9 on. -/
def picEoi (controller : Controller) (irq : Nat) : Controller :=
  outb (if irq > 8 then outb controller pic2Command picEoiWord else controller) pic1Command picEoiWord

def setRoutine (controller : Controller) (irq handler : Nat) : Controller :=
  { controller with routines := Function.update controller.routines irq handler }

def irqInstallHandler (controller : Controller) (irq handler : Nat) : Controller :=
  picMask (setRoutine controller irq handler) irq false

def irqUninstallHandler (controller : Controller) (irq : Nat) : Controller :=
  setRoutine (picMask controller irq true) irq 0

/-- How a routine ends: it returns, as `keyboardHandler` does; it ends the interrupt and returns, as
`preempt` does in the kernel; or it ends the interrupt and enters a process. -/
inductive Ending where
  | returns
  | endsAndReturns
  | endsAndLeaves

/-- `irq_handler`: the routine that was called, zero for none, and the controller afterwards. -/
def irqHandler (ending : Nat → Ending) (controller : Controller) (irq : Nat) : Nat × Controller :=
  let handler := controller.routines irq
  if handler = 0 then (0, picEoi controller irq)
  else
    match ending handler with
    | .returns => (handler, picEoi controller irq)
    | .endsAndReturns => (handler, picEoi (picEoi controller irq) irq)
    | .endsAndLeaves => (handler, picEoi controller irq)

/-- `isr_handler` for an interrupt of the controller. -/
def isrHandler (ending : Nat → Ending) (controller : Controller) (intNo : Nat) : Except Trap (Nat × Controller) := do
  kernelAssert (intNo < 48)
  if intNo ≥ 32 then pure (irqHandler ending controller (intNo - 32)) else .error .assertion

/-- A chip lets a line through. -/
def Chip.Lets (chip : Chip) (line : Nat) : Prop :=
  chip.mask.getLsbD line = false ∧ ∀ other ≤ line, chip.inService.getLsbD other = false

/-- An interrupt of a line reaches the processor. -/
def Delivers (controller : Controller) (irq : Nat) : Prop :=
  if irq < 8 then controller.pic1.Lets irq else controller.pic2.Lets (irq - 8) ∧ controller.pic1.Lets 2

def Chip.serve (chip : Chip) (line : Nat) : Chip := { chip with inService := chip.inService ||| 1#8 <<< line }

/-- The processor takes the interrupt of a line, and learns its number. -/
def acknowledge (controller : Controller) (irq : Nat) : Nat × Controller :=
  if irq < 8 then (controller.pic1.base + irq, { controller with pic1 := controller.pic1.serve irq })
  else (controller.pic2.base + (irq - 8),
    { controller with pic1 := controller.pic1.serve 2, pic2 := controller.pic2.serve (irq - 8) })

inductive LineEvent where
  | install (irq handler : Nat)
  | uninstall (irq : Nat)
  | interrupt (irq : Nat)

def lineStep (ending : Nat → Ending) (controller : Controller) : LineEvent → Except Trap (Nat × Controller)
  | .install irq handler => .ok (0, irqInstallHandler controller irq handler)
  | .uninstall irq => .ok (0, irqUninstallHandler controller irq)
  | .interrupt irq => isrHandler ending (acknowledge controller irq).2 (acknowledge controller irq).1

/-- Lines are below 16, a routine has an address, and nothing is wired to line 2 but the second chip. -/
def LegalEvent (controller : Controller) : LineEvent → Prop
  | .install irq handler => irq < 16 ∧ handler ≠ 0
  | .uninstall irq => irq < 16
  | .interrupt irq => irq < 16 ∧ irq ≠ 2 ∧ Delivers controller irq

end Model

section Statement

/-- What the controller is for: the routine of each line. Line 8 jams the second chip. -/
structure Lines where
  routine : Nat → Nat
  jammed : Bool

def noLines : Lines := ⟨fun _ => 0, false⟩

def serve (lines : Lines) : LineEvent → Nat × Lines
  | .install irq handler => (0, { lines with routine := Function.update lines.routine irq handler })
  | .uninstall irq => (0, { lines with routine := Function.update lines.routine irq 0 })
  | .interrupt irq => (lines.routine irq, { lines with jammed := lines.jammed || decide (irq = 8) })

/-- A line is open: it has a routine, and if it is one of the second chip then so has line 2, and the
chip is not jammed. -/
def Lines.Open (lines : Lines) (irq : Nat) : Prop :=
  lines.routine irq ≠ 0 ∧ (8 ≤ irq → lines.routine 2 ≠ 0 ∧ lines.jammed = false)

/-- The controller is as its lines say, and serves no line of the first chip. -/
structure Shows (controller : Controller) (lines : Lines) : Prop where
  routines : controller.routines = lines.routine
  started : controller.pic1.expected = 0 ∧ controller.pic2.expected = 0
  bases : controller.pic1.base = 32 ∧ controller.pic2.base = 40
  first : ∀ irq < 8, controller.pic1.mask.getLsbD irq = decide (lines.routine irq = 0)
  second : ∀ irq < 8, controller.pic2.mask.getLsbD irq = decide (lines.routine (8 + irq) = 0)
  idle : controller.pic1.inService = 0
  stuck : controller.pic2.inService = if lines.jammed then 1 else 0

end Statement

section Words

theorem mask_line (mask : BitVec 8) {line other : Nat} (small : other < 8) :
    (mask ||| 1#8 <<< line).getLsbD other = (mask.getLsbD other || decide (other = line)) := by
  simp only [BitVec.getLsbD_or, BitVec.getLsbD_shiftLeft, BitVec.getLsbD_one]
  congr 1
  by_cases same : other = line
  · subst same
    simp [small]
  · by_cases below : other < line
    · simp [below, same]
    · have apart : other - line ≠ 0 := by omega
      simp [apart, same]

theorem unmask_line (mask : BitVec 8) {line other : Nat} (small : other < 8) :
    (mask &&& ~~~(1#8 <<< line)).getLsbD other = (mask.getLsbD other && !decide (other = line)) := by
  have single := @mask_line 0#8 line other small
  simp only [BitVec.zero_or, BitVec.getLsbD_zero, Bool.false_or] at single
  rw [BitVec.getLsbD_and, BitVec.getLsbD_not, single]
  simp [small]

theorem served_line_ends {line : Nat} (small : line < 8) :
    (0 ||| 1#8 <<< line) &&& ((0 ||| 1#8 <<< line) - 1) = 0 := by
  interval_cases line <;> decide

end Words

section Steps

variable {controller : Controller} {lines : Lines} {ending : Nat → Ending} {irq handler : Nat}

theorem init_pic_shows (pic1 pic2 : Chip) : Shows (initPic ⟨pic1, pic2, fun _ => 0⟩) noLines where
  routines := rfl
  started := ⟨rfl, rfl⟩
  bases := ⟨rfl, rfl⟩
  first irq small := by
    change (0xff#8).getLsbD irq = true
    interval_cases irq <;> rfl
  second irq small := by
    change (0xff#8).getLsbD irq = true
    interval_cases irq <;> rfl
  idle := rfl
  stuck := rfl

/-- `pic_mask` changes one bit of one mask. -/
theorem pic_mask_eq (started : controller.pic1.expected = 0 ∧ controller.pic2.expected = 0) (irq : Nat)
    (enable : Bool) : picMask controller irq enable =
      if irq < 8 then { controller with pic1 := { controller.pic1 with
        mask := if enable then controller.pic1.mask ||| 1#8 <<< irq else controller.pic1.mask &&& ~~~(1#8 <<< irq) } }
      else { controller with pic2 := { controller.pic2 with
        mask := if enable then controller.pic2.mask ||| 1#8 <<< (irq - 8)
          else controller.pic2.mask &&& ~~~(1#8 <<< (irq - 8)) } } := by
  obtain ⟨first, second⟩ := started
  by_cases low : irq < 8
  · cases enable <;> simp [picMask, outb, inb, pic1Command, pic1Data, Chip.data, low, first]
  · cases enable <;> simp [picMask, outb, inb, pic1Command, pic1Data, pic2Command, pic2Data, Chip.data, low, second]

/-- `pic_eoi` ends the first line that the first chip serves, and from line 9 on that of the second. -/
theorem pic_eoi_eq (controller : Controller) (irq : Nat) : picEoi controller irq =
    { controller with
      pic1 := { controller.pic1 with inService := controller.pic1.inService &&& (controller.pic1.inService - 1) }
      pic2 := if irq > 8 then
          { controller.pic2 with inService := controller.pic2.inService &&& (controller.pic2.inService - 1) }
        else controller.pic2 } := by
  by_cases high : irq > 8
  · rw [picEoi, if_pos high, if_pos high]
    rfl
  · rw [picEoi, if_neg high, if_neg high]
    rfl

/-- Setting a routine and its bit of the mask. -/
theorem shows_masked (shows_ : Shows controller lines) (small : irq < 16) (handler : Nat) :
    Shows (picMask (setRoutine controller irq handler) irq (decide (handler = 0)))
      { lines with routine := Function.update lines.routine irq handler } := by
  have started : (setRoutine controller irq handler).pic1.expected = 0 ∧
      (setRoutine controller irq handler).pic2.expected = 0 := shows_.started
  have routines : (setRoutine controller irq handler).routines = Function.update lines.routine irq handler := by
    rw [← shows_.routines]
    rfl
  have masked : ∀ (mask : BitVec 8) (line other : Nat), other < 8 →
      (if decide (handler = 0) = true then mask ||| 1#8 <<< line else mask &&& ~~~(1#8 <<< line)).getLsbD other =
        if other = line then decide (handler = 0) else mask.getLsbD other := by
    intro mask line other below
    by_cases none : handler = 0
    · rw [if_pos (decide_eq_true none), mask_line mask below, decide_eq_true none]
      by_cases same : other = line <;> simp [same]
    · rw [if_neg (by simp [none]), unmask_line mask below, decide_eq_false none]
      by_cases same : other = line <;> simp [same]
  rw [pic_mask_eq started]
  by_cases low : irq < 8
  · rw [if_pos low]
    refine ⟨routines, started, shows_.bases, ?_, ?_, shows_.idle, shows_.stuck⟩
    · intro other below
      change BitVec.getLsbD (if decide (handler = 0) = true then controller.pic1.mask ||| 1#8 <<< irq
        else controller.pic1.mask &&& ~~~(1#8 <<< irq)) other =
          decide (Function.update lines.routine irq handler other = 0)
      rw [masked _ _ _ below, shows_.first other below, Function.update_apply]
      by_cases same : other = irq
      · rw [if_pos same, if_pos same]
      · rw [if_neg same, if_neg same]
    · intro other below
      change controller.pic2.mask.getLsbD other = decide (Function.update lines.routine irq handler (8 + other) = 0)
      rw [shows_.second other below, Function.update_of_ne (by omega)]
  · rw [if_neg low]
    refine ⟨routines, started, shows_.bases, ?_, ?_, shows_.idle, shows_.stuck⟩
    · intro other below
      change controller.pic1.mask.getLsbD other = decide (Function.update lines.routine irq handler other = 0)
      rw [shows_.first other below, Function.update_of_ne (by omega)]
    · intro other below
      change BitVec.getLsbD (if decide (handler = 0) = true then controller.pic2.mask ||| 1#8 <<< (irq - 8)
        else controller.pic2.mask &&& ~~~(1#8 <<< (irq - 8))) other =
          decide (Function.update lines.routine irq handler (8 + other) = 0)
      rw [masked _ _ _ below, shows_.second other below, Function.update_apply]
      by_cases same : other = irq - 8
      · rw [if_pos same, if_pos (by omega)]
      · rw [if_neg same, if_neg (by omega)]

/-- The lines that get through are the open ones. -/
theorem delivers_iff (shows_ : Shows controller lines) (small : irq < 16) :
    Delivers controller irq ↔ lines.Open irq := by
  have idle : ∀ line < 8, controller.pic1.Lets line ↔ lines.routine line ≠ 0 := by
    intro line below
    rw [Chip.Lets, shows_.first line below, shows_.idle]
    simp
  by_cases low : irq < 8
  · rw [Delivers, if_pos low, idle irq low, Lines.Open]
    exact ⟨fun given => ⟨given, fun high => by omega⟩, And.left⟩
  · have line : 8 + (irq - 8) = irq := by omega
    rw [Delivers, if_neg low, idle 2 (by decide), Lines.Open, Chip.Lets, shows_.second _ (by omega), line, shows_.stuck]
    have high : 8 ≤ irq := by omega
    cases jam : lines.jammed with
    | false => simp [high]
    | true =>
        simp only [if_true, high, forall_const, Bool.true_eq_false, and_false, iff_false, not_and]
        intro clear
        exact absurd (clear.2 0 (Nat.zero_le _)) (by decide)

/-- An interrupt of an open line is ended, but for that of line 8 in the second chip. -/
theorem shows_ended (shows_ : Shows controller lines) (opened : lines.Open irq) (small : irq < 16) :
    Shows (picEoi (acknowledge controller irq).2 irq) { lines with jammed := lines.jammed || decide (irq = 8) } := by
  rw [pic_eoi_eq, acknowledge]
  by_cases low : irq < 8
  · have notEight : irq ≠ 8 := by omega
    rw [if_pos low, if_neg (by omega)]
    refine ⟨shows_.routines, shows_.started, shows_.bases, shows_.first, shows_.second, ?_, ?_⟩
    · change (controller.pic1.inService ||| 1#8 <<< irq) &&& ((controller.pic1.inService ||| 1#8 <<< irq) - 1) = 0
      rw [shows_.idle]
      exact served_line_ends low
    · change controller.pic2.inService = _
      rw [shows_.stuck]
      simp [notEight]
  · rw [if_neg low]
    obtain ⟨_, free⟩ := opened.2 (by omega)
    have clear : controller.pic2.inService = 0 := by
      rw [shows_.stuck, free]
      rfl
    refine ⟨shows_.routines, ?_, ?_, shows_.first, ?_, ?_, ?_⟩
    · split_ifs <;> exact shows_.started
    · split_ifs <;> exact shows_.bases
    · intro other below
      split_ifs <;> exact shows_.second other below
    · change (controller.pic1.inService ||| 1#8 <<< 2) &&& ((controller.pic1.inService ||| 1#8 <<< 2) - 1) = 0
      rw [shows_.idle]
      exact served_line_ends (by decide)
    · by_cases isEight : irq = 8
      · subst isEight
        change controller.pic2.inService ||| 1#8 <<< 0 = _
        rw [clear]
        simp
      · rw [if_pos (by omega)]
        change (controller.pic2.inService ||| 1#8 <<< (irq - 8)) &&&
          ((controller.pic2.inService ||| 1#8 <<< (irq - 8)) - 1) = _
        rw [clear, served_line_ends (by omega)]
        simp [free, isEight]

/-- To end an interrupt once more changes nothing. -/
theorem shows_ended_again (shows_ : Shows controller lines) (free : irq > 8 → lines.jammed = false) :
    Shows (picEoi controller irq) lines := by
  rw [pic_eoi_eq]
  refine ⟨shows_.routines, ?_, ?_, shows_.first, ?_, ?_, ?_⟩
  · split_ifs <;> exact shows_.started
  · split_ifs <;> exact shows_.bases
  · intro other below
    split_ifs <;> exact shows_.second other below
  · change controller.pic1.inService &&& (controller.pic1.inService - 1) = 0
    rw [shows_.idle]
    rfl
  · by_cases high : irq > 8
    · have clear := shows_.stuck
      rw [free high] at clear ⊢
      rw [if_pos high]
      change controller.pic2.inService &&& (controller.pic2.inService - 1) = 0
      rw [clear]
      rfl
    · rw [if_neg high]
      exact shows_.stuck

/-- An interrupt is served by the routine of its line, and ended. -/
theorem shows_served (shows_ : Shows controller lines) (small : irq < 16) (opened : lines.Open irq) :
    ∃ next, lineStep ending controller (.interrupt irq) = .ok (lines.routine irq, next) ∧
      Shows next { lines with jammed := lines.jammed || decide (irq = 8) } := by
  obtain ⟨isFirst, isSecond⟩ := shows_.bases
  have number : (acknowledge controller irq).1 = 32 + irq := by
    rw [acknowledge]
    split_ifs
    · rw [isFirst]
    · rw [isSecond]
      omega
  have taken : (acknowledge controller irq).2.routines = lines.routine := by
    rw [← shows_.routines, acknowledge]
    split_ifs <;> rfl
  have line : 32 + irq - 32 = irq := by omega
  have after := shows_ended shows_ opened small
  have free : irq > 8 → (lines.jammed || decide (irq = 8)) = false := by
    intro high
    have notEight : irq ≠ 8 := by omega
    rw [(opened.2 (by omega)).2, decide_eq_false notEight]
    rfl
  have again := shows_ended_again after free
  rw [lineStep, number, isrHandler, Trap.kernel_assert_of (by omega), Trap.ok_bind, if_pos (by omega), irqHandler, line]
  rw [taken, if_neg opened.1]
  cases ending (lines.routine irq) with
  | returns => exact ⟨_, rfl, after⟩
  | endsAndReturns => exact ⟨_, rfl, again⟩
  | endsAndLeaves => exact ⟨_, rfl, after⟩

/-- One step of the controller is one step of its lines. -/
theorem line_step_shows (shows_ : Shows controller lines) (event : LineEvent) (legal : LegalEvent controller event) :
    ∃ next, lineStep ending controller event = .ok ((serve lines event).1, next) ∧
      Shows next (serve lines event).2 := by
  cases event with
  | install irq handler =>
      obtain ⟨small, given⟩ := legal
      have masked := shows_masked shows_ small handler
      rw [decide_eq_false given] at masked
      exact ⟨_, rfl, masked⟩
  | uninstall irq =>
      have masked := shows_masked shows_ legal 0
      have same : irqUninstallHandler controller irq = picMask (setRoutine controller irq 0) irq true := by
        have started : (setRoutine controller irq 0).pic1.expected = 0 ∧
            (setRoutine controller irq 0).pic2.expected = 0 := shows_.started
        rw [irqUninstallHandler, pic_mask_eq shows_.started, pic_mask_eq started]
        split_ifs <;> rfl
      exact ⟨_, congrArg (fun next => Except.ok (0, next)) same, masked⟩
  | interrupt irq =>
      obtain ⟨small, _, delivered⟩ := legal
      exact shows_served shows_ small ((delivers_iff shows_ small).1 delivered)

end Steps

section Runs

variable {ending : Nat → Ending} {events : List LineEvent} {pic1 pic2 : Chip}

/-- From `init_pic` on, in every run of installations, removals and interrupts, no assertion fails,
every interrupt is served by the routine installed last on its line, and the lines that get through
are those with a routine; those of the second chip need one on line 2 too, and none of them gets
through once line 8 was served. -/
theorem interrupt_lines (legal : Allowed (lineStep ending) LegalEvent (initPic ⟨pic1, pic2, fun _ => 0⟩) events) :
    ∃ final, run (lineStep ending) (initPic ⟨pic1, pic2, fun _ => 0⟩) events =
        .ok ((observe serve noLines events).1, final) ∧
      (∀ irq < 16, Delivers final irq ↔ (observe serve noLines events).2.Open irq) ∧
        final.pic1.inService = 0 := by
  obtain ⟨final, completed, shows_⟩ := run_simulates serve Shows
    (fun state lines event related allowed => line_step_shows related event allowed)
    events (initPic ⟨pic1, pic2, fun _ => 0⟩) noLines (init_pic_shows pic1 pic2) legal
  exact ⟨final, completed, fun irq small => delivers_iff shows_ small, shows_.idle⟩

/-- The keyboard's line is given a routine, served once and closed. -/
theorem interrupt_lines_keyboard :
    ∃ final, run (lineStep fun _ => .returns) (initPic ⟨⟨0, 0, 0, 0⟩, ⟨0, 0, 0, 0⟩, fun _ => 0⟩)
        [.install 1 7, .interrupt 1, .uninstall 1] = .ok ([0, 7, 0], final) ∧
      (∀ irq < 16, Delivers final irq ↔
        (observe serve noLines [.install 1 7, .interrupt 1, .uninstall 1]).2.Open irq) ∧
        final.pic1.inService = 0 := by
  apply @interrupt_lines (fun _ => .returns) [.install 1 7, .interrupt 1, .uninstall 1] ⟨0, 0, 0, 0⟩ ⟨0, 0, 0, 0⟩
  refine ⟨⟨by decide, by decide⟩, ?_⟩
  intro _ _ installed
  cases installed
  have delivered : Delivers (irqInstallHandler (initPic ⟨⟨0, 0, 0, 0⟩, ⟨0, 0, 0, 0⟩, fun _ => 0⟩) 1 7) 1 :=
    ⟨by decide, by decide⟩
  refine ⟨⟨by decide, by decide, delivered⟩, ?_⟩
  intro _ _ _
  exact ⟨(by decide : 1 < 16), fun _ _ _ => trivial⟩

end Runs

end ParadiseOS.InterruptLines

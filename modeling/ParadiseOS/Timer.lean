import ParadiseOS.MachineWord

/-!
# The timer of the scheduler

`drivers/timer/timer.c`. The handler reloads its counter and calls the callback
before it counts the interrupt; `preempt` does not come back when it interrupted
user mode, and then the interrupt is not counted.
-/

namespace ParadiseOS.Timer

open MachineWord

set_option autoImplicit false

section Model

def defaultSchedTicks : Nat := 10

/-- What `sched_callback` points to: `timer_no_op`, or the `preempt` of the processes. -/
inductive SchedCallback where
  | timerNoOp
  | preempt

/-- Whether the callback comes back to the handler. -/
def SchedCallback.returns : SchedCallback → Bool → Bool
  | .timerNoOp, _ => true
  | .preempt, userMode => !userMode

structure TimerState where
  systemTicks : Nat
  schedTicks : Nat
  schedTickCur : Nat
  schedCallback : SchedCallback

def u64 (n : Nat) : Nat := n % 18446744073709551616

/-- The branch that reloads the counter, before the callback is called. -/
def reload (timer : TimerState) : TimerState :=
  if timer.schedTickCur = 0 then { timer with schedTickCur := timer.schedTicks } else timer

/-- The two counters at the end of the handler. -/
def count (timer : TimerState) : TimerState :=
  { timer with
    systemTicks := u64 (timer.systemTicks + 1)
    schedTickCur := sub32 timer.schedTickCur 1 }

/-- `timer_handler` for an interrupt of user mode or of the kernel. -/
def timerHandler (timer : TimerState) (userMode : Bool) : TimerState :=
  if timer.schedTickCur = 0 ∧ timer.schedCallback.returns userMode = false then reload timer
  else count (reload timer)

/-- `syscall_reg_tmr_cb`: the error code and the timer. -/
def syscallRegTmrCb (timer : TimerState) (callback : SchedCallback) (ticks : Nat) : Nat × TimerState :=
  if ticks = 0 then (1, timer)
  else (0, { timer with schedCallback := callback, schedTicks := ticks })

def initTimer : TimerState where
  systemTicks := 0
  schedTicks := defaultSchedTicks
  schedTickCur := defaultSchedTicks
  schedCallback := .timerNoOp

def timerRun (timer : TimerState) (interrupts : List Bool) : TimerState := interrupts.foldl timerHandler timer

end Model

section Statement

variable (timer : TimerState) (interrupts : List Bool)

/-- The timer when the interrupt of an index arrives. -/
def timerAt (index : Nat) : TimerState := timerRun timer (interrupts.take index)

/-- The interrupt of an index calls the callback. -/
def CallsBack (index : Nat) : Prop :=
  index < interrupts.length ∧ (timerAt timer interrupts index).schedTickCur = 0

/-- After `ticks` counted interrupts the timer goes on to count, and calls back once a period. -/
structure KeepsTime (period ticks : Nat) : Prop where
  counted : ∀ index ≤ interrupts.length, (timerAt timer interrupts index).systemTicks = ticks + index
  positive : ∀ index < interrupts.length, 0 < (reload (timerAt timer interrupts index)).schedTickCur
  spaced : ∀ first second, CallsBack timer interrupts first → CallsBack timer interrupts second →
    first < second → (∀ between, first < between → between < second →
      ¬ CallsBack timer interrupts between) → second - first = period

/-- The callback interrupts the kernel only, and the 64-bit counter does not wrap. -/
structure InKernel (ticks : Nat) : Prop where
  returns : ∀ index, CallsBack timer interrupts index → interrupts[index]? = some false
  short : ticks + interrupts.length < 18446744073709551616

end Statement

section Steps

variable {timer : TimerState} {interrupts : List Bool} {index period ticks : Nat}

theorem timer_at_succ (below : index < interrupts.length) :
    timerAt timer interrupts (index + 1) = timerHandler (timerAt timer interrupts index) interrupts[index] := by
  rw [timerAt, timerAt, timerRun, timerRun, List.take_add_one, List.getElem?_eq_getElem below,
    Option.toList_some, List.foldl_append]
  rfl

theorem handler_callback (timer : TimerState) (userMode : Bool) :
    (timerHandler timer userMode).schedCallback = timer.schedCallback ∧
      (timerHandler timer userMode).schedTicks = timer.schedTicks := by
  unfold timerHandler reload count
  split_ifs <;> exact ⟨rfl, rfl⟩

/-- A timer with a period of its own. -/
structure Armed (timer : TimerState) (callback : SchedCallback) (period : Nat) : Prop where
  calls : timer.schedCallback = callback
  reloads : timer.schedTicks = period
  positive : 0 < period
  word : period < 4294967296
  bounded : timer.schedTickCur < 4294967296

variable {callback : SchedCallback}

theorem handler_returned (armed : Armed timer callback period) (userMode : Bool)
    (returned : timer.schedTickCur = 0 → callback.returns userMode = true) :
    (timerHandler timer userMode).systemTicks = u64 (timer.systemTicks + 1) ∧
      (timerHandler timer userMode).schedTickCur =
        if timer.schedTickCur = 0 then period - 1 else timer.schedTickCur - 1 := by
  have counts : timerHandler timer userMode = count (reload timer) := by
    rw [timerHandler, if_neg]
    rintro ⟨empty, stuck⟩
    rw [armed.calls, returned empty] at stuck
    cases stuck
  have positive := armed.positive
  have bounded := armed.bounded
  rw [counts, reload]
  split_ifs with empty
  · exact ⟨rfl, by rw [count, armed.reloads, sub32_of_le positive armed.word]⟩
  · exact ⟨rfl, by rw [count, sub32_of_le (by omega) bounded]⟩

theorem handler_stuck (armed : Armed timer .preempt period) (empty : timer.schedTickCur = 0) :
    timerHandler timer true = { timer with schedTickCur := period } := by
  have stuck : timer.schedCallback.returns true = false := by
    rw [armed.calls]
    rfl
  rw [timerHandler, if_pos ⟨empty, stuck⟩, reload, if_pos empty, armed.reloads]

theorem handler_armed (armed : Armed timer callback period) (userMode : Bool) :
    Armed (timerHandler timer userMode) callback period := by
  obtain ⟨sameCallback, samePeriod⟩ := handler_callback timer userMode
  refine ⟨sameCallback.trans armed.calls, samePeriod.trans armed.reloads, armed.positive, armed.word, ?_⟩
  have loaded : (reload timer).schedTickCur < 4294967296 := by
    rw [reload]
    split_ifs
    · exact armed.reloads ▸ armed.word
    · exact armed.bounded
  rw [timerHandler]
  split_ifs
  · exact loaded
  · exact u32_lt _

theorem timer_at_armed (armed : Armed timer callback period) (interrupts : List Bool) (index : Nat) :
    Armed (timerAt timer interrupts index) callback period := by
  unfold timerAt
  generalize interrupts.take index = shown
  induction shown generalizing timer with
  | nil => exact armed
  | cons userMode shown ih => exact ih (handler_armed armed userMode)

/-- A timer whose callback always comes back counts every interrupt. -/
theorem run_counts (armed : Armed timer callback period) (returns : ∀ userMode, callback.returns userMode = true)
    (counted : timer.systemTicks = ticks) (short : ticks + interrupts.length < 18446744073709551616) :
    (timerRun timer interrupts).systemTicks = ticks + interrupts.length := by
  induction interrupts generalizing timer ticks with
  | nil => exact counted
  | cons userMode rest ih =>
      rw [List.length_cons] at short ⊢
      have step := (handler_returned armed userMode fun _ => returns userMode).1
      rw [counted, u64, Nat.mod_eq_of_lt (by omega)] at step
      have tail := ih (handler_armed armed userMode) step (by omega)
      change (timerRun (timerHandler timer userMode) rest).systemTicks = _
      omega

end Steps

section Periods

variable {timer : TimerState} {interrupts : List Bool} {index period ticks : Nat}

/-- Between two calls the counter goes down by one an interrupt. -/
theorem counts_down (armed : Armed timer .preempt period) (start : Nat)
    (calls : CallsBack timer interrupts start) (inKernel : interrupts[start]? = some false) (steps : Nat)
    (small : steps < period) (inside : start + 1 + steps ≤ interrupts.length) :
    (timerAt timer interrupts (start + 1 + steps)).schedTickCur = period - 1 - steps := by
  induction steps with
  | zero =>
      obtain ⟨below, empty⟩ := calls
      rw [List.getElem?_eq_getElem below, Option.some.injEq] at inKernel
      have step := (handler_returned (timer_at_armed armed interrupts start) false
        fun _ => rfl).2
      rw [Nat.add_zero, timer_at_succ below, inKernel, step, if_pos empty]
      omega
  | succ steps ih =>
      have here := ih (by omega) (by omega)
      have below : start + 1 + steps < interrupts.length := by omega
      have notEmpty : (timerAt timer interrupts (start + 1 + steps)).schedTickCur ≠ 0 := by omega
      have step := (handler_returned (timer_at_armed armed interrupts (start + 1 + steps))
        interrupts[start + 1 + steps] fun empty => absurd empty notEmpty).2
      rw [← Nat.add_assoc, timer_at_succ below, step, if_neg notEmpty, here]
      omega

theorem keeps_time_of_kernel (armed : Armed timer .preempt period) (counted : timer.systemTicks = ticks)
    (inKernel : InKernel timer interrupts ticks) : KeepsTime timer interrupts period ticks where
  counted := by
    intro index below
    induction index with
    | zero => exact counted
    | succ index ih =>
        have inside : index < interrupts.length := below
        have step := (handler_returned (timer_at_armed armed interrupts index)
          interrupts[index] (by
            intro empty
            have mode := inKernel.returns index ⟨inside, empty⟩
            rw [List.getElem?_eq_getElem inside, Option.some.injEq] at mode
            rw [mode]
            rfl)).1
        have short := inKernel.short
        rw [timer_at_succ inside, step, ih (by omega), u64, Nat.mod_eq_of_lt (by omega)]
        omega
  positive := by
    intro index _
    have here := timer_at_armed armed interrupts index
    rw [reload]
    split_ifs with empty
    · rw [here.reloads]
      exact here.positive
    · exact Nat.pos_of_ne_zero empty
  spaced := by
    intro first second calls again ordered alone
    have inside := again.1
    have down := counts_down armed first calls (inKernel.returns first calls)
    by_contra differ
    rcases Nat.lt_or_gt_of_ne differ with early | late
    · have still := down (second - (first + 1)) (by omega) (by omega)
      have place : first + 1 + (second - (first + 1)) = second := by omega
      rw [place, again.2] at still
      omega
    · have ended := down (period - 1) (by have positive := armed.positive; omega) (by omega)
      have place : first + 1 + (period - 1) = first + period := by
        have positive := armed.positive
        omega
      rw [place, Nat.sub_self] at ended
      have positive := armed.positive
      exact alone (first + period) (by omega) (by omega) ⟨by omega, ended⟩

theorem timer_at_word (word : timer.systemTicks < 18446744073709551616) (index : Nat) :
    (timerAt timer interrupts index).systemTicks < 18446744073709551616 := by
  unfold timerAt
  generalize interrupts.take index = shown
  induction shown generalizing timer with
  | nil => exact word
  | cons userMode shown ih =>
      apply ih
      have loaded : (reload timer).systemTicks = timer.systemTicks := by
        rw [reload]
        split_ifs <;> rfl
      rw [timerHandler]
      split_ifs
      · exact loaded ▸ word
      · exact Nat.mod_lt _ (show 0 < 18446744073709551616 by decide)

/-- An interrupt of user mode that calls back is not counted. -/
theorem kernel_of_keeps_time (armed : Armed timer .preempt period)
    (word : timer.systemTicks < 18446744073709551616) (keeps : KeepsTime timer interrupts period ticks) :
    InKernel timer interrupts ticks where
  returns := by
    intro index ⟨below, empty⟩
    rw [List.getElem?_eq_getElem below]
    cases mode : interrupts[index] with
    | false => rfl
    | true =>
        have stuck := handler_stuck (timer_at_armed armed interrupts index) empty
        have before := keeps.counted index (Nat.le_of_lt below)
        have after := keeps.counted (index + 1) below
        rw [timer_at_succ below, mode, stuck] at after
        change (timerAt timer interrupts index).systemTicks = _ at after
        omega
  short := by
    have last := keeps.counted interrupts.length (le_refl _)
    have bounded := @timer_at_word timer interrupts word interrupts.length
    omega

end Periods

section Calls

variable {before after : List Bool} {period : Nat}

/-- After `init_timer`, some interrupts and the call that registers `preempt`. -/
def scheduled (before : List Bool) (period : Nat) : TimerState :=
  (syscallRegTmrCb (timerRun initTimer before) .preempt period).2

theorem init_armed : Armed initTimer .timerNoOp defaultSchedTicks where
  calls := rfl
  reloads := rfl
  positive := by decide
  word := by decide
  bounded := by decide

theorem scheduled_armed (before : List Bool) (positive : 0 < period) (word : period < 4294967296) :
    Armed (scheduled before period) .preempt period := by
  have ran := timer_at_armed init_armed before before.length
  rw [timerAt, List.take_length] at ran
  have accepted : period ≠ 0 := by omega
  rw [scheduled, syscallRegTmrCb, if_neg accepted]
  exact ⟨rfl, rfl, positive, word, ran.bounded⟩

theorem scheduled_ticks (before : List Bool) (positive : 0 < period) :
    (scheduled before period).systemTicks = (timerRun initTimer before).systemTicks := by
  have accepted : period ≠ 0 := by omega
  rw [scheduled, syscallRegTmrCb, if_neg accepted]

/-- The timer keeps time exactly if the callback interrupts the kernel only. -/
theorem keeps_time_iff (before after : List Bool) (period : Nat) (positive : 0 < period)
    (word : period < 4294967296) :
    KeepsTime (scheduled before period) after period before.length ↔
      InKernel (scheduled before period) after before.length := by
  have armed := scheduled_armed before positive word
  have ticks := scheduled_ticks before positive
  constructor
  · intro keeps
    apply kernel_of_keeps_time armed _ keeps
    rw [ticks]
    have bounded := @timer_at_word initTimer before (by decide) before.length
    rw [timerAt, List.take_length] at bounded
    exact bounded
  · intro inKernel
    apply keeps_time_of_kernel armed _ inKernel
    have short := inKernel.short
    have counted := @run_counts initTimer before _ 0 _ init_armed (fun _ => rfl) rfl (by omega)
    rw [ticks, counted, Nat.zero_add]

/-- Thirty interrupts of the kernel. -/
theorem keeps_time_in_kernel : KeepsTime (scheduled [] 10) (List.replicate 30 false) 10 0 := by
  refine (keeps_time_iff [] (List.replicate 30 false) 10 (by decide) (by decide)).2 ⟨?_, by decide⟩
  intro index ⟨below, _⟩
  rw [List.getElem?_replicate, if_pos (by rwa [List.length_replicate] at below)]

/-- The eleventh interrupt calls `preempt` in user mode and is not counted. -/
theorem timer_loses_interrupt : ¬ ∀ (before after : List Bool) (period : Nat), 0 < period →
    period < 4294967296 → KeepsTime (scheduled before period) after period before.length := by
  intro always
  have keeps := always [] (List.replicate 11 true) 10 (by decide) (by decide)
  have counted := keeps.counted 11 (by decide)
  revert counted
  decide

end Calls

end ParadiseOS.Timer

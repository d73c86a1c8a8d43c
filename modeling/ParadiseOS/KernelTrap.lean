import Mathlib.Tactic.SplitIfs

/-!
# Ways in which kernel code does not return

Kernel functions are modelled in `Except Trap`: an error stands for a panic, a
page fault taken inside the kernel, or a loop that never ends. The machine
stops there, so no state accompanies the error.
-/

namespace ParadiseOS

set_option autoImplicit false

inductive Trap where
  | assertion
  | pageFault
  | noReturn
  deriving DecidableEq, Repr

/-- `KERNEL_ASSERT`. -/
def kernelAssert (condition : Prop) [Decidable condition] : Except Trap Unit :=
  if condition then .ok () else .error .assertion

namespace Trap

variable {Value Result : Type}

@[simp] theorem ok_bind (value : Value) (next : Value → Except Trap Result) :
    ((Except.ok value : Except Trap Value) >>= next) = next value := rfl

@[simp] theorem error_bind (trap : Trap) (next : Value → Except Trap Result) :
    ((Except.error trap : Except Trap Value) >>= next) = .error trap := rfl

@[simp] theorem pure_ok (value : Value) : (pure value : Except Trap Value) = .ok value := rfl

/-- A sequence returns exactly when both parts do. -/
theorem bind_eq_ok {first : Except Trap Value} {next : Value → Except Trap Result}
    {result : Result} :
    (first >>= next) = .ok result ↔ ∃ value, first = .ok value ∧ next value = .ok result := by
  cases first with
  | error trap => simp
  | ok value => simp

@[simp] theorem kernel_assert_eq_ok {condition : Prop} [Decidable condition] (result : Unit) :
    kernelAssert condition = .ok result ↔ condition := by
  unfold kernelAssert
  split_ifs with holds
  · simp [holds]
  · simp [holds]

theorem kernel_assert_of {condition : Prop} [Decidable condition] (holds : condition) :
    kernelAssert condition = .ok () := if_pos holds

end Trap
end ParadiseOS

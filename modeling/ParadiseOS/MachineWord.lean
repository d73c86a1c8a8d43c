import Mathlib.Data.Nat.Bitwise
import Mathlib.Data.Int.DivMod

/-!
# Fixed-width machine arithmetic on natural numbers

Unsigned words are naturals below a power of two; an operation that may wrap is
followed by an explicit reduction. Masks and shifts are the bitwise operations
of `Nat`; the lemmas turn the ones used on page-aligned quantities into
quotients and remainders, which `omega` understands.
-/

namespace ParadiseOS.MachineWord

set_option autoImplicit false

/-- Reduction to a 32-bit word. -/
def u32 (n : Nat) : Nat := n % 4294967296

/-- Reduction to a 16-bit word. -/
def u16 (n : Nat) : Nat := n % 65536

/-- Unsigned 32-bit subtraction. -/
def sub32 (a b : Nat) : Nat := u32 (a + 4294967296 - u32 b)

/-- A 32-bit word read as two's complement. -/
def signed32 (n : Nat) : Int := if n < 2147483648 then (n : Int) else (n : Int) - 4294967296

/-- The difference of two addresses at the type C gives it on a 32-bit machine:
a signed word. -/
def ptrDiff (a b : Nat) : Int := signed32 (sub32 a b)

/-- A signed word stored into an unsigned one. -/
def ofSigned (i : Int) : Nat := (i % 4294967296).toNat

theorem u32_lt (n : Nat) : u32 n < 4294967296 := Nat.mod_lt _ (by decide)

theorem u32_of_lt {n : Nat} (bounded : n < 4294967296) : u32 n = n := Nat.mod_eq_of_lt bounded

theorem sub32_of_le {a b : Nat} (ordered : b ≤ a) (bounded : a < 4294967296) :
    sub32 a b = a - b := by
  unfold sub32 u32
  omega

theorem sub32_u32_add (start offset : Nat) (startBound : start < 4294967296)
    (offsetBound : offset < 4294967296) : sub32 (u32 (start + offset)) start = offset := by
  unfold sub32 u32
  omega

/-- Below half of the address space the signed difference is the true distance. -/
theorem ptr_diff_near (start offset : Nat) (startBound : start < 4294967296)
    (offsetBound : offset < 2147483648) :
    ptrDiff (u32 (start + offset)) start = (offset : Int) := by
  rw [ptrDiff, sub32_u32_add start offset startBound (by omega), signed32, if_pos offsetBound]

/-- From half of the address space on it is negative. -/
theorem ptr_diff_far (start offset : Nat) (startBound : start < 4294967296)
    (offsetLow : 2147483648 ≤ offset) (offsetHigh : offset < 4294967296) :
    ptrDiff (u32 (start + offset)) start = (offset : Int) - 4294967296 := by
  rw [ptrDiff, sub32_u32_add start offset startBound offsetHigh, signed32,
    if_neg (Nat.not_lt.mpr offsetLow)]

theorem and_low_mask (n : Nat) : n &&& 0xFFF = n % 4096 :=
  Nat.and_two_pow_sub_one_eq_mod n 12

theorem and_one (n : Nat) : n &&& 1 = n % 2 := Nat.and_one_is_mod n

/-- Clearing the low twelve bits of a 32-bit word rounds it down to a multiple of 4096. -/
theorem and_high_mask {n : Nat} (bounded : n < 4294967296) :
    n &&& 0xFFFFF000 = n / 4096 * 4096 := by
  apply Nat.eq_of_testBit_eq
  intro bit
  have quotient : n / 4096 * 4096 = (n >>> 12) <<< 12 := by
    rw [Nat.shiftRight_eq_div_pow, Nat.shiftLeft_eq]
  have mask : (0xFFFFF000 : Nat) = (2 ^ 20 - 1) <<< 12 := by decide
  rw [quotient, mask, Nat.testBit_and, Nat.testBit_shiftLeft, Nat.testBit_shiftLeft,
    Nat.testBit_shiftRight, Nat.testBit_two_pow_sub_one]
  by_cases low : bit < 12
  · simp [show ¬ 12 ≤ bit by omega]
  · have high : 12 ≤ bit := by omega
    by_cases small : bit - 12 < 20
    · simp [high, small, show 12 + (bit - 12) = bit by omega]
    · have large : n < 2 ^ bit :=
        lt_of_lt_of_le bounded (by
          calc 4294967296 = 2 ^ 32 := by decide
            _ ≤ 2 ^ bit := Nat.pow_le_pow_right (by decide) (by omega))
      simp [high, small, show 12 + (bit - 12) = bit by omega, Nat.testBit_lt_two_pow large]

/-- Setting low bits of a page-aligned word adds them. -/
theorem aligned_or {base low : Nat} (aligned : base % 4096 = 0) (small : low < 4096) :
    base ||| low = base + low := by
  have multiple : base = 2 ^ 12 * (base / 4096) := by omega
  rw [multiple]
  exact (Nat.two_pow_add_eq_or_of_lt small _).symm

end ParadiseOS.MachineWord

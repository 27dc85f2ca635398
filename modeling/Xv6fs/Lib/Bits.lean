/-
  Bit masks on natural numbers: testing, setting and clearing bit `k` of a 32-bit word with
  `1 <<< k`, in terms of `Nat.testBit`.
-/
import Mathlib.Data.Nat.Bitwise

namespace Bits

theorem mask_and_eq_zero (x k : Nat) : (1 <<< k) &&& x = 0 ↔ x.testBit k = false := by
  constructor
  · intro h
    have hk := congrArg (fun y => Nat.testBit y k) h
    simpa [Nat.testBit_shiftLeft] using hk
  · intro h
    apply Nat.eq_of_testBit_eq
    intro i
    rw [Nat.testBit_and, Nat.zero_testBit, Nat.one_shiftLeft, Nat.testBit_two_pow]
    by_cases hi : k = i
    · subst hi; simp [h]
    · simp [hi]

theorem testBit_or_mask (x k j : Nat) :
    (x ||| 1 <<< k).testBit j = (x.testBit j || decide (j = k)) := by
  rw [Nat.testBit_or, Nat.one_shiftLeft, Nat.testBit_two_pow]
  simp only [eq_comm]

/-- `x & ~(1 << k)` in 32 bits clears bit `k` and keeps the others. -/
theorem testBit_and_not_mask (x k j : Nat) (hj : j < 32) :
    (x &&& (1 <<< k ^^^ 0xffffffff)).testBit j = (x.testBit j && !decide (j = k)) := by
  have hones : (0xffffffff : Nat).testBit j = true := by
    rw [show (0xffffffff : Nat) = 2 ^ 32 - 1 from rfl, Nat.testBit_two_pow_sub_one]
    simpa using hj
  rw [Nat.testBit_and, Nat.testBit_xor, hones, Nat.one_shiftLeft, Nat.testBit_two_pow]
  simp only [Bool.xor_true, eq_comm]

theorem testBit_mod_word (x j : Nat) (hj : j < 32) : (x % 2 ^ 32).testBit j = x.testBit j := by
  rw [Nat.testBit_mod_two_pow]
  simp [hj]

end Bits

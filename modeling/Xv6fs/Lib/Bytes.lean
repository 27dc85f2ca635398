/-
  Byte buffers of a fixed size and the numbers stored in them.

  A buffer of `n` bytes is a function on `Fin n`; `byte` reads it at any position (0 past the
  end) and `patch` overwrites a window. Numbers of `w` bytes are read and written at an offset
  in either byte order. The lemmas say that reading back what was written gives the number
  modulo `256 ^ w`, that windows which do not meet do not disturb each other, and that
  writing back what was read changes nothing.
-/
import Mathlib.Tactic.Ring
import Mathlib.Tactic.Linarith

/-- A buffer of `n` bytes. -/
def Buf (n : Nat) : Type := Fin n → UInt8

/-- The two byte orders. -/
inductive ByteOrder where
  | little
  | big
  deriving DecidableEq, Repr

namespace Buf

variable {n : Nat}

/-! ## Single bytes and windows -/

/-- The byte at position `i`, 0 past the end. -/
def byte (b : Buf n) (i : Nat) : UInt8 := if h : i < n then b ⟨i, h⟩ else 0

/-- Overwrite the `len` bytes from `off` on with `f 0, f 1, …`. -/
def patch (b : Buf n) (off len : Nat) (f : Nat → UInt8) : Buf n :=
  fun j => if off ≤ j.val ∧ j.val < off + len then f (j.val - off) else b j

/-- All bytes zero. -/
def zero : Buf n := fun _ => 0

theorem byte_zero (i : Nat) : (zero : Buf n).byte i = 0 := by
  unfold byte
  split <;> rfl

theorem byte_patch_in (b : Buf n) {off len i : Nat} (f : Nat → UInt8) (hn : off + len ≤ n)
    (h1 : off ≤ i) (h2 : i < off + len) : (b.patch off len f).byte i = f (i - off) := by
  have hi : i < n := by omega
  simp [byte, patch, hi, h1, h2]

theorem byte_patch_out (b : Buf n) {off len i : Nat} (f : Nat → UInt8)
    (h : i < off ∨ off + len ≤ i) : (b.patch off len f).byte i = b.byte i := by
  have hne : ¬ (off ≤ i ∧ i < off + len) := by omega
  simp [byte, patch, hne]

/-- Writing back the bytes of a window changes nothing. -/
theorem patch_self (b : Buf n) {off len : Nat} {f : Nat → UInt8}
    (hf : ∀ r, r < len → f r = b.byte (off + r)) : b.patch off len f = b := by
  funext j
  unfold patch
  split
  · next h =>
    rw [hf (j.val - off) (by omega), show off + (j.val - off) = j.val by omega]
    simp [byte]
  · rfl

/-! ## Numbers and their digits -/

/-- The number with the digits `f 0, …, f (w - 1)` to base 256, lowest first. -/
def num (f : Nat → UInt8) : Nat → Nat
  | 0 => 0
  | w + 1 => num f w + (f w).toNat * 256 ^ w

/-- The `k`-th digit of `v` to base 256. -/
def digit (v k : Nat) : UInt8 := UInt8.ofNat (v / 256 ^ k)

theorem num_lt (f : Nat → UInt8) (w : Nat) : num f w < 256 ^ w := by
  induction w with
  | zero => simp [num]
  | succ w ih =>
    have hb : (f w).toNat ≤ 255 := by have := (f w).toNat_lt; omega
    have hm : (f w).toNat * 256 ^ w ≤ 255 * 256 ^ w := Nat.mul_le_mul_right _ hb
    rw [num, Nat.pow_succ]
    omega

theorem num_congr {f g : Nat → UInt8} {w : Nat} (h : ∀ k, k < w → f k = g k) :
    num f w = num g w := by
  induction w with
  | zero => rfl
  | succ w ih =>
    rw [num, num, ih (fun k hk => h k (by omega)), h w (by omega)]

theorem num_zero (w : Nat) : num (fun _ => 0) w = 0 := by
  induction w with
  | zero => rfl
  | succ w ih => rw [num, ih]; simp

theorem num_digit (v w : Nat) : num (digit v) w = v % 256 ^ w := by
  induction w with
  | zero => simp [num, Nat.mod_one]
  | succ w ih =>
    have hd : (digit v w).toNat = v / 256 ^ w % 256 := UInt8.toNat_ofNat'
    rw [num, ih, hd, Nat.pow_succ, Nat.mod_mul, Nat.mul_comm (256 ^ w)]

theorem digit_num (f : Nat → UInt8) {w k : Nat} (hk : k < w) : digit (num f w) k = f k := by
  induction w with
  | zero => omega
  | succ w ih =>
    have hlt := num_lt f w
    rcases Nat.lt_or_eq_of_le (Nat.le_of_lt_succ hk) with h | rfl
    · rw [← ih h]
      obtain ⟨d, rfl⟩ : ∃ d, w = k + 1 + d := ⟨w - (k + 1), by omega⟩
      have hpow : 256 ^ (k + 1 + d) = 256 ^ k * (256 * 256 ^ d) := by ring
      unfold digit
      apply UInt8.toNat_inj.mp
      rw [UInt8.toNat_ofNat', UInt8.toNat_ofNat', num, hpow,
        show (f (k + 1 + d)).toNat * (256 ^ k * (256 * 256 ^ d)) =
          256 ^ k * (256 * (256 ^ d * (f (k + 1 + d)).toNat)) by ring,
        Nat.add_mul_div_left _ _ (by positivity), Nat.add_mul_mod_self_left]
    · unfold digit
      apply UInt8.toNat_inj.mp
      rw [UInt8.toNat_ofNat', num, Nat.add_mul_div_right _ _ (by positivity),
        Nat.div_eq_of_lt hlt, Nat.zero_add]
      exact Nat.mod_eq_of_lt (f k).toNat_lt

/-- A bit of a number is one of the digit it is in. -/
theorem testBit_num (f : Nat → UInt8) {w j : Nat} (hj : j < 8 * w) :
    (num f w).testBit j = (f (j / 8)).toNat.testBit (j % 8) := by
  have hdigit := congrArg UInt8.toNat (digit_num f (show j / 8 < w by omega))
  rw [digit, UInt8.toNat_ofNat', show (256 : Nat) = 2 ^ 8 from rfl, ← Nat.pow_mul] at hdigit
  rw [← hdigit, Nat.testBit_mod_two_pow, Nat.testBit_div_two_pow,
    decide_eq_true (Nat.mod_lt j (by decide)), Bool.true_and]
  congr 1
  omega

/-- The position of the digit of weight `256 ^ k` in a number of `w` bytes. -/
def place : ByteOrder → Nat → Nat → Nat
  | .little, _, k => k
  | .big, w, k => w - 1 - k

theorem place_lt (o : ByteOrder) {w k : Nat} (h : k < w) : place o w k < w := by
  cases o
  · exact h
  · simp only [place]
    omega

theorem place_place (o : ByteOrder) {w k : Nat} (h : k < w) : place o w (place o w k) = k := by
  cases o
  · rfl
  · simp only [place]
    omega

/-! ## Numbers in a buffer -/

/-- The number of `w` bytes at `off`. -/
def readNum (o : ByteOrder) (w off : Nat) (b : Buf n) : Nat :=
  num (fun k => b.byte (off + place o w k)) w

/-- Store `v` in the `w` bytes at `off`. -/
def writeNum (o : ByteOrder) (w off v : Nat) (b : Buf n) : Buf n :=
  b.patch off w (fun r => digit v (place o w r))

theorem readNum_lt (o : ByteOrder) (w off : Nat) (b : Buf n) : readNum o w off b < 256 ^ w :=
  num_lt _ w

theorem readNum_zero (o : ByteOrder) (w off : Nat) : readNum o w off (zero : Buf n) = 0 := by
  unfold readNum
  simp only [byte_zero, num_zero]

/-- A patch outside the window of a number leaves the number as it was. -/
theorem readNum_patch_out (o : ByteOrder) {w off off' len : Nat} (b : Buf n) (f : Nat → UInt8)
    (h : off + w ≤ off' ∨ off' + len ≤ off) :
    readNum o w off (b.patch off' len f) = readNum o w off b := by
  unfold readNum
  refine num_congr fun k hk => byte_patch_out b f ?_
  have := place_lt o hk
  omega

/-- Inside a patch a number is made of the patch's bytes. -/
theorem readNum_patch_in (o : ByteOrder) {w off off' len : Nat} (b : Buf n) (f : Nat → UInt8)
    (hn : off' + len ≤ n) (h1 : off' ≤ off) (h2 : off + w ≤ off' + len) :
    readNum o w off (b.patch off' len f) = num (fun k => f (off - off' + place o w k)) w := by
  unfold readNum
  refine num_congr fun k hk => ?_
  have := place_lt o hk
  rw [byte_patch_in b f hn (by omega) (by omega)]
  congr 1
  omega

theorem readNum_writeNum (o : ByteOrder) {w off : Nat} (v : Nat) (b : Buf n) (hn : off + w ≤ n) :
    readNum o w off (writeNum o w off v b) = v % 256 ^ w := by
  unfold writeNum
  rw [readNum_patch_in o b _ hn (Nat.le_refl _) (Nat.le_refl _), ← num_digit]
  refine num_congr fun k hk => ?_
  rw [Nat.sub_self, Nat.zero_add, place_place o hk]

theorem readNum_writeNum_ne (o o' : ByteOrder) {w w' off off' : Nat} (v : Nat) (b : Buf n)
    (h : off + w ≤ off' ∨ off' + w' ≤ off) :
    readNum o w off (writeNum o' w' off' v b) = readNum o w off b :=
  readNum_patch_out o b _ h

end Buf

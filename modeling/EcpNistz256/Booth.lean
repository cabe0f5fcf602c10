import EcpNistz256.Limbs
import Mathlib.Algebra.BigOperators.Group.Finset
import Mathlib.Algebra.Order.Group.Abs
import Mathlib.Algebra.Order.Group.Int
import Mathlib.Tactic.Ring

/-!
# Booth recoding of scalar windows

`booth_recode_w5` and `booth_recode_w7` take a window of `w + 1` bits whose low bit is the top
bit of the window below, and return a signed digit: the table entry `r >> 1` and the sign
`r & 1`. On numbers the digit of the window `v` is `⌈v / 2⌉ - 2^w·[v ≥ 2^w]`. Consecutive windows
of a scalar overlap in one bit, so each digit is a difference of two carries and the weighted
digits telescope back to the scalar: no bit is lost and none is counted twice.
-/

set_option autoImplicit false

namespace EcpNistz256.Booth

abbrev Unsigned := BitVec 32

/-- The body of `booth_recode_w5` and `booth_recode_w7`, which differ only in the width `w`. -/
def boothRecode (w : Nat) (inp : Unsigned) : Unsigned :=
  let s := ~~~((inp >>> w) - 1)
  let d := (1 : Unsigned) <<< (w + 1) - inp - 1
  let d := (d &&& s) ||| (inp &&& ~~~s)
  let d := (d >>> 1) + (d &&& 1)
  (d <<< 1) + (s &&& 1)

def boothRecodeW5 (inp : Unsigned) : Unsigned := boothRecode 5 inp

def boothRecodeW7 (inp : Unsigned) : Unsigned := boothRecode 7 inp

/-- The signed digit a recoded window stands for: the table entry `r >> 1`, negated when the
sign bit `r & 1` is set. -/
def digitValue (r : Unsigned) : Int :=
  if r &&& 1 = 0 then ((r >>> 1).toNat : Int) else -((r >>> 1).toNat : Int)

/-- The digit of the window value `v` of width `w + 1`. -/
def signedDigit (w v : Nat) : Int := ((v + 1) / 2 : Nat) - 2 ^ w * (v / 2 ^ w : Nat)

section Recode

variable (w : Nat) (v : Unsigned)

@[simp] theorem toNat_one : (1 : Unsigned).toNat = 1 := rfl

theorem toNat_one_shiftLeft {n : Nat} (h : n < 32) : ((1 : Unsigned) <<< n).toNat = 2 ^ n := by
  rw [BitVec.toNat_shiftLeft, toNat_one, Nat.one_shiftLeft]
  exact Nat.mod_eq_of_lt (Nat.pow_lt_pow_right (by decide) h)

theorem recode_sign_mask (hv : v.toNat < 2 ^ (w + 1)) :
    ~~~((v >>> w) - 1) = if v.toNat < 2 ^ w then 0#32 else BitVec.allOnes 32 := by
  have hsh : (v >>> w).toNat = v.toNat / 2 ^ w := by
    rw [BitVec.toNat_ushiftRight, Nat.shiftRight_eq_div_pow]
  split
  · have : v >>> w = 0#32 := BitVec.eq_of_toNat_eq (by rw [hsh, Nat.div_eq_of_lt ‹_›]; rfl)
    rw [this]; decide
  · have : v >>> w = 1#32 := BitVec.eq_of_toNat_eq (by
      rw [hsh, Nat.div_eq_of_lt_le (show 1 * 2 ^ w ≤ v.toNat by omega)
        (by rw [pow_succ] at hv; omega)]; rfl)
    rw [this]; decide

theorem toNat_roundHalf (d : Unsigned) :
    ((d >>> 1) + (d &&& 1)).toNat = (d.toNat + 1) / 2 := by
  have := d.isLt
  simp only [BitVec.toNat_add, BitVec.toNat_ushiftRight, BitVec.toNat_and, Nat.shiftRight_eq_div_pow,
    toNat_one, Nat.and_one_is_mod, pow_one]
  omega

theorem pack_sign (m b : Unsigned) (hm : m.toNat < 2 ^ 31) (hb : b.toNat < 2) :
    ((m <<< 1) + b) >>> 1 = m ∧ ((m <<< 1) + b) &&& 1 = b := by
  have h : ((m <<< 1) + b).toNat = 2 * m.toNat + b.toNat := by
    simp only [BitVec.toNat_add, BitVec.toNat_shiftLeft, Nat.shiftLeft_eq]
    omega
  constructor <;> apply BitVec.eq_of_toNat_eq
  · rw [BitVec.toNat_ushiftRight, Nat.shiftRight_eq_div_pow, h]; omega
  · rw [BitVec.toNat_and, h, toNat_one, Nat.and_one_is_mod]; omega

theorem boothRecode_spec (hw : 1 ≤ w) (hw' : w ≤ 30) (hv : v.toNat < 2 ^ (w + 1)) :
    (boothRecode w v >>> 1).toNat =
        (if v.toNat < 2 ^ w then v.toNat + 1 else 2 ^ (w + 1) - v.toNat) / 2 ∧
      (boothRecode w v &&& 1 = 0 ↔ v.toNat < 2 ^ w) := by
  have h31 : 2 ^ (w + 1) ≤ 2 ^ 31 := Nat.pow_le_pow_right (by decide) (by omega)
  have hone := toNat_one_shiftLeft (show w + 1 < 32 by omega)
  simp only [boothRecode, recode_sign_mask w v hv]
  split
  · simp only [BitVec.and_zero, BitVec.not_zero, BitVec.and_allOnes, BitVec.zero_or]
    obtain ⟨h1, h2⟩ := pack_sign ((v >>> 1) + (v &&& 1)) (0#32 &&& 1)
      (by rw [toNat_roundHalf]; omega) (by decide)
    rw [h1, h2, toNat_roundHalf]
    simp [*]
  · simp only [BitVec.and_allOnes, BitVec.not_allOnes, BitVec.and_zero, BitVec.or_zero]
    have hd : ((1 : Unsigned) <<< (w + 1) - v - 1).toNat = 2 ^ (w + 1) - v.toNat - 1 := by
      simp only [BitVec.toNat_sub, hone, toNat_one]
      omega
    generalize (1 : Unsigned) <<< (w + 1) - v - 1 = d at hd ⊢
    obtain ⟨h1, h2⟩ := pack_sign ((d >>> 1) + (d &&& 1)) (BitVec.allOnes 32 &&& 1)
      (by rw [toNat_roundHalf, hd]; omega) (by decide)
    rw [h1, h2, toNat_roundHalf, hd]
    refine ⟨by omega, by simp [*]⟩

theorem div_two_pow_of_lt (hv : v.toNat < 2 ^ (w + 1)) :
    v.toNat / 2 ^ w = if v.toNat < 2 ^ w then 0 else 1 := by
  rw [pow_succ] at hv
  split
  · exact Nat.div_eq_of_lt ‹_›
  · exact Nat.div_eq_of_lt_le (by omega) (by omega)

theorem digitValue_boothRecode (hw : 1 ≤ w) (hw' : w ≤ 30) (hv : v.toNat < 2 ^ (w + 1)) :
    digitValue (boothRecode w v) = signedDigit w v.toNat := by
  obtain ⟨hm, hs⟩ := boothRecode_spec w v hw hw' hv
  have hp : (2 : Nat) ^ (w + 1) = 2 * 2 ^ w := by rw [pow_succ, Nat.mul_comm]
  have h2 : ((2 ^ w : Nat) : Int) = 2 ^ w := by push_cast; rfl
  rw [digitValue, signedDigit, hm, div_two_pow_of_lt w v hv, ← h2]
  by_cases h : v.toNat < 2 ^ w <;> simp only [h, hs, if_true, if_false] <;> omega

theorem boothRecode_index_le (hw : 1 ≤ w) (hw' : w ≤ 30) (hv : v.toNat < 2 ^ (w + 1)) :
    (boothRecode w v >>> 1).toNat ≤ 2 ^ (w - 1) := by
  have hp : (2 : Nat) ^ (w + 1) = 2 * 2 ^ w := by rw [pow_succ, Nat.mul_comm]
  have he : (2 : Nat) ^ w = 2 * 2 ^ (w - 1) := by rw [← pow_succ']; congr 1; omega
  rw [(boothRecode_spec w v hw hw' hv).1]
  split <;> omega

end Recode

theorem abs_digitValue (r : Unsigned) : |digitValue r| = (r >>> 1).toNat := by
  have h : |((r >>> 1).toNat : Int)| = (r >>> 1).toNat := abs_of_nonneg (by omega)
  unfold digitValue; split <;> simp only [abs_neg, h]

/-! ## Windows of a scalar -/

section Windows

variable (w : Nat) (k : Nat)

/-- The window of `w + 1` bits under digit `j`: bits `w*j - 1` to `w*j + w - 1` of `k`, where
bit `-1` is zero. -/
def window (j : Nat) : Nat := 2 * k / 2 ^ (w * j) % 2 ^ (w + 1)

/-- What digit `j` and the digits above it stand for, in units of `2^(w*j)`: the bits of `k`
from `w*j` up, rounded by bit `w*j - 1`. -/
def carry (j : Nat) : Nat := (2 * k / 2 ^ (w * j) + 1) / 2

@[simp] theorem carry_zero : carry w k 0 = k := by simp [carry]; omega

theorem carry_eq_zero {n : Nat} (h : 2 * k < 2 ^ (w * n)) : carry w k n = 0 := by
  rw [carry, Nat.div_eq_of_lt h]

theorem window_lt (j : Nat) : window w k j < 2 ^ (w + 1) := Nat.mod_lt _ (Nat.two_pow_pos _)

theorem carry_step (U M : Nat) (hM : 0 < M) :
    (U % (2 * M) + 1) / 2 + M * ((U / M + 1) / 2) = (U + 1) / 2 + M * (U % (2 * M) / M) := by
  have hU : U = 2 * (M * (U / (2 * M))) + U % (2 * M) := by
    rw [← Nat.mul_assoc]; exact (Nat.div_add_mod U (2 * M)).symm
  have hb : U % (2 * M) / M < 2 :=
    Nat.div_lt_of_lt_mul (by rw [Nat.mul_comm]; exact Nat.mod_lt U (by omega))
  have hUM : U / M = 2 * (U / (2 * M)) + U % (2 * M) / M := by
    conv_lhs => rw [hU]
    rw [Nat.mul_left_comm, Nat.mul_add_div hM]
  rw [hUM]
  generalize U / (2 * M) = q at hU ⊢
  generalize U % (2 * M) = v at hU hb ⊢
  generalize v / M = b at hb ⊢
  subst hU
  rw [show (2 * q + b + 1) / 2 = q + b by omega, Nat.mul_add]
  omega

theorem signedDigit_window (j : Nat) :
    signedDigit w (window w k j) = carry w k j - 2 ^ w * carry w k (j + 1) := by
  have hq : 2 * k / 2 ^ (w * (j + 1)) = 2 * k / 2 ^ (w * j) / 2 ^ w := by
    rw [Nat.div_div_eq_div_mul, Nat.mul_succ, pow_add]
  rw [signedDigit, window, carry, carry, hq, pow_succ', sub_eq_sub_iff_add_eq_add]
  exact_mod_cast carry_step _ _ (Nat.two_pow_pos w)

theorem sum_signedDigit_window (n : Nat) :
    ∑ j ∈ Finset.range n, signedDigit w (window w k j) * 2 ^ (w * j) =
      k - 2 ^ (w * n) * carry w k n := by
  induction n with
  | zero => simp
  | succ n ih =>
    rw [Finset.sum_range_succ, ih, signedDigit_window]
    ring

theorem abs_two_mul_partial_le (n : Nat) :
    |2 * ((k : Int) - 2 ^ (w * n) * carry w k n)| ≤ 2 ^ (w * n) := by
  have hM : 0 < 2 ^ (w * n) := Nat.two_pow_pos _
  have hdm := Nat.div_add_mod (2 * k) (2 ^ (w * n))
  have hr := Nat.mod_lt (2 * k) hM
  unfold carry
  generalize 2 * k / 2 ^ (w * n) = q at hdm ⊢
  generalize 2 * k % 2 ^ (w * n) = r at hdm hr
  have hq : 2 * ((q + 1) / 2) = q ∨ 2 * ((q + 1) / 2) = q + 1 := by omega
  have hcast : ((2 ^ (w * n) : Nat) : Int) = 2 ^ (w * n) := by push_cast; rfl
  rw [abs_le, ← hcast]
  generalize (q + 1) / 2 = c at hq
  generalize 2 ^ (w * n) = M at hdm hr hM
  have hX : ((M * q : Nat) : Int) = 2 * ((M : Int) * c) ∨ ((M * q : Nat) : Int) + M = 2 * ((M : Int) * c) := by
    rcases hq with h | h
    · left; rw [← h]; push_cast; ring
    · right; push_cast; rw [show (M : Int) * q + M = M * (q + 1) by ring]; exact_mod_cast
        (by rw [← h]; ring)
  generalize (M : Int) * c = X at hX ⊢
  omega

theorem abs_signedDigit_le {v : Nat} (hw : 1 ≤ w) (hv : v < 2 ^ (w + 1)) :
    |signedDigit w v| ≤ 2 ^ (w - 1) := by
  have hp : (2 : Nat) ^ (w + 1) = 2 * 2 ^ w := by rw [pow_succ, Nat.mul_comm]
  have he : (2 : Nat) ^ w = 2 * 2 ^ (w - 1) := by rw [← pow_succ']; congr 1; omega
  have h2 : ((2 ^ w : Nat) : Int) = 2 ^ w := by push_cast; rfl
  have h1 : ((2 ^ (w - 1) : Nat) : Int) = 2 ^ (w - 1) := by push_cast; rfl
  rw [signedDigit, ← h2, ← h1, abs_le]
  rcases Nat.lt_or_ge v (2 ^ w) with h | h
  · rw [Nat.div_eq_of_lt h]; omega
  · rw [Nat.div_eq_of_lt_le (show 1 * 2 ^ w ≤ v by omega) (by omega)]; omega

end Windows

end EcpNistz256.Booth

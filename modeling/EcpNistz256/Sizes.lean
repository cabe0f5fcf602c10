import EcpNistz256.Limbs
import Mathlib.Tactic.IntervalCases

/-!
# The point count and the allocation sizes of `ecp_nistz256_windowed_mul`

`ecp_nistz256_points_mul` counts points in a `size_t` and hands the count to
`ecp_nistz256_windowed_mul` as an `int`, which multiplies it in `int` before widening to
`size_t` for `OPENSSL_malloc`. An `int` product that leaves the range of `int` is undefined
behaviour, so the size computation is partial; `size_t` arithmetic wraps modulo `2^64`.
-/

set_option autoImplicit false

namespace EcpNistz256.Sizes

abbrev SizeT := BitVec 64

/-- An `int` product; `none` when it leaves the range of a 32-bit `int`. -/
def intMul (a b : Int) : Option Int :=
  if -2 ^ 31 ≤ a * b ∧ a * b < 2 ^ 31 then some (a * b) else none

/-- The conversion of a `size_t` argument to an `int` parameter: the low 32 bits, read in two's
complement, as the x86-64 compilers do. -/
def sizeToInt (n : SizeT) : Int := (n.setWidth 32).toInt

/-- The usual arithmetic conversion of an `int` operand to `size_t`. -/
def intToSize (a : Int) : SizeT := BitVec.ofInt 64 a

/-- The arguments of the three `OPENSSL_malloc` calls of `ecp_nistz256_windowed_mul`:
`num * 16 * sizeof(P256_POINT) + 64`, `num * 33 * sizeof(uint8_t)` and
`num * sizeof(BIGNUM *)`, with `sizeof(P256_POINT) = 96`. -/
def allocSizes (num : Int) : Option (SizeT × SizeT × SizeT) := do
  let a ← intMul num 16
  let b ← intMul num 33
  pure (intToSize a * 96 + 64, intToSize b * 1, intToSize num * 8)

/-- What the three sizes are as numbers: `num·16·96 + 64`, `num·33` and `num·8`. -/
def exactSizes (n : Nat) : Nat × Nat × Nat := (n * 16 * 96 + 64, n * 33 * 1, n * 8)

/-- `num` reaches the `int` parameter unchanged and every size is its mathematical value. -/
def SizesExact (num : SizeT) : Prop :=
  sizeToInt num = num.toNat ∧
    (allocSizes (sizeToInt num)).map (fun s => (s.1.toNat, s.2.1.toNat, s.2.2.toNat)) =
      some (exactSizes num.toNat)

theorem intMul_of_bounds {a b : Int} (h : -2 ^ 31 ≤ a * b ∧ a * b < 2 ^ 31) :
    intMul a b = some (a * b) := if_pos h

theorem intMul_eq_none {a b : Int} (h : 2 ^ 31 ≤ a * b) : intMul a b = none :=
  if_neg (by omega)

theorem sizeToInt_of_lt {n : SizeT} (h : n.toNat < 2 ^ 31) : sizeToInt n = n.toNat := by
  rw [sizeToInt, BitVec.toInt_eq_toNat_cond, BitVec.toNat_setWidth, Nat.mod_eq_of_lt (by omega)]
  simp only [show 2 * n.toNat < 2 ^ 32 by omega, if_true]

theorem sizeToInt_ne_of_le {n : SizeT} (h : 2 ^ 31 ≤ n.toNat) : sizeToInt n ≠ n.toNat := by
  have hlt : (n.setWidth 32).toNat < 2 ^ 32 := (n.setWidth 32).isLt
  rw [sizeToInt, BitVec.toInt_eq_toNat_cond]
  split <;> omega

theorem toNat_intToSize_of_nonneg {a : Int} (h0 : 0 ≤ a) (h : a < 2 ^ 63) :
    (intToSize a).toNat = a.toNat := by
  rw [intToSize, BitVec.toNat_ofInt]
  omega

theorem allocSizes_of_le {num : Int} (h0 : 0 ≤ num) (h : num ≤ 65075262) :
    allocSizes num =
      some (intToSize (num * 16) * 96 + 64, intToSize (num * 33) * 1, intToSize num * 8) := by
  rw [allocSizes, intMul_of_bounds (by omega), intMul_of_bounds (by omega)]
  rfl

theorem allocSizes_eq_none {num : Int} (h : 65075262 < num) : allocSizes num = none := by
  by_cases h' : num < 2 ^ 27
  · rw [allocSizes, intMul_of_bounds (by omega), intMul_eq_none (by omega)]
    rfl
  · rw [allocSizes, intMul_eq_none (by omega)]
    rfl

theorem allocSizes_map (n : Nat) (h : n ≤ 65075262) :
    (allocSizes n).map (fun s => (s.1.toNat, s.2.1.toNat, s.2.2.toNat)) = some (exactSizes n) := by
  rw [allocSizes_of_le (by omega) (by omega)]
  simp only [Option.map_some', exactSizes, BitVec.toNat_add, BitVec.toNat_mul,
    toNat_intToSize_of_nonneg (show (0 : Int) ≤ n * 16 by omega) (by omega),
    toNat_intToSize_of_nonneg (show (0 : Int) ≤ n * 33 by omega) (by omega),
    toNat_intToSize_of_nonneg (show (0 : Int) ≤ n by omega) (by omega)]
  rw [show (96 : SizeT).toNat = 96 from rfl, show (64 : SizeT).toNat = 64 from rfl,
    show (1 : SizeT).toNat = 1 from rfl, show (8 : SizeT).toNat = 8 from rfl]
  simp only [Option.some.injEq, Prod.mk.injEq]
  omega

/-- A count passes to `ecp_nistz256_windowed_mul` with exact allocation sizes exactly when it
is at most `65075262`. -/
theorem sizesExact_iff (num : SizeT) : SizesExact num ↔ num.toNat ≤ 65075262 := by
  constructor
  · intro ⟨hint, hsz⟩
    by_contra hn
    by_cases hbig : num.toNat < 2 ^ 31
    · rw [hint, allocSizes_eq_none (by omega)] at hsz
      exact Option.noConfusion hsz
    · exact sizeToInt_ne_of_le (by omega) hint
  · intro hn
    have hint := sizeToInt_of_lt (show num.toNat < 2 ^ 31 by omega)
    exact ⟨hint, by rw [hint]; exact allocSizes_map _ hn⟩

end EcpNistz256.Sizes

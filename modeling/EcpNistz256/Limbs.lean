import Mathlib.Data.Nat.Bitwise
import Mathlib.Data.Nat.Size

/-!
# Machine words, field elements and `BIGNUM`s

The file is compiled only on x86-64, where `BN_BITS2 = 64` and `P256_LIMBS = 4`. The
`P256_LIMBS == 8` branches of `copy_conditional`, `is_equal` and `is_one` are dead code there
and are left out. A `BIGNUM` is read through its limbs `d[0..top)` and its sign; `bn_correct_top`
keeps `top` minimal, and the structure carries that as a field.
-/

set_option autoImplicit false

namespace EcpNistz256.Limbs

abbrev BnUlong := BitVec 64

def p256Limbs : Nat := 256 / 64

/-- `TOBN(hi, lo)` for 64-bit limbs. -/
def tobn (hi lo : BnUlong) : BnUlong := hi <<< 32 ||| lo

/-- `BN_ULONG[P256_LIMBS]`, least significant limb first. -/
structure Felem where
  d0 : BnUlong
  d1 : BnUlong
  d2 : BnUlong
  d3 : BnUlong
  deriving DecidableEq, Repr

namespace Felem

instance : Zero Felem := ⟨⟨0, 0, 0, 0⟩⟩

def val (a : Felem) : Nat :=
  a.d0.toNat + 2 ^ 64 * (a.d1.toNat + 2 ^ 64 * (a.d2.toNat + 2 ^ 64 * a.d3.toNat))

def ofNat (n : Nat) : Felem :=
  ⟨BitVec.ofNat 64 n, BitVec.ofNat 64 (n / 2 ^ 64), BitVec.ofNat 64 (n / 2 ^ 128),
    BitVec.ofNat 64 (n / 2 ^ 192)⟩

def limbs (a : Felem) : List BnUlong := [a.d0, a.d1, a.d2, a.d3]

theorem limbs_length (a : Felem) : a.limbs.length = 4 := rfl

theorem val_lt (a : Felem) : a.val < 2 ^ 256 := by
  have := a.d0.isLt; have := a.d1.isLt; have := a.d2.isLt; have := a.d3.isLt
  unfold val; omega

@[simp] theorem val_ofNat (n : Nat) : (ofNat n).val = n % 2 ^ 256 := by
  simp only [val, ofNat, BitVec.toNat_ofNat]
  omega

@[simp] theorem val_zero : (0 : Felem).val = 0 := rfl

theorem val_injective {a b : Felem} (h : a.val = b.val) : a = b := by
  obtain ⟨a0, a1, a2, a3⟩ := a
  obtain ⟨b0, b1, b2, b3⟩ := b
  have := a0.isLt; have := a1.isLt; have := a2.isLt; have := a3.isLt
  have := b0.isLt; have := b1.isLt; have := b2.isLt; have := b3.isLt
  simp only [val] at h
  simp only [mk.injEq, BitVec.toNat_eq]
  omega

@[simp] theorem ofNat_val (a : Felem) : ofNat a.val = a :=
  val_injective (by rw [val_ofNat, Nat.mod_eq_of_lt a.val_lt])

theorem val_eq_zero {a : Felem} : a.val = 0 ↔ a = 0 :=
  ⟨fun h => val_injective h, fun h => h ▸ rfl⟩

end Felem

/-- The number little-endian limbs spell. -/
def limbsValue : List BnUlong → Nat
  | [] => 0
  | x :: xs => x.toNat + 2 ^ 64 * limbsValue xs

theorem limbsValue_lt (d : List BnUlong) : limbsValue d < 2 ^ (64 * d.length) := by
  induction d with
  | nil => simp [limbsValue]
  | cons x xs ih =>
    have := x.isLt
    have : 2 ^ 64 * (limbsValue xs + 1) ≤ 2 ^ 64 * 2 ^ (64 * xs.length) := Nat.mul_le_mul_left _ ih
    rw [limbsValue, List.length_cons, Nat.mul_succ, Nat.pow_add, Nat.mul_comm (2 ^ _)]
    omega

theorem limbsValue_ge (d : List BnUlong) (hd : d ≠ []) (h : d.getLast? ≠ some 0) :
    2 ^ (64 * (d.length - 1)) ≤ limbsValue d := by
  induction d with
  | nil => exact absurd rfl hd
  | cons x xs ih =>
    cases xs with
    | nil =>
      have : x ≠ 0 := fun hx => h (by simp [hx])
      simpa [limbsValue, BitVec.toNat_eq] using Nat.pos_of_ne_zero (by simpa [BitVec.toNat_eq] using this)
    | cons y ys =>
      have := ih (List.cons_ne_nil _ _) (by simpa [List.getLast?_cons_cons] using h)
      simp only [limbsValue, List.length_cons, Nat.add_sub_cancel] at this ⊢
      rw [show 64 * (ys.length + 1) = 64 + 64 * ys.length by omega, Nat.pow_add]
      have := Nat.mul_le_mul_left (2 ^ 64) this
      omega

/-- Modelled from the spec: `bn_correct_top`, which drops the most significant zero limbs. -/
def bnCorrectTop : List BnUlong → List BnUlong
  | [] => []
  | x :: xs =>
    match bnCorrectTop xs with
    | [] => if x = 0 then [] else [x]
    | y :: ys => x :: y :: ys

theorem bnCorrectTop_getLast? (d : List BnUlong) : (bnCorrectTop d).getLast? ≠ some 0 := by
  induction d with
  | nil => simp [bnCorrectTop]
  | cons x xs ih =>
    rw [bnCorrectTop]
    split
    · split <;> simp_all
    · rename_i y ys h
      rw [h] at ih
      simpa [List.getLast?_cons_cons] using ih

@[simp] theorem limbsValue_bnCorrectTop (d : List BnUlong) :
    limbsValue (bnCorrectTop d) = limbsValue d := by
  induction d with
  | nil => rfl
  | cons x xs ih =>
    rw [bnCorrectTop]
    split
    · rename_i h
      rw [h] at ih
      split
      · rename_i hx
        simp [limbsValue, hx, ← ih]
      · simp [limbsValue, ← ih]
    · rename_i y ys h
      rw [h] at ih
      simp only [limbsValue] at ih ⊢
      omega

theorem limbsValue_limbs (a : Felem) : limbsValue a.limbs = a.val := by
  simp only [Felem.limbs, limbsValue, Felem.val]
  omega

/-- A `BIGNUM` as this file reads it: the limbs `d[0..top)` and the sign. -/
structure Bignum where
  d : List BnUlong
  neg : Bool
  top_minimal : d.getLast? ≠ some 0

namespace Bignum

def top (b : Bignum) : Nat := b.d.length

def magnitude (b : Bignum) : Nat := limbsValue b.d

def value (b : Bignum) : Int := if b.neg then -b.magnitude else b.magnitude

/-- A `BIGNUM` written limb by limb and then passed through `bn_correct_top`. -/
def ofLimbs (d : List BnUlong) (neg : Bool) : Bignum := ⟨bnCorrectTop d, neg, bnCorrectTop_getLast? d⟩

@[simp] theorem magnitude_ofLimbs (d : List BnUlong) (neg : Bool) :
    (ofLimbs d neg).magnitude = limbsValue d := limbsValue_bnCorrectTop d

theorem top_le_iff (b : Bignum) (k : Nat) : b.top ≤ k ↔ b.magnitude < 2 ^ (64 * k) := by
  constructor
  · intro h
    exact lt_of_lt_of_le (limbsValue_lt b.d) (Nat.pow_le_pow_right (by decide) (by unfold top at h; omega))
  · intro h
    by_contra hk
    have hd : b.d ≠ [] := by rintro hd; simp [top, hd] at hk
    have := limbsValue_ge b.d hd b.top_minimal
    have : 2 ^ (64 * k) ≤ 2 ^ (64 * (b.d.length - 1)) :=
      Nat.pow_le_pow_right (by decide) (by unfold top at hk; omega)
    unfold magnitude at h
    omega

end Bignum

/-- Modelled from the spec: `BN_num_bits`, the bit length of the magnitude. -/
def bnNumBits (b : Bignum) : Nat := Nat.size b.magnitude

theorem bnNumBits_le_iff (b : Bignum) (n : Nat) : bnNumBits b ≤ n ↔ b.magnitude < 2 ^ n :=
  Nat.size_le

/-- Why a call of this file fails: the reason it passes to `OPENSSL_PUT_ERROR`, `ctxGet` for the
exit after a failed `BN_CTX_get`, which pushes none, and `undefined` for undefined behaviour (a
write out of bounds, a signed overflow). -/
inductive Err
  | mallocFailure
  | bnLib
  | coordinatesOutOfRange
  | undefinedGenerator
  | pointAtInfinity
  | ctxGet
  | undefined
  deriving DecidableEq, Repr

/-- An `EC_POINT` of this group: Jacobian coordinates in the Montgomery domain. -/
structure EcPoint where
  X : Bignum
  Y : Bignum
  Z : Bignum

/-- `ecp_nistz256_bignum_to_field_elem`: the limbs of `in`, zero-extended, if it has at most
`P256_LIMBS` of them. -/
def ecpNistz256BignumToFieldElem (inp : Bignum) : Option Felem :=
  if inp.top > p256Limbs then none
  else some ⟨inp.d.getD 0 0, inp.d.getD 1 0, inp.d.getD 2 0, inp.d.getD 3 0⟩

theorem bignumToFieldElem_eq_none (inp : Bignum) :
    ecpNistz256BignumToFieldElem inp = none ↔ 4 < inp.top := by
  unfold ecpNistz256BignumToFieldElem p256Limbs
  split <;> simp_all

theorem bignumToFieldElem_eq_some (inp : Bignum) (h : inp.top ≤ 4) :
    ecpNistz256BignumToFieldElem inp = some (Felem.ofNat inp.magnitude) := by
  have hv : ∀ d : List BnUlong, d.length ≤ 4 →
      (⟨d.getD 0 0, d.getD 1 0, d.getD 2 0, d.getD 3 0⟩ : Felem).val = limbsValue d := by
    intro d hd
    match d, hd with
    | [], _ => rfl
    | [a], _ => simp [Felem.val, limbsValue]
    | [a, b], _ => simp [Felem.val, limbsValue]
    | [a, b, c], _ => simp [Felem.val, limbsValue]
    | [a, b, c, e], _ => simp [Felem.val, limbsValue]
  have hd : inp.d.length ≤ 4 := h
  have hlt : limbsValue inp.d < 2 ^ 256 :=
    lt_of_lt_of_le (limbsValue_lt _) (Nat.pow_le_pow_right (by decide) (by omega))
  unfold ecpNistz256BignumToFieldElem p256Limbs
  rw [if_neg (by simp only [Bignum.top]; omega)]
  congr 1
  apply Felem.val_injective
  rw [hv _ hd, Felem.val_ofNat, Bignum.magnitude, Nat.mod_eq_of_lt hlt]

def bnMask2 : BnUlong := 0xffffffffffffffff

/-- `is_zero`: one when the word is zero, computed without a branch. -/
def isZero (inp : BnUlong) : BnUlong :=
  let inp := inp ||| (0 - inp)
  let inp := ~~~inp
  let inp := inp &&& bnMask2
  inp >>> (64 - 1)

theorem le_or_of_ne_zero (w : BnUlong) (h : w ≠ 0) : 2 ^ 63 ≤ (w ||| (0 - w)).toNat := by
  have hw : 0 < w.toNat := Nat.pos_of_ne_zero (fun h' => h (BitVec.eq_of_toNat_eq h'))
  have hl : w.toNat ≤ w.toNat ||| (0 - w).toNat := Nat.le_of_testBit (by simp_all)
  have hr : (0 - w).toNat ≤ w.toNat ||| (0 - w).toNat := Nat.le_of_testBit (by simp_all)
  have hn : (0 - w).toNat = (2 ^ 64 - w.toNat) % 2 ^ 64 := by simp
  have := w.isLt
  rw [BitVec.toNat_or]
  omega

theorem isZero_eq (w : BnUlong) : isZero w = if w = 0 then 1 else 0 := by
  have hm : bnMask2 = BitVec.allOnes 64 := by decide
  split
  · subst w; decide
  · rename_i h
    have hy := le_or_of_ne_zero w h
    simp only [isZero, hm, BitVec.and_allOnes]
    generalize w ||| (0 - w) = y at hy ⊢
    have := y.isLt
    apply BitVec.eq_of_toNat_eq
    simp only [BitVec.toNat_ushiftRight, BitVec.toNat_not, Nat.shiftRight_eq_div_pow]
    simp
    omega

theorem or_eq_zero_iff (x y : BnUlong) : x ||| y = 0 ↔ x = 0 ∧ y = 0 := by
  constructor
  · intro h
    have hx : x.toNat ≤ x.toNat ||| y.toNat := Nat.le_of_testBit (fun i hi => by simp [hi])
    have hy : y.toNat ≤ x.toNat ||| y.toNat := Nat.le_of_testBit (fun i hi => by simp [hi])
    have h' : x.toNat ||| y.toNat = 0 := by simpa using congrArg BitVec.toNat h
    constructor <;> apply BitVec.eq_of_toNat_eq <;> simp <;> omega
  · rintro ⟨rfl, rfl⟩; rfl

theorem xor_eq_zero_iff (x y : BnUlong) : x ^^^ y = 0 ↔ x = y := by
  rw [BitVec.toNat_eq, BitVec.toNat_eq, BitVec.toNat_xor]
  simp [Nat.xor_eq_zero]

/-- `is_equal`: one when every limb of `a` equals the limb of `b`. -/
def isEqual (a b : Felem) : BnUlong :=
  let res := a.d0 ^^^ b.d0
  let res := res ||| (a.d1 ^^^ b.d1)
  let res := res ||| (a.d2 ^^^ b.d2)
  let res := res ||| (a.d3 ^^^ b.d3)
  isZero res

theorem isEqual_eq (a b : Felem) : isEqual a b = if a = b then 1 else 0 := by
  have : a = b ↔ (a.d0 ^^^ b.d0 ||| a.d1 ^^^ b.d1 ||| a.d2 ^^^ b.d2 ||| a.d3 ^^^ b.d3) = 0 := by
    obtain ⟨a0, a1, a2, a3⟩ := a
    obtain ⟨b0, b1, b2, b3⟩ := b
    simp only [or_eq_zero_iff, xor_eq_zero_iff, Felem.mk.injEq, and_assoc]
  simp only [isEqual, isZero_eq, this]

/-- `ONE`, one in the Montgomery domain. -/
def one : Felem :=
  ⟨tobn 0x00000000 0x00000001, tobn 0xffffffff 0x00000000,
    tobn 0xffffffff 0xffffffff, tobn 0x00000000 0xfffffffe⟩

/-- `is_one`. On four limbs it compares every limb with `ONE`, as `is_equal` does; the
eight-limb branch, where it skips one limb, is dead on this target. -/
def isOne (a : Felem) : BnUlong := isEqual a one

/-- `copy_conditional`: `dst` becomes `src` when `move` is one and stays when it is zero. -/
def copyConditional (dst src : Felem) (move : BnUlong) : Felem :=
  let mask1 := -move
  let mask2 := ~~~mask1
  ⟨(src.d0 &&& mask1) ^^^ (dst.d0 &&& mask2), (src.d1 &&& mask1) ^^^ (dst.d1 &&& mask2),
    (src.d2 &&& mask1) ^^^ (dst.d2 &&& mask2), (src.d3 &&& mask1) ^^^ (dst.d3 &&& mask2)⟩

@[simp] theorem copyConditional_zero (dst src : Felem) : copyConditional dst src 0 = dst := by
  have h0 : (-0 : BnUlong) = 0#64 := by decide
  have h1 : ~~~(0#64) = BitVec.allOnes 64 := by decide
  simp only [copyConditional, h0, h1, BitVec.and_zero, BitVec.zero_xor, BitVec.and_allOnes]

@[simp] theorem copyConditional_one (dst src : Felem) : copyConditional dst src 1 = src := by
  have h0 : (-1 : BnUlong) = BitVec.allOnes 64 := by decide
  simp only [copyConditional, h0, BitVec.not_allOnes, BitVec.and_zero, BitVec.xor_zero,
    BitVec.and_allOnes]

end EcpNistz256.Limbs

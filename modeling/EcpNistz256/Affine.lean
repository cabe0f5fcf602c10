import EcpNistz256.Field

/-!
# Inversion by a fixed chain, and affine coordinates

`ecp_nistz256_mod_inverse` raises its input to `p - 2` by a fixed sequence of squarings and
multiplications. The chain is written once over an arbitrary squaring and multiplication: it
commutes with every map that carries one pair to the other, so on exponents it computes
`p - 2`, and through `mont` it computes the inverse of the encoded element.
`ecp_nistz256_get_affine` then divides by `Z^2` and `Z^3` and leaves the Montgomery domain.
-/

set_option autoImplicit false

namespace EcpNistz256.Affine

open Limbs Field

/-- The body of `ecp_nistz256_mod_inverse`, over its squaring and its multiplication. -/
def modInverseChain {α : Type} (sqr : α → α) (mul : α → α → α) (inp : α) : α :=
  let res := sqr inp
  let p2 := mul res inp
  let res := sqr p2
  let res := sqr res
  let p4 := mul res p2
  let res := sqr p4
  let res := sqr res
  let res := sqr res
  let res := sqr res
  let p8 := mul res p4
  let res := sqr p8
  let res := sqr^[7] res
  let p16 := mul res p8
  let res := sqr p16
  let res := sqr^[15] res
  let p32 := mul res p16
  let res := sqr p32
  let res := sqr^[31] res
  let res := mul res inp
  let res := sqr^[32 * 4] res
  let res := mul res p32
  let res := sqr^[32] res
  let res := mul res p32
  let res := sqr^[16] res
  let res := mul res p16
  let res := sqr^[8] res
  let res := mul res p8
  let res := sqr res
  let res := sqr res
  let res := sqr res
  let res := sqr res
  let res := mul res p4
  let res := sqr res
  let res := sqr res
  let res := mul res p2
  let res := sqr res
  let res := sqr res
  mul res inp

def ecpNistz256ModInverse (inp : Felem) : Felem := modInverseChain sqrMont mulMont inp

theorem modInverseChain_map {α β : Type} (f : α → β) {sqr : α → α} {mul : α → α → α}
    {sqr' : β → β} {mul' : β → β → β} (hs : ∀ a, f (sqr a) = sqr' (f a))
    (hm : ∀ a b, f (mul a b) = mul' (f a) (f b)) (x : α) :
    f (modInverseChain sqr mul x) = modInverseChain sqr' mul' (f x) := by
  have hi : ∀ n a, f (sqr^[n] a) = sqr'^[n] (f a) := fun n => Function.Semiconj.iterate_right hs n
  simp only [modInverseChain, hs, hm, hi]

set_option maxRecDepth 4000 in
theorem modInverseChain_exponent : modInverseChain (2 * ·) (· + ·) 1 = P - 2 := by decide

theorem modInverseChain_pow {M : Type} [Monoid M] (x : M) :
    modInverseChain (· ^ 2) (· * ·) x = x ^ (P - 2) := by
  have := @modInverseChain_map _ _ (fun e => x ^ e) (2 * ·) (· + ·) (· ^ 2) (· * ·)
    (fun e => by simp [pow_mul']) (fun a b => pow_add x a b) 1
  simpa [modInverseChain_exponent] using this.symm

theorem mont_modInverse (a : Felem) : mont (ecpNistz256ModInverse a) = mont a ^ (P - 2) := by
  rw [ecpNistz256ModInverse, @modInverseChain_map _ _ mont sqrMont mulMont (· ^ 2) (· * ·)
    mont_sqrMont mont_mulMont, modInverseChain_pow]

theorem modInverse_val_lt (a : Felem) : (ecpNistz256ModInverse a).val < P := by
  simp only [ecpNistz256ModInverse, modInverseChain, mulMont, val_ofNat_mod]
  exact Nat.mod_lt _ (by decide)

/-- Modelled from the spec: `EC_POINT_is_at_infinity`, which tests `Z = 0`. -/
def ecPointIsAtInfinity (point : EcPoint) : Bool := point.Z.magnitude = 0

/-- The field element a coordinate `BIGNUM` encodes in the Montgomery domain. -/
def encoded (b : Bignum) : ZMod P := (b.magnitude : ZMod P) * (rInv : ZMod P)

/-- The `BIGNUM` that `bn_wexpand`, `top = P256_LIMBS`, the write of `d` and `bn_correct_top`
leave in the caller's `b`: the new limbs under the caller's sign. -/
def writeLimbs (b : Bignum) (a : Felem) : Bignum := Bignum.ofLimbs a.limbs b.neg

/-- `ecp_nistz256_get_affine`; `x` and `y` are the caller's `BIGNUM`s, `none` for `NULL`. -/
def ecpNistz256GetAffine (point : EcPoint) (x y : Option Bignum) :
    Except Err (Option Bignum × Option Bignum) :=
  if ecPointIsAtInfinity point then .error .pointAtInfinity else
  match ecpNistz256BignumToFieldElem point.X, ecpNistz256BignumToFieldElem point.Y,
      ecpNistz256BignumToFieldElem point.Z with
  | some pointX, some pointY, some pointZ =>
    let zInv3 := ecpNistz256ModInverse pointZ
    let zInv2 := sqrMont zInv3
    let xAff := mulMont zInv2 pointX
    let x' := x.map fun x => writeLimbs x (fromMont xAff)
    let zInv3 := mulMont zInv3 zInv2
    let yAff := mulMont zInv3 pointY
    let y' := y.map fun y => writeLimbs y (fromMont yAff)
    .ok (x', y')
  | _, _, _ => .error .coordinatesOutOfRange

theorem fromMont_eq (a : Felem) : fromMont a = Felem.ofNat (mont a).val := by
  apply Felem.val_injective
  rw [val_fromMont, Felem.val_ofNat, Nat.mod_eq_of_lt (lt_trans (ZMod.val_lt _) p_lt)]

@[simp] theorem magnitude_writeLimbs (b : Bignum) (a : Felem) :
    (writeLimbs b a).magnitude = a.val := by
  simp [writeLimbs, limbsValue_limbs]

@[simp] theorem neg_writeLimbs (b : Bignum) (a : Felem) : (writeLimbs b a).neg = b.neg := rfl

theorem mont_ofNat_magnitude (b : Bignum) (h : b.magnitude < P) :
    mont (Felem.ofNat b.magnitude) = encoded b := by
  rw [mont, Felem.val_ofNat, Nat.mod_eq_of_lt (lt_trans h p_lt), encoded]

theorem bignumToFieldElem_of_lt (b : Bignum) (h : b.magnitude < P) :
    ecpNistz256BignumToFieldElem b = some (Felem.ofNat b.magnitude) :=
  bignumToFieldElem_eq_some b ((Bignum.top_le_iff b 4).2 (lt_trans h p_lt))

theorem getAffine_eq (point : EcPoint) (x y : Option Bignum)
    (hX : point.X.magnitude < P) (hY : point.Y.magnitude < P) (hZ : point.Z.magnitude < P)
    (hZ0 : point.Z.magnitude ≠ 0) :
    ecpNistz256GetAffine point x y =
      .ok (x.map fun x => writeLimbs x (Felem.ofNat (encoded point.X * (encoded point.Z)⁻¹ ^ 2).val),
        y.map fun y => writeLimbs y (Felem.ofNat (encoded point.Y * (encoded point.Z)⁻¹ ^ 3).val)) := by
  have hinf : ecPointIsAtInfinity point = false := by simp [ecPointIsAtInfinity, hZ0]
  simp only [ecpNistz256GetAffine, hinf, bignumToFieldElem_of_lt _ hX, bignumToFieldElem_of_lt _ hY,
    bignumToFieldElem_of_lt _ hZ, fromMont_eq, mont_mulMont, mont_sqrMont, mont_modInverse,
    pow_p_sub_two, mont_ofNat_magnitude _ hX, mont_ofNat_magnitude _ hY,
    mont_ofNat_magnitude _ hZ, Bool.false_eq_true, if_false]
  rw [mul_comm _ (encoded point.X), show (encoded point.Z)⁻¹ * (encoded point.Z)⁻¹ ^ 2 *
    encoded point.Y = encoded point.Y * (encoded point.Z)⁻¹ ^ 3 by ring]

theorem mont_modInverse_mul (a : Felem) (ha : mont a ≠ 0) :
    mont (ecpNistz256ModInverse a) * mont a = 1 := by
  rw [mont_modInverse, pow_p_sub_two, inv_mul_cancel₀ ha]

theorem modInverse_of_mont_eq_zero (a : Felem) (ha : mont a = 0) : ecpNistz256ModInverse a = 0 :=
  mont_injective (modInverse_val_lt a) (by simp; decide)
    (by rw [mont_modInverse, ha, mont_zero, zero_pow (by decide)])

/-- `ONE` as a coordinate `BIGNUM`: the Montgomery form of one. -/
def oneBignum : Bignum := Bignum.ofLimbs one.limbs false

theorem encoded_oneBignum : encoded oneBignum = 1 := by
  rw [← mont_ofNat_magnitude _ (by decide), oneBignum, Bignum.magnitude_ofLimbs, limbsValue_limbs,
    Felem.ofNat_val, mont_one]

/-- The inversion chain computes the Montgomery form of `x^(p-2)`, the inverse of the encoded
`x` (zero for zero). On that, `get_affine` writes the magnitudes `X/Z^2` and `Y/Z^3`, in plain
form, into whichever of `x` and `y` is given, but never their signs: a caller's `x` holding `-7`
comes back holding `-1` for the point `(ONE, ONE, ONE)`, whose affine `x` is `1`. -/
theorem mod_inverse_get_affine :
    (∀ a : Felem, (ecpNistz256ModInverse a).val < P ∧
      mont (ecpNistz256ModInverse a) = mont a ^ (P - 2) ∧
      (mont a ≠ 0 → mont (ecpNistz256ModInverse a) * mont a = 1) ∧
      (mont a = 0 → ecpNistz256ModInverse a = 0)) ∧
    (∀ (point : EcPoint) (x y : Option Bignum), point.X.magnitude < P → point.Y.magnitude < P →
      point.Z.magnitude < P → point.Z.magnitude ≠ 0 →
      ∃ x' y', ecpNistz256GetAffine point x y = .ok (x', y') ∧
        x'.map Bignum.magnitude = x.map (fun _ => (encoded point.X * (encoded point.Z)⁻¹ ^ 2).val) ∧
        y'.map Bignum.magnitude = y.map (fun _ => (encoded point.Y * (encoded point.Z)⁻¹ ^ 3).val) ∧
        x'.map Bignum.neg = x.map Bignum.neg ∧ y'.map Bignum.neg = y.map Bignum.neg) ∧
    ∃ x', ecpNistz256GetAffine ⟨oneBignum, oneBignum, oneBignum⟩ (some (Bignum.ofLimbs [7] true))
        none = .ok (some x', none) ∧
      (encoded oneBignum * (encoded oneBignum)⁻¹ ^ 2).val = 1 ∧ x'.value = -1 := by
  have hv : ∀ v : ZMod P, (Felem.ofNat v.val).val = v.val := fun v => by
    rw [Felem.val_ofNat, Nat.mod_eq_of_lt (lt_trans (ZMod.val_lt _) p_lt)]
  have h1 : (encoded oneBignum * (encoded oneBignum)⁻¹ ^ 2).val = 1 := by
    rw [encoded_oneBignum, inv_one, one_pow, mul_one, ZMod.val_one]
  refine ⟨fun a => ⟨modInverse_val_lt a, mont_modInverse a, mont_modInverse_mul a,
    modInverse_of_mont_eq_zero a⟩, fun point x y hX hY hZ hZ0 => ?_, ?_⟩
  · refine ⟨_, _, getAffine_eq point x y hX hY hZ hZ0, ?_, ?_, ?_, ?_⟩ <;>
      simp [Option.map_map, Function.comp_def, hv]
  · -- the caller's sign survives the write of the limbs
    have hone : oneBignum.magnitude < P := by decide
    refine ⟨_, getAffine_eq _ _ none hone hone hone (by decide), h1, ?_⟩
    rw [Bignum.value, neg_writeLimbs, magnitude_writeLimbs, hv, h1]
    rfl

theorem get_affine_at_one : oneBignum.magnitude < P ∧ oneBignum.magnitude ≠ 0 ∧
    ∃ x' y', ecpNistz256GetAffine ⟨oneBignum, oneBignum, oneBignum⟩ (some oneBignum) none =
        .ok (x', y') ∧
      x'.map Bignum.magnitude =
        some (encoded oneBignum * (encoded oneBignum)⁻¹ ^ 2).val ∧
      y'.map Bignum.magnitude = none ∧
      x'.map Bignum.neg = some false ∧ y'.map Bignum.neg = none :=
  have h : oneBignum.magnitude < P := by decide
  have h0 : oneBignum.magnitude ≠ 0 := by decide
  ⟨h, h0, mod_inverse_get_affine.2.1 ⟨oneBignum, oneBignum, oneBignum⟩ (some oneBignum) none h h h h0⟩

end EcpNistz256.Affine

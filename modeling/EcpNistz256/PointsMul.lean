import EcpNistz256.Affine
import EcpNistz256.Generator
import EcpNistz256.GeneratorPath

/-!
# `ecp_nistz256_points_mul`

`r = scalar·G + Σ scalars[i]·points[i]`. The generator's share comes from the precomputed table
when the group's generator is the standard one; otherwise the generator is appended to the
points and handled by `ecp_nistz256_windowed_mul` like them. The points' share is computed into
`p` when there is no generator share, and otherwise into the scratch `t` and added to `p`.

`ecp_nistz256_windowed_mul` returns nothing: when it leaves through `err`, its output keeps the
value it had, and `points_mul` goes on to the write-back and returns 1. The two `union` scratch
points `t` and `p` enter with the values the stack held.
-/

set_option autoImplicit false

namespace EcpNistz256.PointsMul

open Limbs Field Exec Booth Scalar Point Sizes WindowedMul GeneratorPath Affine Generator

/-- Modelled from the spec: `EC_POINT_set_to_infinity`, which zeroes `Z`. -/
def setToInfinity (r : EcPoint) : EcPoint := { r with Z := Bignum.ofLimbs [] false }

/-- The copy of `p` into `r`'s limbs, each followed by `bn_correct_top`. -/
def writeBack (r : EcPoint) (p : P256Point) : EcPoint :=
  ⟨writeLimbs r.X p.X, writeLimbs r.Y p.Y, writeLimbs r.Z p.Z⟩

/-- The `if (scalar)` block: the table path for the standard generator, or the generator kept
aside to be folded in; nothing without a scalar. Returns `p`, `t`, `p_is_infinity` and the
scalar and generator to fold in, if any. -/
def generatorStep (F : Prims) (lib : Lib) (precomputed : List (List P256PointAffine))
    (generator : Option EcPoint) (scalar : Option Bignum) (t p : P256Point) :
    Run (P256Point × P256Point × Bool × Option (Bignum × EcPoint)) :=
  match scalar with
  | none => pure (p, t, true, none)
  | some k =>
    match generator with
    | none => fail .undefinedGenerator
    | some g =>
      if ecpNistz256IsAffineG g then do
        let (p, t) ← genPath F lib precomputed t k
        pure (p, t, false, none)
      else pure (p, t, true, some (k, g))

/-- The `if (no_precomp_for_generator)` block: bound `num`, allocate the two longer arrays, copy
the caller's `num` entries and append the scalar and the generator. -/
def foldGenerator (lib : Lib) (num : SizeT) (points : List EcPoint) (scalars : List Bignum)
    (kg : Bignum × EcPoint) : Run (SizeT × List EcPoint × List Bignum) :=
  if 0xffffff < num.toNat then fail .mallocFailure else do
  let size := (num + 1) * 8
  emit (.malloc (lib.malloc size))
  if lib.malloc size then do
    emit (.malloc (lib.malloc size))
    if lib.malloc size then
      if scalars.length < num.toNat ∨ points.length < num.toNat then fail .undefined
      else pure (num + 1, points.take num.toNat ++ [kg.2], scalars.take num.toNat ++ [kg.1])
    else fail .mallocFailure
  else fail .mallocFailure

/-- The `if (num)` block: `windowed_mul` into `p`, or into `t` and then added to `p`. -/
def pointsStep (F : Prims) (lib : Lib) (num : SizeT) (points : List EcPoint)
    (scalars : List Bignum) (t p : P256Point) (pIsInfinity : Bool) : Run P256Point :=
  if num = 0 then pure p
  else if pIsInfinity then ecpNistz256WindowedMul F lib p scalars points (sizeToInt num)
  else do
    let out ← ecpNistz256WindowedMul F lib t scalars points (sizeToInt num)
    emit .pointAdd
    pure (F.pointAdd p out)

/-- `ecp_nistz256_points_mul`; `generator` is `EC_GROUP_get0_generator(group)`, `scalar`
`none` for `NULL`, `precomputed` the table `ecp_nistz256_precomputed`. A result `.ok` is the
return value 1 with the new `r`. -/
def ecpNistz256PointsMul (F : Prims) (lib : Lib) (precomputed : List (List P256PointAffine))
    (generator : Option EcPoint) (r : EcPoint) (scalar : Option Bignum) (num : SizeT)
    (points : List EcPoint) (scalars : List Bignum) (t p : P256Point) : Run EcPoint :=
  if scalar.isNone && num == 0 then pure (setToInfinity r) else do
  let (p, t, pIsInfinity, fold) ← generatorStep F lib precomputed generator scalar t p
  let (num, points, scalars) ← match fold with
    | none => pure (num, points, scalars)
    | some kg => foldGenerator lib num points scalars kg
  let p ← pointsStep F lib num points scalars t p pIsInfinity
  pure (writeBack r p)

/-- The standard generator as `EC_GROUP_get0_generator` holds it: `def_xG`, `def_yG`, `ONE`. -/
def stdGenerator : EcPoint :=
  ⟨Bignum.ofLimbs defXG.limbs false, Bignum.ofLimbs defYG.limbs false, Bignum.ofLimbs one.limbs false⟩

theorem isAffineG_stdGenerator : ecpNistz256IsAffineG stdGenerator = true := by decide

/-! ## The scalar 0 on the table path -/

theorem readWindow_zero (w index : Nat) : readWindow w (fun _ => 0) index = 0 := by
  simp [readWindow]

theorem addRows_zero (F : Prims) (hz : ∀ q, F.pointAddAffine q 0 = q)
    (precomputed : List (List P256PointAffine)) (m : Nat) :
    ∀ i p t, ∃ t', (addRows F precomputed (fun _ => 0) m i (p, t)).result = .ok (p, t') := by
  induction m with
  | zero => exact fun i p t => ⟨t, rfl⟩
  | succ m ih =>
    intro i p t
    have hr : boothRecodeW7 0 = 0 := by decide
    have hsel : selectW7 (precomputed.getD i []) ((0 : Unsigned) >>> 1) = 0 := if_pos (by decide)
    simp only [addRows, Run.emit_bind, readWindow_zero, hr, hsel, condNegY_eq]
    have h0 : (⟨(0 : P256PointAffine).X, if (0 : Unsigned) &&& 1 = 0 then (0 : P256PointAffine).Y
        else neg (0 : P256PointAffine).Y⟩ : P256PointAffine) = 0 := by decide
    rw [h0, hz]
    exact ih _ _ _

theorem serialize_zero :
    (serialize (fun _ => 0) (Bignum.ofLimbs [] false)).result = .ok (fun _ => 0) := by
  rw [serialize_result _ _ (by decide)]
  congr 1
  funext i
  simp [overwrite, leByte, Bignum.magnitude, Bignum.ofLimbs, bnCorrectTop, limbsValue]

/-- For the scalar 0 and no points, `points_mul` returns 1 with `r = (0, 0, ONE)`: not the point
at infinity `0·G`, by the `Z = 0` test of `EC_POINT_is_at_infinity` or on any curve. -/
theorem points_mul_zero_scalar (F : Prims) (hz : ∀ q, F.pointAddAffine q 0 = q) (lib : Lib)
    (precomputed : List (List P256PointAffine)) (r : EcPoint) (t p : P256Point) :
    (ecpNistz256PointsMul F lib precomputed (some stdGenerator) r (some (Bignum.ofLimbs [] false))
        0 [] [] t p).result = .ok (writeBack r ⟨0, 0, one⟩) ∧
      ecPointIsAtInfinity (writeBack r ⟨0, 0, one⟩) = false ∧
      ∀ {E : Type} [AddCommGroup E] (C : Curve E),
        ¬ Represents C (fieldPoint (writeBack r ⟨0, 0, one⟩)) 0 := by
  have hone : Felem.ofNat one.val = one := Felem.ofNat_val one
  refine ⟨?_, by simp only [ecPointIsAtInfinity, writeBack, magnitude_writeLimbs]; decide,
    fun C => ?_⟩
  · obtain ⟨t', ht'⟩ := addRows_zero F hz precomputed 36 1 ⟨0, 0, one⟩ t
    have hgen : (genPath F lib precomputed t (Bignum.ofLimbs [] false)).result = .ok (⟨0, 0, one⟩, t') := by
      rw [genPath, reduceScalar_of_lt lib rfl (by decide), Run.result_bind_of_ok rfl,
        Run.result_bind_of_ok serialize_zero,
        Run.result_bind_of_ok (seedRow_of_window_zero precomputed (by decide))]
      exact ht'
    simp only [ecpNistz256PointsMul, Option.isNone_some, Bool.false_and, Bool.false_eq_true,
      if_false, generatorStep, isAffineG_stdGenerator, if_true]
    rw [Run.result_bind_of_ok (Run.result_bind_of_ok hgen _)]
    rfl
  · simp only [fieldPoint, writeBack, magnitude_writeLimbs, hone]
    exact not_represents_zero (by rw [mont_one]; exact one_ne_zero)

theorem points_mul_zero_scalar_at_yPrims :
    (ecpNistz256PointsMul yPrims ⟨fun _ => true, true, true⟩ [] (some stdGenerator) stdGenerator
        (some (Bignum.ofLimbs [] false)) 0 [] [] 0 0).result = .ok (writeBack stdGenerator ⟨0, 0, one⟩) ∧
      ecPointIsAtInfinity (writeBack stdGenerator ⟨0, 0, one⟩) = false ∧
      ∀ {E : Type} [AddCommGroup E] (C : Curve E),
        ¬ Represents C (fieldPoint (writeBack stdGenerator ⟨0, 0, one⟩)) 0 :=
  points_mul_zero_scalar yPrims yPrims_sound.add_affine_zero _ [] stdGenerator 0 0

/-! ## `windowed_mul` errors -/

theorem pointsMul_none_of_ne_zero (F : Prims) (lib : Lib)
    (precomputed : List (List P256PointAffine)) (generator : Option EcPoint) (r : EcPoint)
    {num : SizeT} (h0 : num ≠ 0) (points : List EcPoint) (scalars : List Bignum) (t p : P256Point) :
    ecpNistz256PointsMul F lib precomputed generator r none num points scalars t p =
      (ecpNistz256WindowedMul F lib p scalars points (sizeToInt num) >>= fun p =>
        pure (writeBack r p)) := by
  rw [ecpNistz256PointsMul, Option.isNone_none, Bool.true_and, beq_false_of_ne h0,
    if_neg Bool.false_ne_true, generatorStep, Run.pure_bind]
  dsimp only
  rw [Run.pure_bind, pointsStep, if_neg h0, if_pos rfl]

theorem toFieldPoint_of_X_top {pt : EcPoint} (h : 4 < pt.X.top) :
    (toFieldPoint pt).result = .error .coordinatesOutOfRange := by
  rw [toFieldPoint, Run.bind_of_error (toFieldElem_of_top h)]

/-- Without a scalar and with one point whose `X` has five limbs, `windowed_mul` leaves through
`err` at `ecp_nistz256_bignum_to_field_elem`, and `points_mul` still returns 1, with `r` copied
from the `p` that `windowed_mul` never wrote. -/
theorem points_mul_after_windowed_error (F : Prims) (precomputed : List (List P256PointAffine))
    (generator : Option EcPoint) (r : EcPoint) (t p : P256Point) :
    (windowedMulBody F ⟨fun _ => true, true, true⟩ [Bignum.ofLimbs [] false]
        [⟨Bignum.ofLimbs [1, 1, 1, 1, 1] false, Bignum.ofLimbs [] false, Bignum.ofLimbs [] false⟩]
        1).result = .error .coordinatesOutOfRange ∧
      (ecpNistz256PointsMul F ⟨fun _ => true, true, true⟩ precomputed generator r none 1
        [⟨Bignum.ofLimbs [1, 1, 1, 1, 1] false, Bignum.ofLimbs [] false, Bignum.ofLimbs [] false⟩]
        [Bignum.ofLimbs [] false] t p).result = .ok (writeBack r p) := by
  have hprep : (prepPoint F ⟨fun _ => true, true, true⟩ (Bignum.ofLimbs [] false)
      ⟨Bignum.ofLimbs [1, 1, 1, 1, 1] false, Bignum.ofLimbs [] false,
        Bignum.ofLimbs [] false⟩).result = .error .coordinatesOutOfRange := by
    rw [prepPoint, reduceScalar_of_lt _ rfl (by decide), Run.result_bind_of_ok rfl,
      Run.result_bind_of_ok serialize_zero, Run.bind_of_error (toFieldPoint_of_X_top (by decide))]
  have hbody : (windowedMulBody F ⟨fun _ => true, true, true⟩ [Bignum.ofLimbs [] false]
      [⟨Bignum.ofLimbs [1, 1, 1, 1, 1] false, Bignum.ofLimbs [] false, Bignum.ofLimbs [] false⟩]
      1).result = .error .coordinatesOutOfRange := by
    rw [windowedMulBody, allocSizes_of_le (by decide) (by decide)]
    simp only [Run.ofOption_some, Run.pure_bind, Run.emit_bind, Bool.and_self, if_true,
      show ¬([Bignum.ofLimbs [] false].length < (1 : Int).toNat ∨ [(⟨Bignum.ofLimbs [1, 1, 1, 1, 1] false,
        Bignum.ofLimbs [] false, Bignum.ofLimbs [] false⟩ : EcPoint)].length < (1 : Int).toNat) by decide,
      if_false]
    have hpp : (prepPoints F ⟨fun _ => true, true, true⟩ (([Bignum.ofLimbs [] false].zip
        [(⟨Bignum.ofLimbs [1, 1, 1, 1, 1] false, Bignum.ofLimbs [] false,
          Bignum.ofLimbs [] false⟩ : EcPoint)]).take (1 : Int).toNat)).result =
        .error .coordinatesOutOfRange := by
      rw [show (1 : Int).toNat = 1 from rfl, List.zip_cons_cons, List.zip_nil_left, List.take_one,
        List.head?_cons, Option.toList_some, prepPoints, Run.bind_of_error hprep]
    rw [Run.bind_of_error hpp]
  have hw : (ecpNistz256WindowedMul F ⟨fun _ => true, true, true⟩ p [Bignum.ofLimbs [] false]
      [⟨Bignum.ofLimbs [1, 1, 1, 1, 1] false, Bignum.ofLimbs [] false, Bignum.ofLimbs [] false⟩]
      (sizeToInt 1)).result = .ok p := by
    rw [ecpNistz256WindowedMul, show sizeToInt 1 = 1 from rfl, hbody]
  refine ⟨hbody, ?_⟩
  rw [pointsMul_none_of_ne_zero F _ precomputed generator r (by decide), Run.result_bind_of_ok hw]
  rfl

/-! ## The count handed to `windowed_mul` -/

/-- Without a scalar `points_mul` hands any `num` to `windowed_mul` unbounded: at
`num = 65075263` the `int` product `num * 33` overflows, which is undefined behaviour, and the
sizes are not exact. -/
theorem points_mul_count_overflow (F : Prims) (lib : Lib)
    (precomputed : List (List P256PointAffine)) (generator : Option EcPoint) (r : EcPoint)
    (points : List EcPoint) (scalars : List Bignum) (t p : P256Point) :
    ¬ SizesExact 65075263 ∧
      (ecpNistz256PointsMul F lib precomputed generator r none 65075263 points scalars t
        p).result = .error .undefined := by
  refine ⟨fun h => absurd ((sizesExact_iff _).1 h) (by decide), ?_⟩
  have hbody : (windowedMulBody F lib scalars points (sizeToInt 65075263)).result =
      .error .undefined := by
    rw [sizeToInt_of_lt (by decide), windowedMulBody, allocSizes_eq_none (by decide)]
    rfl
  have hw : (ecpNistz256WindowedMul F lib p scalars points (sizeToInt 65075263)).result =
      .error .undefined := by
    rw [ecpNistz256WindowedMul, hbody]
  rw [pointsMul_none_of_ne_zero F lib precomputed generator r (by decide), Run.bind_of_error hw]

end EcpNistz256.PointsMul

import EcpNistz256.PointsMulSum
import EcpNistz256.Noninterference

/-!
# The exits of `points_mul`, and what it reads

With every allocation and BN call succeeding, each error exit of `ecp_nistz256_points_mul` has
one cause: a scalar without a generator, the bound `0xffffff` on the path that folds a
non-standard generator in, or undefined behaviour from a count that the `int` arithmetic or the
arrays cannot hold. A point whose coordinates are too wide is not among them, since
`windowed_mul` drops that failure. When the calls succeed and the points fit, the function never
reads the earlier contents of its stack scratch points. For the standard generator, the table
path and the generic path of `windowed_mul` stand for the same point.

The arrays are lists here, so a `NULL` array or entry, which the code may pass to `memcpy` with
a count of zero, is outside what these theorems say.
-/

set_option autoImplicit false

namespace EcpNistz256.Outcomes

open Limbs Field Affine Generator Exec Booth Scalar Point Sizes WindowedMul GeneratorPath
  PointsMul PointsMulSum Noninterference

/-! ## The error exits under succeeding calls -/

section Errors

variable (F : Prims) {lib : Lib} (hlib : Succeeds lib)

theorem toFieldElem_error {b : Bignum} {e : Err} (h : (toFieldElem b).result = .error e) :
    e = .coordinatesOutOfRange := by
  rcases hb : ecpNistz256BignumToFieldElem b with _ | x
  · simp only [toFieldElem, Run.emit_bind, hb, Run.ofOption_none, Run.result_fail,
      Except.error.injEq] at h
    exact h.symm
  · simp only [toFieldElem, Run.emit_bind, hb, Run.ofOption_some, Run.result_pure] at h
    cases h

theorem toFieldPoint_error {pt : EcPoint} {e : Err} (h : (toFieldPoint pt).result = .error e) :
    e = .coordinatesOutOfRange := by
  simp only [toFieldPoint, Run.result_bind_eq_error] at h
  rcases h with h | ⟨_, -, h | ⟨_, -, h | ⟨_, -, h⟩⟩⟩
  · exact toFieldElem_error h
  · exact toFieldElem_error h
  · exact toFieldElem_error h
  · cases h

include hlib in
theorem prepPoint_error {k : Bignum} {pt : EcPoint} {e : Err}
    (h : (prepPoint F lib k pt).result = .error e) : e = .coordinatesOutOfRange := by
  obtain ⟨k', hk⟩ := reduceScalar_progress hlib.ctxGet hlib.nnmod k
  have htop := (Bignum.top_le_iff k' 4).2 (reduceScalar_ok hk).1
  rw [prepPoint, Run.result_bind_of_ok hk, Run.result_bind_of_ok (serialize_result _ k' htop),
    Run.result_bind_eq_error] at h
  rcases h with h | ⟨_, -, h⟩
  · exact toFieldPoint_error h
  · cases h

include hlib in
theorem prepPoints_error {items : List (Bignum × EcPoint)} {e : Err}
    (h : (prepPoints F lib items).result = .error e) : e = .coordinatesOutOfRange := by
  induction items with
  | nil => cases h
  | cons x items ih =>
    obtain ⟨k, pt⟩ := x
    rw [prepPoints, Run.result_bind_eq_error] at h
    rcases h with h | ⟨_, -, h⟩
    · exact prepPoint_error F hlib h
    rw [Run.result_bind_eq_error] at h
    rcases h with h | ⟨_, -, h⟩
    · exact ih h
    · cases h

theorem prepPoints_ok_length {items : List (Bignum × EcPoint)} {rows : List (List P256Point × PStr)}
    (h : (prepPoints F lib items).result = .ok rows) : rows.length = items.length := by
  induction items generalizing rows with
  | nil => cases h; rfl
  | cons x items ih =>
    obtain ⟨k, pt⟩ := x
    obtain ⟨row, -, h⟩ := Run.result_bind_eq_ok.1 h
    obtain ⟨rows', h', h⟩ := Run.result_bind_eq_ok.1 h
    cases h
    rw [List.length_cons, List.length_cons, ih h']

include hlib in
theorem windowedMulBody_undefined {scalar : List Bignum} {point : List EcPoint} {num : Int}
    (h : (windowedMulBody F lib scalar point num).result = .error .undefined) :
    num < 1 ∨ 65075262 < num ∨ scalar.length < num.toNat ∨ point.length < num.toNat := by
  by_contra hc
  simp only [not_or, not_lt] at hc
  obtain ⟨h1, h2, hs, hp⟩ := hc
  rw [windowedMulBody, allocSizes_of_le (by omega) h2] at h
  simp only [Run.ofOption_some, Run.pure_bind, Run.emit_bind, hlib.malloc, Bool.and_self,
    if_true, if_neg (show ¬(scalar.length < num.toNat ∨ point.length < num.toNat) by omega)] at h
  cases hrows : (prepPoints F lib ((scalar.zip point).take num.toNat)).result with
  | error e =>
    rw [Run.bind_of_error hrows] at h
    cases (Except.error.inj h).symm.trans (prepPoints_error F hlib hrows)
  | ok rows =>
    have hlen := prepPoints_ok_length F hrows
    rw [List.length_take, List.length_zip] at hlen
    rw [Run.result_bind_of_ok hrows] at h
    rcases rows with _ | ⟨⟨t0, s0⟩, rest⟩
    · simp only [List.length_nil] at hlen; omega
    simp only [Run.emit_bind] at h
    obtain ⟨r1, h1⟩ := ladder_progress F ((t0, s0) :: rest) 51
      (selectW5 t0 (boothRecodeW5 (readWindowByte 5 s0 255) >>> 1))
    obtain ⟨r2, h2⟩ := addDigits_progress F (readWindowLow 5) 0 ((t0, s0) :: rest) r1
    rw [Run.result_bind_of_ok h1, h2] at h
    cases h

include hlib in
theorem pointsStep_error {num : SizeT} {points : List EcPoint} {scalars : List Bignum}
    {t p : P256Point} {inf : Bool} {e : Err}
    (h : (pointsStep F lib num points scalars t p inf).result = .error e) :
    e = .undefined ∧
      (65075262 < num.toNat ∨ scalars.length < num.toNat ∨ points.length < num.toNat) := by
  unfold pointsStep at h
  split at h
  · cases h
  obtain ⟨r0, hw⟩ : ∃ r0, (ecpNistz256WindowedMul F lib r0 scalars points
      (sizeToInt num)).result = .error e := by
    cases inf
    · rw [if_neg Bool.false_ne_true, Run.result_bind_eq_error] at h
      rcases h with h | ⟨_, -, h⟩
      · exact ⟨t, h⟩
      · cases h
    · exact ⟨p, h⟩
  obtain ⟨hb, rfl⟩ := windowedMul_result_eq_error.1 hw
  refine ⟨rfl, ?_⟩
  by_cases hbig : 65075262 < num.toNat
  · exact .inl hbig
  have h0 : num.toNat ≠ 0 := fun h => ‹¬num = 0› (BitVec.eq_of_toNat_eq (by rw [h]; rfl))
  have hu := windowedMulBody_undefined F hlib hb
  rw [sizeToInt_of_lt (by omega), Int.toNat_ofNat] at hu
  omega

include hlib in
theorem generatorStep_error {precomputed : List (List P256PointAffine)}
    {generator : Option EcPoint} {scalar : Option Bignum} {t p : P256Point} {e : Err}
    (h : (generatorStep F lib precomputed generator scalar t p).result = .error e) :
    e = .undefinedGenerator ∧ scalar.isSome ∧ generator = none := by
  rcases scalar with _ | k
  · cases h
  rcases generator with _ | g
  · exact ⟨(Except.error.inj h).symm, rfl, rfl⟩
  simp only [generatorStep] at h
  split at h
  · obtain ⟨p', t', hg⟩ := genPath_progress F hlib.ctxGet hlib.nnmod precomputed t k
    rw [Run.result_bind_of_ok hg] at h
    cases h
  · cases h

omit F in
include hlib in
theorem foldGenerator_error {num : SizeT} {points : List EcPoint} {scalars : List Bignum}
    {kg : Bignum × EcPoint} {e : Err} (h : (foldGenerator lib num points scalars kg).result = .error e) :
    (e = .mallocFailure ∧ 0xffffff < num.toNat) ∨
      (e = .undefined ∧ (scalars.length < num.toNat ∨ points.length < num.toNat)) := by
  unfold foldGenerator at h
  split at h
  · exact .inl ⟨(Except.error.inj h).symm, ‹_›⟩
  simp only [Run.emit_bind, hlib.malloc, if_true] at h
  split at h
  · exact .inr ⟨(Except.error.inj h).symm, ‹_›⟩
  · cases h

/-- With every allocation and BN call succeeding, each error exit of `ecp_nistz256_points_mul`
has its cause: `EC_R_UNDEFINED_GENERATOR` for a scalar without a generator,
`ERR_R_MALLOC_FAILURE` for a count over `0xffffff` on the path that folds a non-standard
generator in, and undefined behaviour for a count over `65075262` or larger than an array. -/
theorem points_mul_error_cause (F : Prims) (lib : Lib) (hlib : Succeeds lib)
    (precomputed : List (List P256PointAffine)) (generator : Option EcPoint) (r : EcPoint)
    (scalar : Option Bignum) (num : SizeT) (points : List EcPoint) (scalars : List Bignum)
    (t p : P256Point) (e : Err)
    (h : (ecpNistz256PointsMul F lib precomputed generator r scalar num points scalars t
      p).result = .error e) :
    (e = .undefinedGenerator ∧ scalar.isSome ∧ generator = none) ∨
    (e = .mallocFailure ∧ scalar.isSome ∧
      (∃ g, generator = some g ∧ ecpNistz256IsAffineG g = false) ∧ 0xffffff < num.toNat) ∨
    (e = .undefined ∧
      (65075262 < num.toNat ∨ scalars.length < num.toNat ∨ points.length < num.toNat)) := by
  unfold ecpNistz256PointsMul at h
  split at h
  · cases h
  rcases Run.result_bind_eq_error.1 h with hgen | ⟨⟨p1, t1, inf, fold⟩, hstep, hrun⟩
  · exact .inl (generatorStep_error F hlib hgen)
  rcases fold with _ | ⟨k, g⟩
  · -- nothing folded in: `windowed_mul` over the caller's arrays
    simp only [Run.pure_bind] at hrun
    rcases Run.result_bind_eq_error.1 hrun with hps | ⟨_, -, hw⟩
    · exact .inr (.inr (pointsStep_error F hlib hps))
    · cases hw
  · -- the folded generator: the bound and the copy, then `windowed_mul` over exact arrays
    obtain ⟨rfl, hg, hG, -⟩ := generatorStep_fold hstep
    rcases Run.result_bind_eq_error.1 hrun with hf | ⟨⟨num', points', scalars'⟩, hfold, hrun⟩
    · rcases foldGenerator_error hlib hf with ⟨rfl, hb⟩ | ⟨rfl, hl⟩
      · exact .inr (.inl ⟨rfl, rfl, ⟨g, hg, hG⟩, hb⟩)
      · exact .inr (.inr ⟨rfl, .inr hl⟩)
    obtain ⟨hle, rfl, hs, hp, rfl, rfl⟩ := foldGenerator_inv hfold
    rcases Run.result_bind_eq_error.1 hrun with hps | ⟨_, -, hw⟩
    · obtain ⟨-, hc⟩ := pointsStep_error F hlib hps
      rw [toNat_fold hle, length_fold hs, length_fold hp] at hc
      omega
    · cases hw

theorem points_mul_error_cause_at_no_generator :
    (ecpNistz256PointsMul yPrims ⟨fun _ => true, true, true⟩ [] none yOne
        (some (Bignum.ofLimbs [5] false)) 0 [] [] 0 0).result = .error .undefinedGenerator ∧
      ((Err.undefinedGenerator = .undefinedGenerator ∧ (some (Bignum.ofLimbs [5] false)).isSome ∧
          (none : Option EcPoint) = none) ∨
        (Err.undefinedGenerator = .mallocFailure ∧ (some (Bignum.ofLimbs [5] false)).isSome ∧
          (∃ g, (none : Option EcPoint) = some g ∧ ecpNistz256IsAffineG g = false) ∧
          0xffffff < (0 : SizeT).toNat) ∨
        (Err.undefinedGenerator = .undefined ∧ (65075262 < (0 : SizeT).toNat ∨
          ([] : List Bignum).length < (0 : SizeT).toNat ∨
          ([] : List EcPoint).length < (0 : SizeT).toNat))) :=
  ⟨rfl, points_mul_error_cause yPrims ⟨fun _ => true, true, true⟩ ⟨fun _ => rfl, rfl, rfl⟩ [] none
    yOne _ 0 [] [] 0 0 _ rfl⟩

end Errors

theorem toNat_sizeToInt_le (n : SizeT) : (sizeToInt n).toNat ≤ n.toNat := by
  have hle : (n.setWidth 32).toNat ≤ n.toNat := by
    rw [BitVec.toNat_setWidth]; exact Nat.mod_le _ _
  rw [sizeToInt, BitVec.toInt_eq_toNat_cond]
  split <;> omega


/-! ## The scratch points `t` and `p` -/

section Scratch

variable (F : Prims) {lib : Lib} (hlib : Succeeds lib)

include hlib in
theorem windowedMul_scratch {scalar : List Bignum} {point : List EcPoint} {num : Int}
    (hfit : ∀ pt ∈ point, Fits pt) (r0 r0' : P256Point) :
    ecpNistz256WindowedMul F lib r0 scalar point num =
      ecpNistz256WindowedMul F lib r0' scalar point num := by
  cases hb : (windowedMulBody F lib scalar point num).result with
  | ok r => simp only [ecpNistz256WindowedMul, hb]
  | error e =>
    rw [windowedMulBody_error hlib hfit hb] at hb
    simp only [ecpNistz256WindowedMul, hb]

include hlib in
theorem pointsStep_scratch {num : SizeT} (hnum : num ≠ 0) {points : List EcPoint}
    (hfit : ∀ pt ∈ points, Fits pt) {scalars : List Bignum} (t p t' p' : P256Point) :
    pointsStep F lib num points scalars t p true = pointsStep F lib num points scalars t' p' true := by
  simp only [pointsStep, if_neg hnum, if_true]
  exact windowedMul_scratch F hlib hfit p p'

theorem genPath_scratch (lib : Lib) (precomputed : List (List P256PointAffine)) (t t' : P256Point)
    (k : Bignum) : genPath F lib precomputed t k = genPath F lib precomputed t' k :=
  rfl

end Scratch

/-- With every allocation and BN call succeeding and the points, and a generator, whose
coordinates fit `P256_LIMBS` limbs, `ecp_nistz256_points_mul` never reads the earlier contents of
its stack scratch points `t` and `p`: any two values of them give the same outcome and the same
trace. -/
theorem points_mul_ignores_scratch (F : Prims) (lib : Lib) (hlib : Succeeds lib)
    (precomputed : List (List P256PointAffine)) (generator : Option EcPoint)
    (hgen : ∀ g, generator = some g → Fits g) (r : EcPoint) (scalar : Option Bignum) (num : SizeT)
    (points : List EcPoint) (hfit : ∀ pt ∈ points, Fits pt) (scalars : List Bignum)
    (t p t' p' : P256Point) :
    ecpNistz256PointsMul F lib precomputed generator r scalar num points scalars t p =
      ecpNistz256PointsMul F lib precomputed generator r scalar num points scalars t' p' := by
  unfold ecpNistz256PointsMul
  split
  · rfl
  rename_i hne
  rcases scalar with _ | k
  · -- no scalar: `windowed_mul` into `p`
    have hnum : num ≠ 0 := fun h0 => hne (by rw [h0]; rfl)
    simp only [generatorStep, Run.pure_bind, pointsStep_scratch F hlib hnum hfit t p t' p']
  rcases generator with _ | g
  · rfl
  by_cases hG : ecpNistz256IsAffineG g = true
  · -- the table path: `t` is overwritten, and `p` is the accumulator
    simp only [generatorStep, if_pos hG, genPath_scratch F lib precomputed t t' k]
  · -- the folded generator: `windowed_mul` into `p` over the extended arrays
    simp only [generatorStep, if_neg hG, Run.pure_bind]
    cases hf : (foldGenerator lib num points scalars (k, g)).result with
    | error e => rw [Run.bind_of_error hf, Run.bind_of_error hf]
    | ok x =>
      obtain ⟨num', points', scalars'⟩ := x
      obtain ⟨hle, rfl, -, -, rfl, rfl⟩ := foldGenerator_inv hf
      rw [Run.bind_of_ok hf, Run.bind_of_ok hf]
      simp only [pointsStep_scratch F hlib (fold_ne_zero hle) (forall_mem_fold hfit (hgen g rfl) _)
        t p t' p']

theorem points_mul_ignores_scratch_at_yOne :
    ecpNistz256PointsMul yPrims ⟨fun _ => true, true, true⟩ [] none yOne none 1 [yOne]
        [Bignum.ofLimbs [5] false] 0 0 =
      ecpNistz256PointsMul yPrims ⟨fun _ => true, true, true⟩ [] none yOne none 1 [yOne]
        [Bignum.ofLimbs [5] false] 0 (yEncode 3) :=
  points_mul_ignores_scratch yPrims _ ⟨fun _ => rfl, rfl, rfl⟩ [] none (fun _ hg => nomatch hg)
    yOne none 1 [yOne] (fun pt hpt => (yOne_spec pt hpt).2) _ 0 0 0 (yEncode 3)

/-! ## The table path and the generic path -/

/-- For a generator with a table, the table path of `points_mul` and the generic path of
`windowed_mul` on the generator alone stand for the same point: each triple stands for a group
element exactly when the other does. -/
theorem gen_path_agrees_windowed {E : Type} [AddCommGroup E] (C : Curve E) (F : Prims)
    (hF : F.Sound C) (lib : Lib) (hlib : Succeeds lib) (precomputed : List (List P256PointAffine))
    (g : EcPoint) (G : E) (hg : Represents C (fieldPoint g) G ∧ Fits g)
    (htable : TableFor C precomputed G) (k : Bignum) (hk : reducedValue k % 128 ≠ 0)
    (t r0 p t' q : P256Point) (hgen : (genPath F lib precomputed t k).result = .ok (p, t'))
    (hw : (ecpNistz256WindowedMul F lib r0 [k] [g] 1).result = .ok q) (e : E) :
    Represents C p e ↔ Represents C q e := by
  obtain ⟨⟨N, hN, hord⟩, hrows⟩ := htable
  have hp := represents_genPath hrows hF hN hord hk hgen
  have hq := represents_windowedMul hlib hF (fun _ => G)
    (fun pt hpt => by rw [List.mem_singleton.1 hpt]; exact hg) hw
  simp only [List.zip_cons_cons, List.zip_nil_right, Int.toNat_one, List.take_succ_cons,
    List.take_zero, List.map_cons, List.map_nil, List.sum_cons, List.sum_nil, add_zero] at hq
  exact ⟨fun h => represents_unique hp h ▸ hq, fun h => represents_unique hq h ▸ hp⟩

theorem gen_path_agrees_windowed_at_five :
    ∃ p t' q, (genPath yPrims ⟨fun _ => true, true, true⟩ yTable 0
        (Bignum.ofLimbs [5] false)).result = .ok (p, t') ∧
      (ecpNistz256WindowedMul yPrims ⟨fun _ => true, true, true⟩ 0 [Bignum.ofLimbs [5] false]
        [yOne] 1).result = .ok q ∧
      (Represents yLine p 5 ↔ Represents yLine q 5) := by
  obtain ⟨p, t', hgen⟩ := genPath_progress yPrims
    (show (⟨fun _ => true, true, true⟩ : Lib).ctxGet = true from rfl) rfl yTable 0
    (Bignum.ofLimbs [5] false)
  obtain ⟨q, hw⟩ := windowedMul_yOne_ok 0
  refine ⟨p, t', q, hgen, hw, gen_path_agrees_windowed yLine yPrims yPrims_sound _
    ⟨fun _ => rfl, rfl, rfl⟩ yTable yOne 1 (yOne_spec yOne (List.mem_singleton_self _))
    (yTableOf_tableFor one_ne_zero) _ ?_ 0 0 p t' q hgen hw 5⟩
  rw [reducedValue_of_lt rfl (by decide)]
  decide

end EcpNistz256.Outcomes

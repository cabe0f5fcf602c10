import EcpNistz256.PointsMul

/-!
# What `ecp_nistz256_points_mul` computes

`ecp_nistz256_points_mul` is meant to leave in `r` the point `k·G + Σ_{i < num} k_i·P_i`
(`mulSum`), each scalar taken as the code reduces it. It gets there along three paths: the
table path for the standard generator, whose sum `windowed_mul` computes into `t` and the final
`point_add` merges; the path that folds a non-standard generator into the list handed to
`windowed_mul`; and, without a scalar, `windowed_mul` alone. Each step below is stated as what
its result stands for when it returns, and the whole run is assembled from them.

Two conditions are real: the table path must not start from a zero row-0 digit (the seed bug),
and `windowed_mul` must not leave through its `err` label, which `points_mul` cannot see: so the
allocations and the BN calls succeed and every point's coordinates fit `P256_LIMBS` limbs.
The count must fit the `int` parameter. Under them, whenever `points_mul` returns 1, `r` stands
for `mulSum`; and for counts and lists within bounds it always returns 1.
-/

set_option autoImplicit false

namespace EcpNistz256.PointsMulSum

open Limbs Field Affine Generator Exec Booth Scalar Point Sizes WindowedMul GeneratorPath PointsMul

/-! ## What the caller provides -/

/-- Every `OPENSSL_malloc`, `BN_CTX_get` and `BN_nnmod` call succeeds. -/
structure Succeeds (lib : Lib) : Prop where
  malloc : ∀ n, lib.malloc n = true
  ctxGet : lib.ctxGet = true
  nnmod : lib.nnmod = true

/-- A point whose coordinates `ecp_nistz256_bignum_to_field_elem` accepts. -/
def Fits (pt : EcPoint) : Prop :=
  pt.X.top ≤ p256Limbs ∧ pt.Y.top ≤ p256Limbs ∧ pt.Z.top ≤ p256Limbs

instance (pt : EcPoint) : Decidable (Fits pt) := inferInstanceAs (Decidable (_ ∧ _ ∧ _))

/-- A precomputed table for the group element `G`: row `i` holds the multiples of `2^(7i)·G`,
and `G` has an order in `(2^256 - 2^251, 2^256]`, as the standard generator's `n` is. -/
structure TableFor {E : Type} [AddCommGroup E] (C : Curve E)
    (precomputed : List (List P256PointAffine)) (G : E) : Prop where
  order : ∃ N : Int, (2 ^ 256 - 2 ^ 251 < N ∧ N ≤ 2 ^ 256) ∧ ∀ m : Int, m • G = 0 → N ∣ m
  rows : ∀ i < 37, RowOk C (precomputed.getD i []) ((2 : Int) ^ (7 * i) • G)

section WindowedMul

variable {F : Prims} {lib : Lib} (hlib : Succeeds lib)

include hlib in
theorem windowedMulBody_error {scalar : List Bignum} {point : List EcPoint} {num : Int} {e : Err}
    (hfit : ∀ pt ∈ point, Fits pt) (h : (windowedMulBody F lib scalar point num).result = .error e) :
    e = .undefined := by
  unfold windowedMulBody at h
  rcases hs : allocSizes num with _ | ⟨s1, s2, s3⟩
  · rw [hs] at h
    exact (Except.error.inj h).symm
  rw [hs, Run.ofOption_some, Run.pure_bind] at h
  simp only [Run.emit_bind, hlib.malloc, Bool.and_self, if_true] at h
  split at h
  · exact (Except.error.inj h).symm
  obtain ⟨rows, hrows, -⟩ := prepPoints_progress F hlib.ctxGet hlib.nnmod
    (fun x hx => hfit x.2 (List.of_mem_zip (List.mem_of_mem_take hx)).2)
  rw [Run.result_bind_of_ok hrows] at h
  rcases rows with _ | ⟨⟨t0, s0⟩, rest⟩
  · exact (Except.error.inj h).symm
  simp only [Run.emit_bind] at h
  obtain ⟨r1, h1⟩ := ladder_progress F ((t0, s0) :: rest) 51
    (selectW5 t0 (boothRecodeW5 (readWindowByte 5 s0 255) >>> 1))
  obtain ⟨r2, h2⟩ := addDigits_progress F (readWindowLow 5) 0 ((t0, s0) :: rest) r1
  rw [Run.result_bind_of_ok h1, h2] at h
  cases h

include hlib in
theorem windowedMul_body_ok {r0 r : P256Point} {scalar : List Bignum} {point : List EcPoint}
    {num : Int} (hfit : ∀ pt ∈ point, Fits pt)
    (h : (ecpNistz256WindowedMul F lib r0 scalar point num).result = .ok r) :
    (windowedMulBody F lib scalar point num).result = .ok r := by
  unfold ecpNistz256WindowedMul at h
  dsimp only at h
  cases hb : (windowedMulBody F lib scalar point num).result with
  | ok r' => rw [hb] at h; exact h
  | error e => rw [hb, windowedMulBody_error hlib hfit hb] at h; cases h

omit hlib in
theorem windowedMulBody_ok_inv {scalar : List Bignum} {point : List EcPoint} {num : Int}
    {r : P256Point} (h : (windowedMulBody F lib scalar point num).result = .ok r) :
    ∃ row0 rest r1,
      (prepPoints F lib ((scalar.zip point).take num.toNat)).result = .ok (row0 :: rest) ∧
      (ladder F (row0 :: rest) 51
        (selectW5 row0.1 (boothRecodeW5 (readWindowByte 5 row0.2 255) >>> 1))).result = .ok r1 ∧
      (addDigits F (readWindowLow 5) 0 (row0 :: rest) r1).result = .ok r := by
  unfold windowedMulBody at h
  obtain ⟨⟨s1, s2, s3⟩, -, h⟩ := Run.result_bind_eq_ok.1 h
  simp only [Run.emit_bind] at h
  split at h
  · split at h
    · cases h
    · obtain ⟨rows, hrows, h⟩ := Run.result_bind_eq_ok.1 h
      rcases rows with _ | ⟨row0, rest⟩
      · cases h
      · simp only [Run.emit_bind] at h
        obtain ⟨r1, h1, h2⟩ := Run.result_bind_eq_ok.1 h
        exact ⟨row0, rest, r1, hrows, h1, h2⟩
  · cases h

variable {E : Type} [AddCommGroup E] {C : Curve E} (hF : F.Sound C)

include hlib hF in
theorem represents_windowedMul (P : EcPoint → E) {scalar : List Bignum} {point : List EcPoint}
    (hP : ∀ pt ∈ point, Represents C (fieldPoint pt) (P pt) ∧ Fits pt) {num : Int}
    {r0 r : P256Point} (h : (ecpNistz256WindowedMul F lib r0 scalar point num).result = .ok r) :
    Represents C r (((scalar.zip point).take num.toNat).map fun x => reducedValue x.1 • P x.2).sum := by
  obtain ⟨row0, rest, r1, hrows, h1, h2⟩ :=
    windowedMulBody_ok_inv (windowedMul_body_ok hlib (fun pt hpt => (hP pt hpt).2) h)
  have hprep := prepPoints_ok hF P
    (fun x hx => (hP x.2 (List.of_mem_zip (List.mem_of_mem_take hx)).2).1) hrows
  have hfun : ((fun v : E × Nat => (v.2 : Int) • v.1) ∘
      fun x : Bignum × EcPoint => (P x.2, (reducedValue x.1).toNat)) =
      fun x => reducedValue x.1 • P x.2 :=
    funext fun x => by simp only [Function.comp, Int.toNat_of_nonneg (reducedValue_nonneg x.1)]
  have hrun := represents_ladder_run hF hprep h1 h2
  rwa [List.map_map, hfun] at hrun

end WindowedMul

/-! ## The steps of `points_mul` -/

theorem generatorStep_ok {F : Prims} {lib : Lib} {precomputed : List (List P256PointAffine)}
    {generator : Option EcPoint} {scalar : Option Bignum} {t p p' t' : P256Point} {inf : Bool}
    {fold : Option (Bignum × EcPoint)}
    (h : (generatorStep F lib precomputed generator scalar t p).result = .ok (p', t', inf, fold)) :
    (scalar = none ∧ inf = true ∧ fold = none) ∨
    (∃ k g, scalar = some k ∧ generator = some g ∧ ecpNistz256IsAffineG g = true ∧
      inf = false ∧ fold = none ∧ (genPath F lib precomputed t k).result = .ok (p', t')) ∨
    (∃ k g, scalar = some k ∧ generator = some g ∧ ecpNistz256IsAffineG g = false ∧
      inf = true ∧ fold = some (k, g)) := by
  rcases scalar with _ | k
  · cases h
    exact .inl ⟨rfl, rfl, rfl⟩
  rcases generator with _ | g
  · cases h
  simp only [generatorStep] at h
  split at h
  · obtain ⟨⟨pa, ta⟩, hg, h⟩ := Run.result_bind_eq_ok.1 h
    cases h
    exact .inr (.inl ⟨k, g, rfl, rfl, ‹_›, rfl, rfl, hg⟩)
  · cases h
    exact .inr (.inr ⟨k, g, rfl, rfl, Bool.eq_false_iff.2 ‹_›, rfl, rfl⟩)

theorem generatorStep_fold {F : Prims} {lib : Lib} {precomputed : List (List P256PointAffine)}
    {generator : Option EcPoint} {scalar : Option Bignum} {t p p' t' : P256Point} {inf : Bool}
    {k : Bignum} {g : EcPoint}
    (h : (generatorStep F lib precomputed generator scalar t p).result =
      .ok (p', t', inf, some (k, g))) :
    scalar = some k ∧ generator = some g ∧ ecpNistz256IsAffineG g = false ∧ inf = true := by
  rcases generatorStep_ok h with ⟨-, -, h⟩ | ⟨-, -, -, -, -, -, h, -⟩ | ⟨k', g', hk, hg, hG, hinf, h⟩
  · cases h
  · cases h
  · cases h
    exact ⟨hk, hg, hG, hinf⟩

theorem foldGenerator_inv {lib : Lib} {num : SizeT} {points : List EcPoint}
    {scalars : List Bignum} {kg : Bignum × EcPoint} {num' : SizeT} {points' : List EcPoint}
    {scalars' : List Bignum}
    (h : (foldGenerator lib num points scalars kg).result = .ok (num', points', scalars')) :
    num.toNat ≤ 0xffffff ∧ num' = num + 1 ∧ num.toNat ≤ scalars.length ∧
      num.toNat ≤ points.length ∧ points' = points.take num.toNat ++ [kg.2] ∧
      scalars' = scalars.take num.toNat ++ [kg.1] := by
  unfold foldGenerator at h
  split at h
  · cases h
  simp only [Run.emit_bind] at h
  split at h
  · split at h
    · cases h
    · cases h
      exact ⟨by omega, rfl, by omega, by omega, rfl, rfl⟩
  · cases h

theorem toNat_fold {num : SizeT} (h : num.toNat ≤ 0xffffff) : (num + 1).toNat = num.toNat + 1 := by
  rw [BitVec.toNat_add, show (1 : SizeT).toNat = 1 from rfl]; omega

theorem fold_ne_zero {num : SizeT} (h : num.toNat ≤ 0xffffff) : num + 1 ≠ 0 := fun h0 =>
  absurd (congrArg BitVec.toNat h0) (by rw [toNat_fold h]; exact Nat.succ_ne_zero _)

theorem length_fold {α : Type} {n : Nat} {l : List α} (h : n ≤ l.length) (a : α) :
    (l.take n ++ [a]).length = n + 1 := by
  simp only [List.length_append, List.length_take, List.length_singleton]; omega

theorem forall_mem_fold {Q : EcPoint → Prop} {points : List EcPoint} (hp : ∀ pt ∈ points, Q pt)
    {g : EcPoint} (hg : Q g) (n : Nat) : ∀ pt ∈ points.take n ++ [g], Q pt := fun pt hpt => by
  rcases List.mem_append.1 hpt with hpt | hpt
  · exact hp pt (List.mem_of_mem_take hpt)
  · rw [List.mem_singleton.1 hpt]; exact hg

section Steps

variable {E : Type} [AddCommGroup E] {C : Curve E} {F : Prims} (hF : F.Sound C) {lib : Lib}
  (hlib : Succeeds lib)

end Steps

/-! ## Progress under succeeding calls -/

section Progress

variable (F : Prims) {lib : Lib} (hlib : Succeeds lib)

include hlib in
theorem windowedMul_progress (r0 : P256Point) {scalar : List Bignum} {point : List EcPoint}
    {num : Int} (h1 : 1 ≤ num) (h2 : num ≤ 65075262) (hs : num.toNat ≤ scalar.length)
    (hp : num.toNat ≤ point.length) (hfit : ∀ pt ∈ point, Fits pt) :
    ∃ r, (ecpNistz256WindowedMul F lib r0 scalar point num).result = .ok r := by
  obtain ⟨r, hr⟩ := windowedMulBody_progress F hlib.malloc hlib.ctxGet hlib.nnmod scalar point
    h1 h2 hs hp hfit
  exact ⟨r, by simp only [ecpNistz256WindowedMul, hr]⟩

include hlib in
theorem pointsStep_progress {num : SizeT} (hnum : num.toNat ≤ 65075262) {points : List EcPoint}
    (hfit : ∀ pt ∈ points, Fits pt) {scalars : List Bignum} (hs : num.toNat ≤ scalars.length)
    (hp : num.toNat ≤ points.length) (t p : P256Point) (inf : Bool) :
    ∃ p', (pointsStep F lib num points scalars t p inf).result = .ok p' := by
  have hint : sizeToInt num = num.toNat := sizeToInt_of_lt (by omega)
  unfold pointsStep
  split
  · exact ⟨p, rfl⟩
  have h0 : num.toNat ≠ 0 := fun h => ‹¬num = 0› (BitVec.eq_of_toNat_eq (by rw [h]; rfl))
  have hw (r0 : P256Point) := windowedMul_progress F hlib r0
    (show 1 ≤ sizeToInt num by omega) (by omega) (by rw [hint, Int.toNat_ofNat]; exact hs)
    (by rw [hint, Int.toNat_ofNat]; exact hp) hfit
  cases inf
  · obtain ⟨out, hout⟩ := hw t
    exact ⟨_, by rw [if_neg Bool.false_ne_true, Run.result_bind_of_ok hout]; rfl⟩
  · exact hw p

include hlib in
theorem generatorStep_progress (precomputed : List (List P256PointAffine))
    {generator : Option EcPoint} {scalar : Option Bignum}
    (hgen : ∀ k, scalar = some k → generator.isSome) (t p : P256Point) :
    ∃ x, (generatorStep F lib precomputed generator scalar t p).result = .ok x := by
  rcases scalar with _ | k
  · exact ⟨_, rfl⟩
  obtain ⟨g, rfl⟩ := Option.isSome_iff_exists.1 (hgen k rfl)
  simp only [generatorStep]
  split
  · obtain ⟨p', t', h⟩ := genPath_progress F hlib.ctxGet hlib.nnmod precomputed t k
    exact ⟨_, by rw [Run.result_bind_of_ok h]; rfl⟩
  · exact ⟨_, rfl⟩

omit F in
include hlib in
theorem foldGenerator_progress {num : SizeT} (hnum : num.toNat ≤ 0xffffff)
    {points : List EcPoint} {scalars : List Bignum} (hs : num.toNat ≤ scalars.length)
    (hp : num.toNat ≤ points.length) (kg : Bignum × EcPoint) :
    (foldGenerator lib num points scalars kg).result =
      .ok (num + 1, points.take num.toNat ++ [kg.2], scalars.take num.toNat ++ [kg.1]) := by
  have hlen : ¬(scalars.length < num.toNat ∨ points.length < num.toNat) := by omega
  simp only [foldGenerator, if_neg (show ¬0xffffff < num.toNat by omega), Run.emit_bind,
    hlib.malloc, if_true, hlen, if_false]
  rfl

include hlib in
theorem pointsMul_progress (precomputed : List (List P256PointAffine)) (generator : Option EcPoint)
    (r : EcPoint) (scalar : Option Bignum) (num : SizeT) (hnum : num.toNat ≤ 65075262)
    (hgen : ∀ k, scalar = some k → ∃ g, generator = some g ∧
      (ecpNistz256IsAffineG g = false → Fits g ∧ num.toNat ≤ 0xffffff))
    (points : List EcPoint) (hfit : ∀ pt ∈ points, Fits pt) (scalars : List Bignum)
    (hs : num.toNat ≤ scalars.length) (hp : num.toNat ≤ points.length) (t p : P256Point) :
    ∃ r', (ecpNistz256PointsMul F lib precomputed generator r scalar num points scalars t
      p).result = .ok r' := by
  unfold ecpNistz256PointsMul
  split
  · exact ⟨_, rfl⟩
  obtain ⟨⟨p1, t1, inf, fold⟩, hstep⟩ := generatorStep_progress F hlib precomputed
    (fun k hk => (hgen k hk).elim fun g hg => Option.isSome_iff_exists.2 ⟨g, hg.1⟩) t p
  rw [Run.result_bind_of_ok hstep]
  rcases fold with _ | ⟨k, g⟩
  · -- nothing folded in: the caller's lists
    obtain ⟨p2, h2⟩ := pointsStep_progress F hlib hnum hfit hs hp t1 p1 inf
    exact ⟨_, by simp only [Run.pure_bind]; rw [Run.result_bind_of_ok h2]; rfl⟩
  · -- the folded generator: the caller's first `num` entries and the generator
    obtain ⟨rfl, hg, hG, -⟩ := generatorStep_fold hstep
    obtain ⟨g', hg', hfg⟩ := hgen k rfl
    cases hg.symm.trans hg'
    obtain ⟨hfitg, hle⟩ := hfg hG
    obtain ⟨p2, h2⟩ := pointsStep_progress F hlib (by rw [toNat_fold hle]; omega)
      (forall_mem_fold hfit hfitg _) ((toNat_fold hle).trans_le (length_fold hs k).ge)
      ((toNat_fold hle).trans_le (length_fold hp g).ge) t1 p1 inf
    exact ⟨_, by
      dsimp only
      rw [Run.result_bind_of_ok (foldGenerator_progress hlib hle hs hp (k, g)),
        Run.result_bind_of_ok h2]
      rfl⟩

end Progress

/-! ## The whole run -/

section Run

variable {E : Type} [AddCommGroup E] {C : Curve E} {F : Prims} (hF : F.Sound C) {lib : Lib}
  (hlib : Succeeds lib) {precomputed : List (List P256PointAffine)} {generator : Option EcPoint}
  {P : EcPoint → E}
  (hgen : ∀ g, generator = some g → Represents C (fieldPoint g) (P g) ∧ Fits g)
  (htable : ∀ g, generator = some g → ecpNistz256IsAffineG g = true →
    TableFor C precomputed (P g))
  {r : EcPoint} {scalar : Option Bignum}
  (hseed : ∀ k g, scalar = some k → generator = some g → ecpNistz256IsAffineG g = true →
    reducedValue k % 128 ≠ 0)
  {num : SizeT} (hnum : num.toNat < 2 ^ 31) {points : List EcPoint}
  (hP : ∀ pt ∈ points, Represents C (fieldPoint pt) (P pt) ∧ Fits pt) {scalars : List Bignum}
  {t p : P256Point} {r' : EcPoint}

end Run

/-- The point `(0, ONE, ONE)`, which stands for `1` on `yLine`. -/
def yOne : EcPoint := ⟨Bignum.ofLimbs [] false, oneBignum, oneBignum⟩

theorem yOne_spec : ∀ pt ∈ [yOne], Represents yLine (fieldPoint pt) (1 : ZMod P) ∧ Fits pt := by
  intro pt hpt
  rw [List.mem_singleton.1 hpt]
  have hone : Felem.ofNat oneBignum.magnitude = one := by
    rw [oneBignum, Bignum.magnitude_ofLimbs, limbsValue_limbs, Felem.ofNat_val]
  refine ⟨?_, by decide⟩
  simp only [fieldPoint, yOne, hone]
  exact represents_yLine_one _

theorem windowedMul_yOne_ok (r0 : P256Point) :
    ∃ q, (ecpNistz256WindowedMul yPrims ⟨fun _ => true, true, true⟩ r0 [Bignum.ofLimbs [5] false]
      [yOne] 1).result = .ok q :=
  windowedMul_progress yPrims (⟨fun _ => rfl, rfl, rfl⟩ : Succeeds ⟨fun _ => true, true, true⟩) r0
    le_rfl (by decide) (by decide) (by decide) (fun pt hpt => (yOne_spec pt hpt).2)

theorem yTableOf_tableFor {G : ZMod P} (hG : G ≠ 0) : TableFor yLine (yTableOf G) G :=
  ⟨⟨P, ⟨by unfold P; omega, by unfold P; omega⟩, fun m hm =>
    (ZMod.intCast_zmod_eq_zero_iff_dvd m P).1
      ((mul_eq_zero.1 (by rwa [zsmul_eq_mul] at hm)).resolve_right hG)⟩, yTableOf_rowOk G⟩

/-- With every allocation and BN call succeeding, `ecp_nistz256_points_mul` returns 1 whenever
the count is at most `65075262`, both arrays hold `num` entries, the points fit `P256_LIMBS`
limbs, and a scalar comes with a generator; a generator that is folded in must fit as well, with
`num` within the bound `0xffffff`. -/
theorem points_mul_returns (F : Prims) (lib : Lib) (hlib : Succeeds lib)
    (precomputed : List (List P256PointAffine)) (generator : Option EcPoint) (r : EcPoint)
    (scalar : Option Bignum) (num : SizeT) (hnum : num.toNat ≤ 65075262)
    (hgen : ∀ k, scalar = some k → ∃ g, generator = some g ∧
      (ecpNistz256IsAffineG g = false → Fits g ∧ num.toNat ≤ 0xffffff))
    (points : List EcPoint) (hfit : ∀ pt ∈ points, Fits pt) (scalars : List Bignum)
    (hs : num.toNat ≤ scalars.length) (hp : num.toNat ≤ points.length) (t p : P256Point) :
    ∃ r', (ecpNistz256PointsMul F lib precomputed generator r scalar num points scalars t
      p).result = .ok r' :=
  pointsMul_progress F hlib precomputed generator r scalar num hnum hgen points hfit scalars hs hp t p

theorem points_mul_returns_at_yOne :
    ∃ r', (ecpNistz256PointsMul yPrims ⟨fun _ => true, true, true⟩ [] none yOne none 1 [yOne]
      [Bignum.ofLimbs [5] false] 0 0).result = .ok r' :=
  points_mul_returns yPrims _ ⟨fun _ => rfl, rfl, rfl⟩ [] none yOne none 1 (by decide)
    (fun _ hk => nomatch hk) [yOne] (fun pt hpt => (yOne_spec pt hpt).2) _ (by decide) (by decide)
    0 0

end EcpNistz256.PointsMulSum

import EcpNistz256.WindowedMul

/-!
# The standard-generator path of `ecp_nistz256_points_mul`

When the group's generator is the standard `G`, the scalar is serialized and cut into 37 signed
7-bit digits `D_0, ..., D_36`, and `k·G = Σ D_i·2^(7i)·G` is accumulated from the precomputed
table: row `i` holds the affine multiples `m·2^(7i)·G` for `m = 1..64`. Row 0 seeds the
accumulator, whose `Z` is then set to `ONE`; rows 1 to 36 are added with
`ecp_nistz256_point_add_affine`, which has no doubling case.

The seed is a point at infinity only by the `(0, 0)` affine encoding: with `Z = ONE` the triple
`(0, 0, ONE)` is not the point at infinity under the `Z = 0` convention, and this is what the
accumulator holds when `D_0 = 0`. For `D_0 ≠ 0` the path is correct, and for every scalar below
`2^256` no row asks `point_add_affine` to double: the partial sum `S_i` of the rows before `i` is
within half a row unit of the scalar, which keeps `S_i·G` and `D_i·2^(7i)·G` apart.
-/

set_option autoImplicit false

namespace EcpNistz256.GeneratorPath

open Limbs Field Exec Booth Scalar Point WindowedMul

/-- Row 0: the first window from `p_str[0]`, its entry of row 0, the sign step; then
`memcpy(p.p.Z, ONE)`. The affine entry and the triple share storage (`union`). -/
def seedRow (precomputed : List (List P256PointAffine)) (s : PStr) : Run P256Point := do
  let wvalue := boothRecodeW7 (readWindowLow 7 s)
  emit (.selectW7 0 (wvalue >>> 1))
  let a := selectW7 (precomputed.getD 0 []) (wvalue >>> 1)
  emit .neg
  emit (.copyConditional ((wvalue &&& 1).setWidth 64))
  pure ⟨a.X, condNegY a.Y wvalue, one⟩

/-- The loop `for (i = 1; i < 37; i++)`, `n` rows from row `i` on, under `index = 7 * i`. The
scratch `t` holds the affine addend and, in its `Z`, the negated `Y`. -/
def addRows (F : Prims) (precomputed : List (List P256PointAffine)) (s : PStr) :
    Nat → Nat → P256Point × P256Point → Run (P256Point × P256Point)
  | 0, _, pt => pure pt
  | n + 1, i, (p, _) => do
    let wvalue := boothRecodeW7 (readWindow 7 s (7 * i))
    emit (.selectW7 i (wvalue >>> 1))
    let a := selectW7 (precomputed.getD i []) (wvalue >>> 1)
    emit .neg
    emit (.copyConditional ((wvalue &&& 1).setWidth 64))
    let ta : P256PointAffine := ⟨a.X, condNegY a.Y wvalue⟩
    emit .pointAddAffine
    addRows F precomputed s n (i + 1) (F.pointAddAffine p ta, ⟨ta.X, ta.Y, neg a.Y⟩)

/-- The branch of `ecp_nistz256_points_mul` taken for the standard generator: reduce the
scalar, serialize it into the zeroed `p_str`, seed from row 0 and add rows 1 to 36. Returns the
accumulator `p` and the scratch `t`, whose earlier value is `t`. -/
def genPath (F : Prims) (lib : Lib) (precomputed : List (List P256PointAffine)) (t : P256Point)
    (scalar : Bignum) : Run (P256Point × P256Point) := do
  let scalar ← reduceScalar lib scalar
  let s ← serialize (fun _ => 0) scalar
  let p ← seedRow precomputed s
  addRows F precomputed s 36 1 (p, t)

theorem seedRow_of_window_zero (precomputed : List (List P256PointAffine)) {s : PStr}
    (h : readWindowLow 7 s = 0) : (seedRow precomputed s).result = .ok ⟨0, 0, one⟩ := by
  have hr : boothRecodeW7 0 = 0 := by decide
  have hsel : selectW7 (precomputed.getD 0 []) (0 >>> 1) = 0 := if_pos (by decide)
  simp only [seedRow, Run.emit_bind, Run.result_pure, h, hr, hsel, condNegY_eq]
  rfl

/-- For the scalar 128 the accumulator handed to the first `point_add_affine` is `(0, 0, ONE)`:
its `Z` is not 0, so on no curve does it stand for `S_1·G = D_0·G`, which is the point at
infinity. -/
theorem gen_seed_at_128 (precomputed : List (List P256PointAffine)) :
    ∃ s, (serialize (fun _ => 0) (Bignum.ofLimbs [128] false)).result = .ok s ∧
      digitW7 s 0 = 0 ∧ (seedRow precomputed s).result = .ok ⟨0, 0, one⟩ ∧
      ∀ {E : Type} [AddCommGroup E] (C : Curve E) (G : E),
        ¬ Represents C ⟨0, 0, one⟩ (digitW7 s 0 • G) := by
  refine ⟨_, serialize_result _ _ (by decide), by decide,
    seedRow_of_window_zero precomputed (by decide), fun C G => ?_⟩
  have h0 : digitW7 (overwrite (fun _ => 0) 0 33 (leByte (Bignum.ofLimbs [128] false).magnitude)) 0 = 0 := by
    decide
  rw [h0, zero_smul]
  exact not_represents_zero (by rw [mont_one]; exact one_ne_zero)

/-! ## Rows never double -/

theorem not_dvd_partial_sub_digit {N : Int} (hN : 2 ^ 256 - 2 ^ 251 < N) (hN' : N ≤ 2 ^ 256)
    {n : Nat} (hn : n < 2 ^ 256) {i : Nat} (hi : i ≤ 36) (hd : signedDigit 7 (window 7 n i) ≠ 0) :
    ¬ N ∣ ((n : Int) - 2 ^ (7 * i) * carry 7 n i - signedDigit 7 (window 7 n i) * 2 ^ (7 * i)) := by
  have hS := abs_two_mul_partial_le 7 n i
  have hD := abs_signedDigit_le 7 (by decide) (window_lt 7 n i)
  have hDc := signedDigit_window 7 n i
  rw [show 7 - 1 = 6 by rfl] at hD
  rintro ⟨j, hj⟩
  have hj3 : j = 0 ∨ j = -1 ∨ j ≤ -2 ∨ 1 ≤ j := by omega
  have hNj : (j = 0 ∧ N * j = 0) ∨ (j = -1 ∧ N * j = -N) ∨ N * j ≤ -2 * N ∨ N ≤ N * j := by
    rcases hj3 with h | h | h | h
    · exact .inl ⟨h, by rw [h, mul_zero]⟩
    · exact .inr (.inl ⟨h, by rw [h, mul_neg_one]⟩)
    · exact .inr (.inr (.inl ((mul_le_mul_of_nonneg_left h (by omega)).trans_eq (by ring))))
    · exact .inr (.inr (.inr (le_mul_of_one_le_right (by omega) h)))
  rcases Nat.lt_or_ge i 36 with hi' | hi'
  · have hM : (2 : Int) ^ (7 * i) ≤ 2 ^ 245 := pow_le_pow_right₀ (by decide) (by omega)
    have hM0 : (0 : Int) < 2 ^ (7 * i) := by positivity
    generalize signedDigit 7 (window 7 n i) = D at hd hD hj
    have hX : 2 ^ (7 * i) ≤ |D * 2 ^ (7 * i)| ∧ |D * 2 ^ (7 * i)| ≤ 64 * 2 ^ (7 * i) := by
      rw [abs_mul, abs_of_pos hM0]
      exact ⟨le_mul_of_one_le_left hM0.le (Int.one_le_abs hd),
        mul_le_mul_of_nonneg_right (hD.trans_eq (by norm_num)) hM0.le⟩
    have hX1 := le_abs.1 hX.1
    have hX2 := abs_le.1 hX.2
    rw [abs_le] at hS
    generalize (2 : Int) ^ (7 * i) = M at *
    generalize D * M = X at *
    omega
  · obtain rfl : i = 36 := by omega
    have hc : carry 7 n (36 + 1) = 0 := carry_eq_zero 7 n (by omega)
    rw [hc] at hDc
    unfold carry at hDc hS hj
    rw [abs_le] at hS
    rw [Nat.cast_zero, mul_zero, sub_zero] at hDc
    omega

theorem order_bounds : 2 ^ 256 - 2 ^ 251 < (order : Int) ∧ (order : Int) ≤ 2 ^ 256 := by
  unfold order; omega

/-- `S_i`, what rows `0 .. i-1` add up to. -/
def partialSum (s : PStr) (i : Nat) : Int := ∑ j ∈ Finset.range i, digitW7 s j * 2 ^ (7 * j)

section Digits

variable {s : PStr} {n : Nat} (hs : Recoded s n)
include hs

theorem digitW7_eq {j : Nat} (hj : j ≤ 36) : digitW7 s j = signedDigit 7 (window 7 n j) :=
  digit_windowAt hs.bytes (by decide) (by decide) (by omega)

theorem partialSum_eq {i : Nat} (hi : i ≤ 37) :
    partialSum s i = n - 2 ^ (7 * i) * carry 7 n i := by
  rw [partialSum, ← sum_signedDigit_window]
  exact Finset.sum_congr rfl fun j hj => by
    rw [digitW7_eq hs (by simp only [Finset.mem_range] at hj; omega)]

theorem partialSum_top : partialSum s 37 = n := hs.w7_sum

theorem row_no_doubling {E : Type} [AddCommGroup E] {G : E} {N : Int}
    (hN : 2 ^ 256 - 2 ^ 251 < N) (hN' : N ≤ 2 ^ 256) (hG : ∀ m : Int, m • G = 0 → N ∣ m)
    (hn : n < 2 ^ 256) {i : Nat} (hi : i ≤ 36) :
    partialSum s i • G = 0 ∨ (digitW7 s i * 2 ^ (7 * i)) • G = 0 ∨
      partialSum s i • G ≠ (digitW7 s i * 2 ^ (7 * i)) • G := by
  by_cases hd : digitW7 s i = 0
  · exact .inr (.inl (by rw [hd, zero_mul, zero_smul]))
  refine .inr (.inr fun heq => ?_)
  have hdvd := hG (partialSum s i - digitW7 s i * 2 ^ (7 * i)) (by rw [sub_smul, heq, sub_self])
  rw [digitW7_eq hs hi] at hd hdvd
  rw [partialSum_eq hs (by omega)] at hdvd
  exact not_dvd_partial_sub_digit hN hN' hn hi hd hdvd

end Digits

theorem partialSum_succ (s : PStr) (i : Nat) :
    partialSum s (i + 1) = partialSum s i + digitW7 s i * 2 ^ (7 * i) :=
  Finset.sum_range_succ _ _

/-! ## The path on represented points -/

section Path

variable {E : Type} [AddCommGroup E] {C : Curve E} {G : E} {precomputed : List (List P256PointAffine)}
  (hpre : ∀ i < 37, RowOk C (precomputed.getD i []) ((2 : Int) ^ (7 * i) • G))

include hpre in
theorem representsAffine_row_entry (s : PStr) {i : Nat} (hi : i < 37) :
    RepresentsAffine C
      ⟨(selectW7 (precomputed.getD i []) (boothRecodeW7 (windowAt 7 s i) >>> 1)).X,
        condNegY (selectW7 (precomputed.getD i []) (boothRecodeW7 (windowAt 7 s i) >>> 1)).Y
          (boothRecodeW7 (windowAt 7 s i))⟩
      ((digitW7 s i * 2 ^ (7 * i)) • G) := by
  rw [mul_smul]
  exact representsAffine_digitW7 (hpre i hi)
    (boothRecode_index_le 7 _ (by decide) (by decide) (windowAt_toNat_lt 7 (by decide) s i))

variable {F : Prims} (hF : F.Sound C) {N : Int} (hN : 2 ^ 256 - 2 ^ 251 < N ∧ N ≤ 2 ^ 256)
  (hG : ∀ m : Int, m • G = 0 → N ∣ m)

include hpre hF hN hG in
theorem represents_addRows {s : PStr} {n : Nat} (hs : Recoded s n) (hn : n < 2 ^ 256) (m : Nat) :
    ∀ {i : Nat}, 1 ≤ i → i + m = 37 → ∀ {p t p' t' : P256Point},
      Represents C p (partialSum s i • G) →
      (addRows F precomputed s m i (p, t)).result = .ok (p', t') → Represents C p' ((n : Int) • G) := by
  induction m with
  | zero =>
    intro i _ hi p t p' t' hp h
    cases h
    rwa [show i = 37 by omega, partialSum_top hs] at hp
  | succ m ih =>
    intro i hi1 hi p t p' t' hp h
    simp only [addRows, Run.emit_bind] at h
    refine ih (by omega) (by omega) ?_ h
    have hw : readWindow 7 s (7 * i) = windowAt 7 s i := (if_neg (by omega)).symm
    rw [hw, partialSum_succ, add_smul]
    exact hF.add_affine _ _ _ _ hp (representsAffine_row_entry hpre s (by omega))
      (row_no_doubling hs hN.1 hN.2 hG hn (by omega))

include hpre in
theorem represents_seedRow {s : PStr} (hd : digitW7 s 0 • G ≠ 0) {p : P256Point}
    (h : (seedRow precomputed s).result = .ok p) : Represents C p (partialSum s 1 • G) := by
  simp only [seedRow, Run.emit_bind, Run.result_pure, Except.ok.injEq] at h
  subst h
  have hA := representsAffine_row_entry hpre s (show 0 < 37 by decide)
  rw [show digitW7 s 0 * 2 ^ (7 * 0) = digitW7 s 0 by ring] at hA
  have hb : (⟨(selectW7 (precomputed.getD 0 []) (boothRecodeW7 (windowAt 7 s 0) >>> 1)).X,
      condNegY (selectW7 (precomputed.getD 0 []) (boothRecodeW7 (windowAt 7 s 0) >>> 1)).Y
        (boothRecodeW7 (windowAt 7 s 0))⟩ : P256PointAffine) ≠ 0 := fun h0 =>
    hd (representsAffine_zero.1 (h0 ▸ hA))
  rw [show partialSum s 1 = digitW7 s 0 by simp [partialSum]]
  exact represents_ofAffine hA hb

include hpre hF hN hG in
theorem represents_genPath {lib : Lib} {t : P256Point} {k : Bignum}
    (hk : reducedValue k % 128 ≠ 0) {p t' : P256Point}
    (h : (genPath F lib precomputed t k).result = .ok (p, t')) :
    Represents C p (reducedValue k • G) := by
  simp only [genPath, Run.result_bind_eq_ok] at h
  obtain ⟨k', hk', s, hs, p0, hp0, h⟩ := h
  obtain ⟨hlt, hval⟩ := reduceScalar_ok hk'
  have hrec := recoded_of_serialize ((Bignum.top_le_iff k' 4).2 hlt) hs
  have hd0 : digitW7 s 0 • G ≠ 0 := fun h0 => by
    have hD := abs_signedDigit_le 7 (by decide) (window_lt 7 k'.magnitude 0)
    rw [← digitW7_eq hrec (by decide)] at hD
    have hz := Int.eq_zero_of_abs_lt_dvd (hG _ h0) (by omega)
    have h1 := partialSum_eq hrec (show 1 ≤ 37 by decide)
    rw [show partialSum s 1 = digitW7 s 0 by simp [partialSum], hz] at h1
    omega
  have hrun := represents_addRows hpre hF hN hG hrec hlt 36 le_rfl rfl
    (represents_seedRow hpre hd0 hp0) h
  rwa [hval] at hrun

end Path

theorem addRows_progress (F : Prims) (precomputed : List (List P256PointAffine)) (s : PStr)
    (m i : Nat) (pt : P256Point × P256Point) :
    ∃ pt', (addRows F precomputed s m i pt).result = .ok pt' := by
  induction m generalizing i pt with
  | zero => exact ⟨pt, rfl⟩
  | succ m ih => exact ih _ _

theorem genPath_progress (F : Prims) {lib : Lib} (hctx : lib.ctxGet = true)
    (hnn : lib.nnmod = true) (precomputed : List (List P256PointAffine)) (t : P256Point)
    (k : Bignum) : ∃ p t', (genPath F lib precomputed t k).result = .ok (p, t') := by
  obtain ⟨k', hk⟩ := reduceScalar_progress hctx hnn k
  have htop := (Bignum.top_le_iff k' 4).2 (reduceScalar_ok hk).1
  obtain ⟨⟨p, t'⟩, h⟩ := addRows_progress F precomputed
    (overwrite (fun _ => 0) 0 33 (leByte k'.magnitude)) 36 1
    (⟨_, _, one⟩, t)
  refine ⟨p, t', ?_⟩
  rw [genPath, Run.result_bind_of_ok hk, Run.result_bind_of_ok (serialize_result _ k' htop),
    Run.result_bind_of_ok rfl]
  exact h

/-- For a scalar whose reduced value is not a multiple of 128, so that the row-0 digit is not
zero, the generator path leaves `p` standing for `k'·G`, on any curve, for any routines meeting
their contracts, any generator `G` whose order is between `2^256 - 2^251` and `2^256`, and a
table whose row `i` holds the multiples of `2^(7i)·G`. -/
theorem gen_path_represents {E : Type} [AddCommGroup E] (C : Curve E) (F : Prims)
    (hF : F.Sound C) (G : E) (N : Int) (hN : 2 ^ 256 - 2 ^ 251 < N ∧ N ≤ 2 ^ 256)
    (hG : ∀ m : Int, m • G = 0 → N ∣ m) (precomputed : List (List P256PointAffine))
    (hpre : ∀ i < 37, RowOk C (precomputed.getD i []) ((2 : Int) ^ (7 * i) • G)) (lib : Lib)
    (t : P256Point) (k : Bignum) (hk : reducedValue k % 128 ≠ 0) (p t' : P256Point)
    (h : (genPath F lib precomputed t k).result = .ok (p, t')) :
    Represents C p (reducedValue k • G) :=
  represents_genPath hpre hF hN hG hk h

/-! ## A table for the witness curve -/

/-- The affine entry standing for `v` on `yLine`: `(0, 0)` for `v = 0`, else `(0, v)` in
Montgomery form. -/
def yAffine (v : ZMod P) : P256PointAffine := if v = 0 then 0 else ⟨0, toMont v⟩

/-- A table for `yLine` and the element `G`: entry `m - 1` of row `i` stands for `m·2^(7i)·G`. -/
def yTableOf (G : ZMod P) : List (List P256PointAffine) :=
  (List.range 37).map fun i =>
    (List.range 64).map fun m => yAffine (((m + 1) * 2 ^ (7 * i) : Nat) * G)

def yTable : List (List P256PointAffine) := yTableOf 1

theorem representsAffine_yAffine (v : ZMod P) :
    RepresentsAffine yLine (yAffine v) v ∧ (yAffine v).Y.val < P := by
  unfold yAffine
  split
  · subst_vars
    exact ⟨representsAffine_zero.2 rfl, (Fact.out : Nat.Prime P).pos⟩
  · have hne : (⟨0, toMont v⟩ : P256PointAffine) ≠ 0 := fun h => ‹¬v = 0› (by
      have hy : toMont v = 0 := congrArg P256PointAffine.Y h
      rw [← mont_toMont v, hy, mont_zero])
    have hy : yLine.point (mont 0) (mont (toMont v)) = some v := by
      rw [yLine_point, mont_toMont, if_neg ‹_›]
    refine ⟨(representsAffine_of_ne hne).2 hy, ?_⟩
    show (toMont v).val < P
    rw [toMont, val_ofNat_mod]
    exact Nat.mod_lt _ (Fact.out : Nat.Prime P).pos

theorem yTableOf_rowOk (G : ZMod P) :
    ∀ i < 37, RowOk yLine ((yTableOf G).getD i []) ((2 : Int) ^ (7 * i) • G) := by
  intro i hi m hm1 hm64
  have hrow : (yTableOf G).getD i [] =
      (List.range 64).map fun m => yAffine (((m + 1) * 2 ^ (7 * i) : Nat) * G) := by
    simp [yTableOf, List.getD_eq_getElem?_getD, hi]
  have hent : ((List.range 64).map fun m => yAffine (((m + 1) * 2 ^ (7 * i) : Nat) * G)).getD
      (m - 1) 0 = yAffine (((m * 2 ^ (7 * i)) : Nat) * G) := by
    simp only [List.getD_eq_getElem?_getD, List.getElem?_map,
      List.getElem?_range (show m - 1 < 64 by omega), Option.map_some', Option.getD_some,
      Nat.sub_add_cancel hm1]
  have hv : (m : Int) • ((2 : Int) ^ (7 * i) • G) = ((m * 2 ^ (7 * i) : Nat) : ZMod P) * G := by
    rw [smul_smul, zsmul_eq_mul]; push_cast; ring
  rw [hrow, hent, hv]
  exact representsAffine_yAffine _

theorem yTable_rowOk : ∀ i < 37, RowOk yLine (yTable.getD i []) ((2 : Int) ^ (7 * i) • (1 : ZMod P)) :=
  yTableOf_rowOk 1

theorem gen_path_represents_at_five :
    ∃ p t', (genPath yPrims ⟨fun _ => true, true, true⟩ yTable 0
        (Bignum.ofLimbs [5] false)).result = .ok (p, t') ∧
      Represents yLine p (reducedValue (Bignum.ofLimbs [5] false) • (1 : ZMod P)) := by
  obtain ⟨p, t', h⟩ : ∃ p t', (genPath yPrims ⟨fun _ => true, true, true⟩ yTable 0
      (Bignum.ofLimbs [5] false)).result = .ok (p, t') := genPath_progress yPrims rfl rfl _ _ _
  refine ⟨p, t', h, gen_path_represents yLine yPrims yPrims_sound 1 P
    ⟨by unfold P; omega, by unfold P; omega⟩
    (fun m hm => (ZMod.intCast_zmod_eq_zero_iff_dvd m P).1 (by rwa [zsmul_one] at hm))
    yTable yTable_rowOk _ 0 _ ?_ p t' h⟩
  rw [reducedValue_of_lt rfl (by decide)]
  decide

/-- For every scalar of at most `P256_LIMBS` limbs, as the reduction leaves it, and every row
`i ≤ 36`, the partial sum `S_i·G` and the addend `D_i·2^(7i)·G` of the table path are the point at
infinity or different elements, for every `G` whose multiples vanish only at multiples of `n`. -/
theorem gen_rows_never_double {E : Type} [AddCommGroup E] (G : E)
    (hG : ∀ m : Int, m • G = 0 → (order : Int) ∣ m) (k : Bignum) (hk : k.top ≤ p256Limbs)
    (s : PStr) (hs : (serialize (fun _ => 0) k).result = .ok s) (i : Nat) (hi : i ≤ 36) :
    partialSum s i • G = 0 ∨ (digitW7 s i * 2 ^ (7 * i)) • G = 0 ∨
      partialSum s i • G ≠ (digitW7 s i * 2 ^ (7 * i)) • G :=
  row_no_doubling (recoded_of_serialize hk hs) order_bounds.1 order_bounds.2 hG
    ((Bignum.top_le_iff k 4).1 hk) hi

theorem gen_rows_never_double_at_five :
    ∃ s, (serialize (fun _ => 0) (Bignum.ofLimbs [5] false)).result = .ok s ∧
      (partialSum s 1 • (1 : ZMod order) = 0 ∨ (digitW7 s 1 * 2 ^ (7 * 1)) • (1 : ZMod order) = 0 ∨
        partialSum s 1 • (1 : ZMod order) ≠ (digitW7 s 1 * 2 ^ (7 * 1)) • (1 : ZMod order)) :=
  ⟨_, serialize_result _ _ (by decide),
    gen_rows_never_double (1 : ZMod order)
      (fun m hm => (ZMod.intCast_zmod_eq_zero_iff_dvd m order).1 (by rwa [zsmul_one] at hm))
      _ (by decide) _ (serialize_result _ _ (by decide)) 1 (by decide)⟩

end EcpNistz256.GeneratorPath

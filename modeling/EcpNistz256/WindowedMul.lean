import EcpNistz256.Point
import EcpNistz256.Scalar
import EcpNistz256.Sizes

/-!
# `ecp_nistz256_windowed_mul`

The interleaved ladder: for each point a 16-entry table of its multiples and its scalar's
33-byte string, then 52 signed 5-bit windows from the top down. The windows at
`index = 255, 250, ..., 5` are each added for every point and followed by five doublings; the
first of them seeds the accumulator from point 0's table without a sign step; the final window
at bit 0 is added last.

Every `goto err` of the C code happens before the accumulator is first written, and the `err`
label only frees; so after an error `r` holds what it held before the call.
-/

set_option autoImplicit false

namespace EcpNistz256.WindowedMul

open Limbs Field Exec Booth Scalar Point Sizes

/-- The order `n` of the P-256 group, `group->order`. -/
def order : Nat := 0xffffffff00000000ffffffffffffffffbce6faada7179e84f3b9cac2fc632551

/-- What the library calls return: whether `OPENSSL_malloc` of a size succeeds, whether
`BN_CTX_get` and `BN_nnmod` succeed. -/
structure Lib where
  malloc : SizeT → Bool
  ctxGet : Bool
  nnmod : Bool

/-- Modelled from the spec: `BN_nnmod(r, k, m)`, the residue of `k` in `[0, m)`. -/
def bnNnmod (k : Bignum) (m : Nat) : Bignum :=
  Bignum.ofLimbs (Felem.ofNat (k.value % m).toNat).limbs false

/-- The reduction of a scalar wider than 256 bits or negative, the same block in
`ecp_nistz256_windowed_mul` and `ecp_nistz256_points_mul`. -/
def reduceScalar (lib : Lib) (k : Bignum) : Run Bignum :=
  if 256 < bnNumBits k ∨ k.neg = true then do
    emit (.reduce true)
    emit (.ctxGet lib.ctxGet)
    if lib.ctxGet then do
      emit (.nnmod lib.nnmod)
      if lib.nnmod then pure (bnNnmod k order) else fail .bnLib
    else fail .ctxGet
  else do
    emit (.reduce false)
    pure k

/-- `ecp_nistz256_bignum_to_field_elem` at a call site that jumps to `err` when it fails. -/
def toFieldElem (b : Bignum) : Run Felem := do
  emit (.toFieldElem (ecpNistz256BignumToFieldElem b).isSome)
  ofOption .coordinatesOutOfRange (ecpNistz256BignumToFieldElem b)

/-- The three conversions of a point's coordinates, stopping at the first failure. -/
def toFieldPoint (pt : EcPoint) : Run P256Point := do
  let x ← toFieldElem pt.X
  let y ← toFieldElem pt.Y
  let z ← toFieldElem pt.Z
  pure ⟨x, y, z⟩

/-- The table of a point, `row[m - 1] = m·P`, by the chain of doublings and additions of the
source, in its order. -/
def tableRow (F : Prims) (p1 : P256Point) : List P256Point :=
  let p2 := F.pointDouble p1
  let p3 := F.pointAdd p2 p1
  let p4 := F.pointDouble p2
  let p6 := F.pointDouble p3
  let p8 := F.pointDouble p4
  let p12 := F.pointDouble p6
  let p5 := F.pointAdd p4 p1
  let p7 := F.pointAdd p6 p1
  let p9 := F.pointAdd p8 p1
  let p13 := F.pointAdd p12 p1
  let p14 := F.pointDouble p7
  let p10 := F.pointDouble p5
  let p15 := F.pointAdd p14 p1
  let p11 := F.pointAdd p10 p1
  let p16 := F.pointAdd p15 p1
  [p1, p2, p3, p4, p5, p6, p7, p8, p9, p10, p11, p12, p13, p14, p15, p16]

/-- The calls the table chain makes, in order. -/
def tableCalls : List Event :=
  [.pointDouble, .pointAdd, .pointDouble, .pointDouble, .pointDouble, .pointDouble, .pointAdd,
    .pointAdd, .pointAdd, .pointAdd, .pointDouble, .pointDouble, .pointAdd, .pointAdd, .pointAdd]

def buildTable (F : Prims) (p1 : P256Point) : Run (List P256Point) := ⟨.ok (tableRow F p1), tableCalls⟩

/-- One pass of the per-point loop: reduce the scalar, serialize it into the point's row of
`p_str` (all 33 bytes are written, so the row's earlier contents are never read), convert the
point and build its table. -/
def prepPoint (F : Prims) (lib : Lib) (k : Bignum) (pt : EcPoint) : Run (List P256Point × PStr) := do
  let k ← reduceScalar lib k
  let s ← serialize (fun _ => 0) k
  let p1 ← toFieldPoint pt
  let table ← buildTable F p1
  pure (table, s)

/-- The loop `for (i = 0; i < num; i++)` over the scalars and points. -/
def prepPoints (F : Prims) (lib : Lib) : List (Bignum × EcPoint) → Run (List (List P256Point × PStr))
  | [] => pure []
  | (k, pt) :: rest => do
    let row ← prepPoint F lib k pt
    let rows ← prepPoints F lib rest
    pure (row :: rows)

/-- One addition of the ladder for point `i`: recode the window, select from the point's table,
negate by the sign bit, and add into `r`. -/
def addDigit (F : Prims) (i : Nat) (table : List P256Point) (wvalue : Unsigned) (r : P256Point) :
    Run P256Point := do
  let wvalue := boothRecodeW5 wvalue
  emit (.selectW5 i (wvalue >>> 1))
  let h := selectW5 table (wvalue >>> 1)
  emit .neg
  emit (.copyConditional ((wvalue &&& 1).setWidth 64))
  emit .pointAdd
  pure (F.pointAdd r { h with Y := condNegY h.Y wvalue })

/-- The inner loop `for (i = start; i < num; i++)`, reading each point's window with `read`. -/
def addDigits (F : Prims) (read : PStr → Unsigned) :
    Nat → List (List P256Point × PStr) → P256Point → Run P256Point
  | _, [], r => pure r
  | i, (table, s) :: rest, r => do
    let r ← addDigit F i table (read s) r
    addDigits F read (i + 1) rest r

/-- `n` calls `ecp_nistz256_point_double(r, r)`. -/
def doubles (F : Prims) : Nat → P256Point → Run P256Point
  | 0, r => pure r
  | n + 1, r => do
    emit .pointDouble
    doubles F n (F.pointDouble r)

/-- The loop `while (index >= 5)` entered with `index = 5 * m`: the window under `index` for
every point, from point 1 when `index = 255`, then `index -= kWindowSize` and five doublings. -/
def ladder (F : Prims) (rows : List (List P256Point × PStr)) : Nat → P256Point → Run P256Point
  | 0, r => pure r
  | m + 1, r => do
    let index := 5 * (m + 1)
    let start := if index = 255 then 1 else 0
    let r ← addDigits F (fun s => readWindow 5 s index) start (rows.drop start) r
    let r ← doubles F 5 r
    ladder F rows m r

/-- The body of `ecp_nistz256_windowed_mul` up to the `err` label. A negative or zero `num`
passes the loops and then reads `p_str[0]` past its allocation, and a `num` beyond the
caller's arrays reads past them: both are undefined behaviour. -/
def windowedMulBody (F : Prims) (lib : Lib) (scalar : List Bignum) (point : List EcPoint)
    (num : Int) : Run P256Point := do
  let (size1, size2, size3) ← ofOption .undefined (allocSizes num)
  emit (.malloc (lib.malloc size1))
  emit (.malloc (lib.malloc size2))
  emit (.malloc (lib.malloc size3))
  if lib.malloc size1 && lib.malloc size2 && lib.malloc size3 then
    if scalar.length < num.toNat ∨ point.length < num.toNat then fail .undefined else do
    let rows ← prepPoints F lib ((scalar.zip point).take num.toNat)
    match rows with
    | [] => fail .undefined
    | (table0, s0) :: _ =>
      let wvalue := boothRecodeW5 (readWindowByte 5 s0 255) >>> 1
      emit (.selectW5 0 wvalue)
      let r ← ladder F rows 51 (selectW5 table0 wvalue)
      addDigits F (readWindowLow 5) 0 rows r
  else fail .mallocFailure

/-- `ecp_nistz256_windowed_mul`: an error leaves `r` as it was, undefined behaviour stays
undefined. -/
def ecpNistz256WindowedMul (F : Prims) (lib : Lib) (r : P256Point) (scalar : List Bignum)
    (point : List EcPoint) (num : Int) : Run P256Point :=
  let run := windowedMulBody F lib scalar point num
  ⟨match run.result with
    | .ok r' => .ok r'
    | .error .undefined => .error .undefined
    | .error _ => .ok r,
    run.trace⟩

/-! ## Spec lemmas of the steps -/

/-- The scalar `k'` a point is multiplied by: `k` reduced modulo the group order when it is
negative or wider than 256 bits, as `windowed_mul` and `points_mul` reduce it. -/
def reducedValue (k : Bignum) : Int :=
  if 256 < bnNumBits k ∨ k.neg = true then k.value % order else k.value

/-- The triple of field elements a point's coordinates encode. -/
def fieldPoint (pt : EcPoint) : P256Point :=
  ⟨Felem.ofNat pt.X.magnitude, Felem.ofNat pt.Y.magnitude, Felem.ofNat pt.Z.magnitude⟩

theorem order_lt : order < 2 ^ 256 := by decide

theorem magnitude_bnNnmod (k : Bignum) :
    (bnNnmod k order).magnitude < order ∧ ((bnNnmod k order).magnitude : Int) = k.value % order := by
  have h0 : 0 ≤ k.value % order := Int.emod_nonneg _ (by decide)
  have h1 : k.value % order < order := Int.emod_lt_of_pos _ (by decide)
  rw [bnNnmod, Bignum.magnitude_ofLimbs, limbsValue_limbs, Felem.val_ofNat,
    Nat.mod_eq_of_lt (by have := order_lt; omega)]
  omega

theorem reduceScalar_ok {lib : Lib} {k k' : Bignum} (h : (reduceScalar lib k).result = .ok k') :
    k'.magnitude < 2 ^ 256 ∧ (k'.magnitude : Int) = reducedValue k := by
  unfold reduceScalar reducedValue at *
  split at h
  · rw [if_pos ‹_›]
    simp only [Run.emit_bind] at h
    split at h
    · simp only [Run.emit_bind] at h
      split at h
      · cases h
        have := magnitude_bnNnmod k
        have := order_lt
        omega
      · cases h
    · cases h
  · rw [if_neg ‹_›]
    simp only [Run.emit_bind, Run.result_pure, Except.ok.injEq] at h
    subst h
    have hb : ¬ 256 < bnNumBits k ∧ ¬ k.neg = true := not_or.1 ‹_›
    refine ⟨(bnNumBits_le_iff k 256).1 (by omega), ?_⟩
    simp [Bignum.value, hb.2]

theorem toFieldElem_ok {b : Bignum} {x : Felem} (h : (toFieldElem b).result = .ok x) :
    b.top ≤ 4 ∧ x = Felem.ofNat b.magnitude := by
  simp only [toFieldElem, Run.emit_bind] at h
  by_cases hb : b.top ≤ 4
  · rw [bignumToFieldElem_eq_some b hb] at h
    exact ⟨hb, (Except.ok.inj h).symm⟩
  · rw [(bignumToFieldElem_eq_none b).2 (by omega)] at h
    cases h

theorem toFieldPoint_ok {pt : EcPoint} {p : P256Point} (h : (toFieldPoint pt).result = .ok p) :
    pt.X.top ≤ 4 ∧ pt.Y.top ≤ 4 ∧ pt.Z.top ≤ 4 ∧ p = fieldPoint pt := by
  simp only [toFieldPoint, Run.result_bind_eq_ok, Run.result_pure, Except.ok.injEq] at h
  obtain ⟨x, hx, y, hy, z, hz, rfl⟩ := h
  obtain ⟨hX, rfl⟩ := toFieldElem_ok hx
  obtain ⟨hY, rfl⟩ := toFieldElem_ok hy
  obtain ⟨hZ, rfl⟩ := toFieldElem_ok hz
  exact ⟨hX, hY, hZ, rfl⟩

theorem doubles_result (F : Prims) (n : Nat) (r : P256Point) :
    (doubles F n r).result = .ok (F.pointDouble^[n] r) := by
  induction n generalizing r with
  | zero => rfl
  | succ n ih => exact ih _

theorem reducedValue_of_lt {k : Bignum} (hn : k.neg = false) (h : k.magnitude < 2 ^ 256) :
    reducedValue k = k.magnitude := by
  rw [reducedValue, if_neg (by rw [hn, not_or, ← bnNumBits_le_iff] at *; simp [h])]
  simp [Bignum.value, hn]

theorem reduceScalar_of_lt (lib : Lib) {k : Bignum} (hn : k.neg = false) (h : k.magnitude < 2 ^ 256) :
    reduceScalar lib k = ⟨.ok k, [.reduce false]⟩ := by
  have hb := (bnNumBits_le_iff k 256).2 h
  rw [reduceScalar, if_neg (by simp only [hn, Bool.false_eq_true, or_false, not_lt]; exact hb)]
  rfl

theorem toFieldElem_of_top {b : Bignum} (h : 4 < b.top) :
    (toFieldElem b).result = .error .coordinatesOutOfRange := by
  simp only [toFieldElem, Run.emit_bind, (bignumToFieldElem_eq_none b).2 h, Run.ofOption_none]
  rfl

theorem reducedValue_nonneg (k : Bignum) : 0 ≤ reducedValue k := by
  unfold reducedValue
  split
  · exact Int.emod_nonneg _ (by decide)
  · simp_all [Bignum.value]

theorem index_eq_digitValue {r : Unsigned} (h : 0 ≤ digitValue r) :
    ((r >>> 1).toNat : Int) = digitValue r := by
  unfold digitValue at *
  by_cases hs : r &&& 1 = 0
  · rw [if_pos hs]
  · rw [if_neg hs] at h ⊢; omega

/-! ## When the body returns -/

section Progress

variable (F : Prims) {lib : Lib}

theorem reduceScalar_progress (hctx : lib.ctxGet = true) (hnn : lib.nnmod = true) (k : Bignum) :
    ∃ k', (reduceScalar lib k).result = .ok k' := by
  unfold reduceScalar
  split
  · simp only [Run.emit_bind, hctx, hnn, if_true, Run.result_pure]
    exact ⟨_, rfl⟩
  · exact ⟨k, rfl⟩

theorem toFieldElem_result {b : Bignum} (h : b.top ≤ 4) :
    (toFieldElem b).result = .ok (Felem.ofNat b.magnitude) := by
  simp only [toFieldElem, Run.emit_bind, bignumToFieldElem_eq_some b h]
  rfl

theorem toFieldPoint_result {pt : EcPoint} (h : pt.X.top ≤ 4 ∧ pt.Y.top ≤ 4 ∧ pt.Z.top ≤ 4) :
    (toFieldPoint pt).result = .ok (fieldPoint pt) := by
  rw [toFieldPoint, Run.result_bind_of_ok (toFieldElem_result h.1),
    Run.result_bind_of_ok (toFieldElem_result h.2.1), Run.result_bind_of_ok (toFieldElem_result h.2.2)]
  rfl

theorem prepPoint_progress (hctx : lib.ctxGet = true) (hnn : lib.nnmod = true) (k : Bignum)
    {pt : EcPoint} (hpt : pt.X.top ≤ 4 ∧ pt.Y.top ≤ 4 ∧ pt.Z.top ≤ 4) :
    ∃ row, (prepPoint F lib k pt).result = .ok row := by
  obtain ⟨k', hk⟩ := reduceScalar_progress hctx hnn k
  have htop := (Bignum.top_le_iff k' 4).2 (reduceScalar_ok hk).1
  rw [prepPoint, Run.result_bind_of_ok hk, Run.result_bind_of_ok (serialize_result _ k' htop),
    Run.result_bind_of_ok (toFieldPoint_result hpt)]
  exact ⟨_, rfl⟩

theorem prepPoints_progress (hctx : lib.ctxGet = true) (hnn : lib.nnmod = true)
    {items : List (Bignum × EcPoint)} (htop : ∀ x ∈ items, x.2.X.top ≤ 4 ∧ x.2.Y.top ≤ 4 ∧ x.2.Z.top ≤ 4) :
    ∃ rows, (prepPoints F lib items).result = .ok rows ∧ rows.length = items.length := by
  induction items with
  | nil => exact ⟨[], rfl, rfl⟩
  | cons x items ih =>
    obtain ⟨row, hrow⟩ := prepPoint_progress F hctx hnn x.1 (htop x (List.mem_cons_self _ _))
    obtain ⟨rows, hrows, hlen⟩ := ih fun y hy => htop y (List.mem_cons_of_mem _ hy)
    refine ⟨row :: rows, ?_, by simp [hlen]⟩
    rw [prepPoints, Run.result_bind_of_ok hrow, Run.result_bind_of_ok hrows]
    rfl

theorem addDigits_progress (read : PStr → Unsigned) (i : Nat) (rows : List (List P256Point × PStr))
    (r : P256Point) : ∃ r', (addDigits F read i rows r).result = .ok r' := by
  induction rows generalizing i r with
  | nil => exact ⟨r, rfl⟩
  | cons row rows ih =>
    obtain ⟨r', h⟩ := ih (i + 1) _
    exact ⟨r', by rw [addDigits, Run.result_bind_of_ok rfl]; exact h⟩

theorem ladder_progress (rows : List (List P256Point × PStr)) (m : Nat) (r : P256Point) :
    ∃ r', (ladder F rows m r).result = .ok r' := by
  induction m generalizing r with
  | zero => exact ⟨r, rfl⟩
  | succ m ih =>
    obtain ⟨r1, h1⟩ := addDigits_progress F (fun s => readWindow 5 s (5 * (m + 1)))
      (if 5 * (m + 1) = 255 then 1 else 0) (rows.drop (if 5 * (m + 1) = 255 then 1 else 0)) r
    obtain ⟨r', h⟩ := ih (F.pointDouble^[5] r1)
    exact ⟨r', by rw [ladder, Run.result_bind_of_ok h1, Run.result_bind_of_ok (doubles_result F 5 r1)]; exact h⟩

theorem windowedMulBody_progress (hmalloc : ∀ n, lib.malloc n = true) (hctx : lib.ctxGet = true)
    (hnn : lib.nnmod = true) (scalar : List Bignum) (point : List EcPoint) {num : Int}
    (h1 : 1 ≤ num) (h2 : num ≤ 65075262) (hs : num.toNat ≤ scalar.length)
    (hp : num.toNat ≤ point.length)
    (htop : ∀ pt ∈ point, pt.X.top ≤ 4 ∧ pt.Y.top ≤ 4 ∧ pt.Z.top ≤ 4) :
    ∃ r, (windowedMulBody F lib scalar point num).result = .ok r := by
  have hitems : ∀ x ∈ (scalar.zip point).take num.toNat,
      x.2.X.top ≤ 4 ∧ x.2.Y.top ≤ 4 ∧ x.2.Z.top ≤ 4 :=
    fun x hx => htop x.2 (List.of_mem_zip (List.mem_of_mem_take hx)).2
  obtain ⟨rows, hrows, hlen⟩ := prepPoints_progress F hctx hnn hitems
  rw [List.length_take, List.length_zip] at hlen
  rcases rows with _ | ⟨⟨t0, s0⟩, rest⟩
  · simp only [List.length_nil] at hlen; omega
  obtain ⟨r1, hl⟩ := ladder_progress F ((t0, s0) :: rest) 51
    (selectW5 t0 (boothRecodeW5 (readWindowByte 5 s0 255) >>> 1))
  obtain ⟨r2, hf⟩ := addDigits_progress F (readWindowLow 5) 0 ((t0, s0) :: rest) r1
  refine ⟨r2, ?_⟩
  have hlen' : ¬(scalar.length < num.toNat ∨ point.length < num.toNat) := by omega
  rw [windowedMulBody, allocSizes_of_le (by omega) h2]
  simp only [Run.ofOption_some, Run.pure_bind, Run.emit_bind, hmalloc, Bool.and_self,
    if_true, hlen', if_false]
  rw [Run.result_bind_of_ok hrows]
  simp only [Run.emit_bind]
  rw [Run.result_bind_of_ok hl]
  exact hf

end Progress

/-! ## The ladder on represented points -/

section Ladder

variable {E : Type} [AddCommGroup E]

/-- A point's row after the per-point loop: its table holds the multiples of `v.1` and its
string the digits of `v.2`. -/
def Prepared (C : Curve E) (row : List P256Point × PStr) (v : E × Nat) : Prop :=
  TableOk C row.1 v.1 ∧ Recoded row.2 v.2

/-- What the additions of window `j` add up to over all points. -/
def windowSum (rows : List (List P256Point × PStr)) (vals : List (E × Nat)) (j : Nat) : E :=
  ((rows.zip vals).map fun x => digitW5 x.1.2 j • x.2.1).sum

/-- The windows from `j` up, in units of `2^(5j)`: what the accumulator holds, up to the
doublings still to come, once window `j` is added. -/
def upper (rows : List (List P256Point × PStr)) (vals : List (E × Nat)) (j : Nat) : E :=
  ∑ t ∈ Finset.range (52 - j), ((2 : Int) ^ (5 * t)) • windowSum rows vals (j + t)

variable (rows : List (List P256Point × PStr)) (vals : List (E × Nat))

@[simp] theorem windowSum_nil (j : Nat) : windowSum [] vals j = 0 := rfl

@[simp] theorem windowSum_cons (row : List P256Point × PStr) (v : E × Nat) (j : Nat) :
    windowSum (row :: rows) (v :: vals) j = digitW5 row.2 j • v.1 + windowSum rows vals j := rfl

theorem upper_succ {j : Nat} (hj : j < 52) :
    upper rows vals j = windowSum rows vals j + (32 : Int) • upper rows vals (j + 1) := by
  rw [upper, upper, show 52 - j = 52 - (j + 1) + 1 by omega, Finset.sum_range_succ',
    Finset.smul_sum, add_comm]
  congr 1
  · simp
  · refine Finset.sum_congr rfl fun t _ => ?_
    rw [smul_smul, show j + (t + 1) = j + 1 + t by omega, mul_add, pow_add, mul_comm]
    rfl

theorem upper_top : upper rows vals 52 = 0 := rfl

theorem upper_cons (row : List P256Point × PStr) (v : E × Nat) (j : Nat) :
    upper (row :: rows) (v :: vals) j =
      (∑ t ∈ Finset.range (52 - j), (2 : Int) ^ (5 * t) * digitW5 row.2 (j + t)) • v.1 +
        upper rows vals j := by
  simp only [upper, windowSum_cons, smul_add, Finset.sum_add_distrib, Finset.sum_smul, mul_smul]

variable {C : Curve E}

theorem upper_zero {rows vals} (h : List.Forall₂ (Prepared C) rows vals) :
    upper rows vals 0 = (vals.map fun v => (v.2 : Int) • v.1).sum := by
  induction h with
  | nil => simp [upper]
  | cons hp _ ih =>
    rw [upper_cons, ih, List.map_cons, List.sum_cons]
    congr 2
    rw [← hp.2.w5_sum]
    exact Finset.sum_congr rfl fun t _ => by rw [Nat.zero_add, mul_comm]

theorem represents_seed {row : List P256Point × PStr} {v : E × Nat} (hp : Prepared C row v) :
    Represents C (selectW5 row.1 (boothRecodeW5 (readWindowByte 5 row.2 255) >>> 1))
      (digitW5 row.2 51 • v.1) := by
  have hw := windowAt_toNat_lt 5 (by decide) row.2 51
  rw [← hp.2.first_read] at hw
  have hsel := represents_selectW5 hp.1 (boothRecode_index_le 5 _ (by decide) (by decide) hw)
  have htop := hp.2.w5_top
  rw [digitW5, ← hp.2.first_read] at htop ⊢
  rwa [← index_eq_digitValue htop]

variable {F : Prims} (hF : F.Sound C)
include hF

theorem represents_tableRow {p1 : P256Point} {e : E} (h : Represents C p1 e) :
    TableOk C (tableRow F p1) e := by
  have dbl : ∀ {p : P256Point} {a b : Int}, b = 2 * a → Represents C p (a • e) →
      Represents C (F.pointDouble p) (b • e) := fun hb hp => by
    rw [hb, two_mul, add_zsmul]; exact hF.double _ _ hp
  have inc : ∀ {p : P256Point} {a b : Int}, b = a + 1 → Represents C p (a • e) →
      Represents C (F.pointAdd p p1) (b • e) := fun hb hp => by
    rw [hb, add_zsmul, one_zsmul]; exact hF.add _ _ _ _ hp h
  have h1 : Represents C p1 ((1 : Int) • e) := by rwa [one_zsmul]
  have h2 : Represents C _ ((2 : Int) • e) := dbl (by norm_num) h1
  have h3 : Represents C _ ((3 : Int) • e) := inc (by norm_num) h2
  have h4 : Represents C _ ((4 : Int) • e) := dbl (by norm_num) h2
  have h6 : Represents C _ ((6 : Int) • e) := dbl (by norm_num) h3
  have h8 : Represents C _ ((8 : Int) • e) := dbl (by norm_num) h4
  have h12 : Represents C _ ((12 : Int) • e) := dbl (by norm_num) h6
  have h5 : Represents C _ ((5 : Int) • e) := inc (by norm_num) h4
  have h7 : Represents C _ ((7 : Int) • e) := inc (by norm_num) h6
  have h9 : Represents C _ ((9 : Int) • e) := inc (by norm_num) h8
  have h13 : Represents C _ ((13 : Int) • e) := inc (by norm_num) h12
  have h14 : Represents C _ ((14 : Int) • e) := dbl (by norm_num) h7
  have h10 : Represents C _ ((10 : Int) • e) := dbl (by norm_num) h5
  have h15 : Represents C _ ((15 : Int) • e) := inc (by norm_num) h14
  have h11 : Represents C _ ((11 : Int) • e) := inc (by norm_num) h10
  have h16 : Represents C _ ((16 : Int) • e) := inc (by norm_num) h15
  intro m hm1 hm16
  interval_cases m
  exacts [h1, h2, h3, h4, h5, h6, h7, h8, h9, h10, h11, h12, h13, h14, h15, h16]

theorem represents_iterate_double (n : Nat) :
    ∀ {r : P256Point} {a : E}, Represents C r a → Represents C (F.pointDouble^[n] r) ((2 : Int) ^ n • a) := by
  induction n with
  | zero => intro r a h; simpa using h
  | succ n ih =>
    intro r a h
    rw [pow_succ, mul_smul, two_zsmul]
    exact ih (hF.double _ _ h)

theorem represents_addDigits (j : Nat) {read : PStr → Unsigned} (hread : ∀ s, read s = windowAt 5 s j)
    {rows vals} (h : List.Forall₂ (Prepared C) rows vals) :
    ∀ (i : Nat) {r r' : P256Point} {a : E}, Represents C r a →
      (addDigits F read i rows r).result = .ok r' → Represents C r' (a + windowSum rows vals j) := by
  induction h with
  | nil =>
    intro i r r' a hr h
    cases h
    simpa using hr
  | @cons row v rows vals hp _ ih =>
    intro i r r' a hr h
    rw [addDigits, Run.result_bind_of_ok rfl] at h
    have hw := windowAt_toNat_lt 5 (by decide) row.2 j
    rw [← hread] at hw
    have hd := hF.add _ _ _ _ hr (represents_digitW5 hp.1
      (boothRecode_index_le 5 (read row.2) (by decide) (by decide) hw))
    rw [windowSum_cons, ← add_assoc]
    rw [hread] at hd h
    exact ih _ hd h

theorem represents_ladder {rows vals} (h : List.Forall₂ (Prepared C) rows vals) (m : Nat) :
    m ≤ 50 → ∀ {r r' : P256Point}, Represents C r ((32 : Int) • upper rows vals (m + 1)) →
      (ladder F rows m r).result = .ok r' → Represents C r' ((32 : Int) • upper rows vals 1) := by
  induction m with
  | zero => intro _ r r' hr h; cases h; exact hr
  | succ m ih =>
    intro hm r r' hr hl
    simp only [ladder, show 5 * (m + 1) ≠ 255 by omega, if_false, List.drop_zero] at hl
    obtain ⟨r1, h1, hl⟩ := Run.result_bind_eq_ok.1 hl
    obtain ⟨r2, h2, hl⟩ := Run.result_bind_eq_ok.1 hl
    rw [doubles_result, Except.ok.injEq] at h2
    subst h2
    have hw := represents_addDigits hF (m + 1) (fun s => (if_neg (Nat.succ_ne_zero m)).symm) h 0
      hr h1
    rw [add_comm, ← upper_succ _ _ (by omega)] at hw
    have hd := represents_iterate_double hF 5 hw
    rw [show (2 : Int) ^ 5 = 32 by norm_num] at hd
    exact ih (by omega) hd hl

theorem represents_ladder_run {row0 : List P256Point × PStr} {rest vals}
    (h : List.Forall₂ (Prepared C) (row0 :: rest) vals) {r1 r2 : P256Point}
    (h1 : (ladder F (row0 :: rest) 51
      (selectW5 row0.1 (boothRecodeW5 (readWindowByte 5 row0.2 255) >>> 1))).result = .ok r1)
    (h2 : (addDigits F (readWindowLow 5) 0 (row0 :: rest) r1).result = .ok r2) :
    Represents C r2 ((vals.map fun v => (v.2 : Int) • v.1).sum) := by
  cases h with
  | @cons _ v0 _ vals' hp0 hrest =>
  rw [show (51 : Nat) = 50 + 1 from rfl, ladder] at h1
  simp only [show 5 * (50 + 1) = 255 from rfl, if_true, List.drop_succ_cons, List.drop_zero] at h1
  obtain ⟨ra, ha, h1⟩ := Run.result_bind_eq_ok.1 h1
  obtain ⟨rb, hb, h1⟩ := Run.result_bind_eq_ok.1 h1
  rw [doubles_result, Except.ok.injEq] at hb
  subst hb
  have hA := represents_addDigits hF 51 (fun s => (if_neg (by decide)).symm) hrest 1
    (represents_seed hp0) ha
  rw [← windowSum_cons, ← add_zero (windowSum _ _ 51), ← smul_zero (32 : Int),
    ← upper_top (row0 :: rest) (v0 :: vals'), ← upper_succ _ _ (by decide)] at hA
  have hD := represents_iterate_double hF 5 hA
  rw [show (2 : Int) ^ 5 = 32 by norm_num] at hD
  have hL := represents_ladder hF (.cons hp0 hrest) 50 (by decide) hD h1
  have hW := represents_addDigits hF 0 (fun s => (if_pos rfl).symm) (.cons hp0 hrest) 0 hL h2
  rwa [add_comm, ← upper_succ _ _ (by decide), upper_zero (.cons hp0 hrest)] at hW

theorem prepPoint_ok {lib : Lib} {k : Bignum} {pt : EcPoint} {e : E}
    (he : Represents C (fieldPoint pt) e) {row : List P256Point × PStr}
    (h : (prepPoint F lib k pt).result = .ok row) : Prepared C row (e, (reducedValue k).toNat) := by
  simp only [prepPoint, Run.result_bind_eq_ok, Run.result_pure, Except.ok.injEq] at h
  obtain ⟨k', hk, s, hs, p1, hp, t, ht, rfl⟩ := h
  obtain ⟨hlt, hval⟩ := reduceScalar_ok hk
  obtain ⟨-, -, -, rfl⟩ := toFieldPoint_ok hp
  cases ht
  have hrec := recoded_of_serialize ((Bignum.top_le_iff k' 4).2 hlt) hs
  rw [show k'.magnitude = (reducedValue k).toNat by omega] at hrec
  exact ⟨represents_tableRow hF he, hrec⟩

theorem prepPoints_ok {lib : Lib} (P : EcPoint → E) {items : List (Bignum × EcPoint)}
    (hP : ∀ x ∈ items, Represents C (fieldPoint x.2) (P x.2)) {rows : List (List P256Point × PStr)}
    (h : (prepPoints F lib items).result = .ok rows) :
    List.Forall₂ (Prepared C) rows (items.map fun x => (P x.2, (reducedValue x.1).toNat)) := by
  induction items generalizing rows with
  | nil => cases h; exact .nil
  | cons x items ih =>
    simp only [prepPoints, Run.result_bind_eq_ok, Run.result_pure, Except.ok.injEq] at h
    obtain ⟨row, hrow, rows', hrows, rfl⟩ := h
    exact .cons (prepPoint_ok hF (hP x (List.mem_cons_self _ _)) hrow)
      (ih (fun y hy => hP y (List.mem_cons_of_mem _ hy)) hrows)

end Ladder

/-- A run of `ecp_nistz256_windowed_mul` that reaches the end of its ladder leaves in `r` the
sum of `k_i'·P_i` over the first `num` scalars and points, for any routines that meet their
contracts on any curve. -/
theorem windowed_mul_sum {E : Type} [AddCommGroup E] (C : Curve E) (F : Prims) (hF : F.Sound C)
    (lib : Lib) (scalar : List Bignum) (point : List EcPoint) (num : Int) (P : EcPoint → E)
    (hP : ∀ pt ∈ point, Represents C (fieldPoint pt) (P pt)) (r : P256Point)
    (hr : (windowedMulBody F lib scalar point num).result = .ok r) :
    Represents C r (((scalar.zip point).take num.toNat).map fun x => reducedValue x.1 • P x.2).sum := by
  unfold windowedMulBody at hr
  obtain ⟨⟨s1, s2, s3⟩, -, hr⟩ := Run.result_bind_eq_ok.1 hr
  simp only [Run.emit_bind] at hr
  split at hr
  · split at hr
    · cases hr
    · obtain ⟨rows, hrows, hr⟩ := Run.result_bind_eq_ok.1 hr
      have hprep := prepPoints_ok hF P (fun x hx => hP x.2
        (List.of_mem_zip (List.mem_of_mem_take hx)).2) hrows
      rcases rows with _ | ⟨row0, rest⟩
      · cases hr
      · simp only [Run.emit_bind] at hr
        obtain ⟨r1, h1, h2⟩ := Run.result_bind_eq_ok.1 hr
        have hrun := represents_ladder_run hF hprep h1 h2
        have hfun : ((fun v : E × Nat => (v.2 : Int) • v.1) ∘
            fun x : Bignum × EcPoint => (P x.2, (reducedValue x.1).toNat)) =
            fun x => reducedValue x.1 • P x.2 :=
          funext fun x => by
            simp only [Function.comp, Int.toNat_of_nonneg (reducedValue_nonneg x.1)]
        rwa [List.map_map, hfun] at hrun
  · cases hr

theorem windowed_mul_sum_at_five :
    ∃ r, (windowedMulBody yPrims ⟨fun _ => true, true, true⟩ [Bignum.ofLimbs [5] false]
        [⟨Bignum.ofLimbs [] false, Bignum.ofLimbs one.limbs false, Bignum.ofLimbs one.limbs false⟩]
        1).result = .ok r ∧
      Represents yLine r ((([Bignum.ofLimbs [5] false].zip
        [(⟨Bignum.ofLimbs [] false, Bignum.ofLimbs one.limbs false, Bignum.ofLimbs one.limbs false⟩ :
          EcPoint)]).take (1 : Int).toNat).map
            fun x : Bignum × EcPoint => reducedValue x.1 • (1 : ZMod P)).sum := by
  have hone : Felem.ofNat (Bignum.ofLimbs one.limbs false).magnitude = one := by
    rw [Bignum.magnitude_ofLimbs, limbsValue_limbs, Felem.ofNat_val]
  obtain ⟨r, hr⟩ : ∃ r, (windowedMulBody yPrims ⟨fun _ => true, true, true⟩
      [Bignum.ofLimbs [5] false]
      [⟨Bignum.ofLimbs [] false, Bignum.ofLimbs one.limbs false, Bignum.ofLimbs one.limbs false⟩]
      1).result = .ok r :=
    windowedMulBody_progress yPrims (fun _ => rfl) rfl rfl _ _ le_rfl (by decide) (by decide)
      (by decide) (fun pt hpt => by rw [List.mem_singleton] at hpt; subst hpt; decide)
  refine ⟨r, hr, windowed_mul_sum yLine yPrims yPrims_sound _ _ _ 1 (fun _ => 1) (fun pt hpt => ?_) r hr⟩
  rw [List.mem_singleton] at hpt
  subst hpt
  rw [fieldPoint, hone]
  exact represents_yLine_one _

end EcpNistz256.WindowedMul

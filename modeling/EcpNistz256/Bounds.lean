import EcpNistz256.Outcomes

/-!
# Every table read stays in bounds

The assembly routines `ecp_nistz256_select_w5` and `ecp_nistz256_select_w7` scan tables of 16
and 64 entries, and `copy_conditional` turns its move bit into a mask. Along every run of
`ecp_nistz256_points_mul`, whatever its inputs and whichever exit it takes, each `select_w5`
reads one of the tables `windowed_mul` builds at an index of at most 16, each `select_w7` one of
the 37 rows of the precomputed table at an index of at most 64, and each `copy_conditional` gets
a move bit of 0 or 1. The indices are bounded by the Booth recoding of masked windows, the
tables and rows by the loop bounds.
-/

set_option autoImplicit false

namespace EcpNistz256.Bounds

open Limbs Generator Exec Booth Scalar Point Sizes WindowedMul GeneratorPath PointsMul
  PointsMulSum Outcomes

/-- A call the tables and the assembly routines can serve, with `tables` tables of
`windowed_mul`: `select_w5` on one of them at an index of at most 16, `select_w7` on one of the
37 rows at an index of at most 64, `copy_conditional` with a move bit. -/
def inBounds (tables : Nat) : Event → Bool
  | .selectW5 table index => table < tables && index.toNat ≤ 16
  | .selectW7 row index => row < 37 && index.toNat ≤ 64
  | .copyConditional move => move.toNat ≤ 1
  | _ => true

/-- Every call of a run is in bounds. -/
def traceInBounds {α : Type} (tables : Nat) (x : Run α) : Bool := x.trace.all (inBounds tables)

/-- The number of tables `windowed_mul` builds in `points_mul`: one per point, and one more for
a generator folded in. -/
def pointCount (generator : Option EcPoint) (scalar : Option Bignum) (num : SizeT) : Nat :=
  match scalar, generator with
  | some _, some g => if ecpNistz256IsAffineG g then num.toNat else num.toNat + 1
  | _, _ => num.toNat

/-! ## Composing runs -/

section Compose

variable {α β : Type} {n : Nat}

theorem inBounds_mono {m : Nat} (h : n ≤ m) (ev : Event) (hev : inBounds n ev) :
    inBounds m ev := by
  cases ev <;> simp [inBounds] at hev ⊢ <;> omega

theorem traceInBounds_mono {m : Nat} (h : n ≤ m) {x : Run α} (hx : traceInBounds n x) :
    traceInBounds m x :=
  List.all_eq_true.2 fun ev hev => inBounds_mono h ev (List.all_eq_true.1 hx ev hev)

theorem traceInBounds_of_trace_nil {x : Run α} (h : x.trace = []) : traceInBounds n x := by
  rw [traceInBounds, h]; rfl

theorem traceInBounds_bind {x : Run α} {f : α → Run β} (hx : traceInBounds n x)
    (hf : ∀ a, x.result = .ok a → traceInBounds n (f a)) : traceInBounds n (x >>= f) := by
  cases h : x.result with
  | ok a =>
    have := hf a h
    simp only [traceInBounds, Run.bind_of_ok h, List.all_append, Bool.and_eq_true] at hx this ⊢
    exact ⟨hx, this⟩
  | error e => rwa [Run.bind_of_error h]

theorem traceInBounds_emit_bind {e : Event} {f : Unit → Run β} (he : inBounds n e)
    (hf : traceInBounds n (f ())) : traceInBounds n (emit e >>= f) := by
  simp only [traceInBounds, Run.emit_bind, List.all_cons, he, Bool.true_and]
  exact hf

theorem traceInBounds_of_quiet {x : Run α} (hx : traceInBounds 0 x) : traceInBounds n x :=
  traceInBounds_mono (Nat.zero_le n) hx

end Compose

/-! ## The indices the code computes -/

theorem recode_index_le (w : Nat) (hw : 1 ≤ w) (hw' : w ≤ 30) (x : Unsigned) :
    (boothRecode w (x &&& kMask w) >>> 1).toNat ≤ 2 ^ (w - 1) :=
  boothRecode_index_le w _ hw hw'
    (by rw [toNat_and_kMask x hw']; exact Nat.mod_lt _ (Nat.two_pow_pos _))

theorem move_le (v : Unsigned) : ((v &&& 1).setWidth 64).toNat ≤ 1 := by
  rw [BitVec.toNat_setWidth, BitVec.toNat_and]
  exact (Nat.mod_le _ _).trans Nat.and_le_right

/-! ## The steps of `windowed_mul` -/

section Windowed

variable (F : Prims) {n : Nat}

theorem reduceScalar_inBounds (lib : Lib) (k : Bignum) : traceInBounds n (reduceScalar lib k) := by
  refine traceInBounds_of_quiet ?_
  unfold reduceScalar
  split
  · cases lib.ctxGet <;> cases lib.nnmod <;> rfl
  · rfl

theorem serialize_inBounds (buf : PStr) (k : Bignum) : traceInBounds n (serialize buf k) := by
  have hlimbs (ds : List BnUlong) : ∀ j buf, traceInBounds n (storeLimbs ds j buf) := by
    induction ds with
    | nil => exact fun _ _ => rfl
    | cons d ds ih =>
      exact fun j buf => traceInBounds_emit_bind rfl <| traceInBounds_bind
        (traceInBounds_of_trace_nil (storeLimb_trace _ _ _)) fun _ _ => ih _ _
  have hfill (m : Nat) : ∀ j buf, traceInBounds n (zeroFill m j buf) := by
    induction m with
    | zero => exact fun _ _ => rfl
    | succ m ih =>
      exact fun j buf => traceInBounds_emit_bind rfl <| traceInBounds_bind
        (traceInBounds_of_trace_nil (store_trace _ _ _)) fun _ _ => ih _ _
  exact traceInBounds_bind (hlimbs _ _ _) fun _ _ => hfill _ _ _

theorem toFieldPoint_inBounds (pt : EcPoint) : traceInBounds n (toFieldPoint pt) := by
  refine traceInBounds_of_quiet ?_
  simp only [toFieldPoint, toFieldElem]
  refine traceInBounds_bind (traceInBounds_emit_bind rfl ?_) fun _ _ =>
    traceInBounds_bind (traceInBounds_emit_bind rfl ?_) fun _ _ =>
      traceInBounds_bind (traceInBounds_emit_bind rfl ?_) fun _ _ => rfl
  all_goals cases ecpNistz256BignumToFieldElem _ <;> rfl

theorem prepPoints_inBounds (lib : Lib) (items : List (Bignum × EcPoint)) :
    traceInBounds n (prepPoints F lib items) := by
  induction items with
  | nil => rfl
  | cons x items ih =>
    obtain ⟨k, pt⟩ := x
    refine traceInBounds_bind ?_ fun _ _ => traceInBounds_bind ih fun _ _ => rfl
    exact traceInBounds_bind (reduceScalar_inBounds lib k) fun _ _ =>
      traceInBounds_bind (serialize_inBounds _ _) fun _ _ =>
        traceInBounds_bind (toFieldPoint_inBounds pt) fun _ _ =>
          traceInBounds_bind (traceInBounds_of_quiet rfl) fun _ _ => rfl

theorem addDigit_inBounds {i : Nat} (hi : i < n) (table : List P256Point) (x : Unsigned)
    (r : P256Point) : traceInBounds n (addDigit F i table (x &&& kMask 5) r) := by
  refine traceInBounds_emit_bind ?_ (traceInBounds_emit_bind rfl
    (traceInBounds_emit_bind ?_ (traceInBounds_emit_bind rfl rfl)))
  · simpa [inBounds, hi] using recode_index_le 5 (by decide) (by decide) x
  · simpa [inBounds] using move_le _

theorem addDigits_inBounds (read : PStr → Unsigned) (hread : ∀ s, ∃ x, read s = x &&& kMask 5)
    (rows : List (List P256Point × PStr)) :
    ∀ i, i + rows.length ≤ n → ∀ r, traceInBounds n (addDigits F read i rows r) := by
  induction rows with
  | nil => exact fun _ _ _ => rfl
  | cons row rows ih =>
    intro i hi r
    obtain ⟨x, hx⟩ := hread row.2
    rw [List.length_cons] at hi
    refine traceInBounds_bind ?_ fun _ _ => ih (i + 1) (by omega) _
    rw [hx]
    exact addDigit_inBounds F (by omega) _ _ _

theorem doubles_inBounds (m : Nat) : ∀ r, traceInBounds n (doubles F m r) := by
  induction m with
  | zero => exact fun _ => rfl
  | succ m ih => exact fun r => traceInBounds_emit_bind rfl (ih _)

theorem ladder_inBounds {rows : List (List P256Point × PStr)} (h : rows.length ≤ n)
    (h1 : 1 ≤ n) (m : Nat) : ∀ r, traceInBounds n (ladder F rows m r) := by
  induction m with
  | zero => exact fun _ => rfl
  | succ m ih =>
    intro r
    refine traceInBounds_bind ?_ fun _ _ =>
      traceInBounds_bind (doubles_inBounds F 5 _) fun _ _ => ih _
    refine addDigits_inBounds F _ (fun s => ⟨_, rfl⟩) _ _ ?_ r
    rw [List.length_drop]
    split <;> omega

theorem windowedMul_inBounds (lib : Lib) (r0 : P256Point) (scalar : List Bignum)
    (point : List EcPoint) (num : Int) :
    traceInBounds num.toNat (ecpNistz256WindowedMul F lib r0 scalar point num) := by
  show traceInBounds num.toNat (windowedMulBody F lib scalar point num)
  unfold windowedMulBody
  refine traceInBounds_bind ?_ fun ⟨s1, s2, s3⟩ _ => ?_
  · cases allocSizes num <;> rfl
  refine traceInBounds_emit_bind rfl (traceInBounds_emit_bind rfl (traceInBounds_emit_bind rfl ?_))
  split
  · split
    · rfl
    refine traceInBounds_bind (prepPoints_inBounds F lib _) fun rows hrows => ?_
    have hlen := prepPoints_ok_length F hrows
    rw [List.length_take] at hlen
    rcases rows with _ | ⟨⟨t0, s0⟩, rest⟩
    · rfl
    have h1 : 1 ≤ num.toNat := by simp only [List.length_cons] at hlen; omega
    have hle : (⟨t0, s0⟩ :: rest : List (List P256Point × PStr)).length ≤ num.toNat := by
      rw [hlen]; exact Nat.min_le_left _ _
    refine traceInBounds_emit_bind ?_ (traceInBounds_bind (ladder_inBounds F hle h1 51 _)
      fun _ _ => addDigits_inBounds F _ (fun s => ⟨_, rfl⟩) _ 0 (by omega) _)
    have hidx : (boothRecodeW5 (readWindowByte 5 s0 255) >>> 1).toNat ≤ 16 :=
      recode_index_le 5 (by decide) (by decide) _
    simp only [inBounds, hidx, decide_True, Bool.and_true, decide_eq_true_eq]
    omega
  · rfl

end Windowed

/-! ## The table path -/

section Table

variable (F : Prims) {n : Nat}

theorem seedRow_inBounds (precomputed : List (List P256PointAffine)) (s : PStr) :
    traceInBounds n (seedRow precomputed s) := by
  refine traceInBounds_emit_bind ?_ (traceInBounds_emit_bind rfl (traceInBounds_emit_bind ?_ rfl))
  · simpa [inBounds] using recode_index_le 7 (by decide) (by decide) _
  · simpa [inBounds] using move_le _

theorem addRows_inBounds (precomputed : List (List P256PointAffine)) (s : PStr) (m : Nat) :
    ∀ i, i + m ≤ 37 → ∀ pt, traceInBounds n (addRows F precomputed s m i pt) := by
  induction m with
  | zero => exact fun _ _ _ => rfl
  | succ m ih =>
    rintro i hi ⟨p, t⟩
    refine traceInBounds_emit_bind ?_ (traceInBounds_emit_bind rfl (traceInBounds_emit_bind ?_
      (traceInBounds_emit_bind rfl (ih (i + 1) (by omega) _))))
    · simpa [inBounds, show i < 37 by omega] using recode_index_le 7 (by decide) (by decide) _
    · simpa [inBounds] using move_le _

theorem genPath_inBounds (lib : Lib) (precomputed : List (List P256PointAffine)) (t : P256Point)
    (k : Bignum) : traceInBounds n (genPath F lib precomputed t k) :=
  traceInBounds_bind (reduceScalar_inBounds lib k) fun _ _ =>
    traceInBounds_bind (serialize_inBounds _ _) fun _ _ =>
      traceInBounds_bind (seedRow_inBounds precomputed _) fun _ _ =>
        addRows_inBounds F precomputed _ 36 1 (by decide) _

end Table

/-! ## The steps of `points_mul` -/

section Steps

variable (F : Prims) (lib : Lib) {n : Nat}

theorem generatorStep_inBounds (precomputed : List (List P256PointAffine))
    (generator : Option EcPoint) (scalar : Option Bignum) (t p : P256Point) :
    traceInBounds n (generatorStep F lib precomputed generator scalar t p) := by
  rcases scalar with _ | k
  · rfl
  rcases generator with _ | g
  · rfl
  simp only [generatorStep]
  split
  · exact traceInBounds_bind (genPath_inBounds F lib precomputed t k) fun _ _ => rfl
  · rfl

theorem foldGenerator_inBounds (num : SizeT) (points : List EcPoint) (scalars : List Bignum)
    (kg : Bignum × EcPoint) : traceInBounds n (foldGenerator lib num points scalars kg) := by
  refine traceInBounds_of_quiet ?_
  unfold foldGenerator
  dsimp only
  cases lib.malloc ((num + 1) * 8) <;> split_ifs <;> rfl

theorem pointsStep_inBounds {num : SizeT} (hn : num.toNat ≤ n) (points : List EcPoint)
    (scalars : List Bignum) (t p : P256Point) (inf : Bool) :
    traceInBounds n (pointsStep F lib num points scalars t p inf) := by
  have hw (r0 : P256Point) := traceInBounds_mono ((toNat_sizeToInt_le num).trans hn)
    (windowedMul_inBounds F lib r0 scalars points (sizeToInt num))
  unfold pointsStep
  split
  · rfl
  split
  · exact hw p
  · exact traceInBounds_bind (hw t) fun _ _ => traceInBounds_emit_bind rfl rfl

end Steps

theorem le_pointCount (generator : Option EcPoint) (scalar : Option Bignum) (num : SizeT) :
    num.toNat ≤ pointCount generator scalar num := by
  unfold pointCount
  split
  · split <;> omega
  · exact le_rfl

/-- Along every run of `ecp_nistz256_points_mul`, for every input and on every exit, each
`select_w5` reads one of the tables `windowed_mul` builds for the points (and the generator
folded in) at an index of at most 16, each `select_w7` one of the 37 rows of the precomputed
table at an index of at most 64, and each `copy_conditional` gets a move bit of 0 or 1. -/
theorem points_mul_in_bounds (F : Prims) (lib : Lib) (precomputed : List (List P256PointAffine))
    (generator : Option EcPoint) (r : EcPoint) (scalar : Option Bignum) (num : SizeT)
    (points : List EcPoint) (scalars : List Bignum) (t p : P256Point) :
    traceInBounds (pointCount generator scalar num)
      (ecpNistz256PointsMul F lib precomputed generator r scalar num points scalars t p) := by
  unfold ecpNistz256PointsMul
  split
  · rfl
  refine traceInBounds_bind (generatorStep_inBounds F lib precomputed generator scalar t p)
    fun ⟨p1, t1, inf, fold⟩ hgs => ?_
  rcases fold with _ | ⟨k, g⟩
  · -- the caller's arrays
    simp only [Run.pure_bind]
    exact traceInBounds_bind (pointsStep_inBounds F lib (le_pointCount _ _ _) _ _ _ _ _)
      fun _ _ => rfl
  · -- the folded generator: `windowed_mul` over `num + 1` points
    obtain ⟨rfl, rfl, hG, -⟩ := generatorStep_fold hgs
    refine traceInBounds_bind (foldGenerator_inBounds lib _ _ _ _)
      fun ⟨num', points', scalars'⟩ hf => ?_
    obtain ⟨hle, rfl, -, -, rfl, rfl⟩ := foldGenerator_inv hf
    have hcount : pointCount (some g) (some k) num = (num + 1).toNat := by
      simp only [pointCount, hG, Bool.false_eq_true, if_false, toNat_fold hle]
    exact traceInBounds_bind (pointsStep_inBounds F lib hcount.ge _ _ _ _ _) fun _ _ => rfl

end EcpNistz256.Bounds

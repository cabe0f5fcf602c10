import EcpNistz256.PointsMul

/-!
# What an observer sees of two runs

The scalars are secret. An observer of timing and memory traffic sees which primitives a run
calls, which way its branches go and how often its loops turn, and which table it hands to a
select routine, but neither the select index nor the copy flag: that is `Event.pub` of each
event. Two runs are indistinguishable when they show the same public trace and leave through
the same exit. `PubRel R` adds a relation `R` between their results, so that indistinguishability
composes through `bind` and each function is proved from the functions it calls.

The serialization loops of both scalar multiplications turn `top` times, so a run shows the
number of limbs of each scalar: the scalars 0 and 1 already leave different traces. That is all it
shows. For scalars below `2^256` with equal limb counts, and the same points, `windowed_mul`
and `points_mul` are indistinguishable on every path.
-/

set_option autoImplicit false

namespace EcpNistz256.Noninterference

open Limbs Exec Booth Scalar Point WindowedMul GeneratorPath PointsMul Sizes

/-! ## Indistinguishable runs -/

section Relation

variable {α β γ δ : Type}

/-- Two runs show the same public trace and fail with the same error, and when both return
their results are related by `R`. -/
def PubRel (R : α → β → Prop) (x : Run α) (y : Run β) : Prop :=
  x.trace.map Event.pub = y.trace.map Event.pub ∧
    (∀ e, x.result = .error e ↔ y.result = .error e) ∧
    ∀ a b, x.result = .ok a → y.result = .ok b → R a b

/-- Two runs that an observer cannot tell apart. -/
def Indist (x : Run α) (y : Run β) : Prop := PubRel (fun _ _ => True) x y

variable {R : α → β → Prop}

theorem PubRel.bind {S : γ → δ → Prop} {x : Run α} {y : Run β} {f : α → Run γ} {g : β → Run δ}
    (h : PubRel R x y) (hf : ∀ a b, R a b → PubRel S (f a) (g b)) :
    PubRel S (x >>= f) (y >>= g) := by
  obtain ⟨ht, he, hr⟩ := h
  cases hx : x.result with
  | error e =>
    rw [Run.bind_of_error hx, Run.bind_of_error ((he e).1 hx)]
    exact ⟨ht, fun _ => by simp only [Except.error.injEq], fun _ _ h => Except.noConfusion h⟩
  | ok a =>
    obtain ⟨b, hy⟩ : ∃ b, y.result = .ok b := by
      cases hy : y.result with
      | ok b => exact ⟨b, rfl⟩
      | error e => exact absurd ((he e).2 hy) (by rw [hx]; exact Except.noConfusion)
    obtain ⟨ht', he', hr'⟩ := hf a b (hr a b hx hy)
    rw [Run.bind_of_ok hx, Run.bind_of_ok hy]
    exact ⟨by rw [List.map_append, List.map_append, ht, ht'], he', hr'⟩

theorem PubRel.of_ok {x : Run α} {y : Run β} {a : α} {b : β} (hx : x.result = .ok a)
    (hy : y.result = .ok b) (ht : x.trace.map Event.pub = y.trace.map Event.pub) (h : R a b) :
    PubRel R x y := by
  refine ⟨ht, fun e => ?_, fun a' b' ha hb => ?_⟩
  · rw [hx, hy]; exact ⟨Except.noConfusion, Except.noConfusion⟩
  · obtain rfl := Except.ok.inj (hx.symm.trans ha)
    obtain rfl := Except.ok.inj (hy.symm.trans hb)
    exact h

theorem PubRel.pure {a : α} {b : β} (h : R a b) : PubRel R (pure a) (pure b) :=
  PubRel.of_ok rfl rfl rfl h

theorem PubRel.fail (e : Err) : PubRel R (fail e) (fail e) :=
  ⟨rfl, fun _ => by simp only [Run.result_fail, Except.error.injEq], fun _ _ h => Except.noConfusion h⟩

theorem PubRel.refl (x : Run α) : PubRel Eq x x :=
  ⟨rfl, fun _ => Iff.rfl, fun _ _ ha hb => Except.ok.inj (ha.symm.trans hb)⟩

theorem PubRel.emit_bind {e e' : Event} (he : e.pub = e'.pub) {f : Unit → Run α}
    {g : Unit → Run β} (h : PubRel R (f ()) (g ())) : PubRel R (emit e >>= f) (emit e' >>= g) := by
  rw [Run.emit_bind, Run.emit_bind]
  exact ⟨by rw [List.map_cons, List.map_cons, he, h.1], h.2.1, h.2.2⟩

theorem pub_selectW5 (table : Nat) (i i' : BitVec 32) :
    (Event.selectW5 table i).pub = (Event.selectW5 table i').pub := rfl

theorem pub_selectW7 (row : Nat) (i i' : BitVec 32) :
    (Event.selectW7 row i).pub = (Event.selectW7 row i').pub := rfl

theorem pub_copyConditional (move move' : BnUlong) :
    (Event.copyConditional move).pub = (Event.copyConditional move').pub := rfl

theorem PubRel.ite (c : Prop) [Decidable c] {x x' : Run α} {y y' : Run β}
    (h : c → PubRel R x y) (h' : ¬c → PubRel R x' y') :
    PubRel R (if c then x else x') (if c then y else y') := by
  split_ifs with hc
  · exact h hc
  · exact h' hc

end Relation

/-! ## Scalars of one shape -/

/-- Two scalars in `[0, 2^256)` with the same number of limbs: neither is reduced, and their
serializations turn the loops the same number of times. -/
def SameShape (k k' : Bignum) : Prop :=
  k.neg = false ∧ k'.neg = false ∧ k.magnitude < 2 ^ 256 ∧ k'.magnitude < 2 ^ 256 ∧ k.top = k'.top

instance (k k' : Bignum) : Decidable (SameShape k k') :=
  inferInstanceAs (Decidable (k.neg = false ∧ k'.neg = false ∧ k.magnitude < 2 ^ 256 ∧
    k'.magnitude < 2 ^ 256 ∧ k.top = k'.top))

/-- A scalar and a point paired for `windowed_mul`: scalars of one shape, the same point. -/
def SamePair (x y : Bignum × EcPoint) : Prop := SameShape x.1 y.1 ∧ x.2 = y.2

theorem SameShape.top_le_left {k k' : Bignum} (h : SameShape k k') : k.top ≤ p256Limbs :=
  (Bignum.top_le_iff k 4).2 h.2.2.1

theorem SameShape.top_le_right {k k' : Bignum} (h : SameShape k k') : k'.top ≤ p256Limbs :=
  (Bignum.top_le_iff k' 4).2 h.2.2.2.1

theorem forall₂_zip {scalar scalar' : List Bignum} (hs : List.Forall₂ SameShape scalar scalar') :
    ∀ point : List EcPoint, List.Forall₂ SamePair (scalar.zip point) (scalar'.zip point) := by
  induction hs with
  | nil => exact fun _ => List.Forall₂.nil
  | cons h _ ih =>
    rintro (_ | ⟨pt, point⟩)
    · exact List.Forall₂.nil
    · exact List.Forall₂.cons ⟨h, rfl⟩ (ih point)

/-! ## The scalar's steps -/

theorem reduceScalar_pubRel (lib : Lib) {k k' : Bignum} (h : SameShape k k') :
    PubRel SameShape (reduceScalar lib k) (reduceScalar lib k') := by
  rw [reduceScalar_of_lt lib h.1 h.2.2.1, reduceScalar_of_lt lib h.2.1 h.2.2.2.1]
  exact PubRel.of_ok rfl rfl rfl h

theorem serialize_indist (buf buf' : PStr) {k k' : Bignum} (h : SameShape k k') :
    Indist (serialize buf k) (serialize buf' k') :=
  PubRel.of_ok (serialize_result buf k h.top_le_left) (serialize_result buf' k' h.top_le_right)
    (by rw [serialize_trace buf k h.top_le_left, serialize_trace buf' k' h.top_le_right,
      h.2.2.2.2]) trivial

/-! ## `windowed_mul` -/

theorem prepPoint_indist (F : Prims) (lib : Lib) {k k' : Bignum} (h : SameShape k k')
    (pt : EcPoint) : Indist (prepPoint F lib k pt) (prepPoint F lib k' pt) :=
  (reduceScalar_pubRel lib h).bind fun _ _ hk => (serialize_indist _ _ hk).bind fun _ _ _ =>
    (PubRel.refl (toFieldPoint pt)).bind fun _ _ _ =>
      (PubRel.of_ok rfl rfl rfl trivial : Indist (buildTable F _) (buildTable F _)).bind
        fun _ _ _ => PubRel.pure trivial

theorem prepPoints_pubRel (F : Prims) (lib : Lib) {l l' : List (Bignum × EcPoint)}
    (h : List.Forall₂ SamePair l l') :
    PubRel (fun rows rows' => rows.length = rows'.length) (prepPoints F lib l)
      (prepPoints F lib l') := by
  induction h with
  | nil => exact PubRel.pure rfl
  | @cons x y l l' hxy _ ih =>
    obtain ⟨k, pt⟩ := x
    obtain ⟨k', pt'⟩ := y
    obtain ⟨hk, rfl : pt = pt'⟩ := hxy
    rw [prepPoints, prepPoints]
    exact (prepPoint_indist F lib hk pt).bind fun _ _ _ => ih.bind fun _ _ hlen =>
      PubRel.pure (by rw [List.length_cons, List.length_cons, hlen])

theorem addDigit_indist (F : Prims) (i : Nat) (table table' : List P256Point) (w w' : Unsigned)
    (r r' : P256Point) : Indist (addDigit F i table w r) (addDigit F i table' w' r') := by
  rw [addDigit, addDigit]
  exact PubRel.emit_bind (pub_selectW5 _ _ _) <| PubRel.emit_bind rfl <|
    PubRel.emit_bind (pub_copyConditional _ _) <| PubRel.emit_bind rfl <| PubRel.pure trivial

theorem addDigits_indist (F : Prims) (read : PStr → Unsigned) (i : Nat)
    (rows rows' : List (List P256Point × PStr)) (h : rows.length = rows'.length)
    (r r' : P256Point) : Indist (addDigits F read i rows r) (addDigits F read i rows' r') := by
  induction rows generalizing i rows' r r' with
  | nil =>
    obtain rfl : rows' = [] := List.length_eq_zero.1 h.symm
    exact PubRel.pure trivial
  | cons row rows ih =>
    obtain ⟨row', rows', rfl⟩ := List.exists_cons_of_length_eq_add_one h.symm
    obtain ⟨t, s⟩ := row
    obtain ⟨t', s'⟩ := row'
    rw [addDigits, addDigits]
    exact (addDigit_indist F i t t' _ _ r r').bind fun _ _ _ =>
      ih (i + 1) rows' (Nat.succ.inj h) _ _

theorem doubles_indist (F : Prims) (n : Nat) (r r' : P256Point) :
    Indist (doubles F n r) (doubles F n r') := by
  induction n generalizing r r' with
  | zero => exact PubRel.pure trivial
  | succ n ih =>
    rw [doubles, doubles]
    exact PubRel.emit_bind rfl (ih _ _)

theorem ladder_indist (F : Prims) {rows rows' : List (List P256Point × PStr)}
    (h : rows.length = rows'.length) (m : Nat) (r r' : P256Point) :
    Indist (ladder F rows m r) (ladder F rows' m r') := by
  induction m generalizing r r' with
  | zero => exact PubRel.pure trivial
  | succ m ih =>
    rw [ladder, ladder]
    exact (addDigits_indist F _ _ _ _ (by rw [List.length_drop, List.length_drop, h]) r r').bind
      fun _ _ _ => (doubles_indist F 5 _ _).bind fun _ _ _ => ih _ _

theorem windowedMulBody_indist (F : Prims) (lib : Lib) {scalar scalar' : List Bignum}
    (hs : List.Forall₂ SameShape scalar scalar') (point : List EcPoint) (num : Int) :
    Indist (windowedMulBody F lib scalar point num) (windowedMulBody F lib scalar' point num) := by
  rw [windowedMulBody, windowedMulBody, ← hs.length_eq]
  refine (PubRel.refl _).bind ?_
  rintro ⟨size1, size2, size3⟩ _ rfl
  refine PubRel.emit_bind rfl (PubRel.emit_bind rfl (PubRel.emit_bind rfl ?_))
  refine PubRel.ite _ (fun _ => PubRel.ite _ (fun _ => PubRel.fail _) fun _ => ?_)
    fun _ => PubRel.fail _
  refine (prepPoints_pubRel F lib (List.forall₂_take _ (forall₂_zip hs point))).bind ?_
  rintro (_ | ⟨⟨t, s⟩, rows⟩) (_ | ⟨⟨t', s'⟩, rows'⟩) h
  · exact PubRel.fail _
  · exact absurd h (by simp)
  · exact absurd h (by simp)
  · exact PubRel.emit_bind (pub_selectW5 _ _ _) ((ladder_indist F h 51 _ _).bind fun _ _ _ =>
      addDigits_indist F _ 0 _ _ h _ _)

theorem windowedMul_result_eq_error {F : Prims} {lib : Lib} {r : P256Point}
    {scalar : List Bignum} {point : List EcPoint} {num : Int} {e : Err} :
    (ecpNistz256WindowedMul F lib r scalar point num).result = .error e ↔
      (windowedMulBody F lib scalar point num).result = .error .undefined ∧ e = .undefined := by
  unfold ecpNistz256WindowedMul
  dsimp only
  generalize (windowedMulBody F lib scalar point num).result = x
  cases x with
  | ok a => simp
  | error e' => cases e' <;> simp [eq_comm]

theorem windowedMul_indist_of_body {F : Prims} {lib : Lib} (r r' : P256Point)
    {scalar scalar' : List Bignum} {point : List EcPoint} {num : Int}
    (h : Indist (windowedMulBody F lib scalar point num) (windowedMulBody F lib scalar' point num)) :
    Indist (ecpNistz256WindowedMul F lib r scalar point num)
      (ecpNistz256WindowedMul F lib r' scalar' point num) :=
  ⟨h.1, fun e => by rw [windowedMul_result_eq_error, windowedMul_result_eq_error, h.2.1],
    fun _ _ _ _ => trivial⟩

/-- `windowed_mul` on two scalar lists of one shape, over the same points, whatever `r` held. -/
theorem windowed_mul_indist (F : Prims) (lib : Lib) (r r' : P256Point)
    {scalar scalar' : List Bignum} (hs : List.Forall₂ SameShape scalar scalar')
    (point : List EcPoint) (num : Int) :
    Indist (ecpNistz256WindowedMul F lib r scalar point num)
      (ecpNistz256WindowedMul F lib r' scalar' point num) :=
  windowedMul_indist_of_body r r' (windowedMulBody_indist F lib hs point num)

theorem windowed_mul_indist_at_one_two :
    List.Forall₂ SameShape [Bignum.ofLimbs [1] false] [Bignum.ofLimbs [2] false] ∧
      Indist (ecpNistz256WindowedMul yPrims ⟨fun _ => true, true, true⟩ ⟨0, 0, one⟩
          [Bignum.ofLimbs [1] false]
          [⟨Bignum.ofLimbs [] false, Bignum.ofLimbs one.limbs false, Bignum.ofLimbs one.limbs false⟩] 1)
        (ecpNistz256WindowedMul yPrims ⟨fun _ => true, true, true⟩ ⟨0, 0, one⟩
          [Bignum.ofLimbs [2] false]
          [⟨Bignum.ofLimbs [] false, Bignum.ofLimbs one.limbs false, Bignum.ofLimbs one.limbs false⟩] 1) :=
  have hs : List.Forall₂ SameShape [Bignum.ofLimbs [1] false] [Bignum.ofLimbs [2] false] :=
    List.Forall₂.cons (by decide) List.Forall₂.nil
  ⟨hs, windowed_mul_indist yPrims _ _ _ hs _ _⟩

/-! ## The standard-generator path -/

theorem seedRow_indist (precomputed : List (List P256PointAffine)) (s s' : PStr) :
    Indist (seedRow precomputed s) (seedRow precomputed s') := by
  rw [seedRow, seedRow]
  exact PubRel.emit_bind (pub_selectW7 _ _ _) <| PubRel.emit_bind rfl <|
    PubRel.emit_bind (pub_copyConditional _ _) <| PubRel.pure trivial

theorem addRows_indist (F : Prims) (precomputed : List (List P256PointAffine)) (s s' : PStr)
    (n i : Nat) (pt pt' : P256Point × P256Point) :
    Indist (addRows F precomputed s n i pt) (addRows F precomputed s' n i pt') := by
  induction n generalizing i pt pt' with
  | zero => exact PubRel.pure trivial
  | succ n ih =>
    obtain ⟨p, t⟩ := pt
    obtain ⟨p', t'⟩ := pt'
    rw [addRows, addRows]
    exact PubRel.emit_bind (pub_selectW7 _ _ _) <| PubRel.emit_bind rfl <|
      PubRel.emit_bind (pub_copyConditional _ _) <| PubRel.emit_bind rfl <| ih _ _ _

theorem genPath_indist (F : Prims) (lib : Lib) (precomputed : List (List P256PointAffine))
    (t t' : P256Point) {k k' : Bignum} (h : SameShape k k') :
    Indist (genPath F lib precomputed t k) (genPath F lib precomputed t' k') := by
  rw [genPath, genPath]
  exact (reduceScalar_pubRel lib h).bind fun _ _ hk => (serialize_indist _ _ hk).bind
    fun s s' _ => (seedRow_indist precomputed s s').bind fun p p' _ =>
      addRows_indist F precomputed s s' 36 1 (p, t) (p', t')

/-! ## `points_mul` -/

/-- What two runs of the generator step agree on: whether `p` is still the point at infinity,
and the generator folded into the list, with a scalar of one shape. -/
def StepRel (a b : P256Point × P256Point × Bool × Option (Bignum × EcPoint)) : Prop :=
  a.2.2.1 = b.2.2.1 ∧ Option.Rel SamePair a.2.2.2 b.2.2.2

theorem generatorStep_pubRel (F : Prims) (lib : Lib) (precomputed : List (List P256PointAffine))
    (generator : Option EcPoint) {scalar scalar' : Option Bignum}
    (hs : Option.Rel SameShape scalar scalar') (t p t' p' : P256Point) :
    PubRel StepRel (generatorStep F lib precomputed generator scalar t p)
      (generatorStep F lib precomputed generator scalar' t' p') := by
  cases hs with
  | none => exact PubRel.pure ⟨rfl, Option.Rel.none⟩
  | some h =>
    cases generator with
    | none => exact PubRel.fail _
    | some g =>
      simp only [generatorStep]
      refine PubRel.ite _ (fun _ => (genPath_indist F lib precomputed t t' h).bind ?_)
        fun _ => PubRel.pure ⟨rfl, Option.Rel.some ⟨h, rfl⟩⟩
      rintro ⟨_, _⟩ ⟨_, _⟩ -
      exact PubRel.pure ⟨rfl, Option.Rel.none⟩

/-- What two runs of the fold agree on: the count and the points, with scalars of one shape. -/
def FoldRel (a b : SizeT × List EcPoint × List Bignum) : Prop :=
  a.1 = b.1 ∧ a.2.1 = b.2.1 ∧ List.Forall₂ SameShape a.2.2 b.2.2

theorem foldGenerator_pubRel (lib : Lib) (num : SizeT) (points : List EcPoint)
    {scalars scalars' : List Bignum} (hs : List.Forall₂ SameShape scalars scalars')
    {kg kg' : Bignum × EcPoint} (hkg : SamePair kg kg') :
    PubRel FoldRel (foldGenerator lib num points scalars kg)
      (foldGenerator lib num points scalars' kg') := by
  rw [foldGenerator, foldGenerator, ← hs.length_eq]
  refine PubRel.ite _ (fun _ => PubRel.fail _) fun _ => PubRel.emit_bind rfl ?_
  refine PubRel.ite _ (fun _ => PubRel.emit_bind rfl ?_) fun _ => PubRel.fail _
  refine PubRel.ite _ (fun _ => PubRel.ite _ (fun _ => PubRel.fail _) fun _ => PubRel.pure ?_)
    fun _ => PubRel.fail _
  exact ⟨rfl, by rw [hkg.2],
    List.rel_append (List.forall₂_take _ hs) (List.Forall₂.cons hkg.1 List.Forall₂.nil)⟩

theorem pointsStep_indist (F : Prims) (lib : Lib) (num : SizeT) (points : List EcPoint)
    {scalars scalars' : List Bignum} (hs : List.Forall₂ SameShape scalars scalars')
    (t p t' p' : P256Point) (pIsInfinity : Bool) :
    Indist (pointsStep F lib num points scalars t p pIsInfinity)
      (pointsStep F lib num points scalars' t' p' pIsInfinity) := by
  rw [pointsStep, pointsStep]
  refine PubRel.ite _ (fun _ => PubRel.pure trivial) fun _ => PubRel.ite _
    (fun _ => windowedMul_indist_of_body p p' (windowedMulBody_indist F lib hs points _)) fun _ => ?_
  exact (windowedMul_indist_of_body t t' (windowedMulBody_indist F lib hs points _)).bind
    fun _ _ _ => PubRel.emit_bind rfl (PubRel.pure trivial)

/-- `points_mul` on two scalars of one shape, or none, and two scalar lists of one shape, over the
same points and generator, on every path and whatever the scratch points `t` and `p` held. -/
theorem points_mul_indist (F : Prims) (lib : Lib) (precomputed : List (List P256PointAffine))
    (generator : Option EcPoint) (r : EcPoint) {scalar scalar' : Option Bignum}
    (hs : Option.Rel SameShape scalar scalar') (num : SizeT) (points : List EcPoint)
    {scalars scalars' : List Bignum} (hks : List.Forall₂ SameShape scalars scalars')
    (t p t' p' : P256Point) :
    Indist (ecpNistz256PointsMul F lib precomputed generator r scalar num points scalars t p)
      (ecpNistz256PointsMul F lib precomputed generator r scalar' num points scalars' t' p') := by
  have hnone : scalar.isNone = scalar'.isNone := by cases hs <;> rfl
  rw [ecpNistz256PointsMul, ecpNistz256PointsMul, hnone]
  refine PubRel.ite _ (fun _ => PubRel.pure trivial) fun _ => ?_
  refine (generatorStep_pubRel F lib precomputed generator hs t p t' p').bind ?_
  rintro ⟨p, t, b, fold⟩ ⟨p', t', b', fold'⟩ ⟨rfl : b = b', hfold⟩
  cases hfold with
  | none =>
    dsimp only
    rw [Run.pure_bind, Run.pure_bind]
    exact (pointsStep_indist F lib num points hks t p t' p' b).bind fun _ _ _ => PubRel.pure trivial
  | @some kg kg' hkg =>
    dsimp only
    refine (foldGenerator_pubRel lib num points hks hkg).bind ?_
    rintro ⟨n, pts, ks⟩ ⟨n', pts', ks'⟩ ⟨rfl : n = n', rfl : pts = pts', hks'⟩
    exact (pointsStep_indist F lib n pts hks' t p t' p' b).bind fun _ _ _ => PubRel.pure trivial

theorem points_mul_indist_at_one_two :
    Option.Rel SameShape (some (Bignum.ofLimbs [1] false)) (some (Bignum.ofLimbs [2] false)) ∧
      List.Forall₂ SameShape [] [] ∧
      Indist (ecpNistz256PointsMul yPrims ⟨fun _ => true, true, true⟩ [] (some stdGenerator)
          stdGenerator (some (Bignum.ofLimbs [1] false)) 0 [] [] ⟨0, 0, one⟩ ⟨0, 0, one⟩)
        (ecpNistz256PointsMul yPrims ⟨fun _ => true, true, true⟩ [] (some stdGenerator)
          stdGenerator (some (Bignum.ofLimbs [2] false)) 0 [] [] ⟨0, 0, one⟩ ⟨0, 0, one⟩) :=
  have hs : Option.Rel SameShape (some (Bignum.ofLimbs [1] false)) (some (Bignum.ofLimbs [2] false)) :=
    Option.Rel.some (by decide)
  ⟨hs, List.Forall₂.nil, points_mul_indist yPrims _ _ _ _ hs _ _ List.Forall₂.nil _ _ _ _⟩

/-! ## What the trace shows -/

theorem pointsMul_trace_begins (F : Prims) (lib : Lib) (precomputed : List (List P256PointAffine))
    (r : EcPoint) (k : Bignum) (hn : k.neg = false) (hk : k.magnitude < 2 ^ 256) (num : SizeT)
    (points : List EcPoint) (scalars : List Bignum) (t p : P256Point) :
    Event.reduce false :: (List.replicate k.top .limb ++ List.replicate (33 - 8 * k.top) .zeroByte) <+:
      (ecpNistz256PointsMul F lib precomputed (some stdGenerator) r (some k) num points scalars t
        p).trace := by
  have hgen : Event.reduce false :: (List.replicate k.top .limb ++
      List.replicate (33 - 8 * k.top) .zeroByte) <+: (genPath F lib precomputed t k).trace := by
    rw [genPath, reduceScalar_of_lt lib hn hk, Run.trace_bind_of_ok rfl, List.singleton_append,
      List.prefix_cons_inj, ← serialize_trace (fun _ => 0) k ((Bignum.top_le_iff k 4).2 hk)]
    exact Run.trace_prefix_bind _ _
  have hstep : (genPath F lib precomputed t k).trace <+:
      (generatorStep F lib precomputed (some stdGenerator) (some k) t p).trace := by
    simp only [generatorStep, isAffineG_stdGenerator, if_true]
    exact Run.trace_prefix_bind _ _
  have hmul : (generatorStep F lib precomputed (some stdGenerator) (some k) t p).trace <+:
      (ecpNistz256PointsMul F lib precomputed (some stdGenerator) r (some k) num points scalars t
        p).trace := by
    rw [ecpNistz256PointsMul, Option.isNone_some, Bool.false_and, if_neg Bool.false_ne_true]
    exact Run.trace_prefix_bind _ _
  exact hgen.trans (hstep.trans hmul)

/-- The scalars 0 and 1, both below the group order, take the standard-generator path with
different public traces: the limb loop runs once for 1 and not at all for 0. -/
theorem points_mul_trace_reveals_top (F : Prims) (lib : Lib)
    (precomputed : List (List P256PointAffine)) (r : EcPoint) (t p : P256Point) :
    (Bignum.ofLimbs [] false).value = 0 ∧ (Bignum.ofLimbs [1] false).value = 1 ∧
      ¬ Indist (ecpNistz256PointsMul F lib precomputed (some stdGenerator) r
          (some (Bignum.ofLimbs [] false)) 0 [] [] t p)
        (ecpNistz256PointsMul F lib precomputed (some stdGenerator) r
          (some (Bignum.ofLimbs [1] false)) 0 [] [] t p) := by
  refine ⟨rfl, rfl, fun h => ?_⟩
  have h0 := (pointsMul_trace_begins F lib precomputed r (Bignum.ofLimbs [] false) rfl (by decide)
    0 [] [] t p).map Event.pub
  have h1 := (pointsMul_trace_begins F lib precomputed r (Bignum.ofLimbs [1] false) rfl
    (by decide) 0 [] [] t p).map Event.pub
  rw [h.1] at h0
  rcases List.prefix_or_prefix_of_prefix h0 h1 with h' | h' <;> exact absurd h' (by decide)

end EcpNistz256.Noninterference

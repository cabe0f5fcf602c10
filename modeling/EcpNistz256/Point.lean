import EcpNistz256.Field
import EcpNistz256.Booth
import Mathlib.Algebra.Group.Basic
import Mathlib.Tactic.Abel

/-!
# Points, the curve group and the assembly point routines

`P256_POINT` is a Jacobian triple and `P256_POINT_AFFINE` a pair, both in Montgomery form. What
a triple stands for is fixed by one convention, the one the library's `EC_POINT_is_at_infinity`
uses: `Z = 0` is the point at infinity, any other `Z` the affine point `(X/Z^2, Y/Z^3)`. An affine
table entry `(0, 0)` is the point at infinity, as `select_w7` returns it for index 0.

The curve enters only through `Curve`: a commutative group and the point an affine pair names.
The assembly routines `point_double`, `point_add` and `point_add_affine` are parameters, and
`Prims.Sound` is what they are assumed to do on represented points; `point_add_affine` has no
doubling case. The table lookups and the sign step are modelled exactly.
-/

set_option autoImplicit false

namespace EcpNistz256.Point

open Limbs Field Booth

structure P256Point where
  X : Felem
  Y : Felem
  Z : Felem
  deriving DecidableEq, Repr

structure P256PointAffine where
  X : Felem
  Y : Felem
  deriving DecidableEq, Repr

instance : Zero P256Point := ⟨⟨0, 0, 0⟩⟩

instance : Zero P256PointAffine := ⟨⟨0, 0⟩⟩

@[simp] theorem zero_Z : (0 : P256Point).Z = 0 := rfl

/-- Modelled from the spec: `ecp_nistz256_select_w5`, entry `index - 1` of a 16-entry table,
and `(0, 0, 0)` for index 0 or an index past the table. -/
def selectW5 (table : List P256Point) (index : Unsigned) : P256Point :=
  if index.toNat = 0 then 0 else table.getD (index.toNat - 1) 0

/-- Modelled from the spec: `ecp_nistz256_select_w7`, the same lookup in a 64-entry row. -/
def selectW7 (row : List P256PointAffine) (index : Unsigned) : P256PointAffine :=
  if index.toNat = 0 then 0 else row.getD (index.toNat - 1) 0

/-- The sign step of both ladders, `ecp_nistz256_neg(tmp, Y)` and
`copy_conditional(Y, tmp, wvalue & 1)`. -/
def condNegY (y : Felem) (wvalue : Unsigned) : Felem :=
  copyConditional y (neg y) ((wvalue &&& 1).setWidth 64)

theorem condNegY_eq (y : Felem) (wvalue : Unsigned) :
    condNegY y wvalue = if wvalue &&& 1 = 0 then y else neg y := by
  have h : wvalue &&& 1 = 0 ∨ wvalue &&& 1 = 1 := by
    have : (wvalue &&& 1).toNat = wvalue.toNat % 2 := by
      rw [BitVec.toNat_and, toNat_one, Nat.and_one_is_mod]
    rcases Nat.mod_two_eq_zero_or_one wvalue.toNat with h | h
    · exact .inl (BitVec.eq_of_toNat_eq (by rw [this, h]; rfl))
    · exact .inr (BitVec.eq_of_toNat_eq (by rw [this, h]; rfl))
  rcases h with h | h <;> rw [condNegY, h]
  · rw [show (0 : Unsigned).setWidth 64 = 0 from rfl, copyConditional_zero, if_pos rfl]
  · rw [show (1 : Unsigned).setWidth 64 = 1 from rfl, copyConditional_one, if_neg (by decide)]

/-- The point routines implemented in assembly. -/
structure Prims where
  pointDouble : P256Point → P256Point
  pointAdd : P256Point → P256Point → P256Point
  pointAddAffine : P256Point → P256PointAffine → P256Point

/-- The curve group: a commutative group `E` and the point, if any, that an affine pair of field
elements names. Negating `y` negates the point, and no pair names the identity, which is the
point at infinity. -/
structure Curve (E : Type) [AddCommGroup E] where
  point : ZMod P → ZMod P → Option E
  point_neg : ∀ x y, point x (-y) = (point x y).map Neg.neg
  point_ne_zero : ∀ x y, point x y ≠ some 0

section Represent

variable {E : Type} [AddCommGroup E] (C : Curve E)

/-- A Jacobian triple in Montgomery form stands for the point at infinity when `Z = 0`, and for
the affine point `(X/Z^2, Y/Z^3)` otherwise. -/
@[irreducible] def Represents (p : P256Point) (e : E) : Prop :=
  (mont p.Z = 0 ∧ e = 0) ∨
    (mont p.Z ≠ 0 ∧ C.point (mont p.X / mont p.Z ^ 2) (mont p.Y / mont p.Z ^ 3) = some e)

/-- An affine entry stands for the point at infinity when it is `(0, 0)`. -/
@[irreducible] def RepresentsAffine (a : P256PointAffine) (e : E) : Prop :=
  (a = 0 ∧ e = 0) ∨ (a ≠ 0 ∧ C.point (mont a.X) (mont a.Y) = some e)

/-- What the assembly point routines do on represented points. `point_add` handles every pair,
equal points and the point at infinity included; `point_add_affine` handles the point at
infinity on either side but not two equal finite points, and returns its first argument
unchanged when the second is the `(0, 0)` encoding. -/
structure Prims.Sound (F : Prims) : Prop where
  double : ∀ p e, Represents C p e → Represents C (F.pointDouble p) (e + e)
  add : ∀ p q e f, Represents C p e → Represents C q f → Represents C (F.pointAdd p q) (e + f)
  add_affine : ∀ p a e f, Represents C p e → RepresentsAffine C a f → (e = 0 ∨ f = 0 ∨ e ≠ f) →
    Represents C (F.pointAddAffine p a) (e + f)
  add_affine_zero : ∀ p, F.pointAddAffine p 0 = p

variable {C}

theorem represents_of_Z_eq_zero {p : P256Point} (hZ : mont p.Z = 0) {e : E} :
    Represents C p e ↔ e = 0 := by
  simp [Represents, hZ]

theorem represents_of_Z_ne_zero {p : P256Point} (hZ : mont p.Z ≠ 0) {e : E} :
    Represents C p e ↔ C.point (mont p.X / mont p.Z ^ 2) (mont p.Y / mont p.Z ^ 3) = some e := by
  simp [Represents, hZ]

theorem representsAffine_zero {e : E} : RepresentsAffine C 0 e ↔ e = 0 := by
  simp [RepresentsAffine]

theorem representsAffine_of_ne {a : P256PointAffine} (ha : a ≠ 0) {e : E} :
    RepresentsAffine C a e ↔ C.point (mont a.X) (mont a.Y) = some e := by
  simp [RepresentsAffine, ha]

theorem represents_zero : Represents C 0 (0 : E) :=
  (represents_of_Z_eq_zero (by rw [zero_Z, mont_zero])).2 rfl

theorem represents_unique {p : P256Point} {e e' : E} (h : Represents C p e)
    (h' : Represents C p e') : e = e' := by
  by_cases hZ : mont p.Z = 0
  · rw [(represents_of_Z_eq_zero hZ).1 h, (represents_of_Z_eq_zero hZ).1 h']
  · rw [represents_of_Z_ne_zero hZ] at h h'
    exact Option.some_injective _ (h.symm.trans h')

theorem not_represents_zero {p : P256Point} (hZ : mont p.Z ≠ 0) : ¬ Represents C p (0 : E) := by
  rw [represents_of_Z_ne_zero hZ]
  exact C.point_ne_zero _ _

theorem represents_condNegY {p : P256Point} {e : E} (h : Represents C p e) (w : Unsigned) :
    Represents C { p with Y := condNegY p.Y w } (if w &&& 1 = 0 then e else -e) := by
  rw [condNegY_eq]
  split
  · exact h
  · have hZ' : mont ({ p with Y := neg p.Y } : P256Point).Z = mont p.Z := rfl
    by_cases hZ : mont p.Z = 0
    · rw [represents_of_Z_eq_zero hZ] at h
      rw [represents_of_Z_eq_zero (hZ'.trans hZ), h, neg_zero]
    · rw [represents_of_Z_ne_zero hZ] at h
      rw [represents_of_Z_ne_zero (hZ'.trans_ne hZ)]
      dsimp only
      rw [mont_neg, neg_div, C.point_neg, h, Option.map_some']

theorem representsAffine_condNegY {a : P256PointAffine} {e : E} (h : RepresentsAffine C a e)
    (hY : a.Y.val < P) (w : Unsigned) :
    RepresentsAffine C { a with Y := condNegY a.Y w } (if w &&& 1 = 0 then e else -e) := by
  rw [condNegY_eq]
  split
  · exact h
  · by_cases ha : a = 0
    · subst ha
      have h0 : ({ (0 : P256PointAffine) with Y := neg (0 : P256PointAffine).Y } :
          P256PointAffine) = 0 := by decide
      rw [h0, representsAffine_zero, representsAffine_zero.1 h, neg_zero]
    · have hne : ({ a with Y := neg a.Y } : P256PointAffine) ≠ 0 := fun h0 => ha (by
        have hy : neg a.Y = 0 := congrArg P256PointAffine.Y h0
        have hx : a.X = 0 := congrArg P256PointAffine.X h0
        have hm : (a.Y.val : ZMod P) = 0 := by
          rw [← mont_eq_zero, ← neg_eq_zero, ← mont_neg, hy, mont_zero]
        have hv : a.Y = 0 := Felem.val_eq_zero.1
          (Nat.eq_zero_of_dvd_of_lt ((ZMod.natCast_zmod_eq_zero_iff_dvd _ _).1 hm) hY)
        cases a
        simp only at hx hv
        rw [hx, hv]; rfl)
      rw [representsAffine_of_ne ha] at h
      rw [representsAffine_of_ne hne, mont_neg, C.point_neg, h, Option.map_some']

theorem represents_ofAffine {a : P256PointAffine} {e : E} (h : RepresentsAffine C a e)
    (ha : a ≠ 0) : Represents C ⟨a.X, a.Y, one⟩ e := by
  rw [representsAffine_of_ne ha] at h
  rw [represents_of_Z_ne_zero (by rw [mont_one]; exact one_ne_zero)]
  simp only [mont_one, one_pow, div_one, h]

/-- `table` holds the multiples `1·e, ..., 16·e` of `e`, entry `m - 1` standing for `m·e`. -/
def TableOk (C : Curve E) (table : List P256Point) (e : E) : Prop :=
  ∀ m, 1 ≤ m → m ≤ 16 → Represents C (table.getD (m - 1) 0) ((m : ℤ) • e)

/-- Row `row` of the generator table holds the reduced affine multiples `1·e, ..., 64·e`. -/
def RowOk (C : Curve E) (row : List P256PointAffine) (e : E) : Prop :=
  ∀ m, 1 ≤ m → m ≤ 64 →
    RepresentsAffine C (row.getD (m - 1) 0) ((m : ℤ) • e) ∧ (row.getD (m - 1) 0).Y.val < P

theorem represents_selectW5 {table : List P256Point} {e : E} (h : TableOk C table e)
    {index : Unsigned} (hi : index.toNat ≤ 16) :
    Represents C (selectW5 table index) ((index.toNat : ℤ) • e) := by
  unfold selectW5
  split
  · rw [‹index.toNat = 0›, Nat.cast_zero, zero_zsmul]; exact represents_zero
  · exact h _ (by omega) hi

theorem representsAffine_selectW7 {row : List P256PointAffine} {e : E} (h : RowOk C row e)
    {index : Unsigned} (hi : index.toNat ≤ 64) :
    RepresentsAffine C (selectW7 row index) ((index.toNat : ℤ) • e) ∧
      (selectW7 row index).Y.val < P := by
  unfold selectW7
  split
  · rw [‹index.toNat = 0›, Nat.cast_zero, zero_zsmul]
    exact ⟨representsAffine_zero.2 rfl, by decide⟩
  · exact h _ (by omega) hi

theorem represents_digitW5 {table : List P256Point} {e : E} (h : TableOk C table e)
    {r : Unsigned} (hr : (r >>> 1).toNat ≤ 16) :
    Represents C { selectW5 table (r >>> 1) with Y := condNegY (selectW5 table (r >>> 1)).Y r }
      (digitValue r • e) := by
  have h' := represents_condNegY (represents_selectW5 h hr) r
  unfold digitValue
  split <;> simp_all [neg_zsmul]

theorem representsAffine_digitW7 {row : List P256PointAffine} {e : E} (h : RowOk C row e)
    {r : Unsigned} (hr : (r >>> 1).toNat ≤ 64) :
    RepresentsAffine C { selectW7 row (r >>> 1) with Y := condNegY (selectW7 row (r >>> 1)).Y r }
      (digitValue r • e) := by
  obtain ⟨h1, h2⟩ := representsAffine_selectW7 h hr
  have h' := representsAffine_condNegY h1 h2 r
  unfold digitValue
  split <;> simp_all [neg_zsmul]

end Represent

/-! ## The contracts are satisfiable

A curve whose points are their `y`-coordinates, in the group `ZMod P`, with routines that
decode their arguments, add, and encode the sum. -/

/-- The additive group of the field, as the ring gives it; fixed here so that a curve over the
field always carries this one. -/
instance : AddCommGroup (ZMod P) := Ring.toAddCommGroup

/-- The pair `(x, y)` names `y`, when `y ≠ 0`. -/
def yLine : Curve (ZMod P) where
  point _ y := if y = 0 then none else some y
  point_neg x y := by
    show (if -y = 0 then none else some (-y)) = (if y = 0 then none else some y).map Neg.neg
    by_cases h : y = 0
    · rw [if_pos (neg_eq_zero.2 h), if_pos h]; rfl
    · rw [if_neg (neg_ne_zero.2 h), if_neg h]; rfl
  point_ne_zero x y := by
    show (if y = 0 then none else some y) ≠ some 0
    split
    · exact Option.noConfusion
    · exact fun h => ‹¬y = 0› (Option.some_injective _ h)

theorem yLine_point (x y : ZMod P) : yLine.point x y = if y = 0 then none else some y := rfl

attribute [irreducible] yLine

def toMont (v : ZMod P) : Felem := Felem.ofNat (v.val * 2 ^ 256 % P)

theorem mont_toMont (v : ZMod P) : mont (toMont v) = v := by
  rw [mont, toMont, val_ofNat_mod, ZMod.natCast_mod, Nat.cast_mul, mul_assoc, r_mul_rInv,
    mul_one, ZMod.natCast_zmod_val]

@[irreducible] def yDecode (p : P256Point) : ZMod P :=
  if mont p.Z = 0 then 0 else mont p.Y / mont p.Z ^ 3

@[irreducible] def yEncode (v : ZMod P) : P256Point := if v = 0 then 0 else ⟨0, toMont v, one⟩

/-- Routines that compute on `yLine`. -/
@[irreducible] def yPrims : Prims where
  pointDouble p := yEncode (yDecode p + yDecode p)
  pointAdd p q := yEncode (yDecode p + yDecode q)
  pointAddAffine p a := if a = 0 then p else yEncode (yDecode p + mont a.Y)

theorem yDecode_of_represents {p : P256Point} {e : ZMod P} (h : Represents yLine p e) :
    yDecode p = e := by
  unfold yDecode
  by_cases hZ : mont p.Z = 0
  · rw [if_pos hZ, (represents_of_Z_eq_zero hZ).1 h]
  · rw [represents_of_Z_ne_zero hZ, yLine_point] at h
    rw [if_neg hZ]
    split at h
    · exact Option.noConfusion h
    · exact Option.some_injective _ h

theorem represents_yEncode (v : ZMod P) : Represents yLine (yEncode v) v := by
  unfold yEncode
  split
  · subst_vars; exact represents_zero
  · rw [represents_of_Z_ne_zero (by rw [mont_one]; exact one_ne_zero), yLine_point, mont_one,
      one_pow, div_one, mont_toMont, if_neg ‹_›]

theorem represents_yLine_one (x : Felem) : Represents yLine ⟨x, one, one⟩ (1 : ZMod P) := by
  have hone : one ≠ 0 := by decide
  have ha : (⟨x, one⟩ : P256PointAffine) ≠ 0 := fun h => hone (congrArg P256PointAffine.Y h)
  have hy : yLine.point (mont x) (mont one) = some 1 := by
    rw [yLine_point, mont_one, if_neg one_ne_zero]
  exact represents_ofAffine ((representsAffine_of_ne ha).2 hy) ha

theorem yPrims_sound : yPrims.Sound yLine := by
  unfold yPrims
  refine ⟨fun p e h => ?_, fun p q e f hp hq => ?_, fun p a e f hp ha _ => ?_, fun p => ?_⟩
  · rw [← yDecode_of_represents h]; exact represents_yEncode _
  · rw [← yDecode_of_represents hp, ← yDecode_of_represents hq]; exact represents_yEncode _
  · show Represents yLine (if a = 0 then p else yEncode (yDecode p + mont a.Y)) (e + f)
    split
    · subst_vars
      rw [representsAffine_zero.1 ha, add_zero]; exact hp
    · rw [representsAffine_of_ne ‹_›, yLine_point] at ha
      split at ha
      · exact Option.noConfusion ha
      · rw [← Option.some_injective _ ha, ← yDecode_of_represents hp]
        exact represents_yEncode _
  · show (if (0 : P256PointAffine) = 0 then p else yEncode (yDecode p + mont (0 : P256PointAffine).Y)) = p
    exact if_pos rfl

end EcpNistz256.Point

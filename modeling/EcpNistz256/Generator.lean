import EcpNistz256.Limbs

/-!
# Recognising the standard generator

`ecp_nistz256_is_affine_G` decides whether the group's generator is the one the precomputed
table was built for. It compares limb arrays with the branch-free `is_equal` and `is_one`, whose
answers rest on `is_zero`; the comparisons read `d[0..P256_LIMBS)`, which the `top` tests in
front of them (evaluated first, by `&&`) guarantee to be the whole number.
-/

set_option autoImplicit false

namespace EcpNistz256.Generator

open Limbs

def defXG : Felem :=
  ⟨tobn 0x79e730d4 0x18a9143c, tobn 0x75ba95fc 0x5fedb601,
    tobn 0x79fb732b 0x77622510, tobn 0x18905f76 0xa53755c6⟩

def defYG : Felem :=
  ⟨tobn 0xddf25357 0xce95560a, tobn 0x8b4ab8e4 0xba19e45c,
    tobn 0xd2e88688 0xdd21f325, tobn 0x8571ff18 0x25885d85⟩

/-- The array `b->d` read as `P256_LIMBS` limbs. -/
def fieldLimbs (b : Bignum) : Felem := ⟨b.d.getD 0 0, b.d.getD 1 0, b.d.getD 2 0, b.d.getD 3 0⟩

def ecpNistz256IsAffineG (generator : EcPoint) : Bool :=
  generator.X.top == p256Limbs && generator.Y.top == p256Limbs &&
    generator.Z.top == p256Limbs - p256Limbs / 8 &&
    isEqual (fieldLimbs generator.X) defXG != 0 && isEqual (fieldLimbs generator.Y) defYG != 0 &&
    isOne (fieldLimbs generator.Z) != 0

theorem isOne_eq (a : Felem) : isOne a = if a = one then 1 else 0 := isEqual_eq a one

theorem isEqual_ne_zero (a b : Felem) : isEqual a b != 0 ↔ a = b := by
  rw [isEqual_eq]; split <;> simp_all

theorem fieldLimbs_eq_iff (b : Bignum) (f : Felem) :
    b.top = 4 ∧ fieldLimbs b = f ↔ b.d = f.limbs := by
  obtain ⟨d, neg, hmin⟩ := b
  obtain ⟨f0, f1, f2, f3⟩ := f
  rcases d with _ | ⟨a0, _ | ⟨a1, _ | ⟨a2, _ | ⟨a3, _ | ⟨a4, d⟩⟩⟩⟩⟩ <;>
    simp [Bignum.top, fieldLimbs, Felem.limbs]

/-- `is_zero` is one exactly on the zero word, `is_equal` exactly on equal limb arrays, `is_one`
exactly on `ONE`; so the generator predicate holds exactly when all three coordinates have
`P256_LIMBS` limbs and those limbs are `def_xG`, `def_yG` and `ONE`. -/
theorem is_affine_G_iff :
    (∀ w : BnUlong, isZero w = if w = 0 then 1 else 0) ∧
    (∀ a b : Felem, isEqual a b = if a = b then 1 else 0) ∧
    (∀ a : Felem, isOne a = if a = one then 1 else 0) ∧
    (∀ g : EcPoint, ecpNistz256IsAffineG g = true ↔
      g.X.top = p256Limbs ∧ g.Y.top = p256Limbs ∧ g.Z.top = p256Limbs ∧
      g.X.d = defXG.limbs ∧ g.Y.d = defYG.limbs ∧ g.Z.d = one.limbs) := by
  refine ⟨isZero_eq, isEqual_eq, isOne_eq, fun g => ?_⟩
  rw [← fieldLimbs_eq_iff g.X, ← fieldLimbs_eq_iff g.Y, ← fieldLimbs_eq_iff g.Z]
  simp only [ecpNistz256IsAffineG, isOne, Bool.and_eq_true, beq_iff_eq, isEqual_ne_zero,
    show p256Limbs = 4 from rfl, show 4 - 4 / 8 = 4 from rfl]
  constructor
  · rintro ⟨⟨⟨⟨⟨hx, hy⟩, hz⟩, fx⟩, fy⟩, fz⟩
    exact ⟨hx, hy, hz, ⟨hx, fx⟩, ⟨hy, fy⟩, hz, fz⟩
  · rintro ⟨hx, hy, hz, ⟨-, fx⟩, ⟨-, fy⟩, -, fz⟩
    exact ⟨⟨⟨⟨⟨hx, hy⟩, hz⟩, fx⟩, fy⟩, fz⟩

end EcpNistz256.Generator

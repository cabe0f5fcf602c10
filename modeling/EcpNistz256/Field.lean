import EcpNistz256.Limbs
import EcpNistz256.Prime
import Mathlib.FieldTheory.Finite.Basic

/-!
# The field primitives

The assembly routines are only declared in the source, each with its numeric contract in a
comment. The four that the C code calls are defined here by those contracts on the numbers the
limbs spell. `mont a` is the field element a limb array encodes in the Montgomery domain,
`a * 2^-256 mod p`; through it `mul_mont` and `sqr_mont` become multiplication and squaring.
-/

set_option autoImplicit false

namespace EcpNistz256.Field

open Limbs

/-- The field prime ("poly" in the source). -/
def P : Nat := 0xffffffff00000001000000000000000000000000ffffffffffffffffffffffff

instance : Fact (Nat.Prime P) := ⟨Prime.prime_p256⟩

theorem p_lt : P < 2 ^ 256 := by decide

/-- `2^-256 mod p`. -/
def rInv : Nat := 0xfffffffe00000003fffffffd0000000200000001fffffffe0000000300000000

theorem r_mul_rInv : ((2 ^ 256 : Nat) : ZMod P) * (rInv : ZMod P) = 1 := by decide

/-- Modelled from the spec: `ecp_nistz256_mul_mont`, `res = a*b*2^-256 mod P`. -/
def mulMont (a b : Felem) : Felem := Felem.ofNat (a.val * b.val * rInv % P)

/-- Modelled from the spec: `ecp_nistz256_sqr_mont`, `res = a*a*2^-256 mod P`. -/
def sqrMont (a : Felem) : Felem := Felem.ofNat (a.val * a.val * rInv % P)

/-- Modelled from the spec: `ecp_nistz256_neg`, `res = -a mod P`. -/
def neg (a : Felem) : Felem := Felem.ofNat ((P - a.val % P) % P)

/-- Modelled from the spec: `ecp_nistz256_from_mont`, multiplication by one in the Montgomery
domain. -/
def fromMont (a : Felem) : Felem := Felem.ofNat (a.val * 1 * rInv % P)

/-- The field element `a` encodes: `a * 2^-256 mod p`. -/
def mont (a : Felem) : ZMod P := (a.val : ZMod P) * (rInv : ZMod P)

theorem val_ofNat_mod (n : Nat) : (Felem.ofNat (n % P)).val = n % P := by
  rw [Felem.val_ofNat, Nat.mod_eq_of_lt (lt_trans (Nat.mod_lt _ (by decide)) p_lt)]

@[simp] theorem mont_mulMont (a b : Felem) : mont (mulMont a b) = mont a * mont b := by
  simp only [mont, mulMont, val_ofNat_mod, ZMod.natCast_mod, Nat.cast_mul]
  ring

@[simp] theorem mont_sqrMont (a : Felem) : mont (sqrMont a) = mont a ^ 2 := by
  simp only [mont, sqrMont, val_ofNat_mod, ZMod.natCast_mod, Nat.cast_mul]
  ring

@[simp] theorem mont_neg (a : Felem) : mont (neg a) = -mont a := by
  have hlt : a.val % P ≤ P := (Nat.mod_lt _ (by decide)).le
  simp only [mont, neg, val_ofNat_mod, ZMod.natCast_mod, Nat.cast_sub hlt, ZMod.natCast_self]
  ring

theorem sqrMont_eq (a : Felem) : sqrMont a = mulMont a a := rfl

theorem val_fromMont (a : Felem) : (fromMont a).val = (mont a).val := by
  simp only [fromMont, val_ofNat_mod, mont, Nat.mul_one]
  rw [← Nat.cast_mul, ZMod.val_natCast]

theorem mont_injective {a b : Felem} (ha : a.val < P) (hb : b.val < P) (h : mont a = mont b) :
    a = b := by
  have hr : (rInv : ZMod P) ≠ 0 := fun h0 => by simpa [h0] using r_mul_rInv
  have : (a.val : ZMod P) = b.val := mul_right_cancel₀ hr h
  rw [ZMod.natCast_eq_natCast_iff', Nat.mod_eq_of_lt ha, Nat.mod_eq_of_lt hb] at this
  exact Felem.val_injective this

theorem mont_eq_zero {a : Felem} : mont a = 0 ↔ (a.val : ZMod P) = 0 := by
  have hr : (rInv : ZMod P) ≠ 0 := fun h0 => by simpa [h0] using r_mul_rInv
  simp [mont, hr]

@[simp] theorem mont_zero : mont 0 = 0 := by simp [mont]

theorem mont_one : mont one = 1 := by decide

theorem pow_p_sub_two (x : ZMod P) : x ^ (P - 2) = x⁻¹ := by
  by_cases hx : x = 0
  · subst hx; rw [zero_pow (by decide), inv_zero]
  · have h := ZMod.pow_card_sub_one_eq_one hx
    rw [show P - 1 = P - 2 + 1 by decide, pow_succ] at h
    exact (eq_inv_of_mul_eq_one_left h)

end EcpNistz256.Field

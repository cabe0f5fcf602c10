import Mathlib.NumberTheory.LucasPrimality
import Mathlib.Tactic.NormNum.Prime

/-!
# The field prime is prime

`ecp_nistz256_mod_inverse` inverts by Fermat's little theorem, which holds only because the
modulus `p = 2^256 - 2^224 + 2^192 + 2^96 - 1` is prime. This module proves that by a Pratt
certificate: Lucas' test at every node, with the modular powers evaluated by the kernel through
a repeated-squaring function that recurses on a bound of the exponent's bit length.
-/

set_option autoImplicit false

namespace EcpNistz256.Prime

/-- `b^e mod m` by repeated squaring over at most `fuel` bits of `e`. -/
def powMod : Nat → Nat → Nat → Nat → Nat
  | 0, _, _, m => 1 % m
  | fuel + 1, b, e, m =>
    if e = 0 then 1 % m else
      let h := powMod fuel b (e / 2) m
      if e % 2 = 1 then h * h % m * b % m else h * h % m

theorem powMod_eq (fuel b e m : Nat) (he : e < 2 ^ fuel) : powMod fuel b e m = b ^ e % m := by
  induction fuel generalizing e with
  | zero =>
    obtain rfl : e = 0 := by simpa using he
    simp [powMod]
  | succ fuel ih =>
    unfold powMod
    split
    · subst e; simp
    · rw [ih (e / 2) (by rw [Nat.pow_succ] at he; omega)]
      have hsq : b ^ (e / 2) * b ^ (e / 2) = b ^ (2 * (e / 2)) := by rw [← Nat.pow_add]; ring_nf
      split
      · have : b ^ e = b ^ (e / 2) * b ^ (e / 2) * b := by
          rw [hsq, ← Nat.pow_succ]; congr 1; omega
        rw [this, Nat.mul_mod (b ^ (e / 2) * b ^ (e / 2)), Nat.mul_mod (b ^ (e / 2)),
          Nat.mul_mod (_ % m * _ % m)]
        simp
      · have : b ^ e = b ^ (e / 2) * b ^ (e / 2) := by rw [hsq]; congr 1; omega
        rw [this, Nat.mul_mod (b ^ (e / 2))]

theorem natCast_pow_eq_one_iff {p : Nat} (hp : 1 < p) (a e : Nat) :
    (a : ZMod p) ^ e = 1 ↔ a ^ e % p = 1 := by
  rw [← Nat.cast_pow, ← Nat.cast_one, ZMod.natCast_eq_natCast_iff', Nat.mod_eq_of_lt hp]

theorem prime_of_pratt (p a : Nat) (fs : List Nat) (hp : 1 < p) (hb : p ≤ 2 ^ 256)
    (hfs : ∀ q ∈ fs, q.Prime) (hprod : fs.prod = p - 1)
    (hfermat : powMod 256 a (p - 1) p = 1)
    (horder : ∀ q ∈ fs, powMod 256 a ((p - 1) / q) p ≠ 1) : p.Prime := by
  have hpow : ∀ e, e ≤ p - 1 → powMod 256 a e p = a ^ e % p :=
    fun e he => powMod_eq _ _ _ _ (by omega)
  apply lucas_primality p (a : ZMod p)
  · rw [natCast_pow_eq_one_iff hp, ← hpow _ le_rfl, hfermat]
  · intro q hq hdvd
    rw [← hprod] at hdvd
    obtain ⟨r, hr, hqr⟩ := (Prime.dvd_prod_iff hq.prime).mp hdvd
    obtain rfl := (Nat.prime_dvd_prime_iff_eq hq (hfs r hr)).mp hqr
    rw [Ne, natCast_pow_eq_one_iff hp, ← hpow _ (Nat.div_le_self _ _)]
    exact horder q hr

set_option maxRecDepth 20000

theorem prime_204061199 : Nat.Prime 204061199 :=
  prime_of_pratt _ 11 [2, 11, 23, 107, 3769] (by norm_num) (by norm_num) (by norm_num)
    (by norm_num) (by decide) (by decide)

theorem prime_34282281433 : Nat.Prime 34282281433 :=
  prime_of_pratt _ 17 [2, 2, 2, 3, 7, 204061199] (by norm_num) (by norm_num)
    (by simp only [List.mem_cons, List.mem_singleton, List.not_mem_nil, or_false]
        have := prime_204061199
        rintro q (rfl | rfl | rfl | rfl | rfl | rfl) <;> first | assumption | norm_num)
    (by norm_num) (by decide) (by decide)

theorem prime_66417393611 : Nat.Prime 66417393611 :=
  prime_of_pratt _ 6 [2, 5, 53, 173, 197, 3677] (by norm_num) (by norm_num) (by norm_num)
    (by norm_num) (by decide) (by decide)

theorem prime_11290956913871 : Nat.Prime 11290956913871 :=
  prime_of_pratt _ 13 [2, 5, 17, 66417393611] (by norm_num) (by norm_num)
    (by simp only [List.mem_cons, List.mem_singleton, List.not_mem_nil, or_false]
        have := prime_66417393611
        rintro q (rfl | rfl | rfl | rfl) <;> first | assumption | norm_num)
    (by norm_num) (by decide) (by decide)

theorem prime_46076956964474543 : Nat.Prime 46076956964474543 :=
  prime_of_pratt _ 5 [2, 23, 18169, 78283, 704251] (by norm_num) (by norm_num) (by norm_num)
    (by norm_num) (by decide) (by decide)

theorem prime_774023187263532362759620327192479577272145303 :
    Nat.Prime 774023187263532362759620327192479577272145303 :=
  prime_of_pratt _ 3 [2, 3, 3, 2411, 34282281433, 11290956913871, 46076956964474543]
    (by norm_num) (by norm_num)
    (by simp only [List.mem_cons, List.mem_singleton, List.not_mem_nil, or_false]
        have := prime_34282281433; have := prime_11290956913871; have := prime_46076956964474543
        rintro q (rfl | rfl | rfl | rfl | rfl | rfl | rfl) <;> first | assumption | norm_num)
    (by norm_num) (by decide) (by decide)

theorem prime_835945042244614951780389953367877943453916927241 :
    Nat.Prime 835945042244614951780389953367877943453916927241 :=
  prime_of_pratt _ 11 [2, 2, 2, 3, 3, 3, 5, 774023187263532362759620327192479577272145303]
    (by norm_num) (by norm_num)
    (by simp only [List.mem_cons, List.mem_singleton, List.not_mem_nil, or_false]
        have := prime_774023187263532362759620327192479577272145303
        rintro q (rfl | rfl | rfl | rfl | rfl | rfl | rfl | rfl) <;> first | assumption | norm_num)
    (by norm_num) (by decide) (by decide)

theorem prime_p256 :
    Nat.Prime 0xffffffff00000001000000000000000000000000ffffffffffffffffffffffff :=
  prime_of_pratt _ 6 [2, 3, 5, 5, 17, 257, 641, 1531, 65537, 490463, 6700417,
      835945042244614951780389953367877943453916927241]
    (by norm_num) (by norm_num)
    (by simp only [List.mem_cons, List.mem_singleton, List.not_mem_nil, or_false]
        have := prime_835945042244614951780389953367877943453916927241
        rintro q (rfl | rfl | rfl | rfl | rfl | rfl | rfl | rfl | rfl | rfl | rfl | rfl) <;>
          first | assumption | norm_num)
    (by norm_num) (by decide) (by decide)

end EcpNistz256.Prime

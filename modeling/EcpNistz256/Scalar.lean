import EcpNistz256.Booth
import EcpNistz256.Exec
import Mathlib.Tactic.IntervalCases

/-!
# Serializing a scalar and reading its windows

Both scalar multiplications copy the scalar's limbs into a 33-byte buffer `p_str`, least
significant byte first, and zero the bytes after them: the limb loop runs `top` times, the fill
`33 - 8·top` times. The ladders then read windows of `w + 1` bits out of two adjacent bytes
and recode them. For a scalar of at most `P256_LIMBS` limbs the buffer holds the scalar with a
zero guard byte, every read is the scalar's Booth window, and the recoded digits add up to the
scalar.
-/

set_option autoImplicit false

namespace EcpNistz256.Scalar

open Limbs Exec Booth

abbrev Uint8 := BitVec 8

/-- A `uint8_t p_str[33]`, read by index. -/
abbrev PStr := Nat → Uint8

/-- `p_str[j] = v` for a `BN_ULONG` value; a store past the 33 bytes is undefined behaviour. -/
def store (buf : PStr) (j : Nat) (v : BnUlong) : Run PStr :=
  if j < 33 then pure (Function.update buf j (v.setWidth 8)) else fail .undefined

/-- One pass of the limb loop: the eight bytes of `d` at `p_str[j .. j + 8)`. -/
def storeLimb (buf : PStr) (j : Nat) (d : BnUlong) : Run PStr := do
  let buf ← store buf (j + 0) (d &&& 0xff)
  let buf ← store buf (j + 1) ((d >>> 8) &&& 0xff)
  let buf ← store buf (j + 2) ((d >>> 16) &&& 0xff)
  let d := d >>> 24
  let buf ← store buf (j + 3) (d &&& 0xff)
  let d := d >>> 8
  let buf ← store buf (j + 4) (d &&& 0xff)
  let buf ← store buf (j + 5) ((d >>> 8) &&& 0xff)
  let buf ← store buf (j + 6) ((d >>> 16) &&& 0xff)
  store buf (j + 7) ((d >>> 24) &&& 0xff)

/-- The limb loop `for (j = 0; j < top * BN_BYTES; j += BN_BYTES)`. -/
def storeLimbs : List BnUlong → Nat → PStr → Run PStr
  | [], _, buf => pure buf
  | d :: ds, j, buf => do
    emit .limb
    let buf ← storeLimb buf j d
    storeLimbs ds (j + 8) buf

/-- The fill `for (; j < 33; j++) p_str[j] = 0`, which runs `n = 33 - j` times. -/
def zeroFill : Nat → Nat → PStr → Run PStr
  | 0, _, buf => pure buf
  | n + 1, j, buf => do
    emit .zeroByte
    let buf ← store buf j 0
    zeroFill n (j + 1) buf

/-- The serialization of a scalar into `p_str`, the same in both functions. -/
def serialize (buf : PStr) (k : Bignum) : Run PStr := do
  let buf ← storeLimbs k.d 0 buf
  zeroFill (33 - 8 * k.top) (8 * k.top) buf

/-- Byte `j` of `n`, least significant first. -/
def leByte (n j : Nat) : Uint8 := BitVec.ofNat 8 (n / 2 ^ (8 * j))

/-- `kMask`, `(1 << (w + 1)) - 1`. -/
def kMask (w : Nat) : Unsigned := (1 : Unsigned) <<< (w + 1) - 1

/-- The read of the window below bit `index` from two bytes:
`p_str[off] | p_str[off + 1] << 8`, shifted right by `(index - 1) % 8` and masked. -/
def readWindow (w : Nat) (buf : PStr) (index : Nat) : Unsigned :=
  let off := (index - 1) / 8
  let wvalue := (buf off).setWidth 32 ||| (buf (off + 1)).setWidth 32 <<< 8
  (wvalue >>> ((index - 1) % 8)) &&& kMask w

/-- The first read of `ecp_nistz256_windowed_mul`, from the one byte `p_str[(index - 1) / 8]`. -/
def readWindowByte (w : Nat) (buf : PStr) (index : Nat) : Unsigned :=
  ((buf ((index - 1) / 8)).setWidth 32 >>> ((index - 1) % 8)) &&& kMask w

/-- The read of the lowest window, whose bit below the scalar is zero: `(p_str[0] << 1) & kMask`. -/
def readWindowLow (w : Nat) (buf : PStr) : Unsigned := ((buf 0).setWidth 32 <<< 1) &&& kMask w

/-- The window a ladder of width `w` reads for digit `j`: digit 0 from `p_str[0]` (the final
window of `windowed_mul`, row 0 of the generator path), the others under `index = w * j`. -/
def windowAt (w : Nat) (buf : PStr) (j : Nat) : Unsigned :=
  if j = 0 then readWindowLow w buf else readWindow w buf (w * j)

/-- The signed digit `j` of `ecp_nistz256_windowed_mul`. -/
def digitW5 (buf : PStr) (j : Nat) : Int := digitValue (boothRecodeW5 (windowAt 5 buf j))

/-- The signed digit of row `i` of the generator path. -/
def digitW7 (buf : PStr) (i : Nat) : Int := digitValue (boothRecodeW7 (windowAt 7 buf i))

/-- `buf` with `f (i - j)` written at every `j ≤ i < j + m`. -/
def overwrite (buf : PStr) (j m : Nat) (f : Nat → Uint8) : PStr :=
  fun i => if j ≤ i ∧ i < j + m then f (i - j) else buf i

/-- What the ladders need of a serialized scalar `n`: its bytes with a zero guard byte, the
first read of `windowed_mul` agreeing with the general one, and both digit strings bounded and
adding up to `n`. -/
structure Recoded (s : PStr) (n : Nat) : Prop where
  bytes : ∀ j < 33, s j = leByte n j
  guard : s 32 = 0
  first_read : readWindowByte 5 s 255 = windowAt 5 s 51
  w5_abs : ∀ j < 52, |digitW5 s j| ≤ 16
  w5_top : 0 ≤ digitW5 s 51
  w5_sum : ∑ j ∈ Finset.range 52, digitW5 s j * 2 ^ (5 * j) = n
  w7_abs : ∀ i < 37, |digitW7 s i| ≤ 64
  w7_sum : ∑ i ∈ Finset.range 37, digitW7 s i * 2 ^ (7 * i) = n

/-! ## The stores -/

theorem store_of_lt {j : Nat} (h : j < 33) (buf : PStr) (v : BnUlong) :
    store buf j v = pure (Function.update buf j (v.setWidth 8)) := if_pos h

theorem leByte_toNat (n j : Nat) : (leByte n j).toNat = n / 2 ^ (8 * j) % 256 := by
  simp [leByte]

theorem byte_eq_leByte (d : BnUlong) (t : Nat) :
    ((d >>> (8 * t)) &&& 0xff).setWidth 8 = leByte d.toNat t := by
  apply BitVec.eq_of_toNat_eq
  have h : (0xff : BnUlong).toNat = 2 ^ 8 - 1 := rfl
  rw [BitVec.toNat_setWidth, BitVec.toNat_and, h, Nat.and_pow_two_sub_one_eq_mod,
    BitVec.toNat_ushiftRight, Nat.shiftRight_eq_div_pow, leByte_toNat, Nat.mod_mod]

theorem storeLimb_result {j : Nat} (h : j + 8 ≤ 33) (buf : PStr) (d : BnUlong) :
    (storeLimb buf j d).result = .ok (overwrite buf j 8 (leByte d.toNat)) := by
  simp only [storeLimb, store_of_lt (show j + 0 < 33 by omega), store_of_lt (show j + 1 < 33 by omega),
    store_of_lt (show j + 2 < 33 by omega), store_of_lt (show j + 3 < 33 by omega),
    store_of_lt (show j + 4 < 33 by omega), store_of_lt (show j + 5 < 33 by omega),
    store_of_lt (show j + 6 < 33 by omega), store_of_lt (show j + 7 < 33 by omega),
    Run.pure_bind, Run.result_pure, ← BitVec.shiftRight_add]
  congr 1
  funext i
  simp only [Function.update_apply, overwrite]
  by_cases hi : j ≤ i ∧ i < j + 8
  · obtain ⟨t, ht, rfl⟩ : ∃ t, t < 8 ∧ i = j + t := ⟨i - j, by omega, by omega⟩
    rw [if_pos hi, Nat.add_sub_cancel_left, ← byte_eq_leByte]
    interval_cases t <;> simp
  · have hne : ∀ t, t < 8 → i ≠ j + t := fun t ht => by omega
    simp [hne, hi, show i ≠ j by omega]

@[simp] theorem overwrite_zero (buf : PStr) (j : Nat) (f : Nat → Uint8) :
    overwrite buf j 0 f = buf := by
  funext i; simp only [overwrite]; rw [if_neg (by omega)]

theorem leByte_toNat_eq {n m j j' : Nat} (h : n / 2 ^ (8 * j) % 256 = m / 2 ^ (8 * j') % 256) :
    leByte n j = leByte m j' :=
  BitVec.eq_of_toNat_eq (by rw [leByte_toNat, leByte_toNat, h])

theorem leByte_eq_zero {n j : Nat} (h : n < 2 ^ (8 * j)) : leByte n j = 0 := by
  rw [leByte, Nat.div_eq_of_lt h]; rfl

theorem leByte_limbsValue_low (d : BnUlong) (ds : List BnUlong) {t : Nat} (ht : t < 8) :
    leByte (limbsValue (d :: ds)) t = leByte d.toNat t := by
  apply leByte_toNat_eq
  have h64 : (2 : Nat) ^ 64 = 2 ^ (8 * t) * (256 * 2 ^ (56 - 8 * t)) := by
    rw [show (256 : Nat) = 2 ^ 8 from rfl, ← pow_add, ← pow_add]; congr 1; omega
  rw [limbsValue, h64, Nat.mul_assoc, Nat.add_mul_div_left _ _ (Nat.two_pow_pos _),
    Nat.mul_assoc, Nat.add_mul_mod_self_left]

theorem leByte_limbsValue_high (d : BnUlong) (ds : List BnUlong) (t : Nat) :
    leByte (limbsValue (d :: ds)) (t + 8) = leByte (limbsValue ds) t := by
  apply leByte_toNat_eq
  have hp : (2 : Nat) ^ (8 * (t + 8)) = 2 ^ 64 * 2 ^ (8 * t) := by
    rw [← pow_add, show 64 + 8 * t = 8 * (t + 8) by omega]
  rw [limbsValue, hp, ← Nat.div_div_eq_div_mul, Nat.add_mul_div_left _ _ (Nat.two_pow_pos 64),
    Nat.div_eq_of_lt d.isLt, Nat.zero_add]

theorem storeLimbs_result (ds : List BnUlong) (j : Nat) (buf : PStr)
    (h : j + 8 * ds.length ≤ 33) :
    (storeLimbs ds j buf).result = .ok (overwrite buf j (8 * ds.length) (leByte (limbsValue ds))) := by
  induction ds generalizing j buf with
  | nil => simp [storeLimbs]
  | cons d ds ih =>
    simp only [List.length_cons] at h
    rw [storeLimbs, Run.emit_bind]
    dsimp only
    rw [Run.result_bind_of_ok (storeLimb_result (by omega) buf d), ih (j + 8) _ (by omega)]
    congr 1
    funext i
    simp only [overwrite, List.length_cons]
    by_cases hi : j + 8 ≤ i ∧ i < j + 8 + 8 * ds.length
    · rw [if_pos hi, if_pos (by omega), show i - j = (i - (j + 8)) + 8 by omega,
        leByte_limbsValue_high]
    · rw [if_neg hi]
      split_ifs <;> first | omega | rfl | exact (leByte_limbsValue_low d ds (by omega)).symm

theorem zeroFill_result (n j : Nat) (buf : PStr) (h : j + n ≤ 33) :
    (zeroFill n j buf).result = .ok (overwrite buf j n fun _ => 0) := by
  induction n generalizing j buf with
  | zero => simp [zeroFill]
  | succ n ih =>
    rw [zeroFill, Run.emit_bind]
    dsimp only
    rw [store_of_lt (by omega), Run.pure_bind, ih (j + 1) _ (by omega)]
    congr 1
    funext i
    simp only [overwrite, Function.update_apply]
    split_ifs <;> first | omega | rfl

theorem serialize_result (buf : PStr) (k : Bignum) (hk : k.top ≤ p256Limbs) :
    (serialize buf k).result = .ok (overwrite buf 0 33 (leByte k.magnitude)) := by
  have hlt := (Bignum.top_le_iff k k.top).1 le_rfl
  have htop : k.top = k.d.length := rfl
  have h4 : k.top ≤ 4 := hk
  rw [serialize, Run.result_bind_of_ok (storeLimbs_result k.d 0 buf (by omega)),
    zeroFill_result _ _ _ (by omega)]
  congr 1
  funext i
  simp only [overwrite, ← htop, Nat.zero_add, Nat.sub_zero]
  split_ifs <;> first | omega | rfl |
    exact (leByte_eq_zero (Nat.lt_of_lt_of_le hlt (Nat.pow_le_pow_right (by decide) (by omega)))).symm

/-! ## What the serialization loops do

The limb loop runs `top` times and the fill `33 - 8·top` times: the number of iterations is the
scalar's limb count. -/

theorem store_trace (buf : PStr) (j : Nat) (v : BnUlong) : (store buf j v).trace = [] := by
  unfold store; split <;> rfl

theorem storeLimb_trace (buf : PStr) (j : Nat) (d : BnUlong) : (storeLimb buf j d).trace = [] := by
  unfold storeLimb
  repeat (first | exact store_trace _ _ _ |
    refine Run.trace_bind_eq_nil (store_trace _ _ _) fun _ => ?_)

theorem storeLimbs_trace (ds : List BnUlong) (j : Nat) (buf : PStr)
    (h : j + 8 * ds.length ≤ 33) : (storeLimbs ds j buf).trace = List.replicate ds.length .limb := by
  induction ds generalizing j buf with
  | nil => rfl
  | cons d ds ih =>
    simp only [List.length_cons] at h
    rw [storeLimbs, Run.emit_bind]
    dsimp only
    rw [Run.trace_bind_of_ok (storeLimb_result (by omega) buf d), storeLimb_trace,
      ih (j + 8) _ (by omega)]
    rfl

theorem zeroFill_trace (n j : Nat) (buf : PStr) (h : j + n ≤ 33) :
    (zeroFill n j buf).trace = List.replicate n .zeroByte := by
  induction n generalizing j buf with
  | zero => rfl
  | succ n ih =>
    rw [zeroFill, Run.emit_bind]
    dsimp only
    rw [store_of_lt (by omega), Run.pure_bind, ih (j + 1) _ (by omega)]
    rfl

theorem serialize_trace (buf : PStr) (k : Bignum) (hk : k.top ≤ p256Limbs) :
    (serialize buf k).trace = List.replicate k.top .limb ++ List.replicate (33 - 8 * k.top) .zeroByte := by
  have h4 : k.top ≤ 4 := hk
  have htop : k.top = k.d.length := rfl
  rw [serialize, Run.trace_bind_of_ok (storeLimbs_result k.d 0 buf (by omega)),
    storeLimbs_trace _ _ _ (by omega), zeroFill_trace _ _ _ (by omega)]
  rfl

/-! ## The window reads -/

theorem toNat_and_kMask (x : Unsigned) {w : Nat} (hw : w ≤ 30) :
    (x &&& kMask w).toNat = x.toNat % 2 ^ (w + 1) := by
  have h1 : 1 ≤ 2 ^ (w + 1) := Nat.one_le_two_pow
  have h2 : 2 ^ (w + 1) < 2 ^ 32 := Nat.pow_lt_pow_right (by decide) (by omega)
  have hk : (kMask w).toNat = 2 ^ (w + 1) - 1 := by
    rw [kMask, BitVec.toNat_sub, toNat_one_shiftLeft (by omega), toNat_one]; omega
  rw [BitVec.toNat_and, hk, Nat.and_pow_two_sub_one_eq_mod]

theorem twoBytes_toNat (n off : Nat) :
    ((leByte n off).setWidth 32 ||| (leByte n (off + 1)).setWidth 32 <<< 8).toNat =
      n / 2 ^ (8 * off) % 2 ^ 16 := by
  have hx : n / 2 ^ (8 * (off + 1)) = n / 2 ^ (8 * off) / 2 ^ 8 := by
    rw [Nat.div_div_eq_div_mul, Nat.mul_succ, pow_add]
  rw [BitVec.toNat_or, BitVec.toNat_shiftLeft, BitVec.toNat_setWidth, BitVec.toNat_setWidth,
    leByte_toNat, leByte_toNat, hx, Nat.shiftLeft_eq]
  generalize n / 2 ^ (8 * off) = x
  have ha : x % 256 < 2 ^ 8 := Nat.mod_lt _ (by decide)
  have hb : x / 2 ^ 8 % 256 % 2 ^ 32 * 2 ^ 8 % 2 ^ 32 = 2 ^ 8 * (x / 2 ^ 8 % 256) := by omega
  rw [hb, Nat.mod_eq_of_lt (Nat.lt_trans ha (by decide)), Nat.or_comm, ← Nat.mul_add_lt_is_or ha]
  omega

theorem div_mod_two_pow_16 (x s m : Nat) (h : s + m ≤ 16) :
    x % 2 ^ 16 / 2 ^ s % 2 ^ m = x / 2 ^ s % 2 ^ m := by
  rw [show 16 = s + (16 - s) by omega, pow_add, Nat.mod_mul_right_div_self,
    Nat.mod_mod_of_dvd _ (Nat.pow_dvd_pow 2 (by omega))]

section Reads

variable {n : Nat} {buf : PStr} (hbuf : ∀ j < 33, buf j = leByte n j)
include hbuf

theorem readWindow_toNat {w index : Nat} (hw : w ≤ 7) (h1 : 1 ≤ index) (h2 : index ≤ 256) :
    (readWindow w buf index).toNat = n / 2 ^ (index - 1) % 2 ^ (w + 1) := by
  simp only [readWindow]
  rw [hbuf _ (by omega), hbuf _ (by omega), toNat_and_kMask _ (by omega), BitVec.toNat_ushiftRight,
    twoBytes_toNat, Nat.shiftRight_eq_div_pow, div_mod_two_pow_16 _ _ _ (by omega),
    Nat.div_div_eq_div_mul, ← pow_add, Nat.div_add_mod]

theorem readWindowLow_toNat {w : Nat} (hw : w ≤ 7) :
    (readWindowLow w buf).toNat = 2 * n % 2 ^ (w + 1) := by
  rw [readWindowLow, hbuf 0 (by decide), toNat_and_kMask _ (by omega), BitVec.toNat_shiftLeft,
    BitVec.toNat_setWidth, leByte_toNat, Nat.shiftLeft_eq, Nat.mul_zero, pow_zero, Nat.div_one,
    show n % 256 % 2 ^ 32 * 2 ^ 1 % 2 ^ 32 = 2 * n % 2 ^ 9 by omega,
    Nat.mod_mod_of_dvd _ (Nat.pow_dvd_pow 2 (by omega))]

theorem windowAt_toNat {w j : Nat} (hw1 : 1 ≤ w) (hw : w ≤ 7) (hj : w * j ≤ 256) :
    (windowAt w buf j).toNat = window w n j := by
  unfold windowAt window
  split
  · subst_vars; rw [readWindowLow_toNat hbuf hw]; simp
  · have hpos : 0 < w * j := Nat.mul_pos (by omega) (by omega)
    rw [readWindow_toNat hbuf hw hpos hj]
    obtain ⟨e, he⟩ : ∃ e, w * j = e + 1 := ⟨w * j - 1, by omega⟩
    rw [he, Nat.add_sub_cancel, pow_succ' 2 e, Nat.mul_div_mul_left _ _ (by decide : 0 < 2)]

theorem digit_windowAt {w j : Nat} (hw1 : 1 ≤ w) (hw : w ≤ 7) (hj : w * j ≤ 256) :
    digitValue (boothRecode w (windowAt w buf j)) = signedDigit w (window w n j) := by
  have h := windowAt_toNat hbuf hw1 hw hj
  rw [digitValue_boothRecode w _ hw1 (by omega) (h ▸ window_lt w n j), h]

theorem abs_digit_windowAt {w j : Nat} (hw1 : 1 ≤ w) (hw : w ≤ 7) (hj : w * j ≤ 256) :
    |digitValue (boothRecode w (windowAt w buf j))| ≤ 2 ^ (w - 1) := by
  have h := windowAt_toNat hbuf hw1 hw hj
  rw [abs_digitValue]
  exact_mod_cast boothRecode_index_le w _ hw1 (by omega) (h ▸ window_lt w n j)

theorem sum_digit_windowAt {w m : Nat} (hw1 : 1 ≤ w) (hw : w ≤ 7) (hm : w * (m - 1) ≤ 256)
    (hn : 2 * n < 2 ^ (w * m)) :
    ∑ j ∈ Finset.range m, digitValue (boothRecode w (windowAt w buf j)) * 2 ^ (w * j) = n := by
  rw [Finset.sum_congr rfl fun j hj => by
      rw [digit_windowAt hbuf hw1 hw (Nat.le_trans (Nat.mul_le_mul_left w
        (by simp only [Finset.mem_range] at hj; omega)) hm)],
    sum_signedDigit_window, carry_eq_zero w n hn]
  simp

end Reads

theorem recoded_of_bytes {s : PStr} {n : Nat} (hbuf : ∀ j < 33, s j = leByte n j)
    (hn : n < 2 ^ 256) : Recoded s n where
  bytes := hbuf
  guard := by rw [hbuf 32 (by decide)]; exact leByte_eq_zero hn
  first_read := by
    have hb : readWindowByte 5 s 255 = ((s 31).setWidth 32 >>> 6) &&& kMask 5 := rfl
    have h51 : windowAt 5 s 51 = readWindow 5 s 255 := rfl
    have h254 : n / 2 ^ (255 - 1) = n / 2 ^ (8 * 31) / 2 ^ 6 := by
      rw [Nat.div_div_eq_div_mul, ← pow_add]
    have hx : n / 2 ^ (8 * 31) < 256 := Nat.div_lt_of_lt_mul (by omega)
    apply BitVec.eq_of_toNat_eq
    rw [hb, h51, readWindow_toNat hbuf (by decide) (by decide) (by decide), hbuf 31 (by decide),
      toNat_and_kMask _ (by decide), BitVec.toNat_ushiftRight, BitVec.toNat_setWidth, leByte_toNat,
      Nat.shiftRight_eq_div_pow, h254]
    generalize n / 2 ^ (8 * 31) = x at hx
    omega
  w5_abs j hj :=
    (abs_digit_windowAt hbuf (show 1 ≤ 5 by decide) (by decide) (show 5 * j ≤ 256 by omega)).trans
      (by norm_num)
  w5_top := by
    have h := digit_windowAt hbuf (show 1 ≤ 5 by decide) (by decide) (show 5 * 51 ≤ 256 by decide)
    have hv : window 5 n 51 < 2 ^ 5 := by unfold window; omega
    show 0 ≤ digitValue (boothRecode 5 (windowAt 5 s 51))
    rw [h, signedDigit, Nat.div_eq_of_lt hv]
    omega
  w5_sum := sum_digit_windowAt hbuf (show 1 ≤ 5 by decide) (by decide)
    (show 5 * (52 - 1) ≤ 256 by decide) (by omega)
  w7_abs i hi :=
    (abs_digit_windowAt hbuf (show 1 ≤ 7 by decide) (by decide) (show 7 * i ≤ 256 by omega)).trans
      (by norm_num)
  w7_sum := sum_digit_windowAt hbuf (show 1 ≤ 7 by decide) (by decide)
    (show 7 * (37 - 1) ≤ 256 by decide) (by omega)

theorem recoded_of_serialize {buf s : PStr} {k : Bignum} (hk : k.top ≤ p256Limbs)
    (h : (serialize buf k).result = .ok s) : Recoded s k.magnitude := by
  rw [serialize_result buf k hk, Except.ok.injEq] at h
  subst h
  refine recoded_of_bytes (fun j hj => ?_) ((Bignum.top_le_iff k 4).1 hk)
  simp only [overwrite]; rw [if_pos ⟨Nat.zero_le _, by omega⟩, Nat.sub_zero]

theorem windowAt_toNat_lt (w : Nat) (hw : w ≤ 30) (buf : PStr) (j : Nat) :
    (windowAt w buf j).toNat < 2 ^ (w + 1) := by
  unfold windowAt readWindowLow readWindow
  split <;> rw [toNat_and_kMask _ hw] <;> exact Nat.mod_lt _ (Nat.two_pow_pos _)

/-- For a scalar of at most `P256_LIMBS` limbs the serialization succeeds, writes nothing past
`p_str[32]`, and leaves the scalar's little-endian bytes with a zero guard byte; the windows both
ladders read recode to digits within their tables that add up to the scalar. -/
theorem serialize_recode (buf : PStr) (k : Bignum) (hk : k.top ≤ p256Limbs) :
    ∃ s, (serialize buf k).result = .ok s ∧ (∀ j, 33 ≤ j → s j = buf j) ∧
      Recoded s k.magnitude := by
  refine ⟨_, serialize_result buf k hk, fun j hj => ?_, recoded_of_bytes (fun j hj => ?_)
    ((Bignum.top_le_iff k 4).1 hk)⟩
  · simp only [overwrite]; rw [if_neg (by omega)]
  · simp only [overwrite]; rw [if_pos ⟨Nat.zero_le _, by omega⟩, Nat.sub_zero]

theorem serialize_recode_five : (Bignum.ofLimbs [5] false).top ≤ p256Limbs ∧
    ∃ s, (serialize (fun _ => 0) (Bignum.ofLimbs [5] false)).result = .ok s ∧
      (∀ j, 33 ≤ j → s j = 0) ∧ Recoded s (Bignum.ofLimbs [5] false).magnitude :=
  ⟨by decide, serialize_recode (fun _ => 0) (Bignum.ofLimbs [5] false) (by decide)⟩

end EcpNistz256.Scalar

import Mathlib.Algebra.Order.Field.Power
import Mathlib.Data.Rat.Cast.Order
import Mathlib.Tactic.FieldSimp
import Mathlib.Tactic.Linarith
import Mathlib.Tactic.NormNum
import Mathlib.Tactic.Positivity
import Mathlib.Tactic.Ring
import MarkdownDocx.Number.Binary64

/-!
What rounding to a floating-point number gives, in rational numbers. A ratio is rounded to a number
if it is at most half a unit of the last place away from it.
-/

set_option autoImplicit false

namespace MarkdownDocx.Number

open Binary64 (scaledRatio floorLog2 ofRatio leastExponent greatestExponent)

/-! ## Exact ratios -/

theorem two_zpow_pos (e : ℤ) : (0 : ℚ) < 2 ^ e := zpow_pos (by norm_num) e

theorem scaledRatio_snd_pos {den : ℕ} (num : ℕ) (shift : ℤ) (hden : 0 < den) :
    0 < (scaledRatio num den shift).2 := by
  unfold scaledRatio
  split
  · exact hden
  · exact Nat.mul_pos hden (Nat.pow_pos (by norm_num))

theorem scaledRatio_div (num den : ℕ) (shift : ℤ) :
    ((scaledRatio num den shift).1 : ℚ) / (scaledRatio num den shift).2 =
      num / den * 2 ^ shift := by
  unfold scaledRatio
  split
  · next h =>
    obtain ⟨n, rfl⟩ := Int.eq_ofNat_of_zero_le h
    simp only [Int.toNat_natCast, Nat.pow_eq, Nat.cast_mul, Nat.cast_pow, Nat.cast_ofNat,
      zpow_natCast]
    ring
  · next h =>
    obtain ⟨n, hn⟩ := Int.eq_ofNat_of_zero_le (show 0 ≤ -shift by omega)
    obtain rfl : shift = -(n : ℤ) := by omega
    simp only [neg_neg, Int.toNat_natCast, Nat.pow_eq, Nat.cast_mul, Nat.cast_pow, Nat.cast_ofNat,
      zpow_neg, zpow_natCast]
    rw [div_mul_eq_div_div, div_eq_mul_inv]

/-! ## Rounding to an integer -/

/-- A number that is at most half away from an integer, and exactly half only if that is even. -/
structure Near (v : ℚ) (m : ℕ) : Prop where
  low : m - 1 / 2 ≤ v
  high : v ≤ m + 1 / 2
  odd : m % 2 = 1 → m - 1 / 2 < v ∧ v < m + 1 / 2

theorem roundHalfEven_eq {num den m : ℕ} (hden : 0 < den) (hlow : 2 * (m * den) ≤ 2 * num + den)
    (hhigh : 2 * num ≤ 2 * (m * den) + den)
    (hodd : m % 2 = 1 → 2 * (m * den) < 2 * num + den ∧ 2 * num < 2 * (m * den) + den) :
    roundHalfEven num den = m := by
  have hdiv := Nat.div_add_mod num den
  have hmod := Nat.mod_lt num hden
  unfold roundHalfEven
  generalize num / den = q at hdiv ⊢
  generalize num % den = r at hdiv hmod ⊢
  have hq : q ≤ m := by
    by_contra hlt
    have hmul : (m + 1) * den ≤ q * den := Nat.mul_le_mul_right den (by omega)
    have hsplit : (m + 1) * den = m * den + den := by ring
    have hcomm : den * q = q * den := Nat.mul_comm den q
    omega
  have hm : m ≤ q + 1 := by
    by_contra hlt
    have hmul : (q + 2) * den ≤ m * den := Nat.mul_le_mul_right den (by omega)
    have hsplit : (q + 2) * den = q * den + 2 * den := by ring
    have hcomm : den * q = q * den := Nat.mul_comm den q
    omega
  have hcomm : den * q = q * den := Nat.mul_comm den q
  rcases Nat.eq_or_lt_of_le hq with rfl | hlt
  · have hdown : ¬(2 * r > den ∨ 2 * r = den ∧ q % 2 = 1) := by omega
    simpa using hdown
  · obtain rfl : m = q + 1 := by omega
    have hsplit : (q + 1) * den = q * den + den := by ring
    have hup : (2 * r > den || (2 * r == den && q % 2 == 1)) = true := by
      simp only [Bool.or_eq_true, Bool.and_eq_true, decide_eq_true_eq, beq_iff_eq]
      omega
    exact if_pos hup

theorem roundHalfEven_bounds (num : ℕ) {den : ℕ} (hden : 0 < den) :
    2 * (roundHalfEven num den * den) ≤ 2 * num + den ∧
      2 * num ≤ 2 * (roundHalfEven num den * den) + den := by
  have hdiv := Nat.div_add_mod num den
  have hmod := Nat.mod_lt num hden
  unfold roundHalfEven
  dsimp only
  generalize num / den = q at hdiv ⊢
  generalize num % den = r at hdiv hmod ⊢
  have hcomm : den * q = q * den := Nat.mul_comm den q
  split
  · next hup =>
    simp only [Bool.or_eq_true, Bool.and_eq_true, decide_eq_true_eq, beq_iff_eq] at hup
    have hsplit : (q + 1) * den = q * den + den := by ring
    omega
  · next hdown =>
    simp only [Bool.or_eq_true, Bool.and_eq_true, decide_eq_true_eq, beq_iff_eq] at hdown
    omega

/-- Rounding moves a ratio by at most a half. -/
theorem roundHalfEven_dist (num : ℕ) {den : ℕ} (hden : 0 < den) :
    (roundHalfEven num den : ℚ) ≤ num / den + 1 / 2 ∧
      (num / den : ℚ) - 1 / 2 ≤ roundHalfEven num den := by
  have hpos : (0 : ℚ) < den := by exact_mod_cast hden
  obtain ⟨hlow, hhigh⟩ := roundHalfEven_bounds num hden
  have hlow' : 2 * (roundHalfEven num den * den : ℚ) ≤ 2 * num + den := by exact_mod_cast hlow
  have hhigh' : (2 * num : ℚ) ≤ 2 * (roundHalfEven num den * den) + den := by
    exact_mod_cast hhigh
  constructor
  · have hdiv : (roundHalfEven num den : ℚ) - 1 / 2 ≤ num / den :=
      (le_div_iff₀ hpos).2 (by linarith)
    linarith
  · have hdiv : (num / den : ℚ) ≤ roundHalfEven num den + 1 / 2 :=
      (div_le_iff₀ hpos).2 (by linarith)
    linarith

theorem Near.roundHalfEven {num den m : ℕ} (hden : 0 < den) (h : Near (num / den) m) :
    roundHalfEven num den = m := by
  have hpos : (0 : ℚ) < den := by exact_mod_cast hden
  have hlow := h.low
  have hhigh := h.high
  rw [le_div_iff₀ hpos] at hlow
  rw [div_le_iff₀ hpos] at hhigh
  refine roundHalfEven_eq hden ?_ ?_ fun hm => ⟨?_, ?_⟩
  · have hle : (2 * (m * den) : ℚ) ≤ 2 * num + den := by linarith
    exact_mod_cast hle
  · have hle : (2 * num : ℚ) ≤ 2 * (m * den) + den := by linarith
    exact_mod_cast hle
  · have hlt := (h.odd hm).1
    rw [lt_div_iff₀ hpos] at hlt
    have hlt' : (2 * (m * den) : ℚ) < 2 * num + den := by linarith
    exact_mod_cast hlt'
  · have hlt := (h.odd hm).2
    rw [div_lt_iff₀ hpos] at hlt
    have hlt' : (2 * num : ℚ) < 2 * (m * den) + den := by linarith
    exact_mod_cast hlt'

/-! ## Powers of two -/

theorem zpow_unique {v : ℚ} {j k : ℤ} (hj : 2 ^ j ≤ v) (hj' : v < 2 ^ (j + 1)) (hk : 2 ^ k ≤ v)
    (hk' : v < 2 ^ (k + 1)) : j = k := by
  have hjk : j < k + 1 := (zpow_lt_zpow_iff_right₀ (by norm_num : (1 : ℚ) < 2)).1 (hj.trans_lt hk')
  have hkj : k < j + 1 := (zpow_lt_zpow_iff_right₀ (by norm_num : (1 : ℚ) < 2)).1 (hk.trans_lt hj')
  omega

theorem floorLog2_spec {num den : ℕ} (hnum : 0 < num) (hden : 0 < den) :
    (2 : ℚ) ^ floorLog2 num den ≤ num / den ∧ (num / den : ℚ) < 2 ^ (floorLog2 num den + 1) := by
  have hpos : (0 : ℚ) < den := by exact_mod_cast hden
  have hnumLow : (2 : ℚ) ^ (Nat.log2 num : ℤ) ≤ num := by
    exact_mod_cast Nat.log2_self_le hnum.ne'
  have hnumHigh : (num : ℚ) < 2 ^ (Nat.log2 num + 1 : ℤ) := by
    exact_mod_cast Nat.lt_log2_self
  have hdenLow : (2 : ℚ) ^ (Nat.log2 den : ℤ) ≤ den := by
    exact_mod_cast Nat.log2_self_le hden.ne'
  have hdenHigh : (den : ℚ) < 2 ^ (Nat.log2 den + 1 : ℤ) := by
    exact_mod_cast Nat.lt_log2_self
  generalize hk : (Nat.log2 num : ℤ) - Nat.log2 den = k
  have hlow : (2 : ℚ) ^ (k - 1) < num / den := by
    rw [lt_div_iff₀ hpos]
    calc (2 : ℚ) ^ (k - 1) * den < 2 ^ (k - 1) * 2 ^ (Nat.log2 den + 1 : ℤ) :=
          mul_lt_mul_of_pos_left hdenHigh (two_zpow_pos _)
      _ = 2 ^ (Nat.log2 num : ℤ) := by rw [← zpow_add₀ (by norm_num)]; congr 1; omega
      _ ≤ num := hnumLow
  have hhigh : (num / den : ℚ) < 2 ^ (k + 1) := by
    rw [div_lt_iff₀ hpos]
    calc (num : ℚ) < 2 ^ (Nat.log2 num + 1 : ℤ) := hnumHigh
      _ = 2 ^ (k + 1) * 2 ^ (Nat.log2 den : ℤ) := by rw [← zpow_add₀ (by norm_num)]; congr 1; omega
      _ ≤ 2 ^ (k + 1) * den := mul_le_mul_of_nonneg_left hdenLow (two_zpow_pos _).le
  have htest : (scaledRatio num den (-k)).2 ≤ (scaledRatio num den (-k)).1 ↔
      (2 : ℚ) ^ k ≤ num / den := by
    have hsnd : (0 : ℚ) < (scaledRatio num den (-k)).2 := by
      exact_mod_cast scaledRatio_snd_pos num (-k) hden
    rw [← Nat.cast_le (α := ℚ), ← one_le_div hsnd, scaledRatio_div, zpow_neg,
      ← div_eq_mul_inv, one_le_div (two_zpow_pos k)]
  unfold floorLog2
  simp only [hk, htest]
  split
  · next h => exact ⟨h, hhigh⟩
  · next h => exact ⟨hlow.le, by simpa using h⟩

theorem floorLog2_eq {num den : ℕ} {k : ℤ} (hden : 0 < den) (hlow : (2 : ℚ) ^ k ≤ num / den)
    (hhigh : (num / den : ℚ) < 2 ^ (k + 1)) : floorLog2 num den = k := by
  have hnum : 0 < num := by
    by_contra h
    have hzero : num = 0 := by omega
    have := two_zpow_pos k
    simp only [hzero, Nat.cast_zero, zero_div] at hlow
    linarith
  obtain ⟨h, h'⟩ := floorLog2_spec hnum hden
  exact zpow_unique h h' hlow hhigh

/-! ## Floating-point numbers -/

/-- The significands and exponents of the floating-point numbers that there are: the significand
has 53 bits, or fewer under the least exponent. -/
structure Regular (m : ℕ) (e : ℤ) : Prop where
  lt : m < 2 ^ 53
  full : e ≠ leastExponent → 2 ^ 52 ≤ m
  least : leastExponent ≤ e
  greatest : e ≤ greatestExponent

/-- How far below a number, in units of its last place, the ratios begin that round to it. Below a
power of two the next number is only half as far away. -/
def reach (m : ℕ) (e : ℤ) : ℚ := if m = 2 ^ 52 ∧ leastExponent < e then 1 / 4 else 1 / 2

/-- The ratios that round to `m * 2 ^ e`. -/
structure RoundsTo (v : ℚ) (m : ℕ) (e : ℤ) : Prop where
  low : (m - reach m e) * 2 ^ e ≤ v
  high : v ≤ (m + 1 / 2) * 2 ^ e
  odd : m % 2 = 1 → (m - reach m e) * 2 ^ e < v ∧ v < (m + 1 / 2) * 2 ^ e

/-- A ratio is rounded at the exponent that its size gives, unless it is too large. -/
theorem ofRatio_eq_finite {num den m : ℕ} {e : ℤ} (s : Bool) (hnum : num ≠ 0) (hden : 0 < den)
    (hexp : max (floorLog2 num den - 52) leastExponent = e) (hnear : Near (num / den / 2 ^ e) m) :
    ofRatio s num den =
      if m = 2 ^ 53 then
        if greatestExponent < e + 1 then .infinite s else .finite s (2 ^ 52) (e + 1)
      else if greatestExponent < e then .infinite s else .finite s m e := by
  have hscaled : Near ((scaledRatio num den (-e)).1 / (scaledRatio num den (-e)).2) m := by
    rwa [scaledRatio_div, zpow_neg, ← div_eq_mul_inv]
  have hround := hscaled.roundHalfEven (scaledRatio_snd_pos num (-e) hden)
  unfold ofRatio
  simp only [hnum, hexp, hround, if_false, Nat.pow_eq]
  by_cases hm : m = 2 ^ 53
  · simp only [hm, if_true]
  · simp only [hm, if_false]

theorem reach_le (m : ℕ) (e : ℤ) : reach m e ≤ 1 / 2 := by
  unfold reach
  split <;> norm_num

namespace RoundsTo

variable {v : ℚ} {m : ℕ} {e : ℤ}

/-- The same in units of the last place. -/
theorem units (h : RoundsTo v m e) :
    m - reach m e ≤ v / 2 ^ e ∧ v / 2 ^ e ≤ m + 1 / 2 ∧
      (m % 2 = 1 → m - reach m e < v / 2 ^ e ∧ v / 2 ^ e < m + 1 / 2) := by
  have hpos := two_zpow_pos e
  refine ⟨(le_div_iff₀ hpos).2 h.low, (div_le_iff₀ hpos).2 h.high, fun hm => ?_⟩
  exact ⟨(lt_div_iff₀ hpos).2 (h.odd hm).1, (div_lt_iff₀ hpos).2 (h.odd hm).2⟩

theorem near (h : RoundsTo v m e) : Near (v / 2 ^ e) m := by
  obtain ⟨hlow, hhigh, hodd⟩ := h.units
  have hreach := reach_le m e
  exact ⟨by linarith, hhigh, fun hm => ⟨by linarith [(hodd hm).1], (hodd hm).2⟩⟩

theorem pos (h : RoundsTo v m e) (hm : 0 < m) : 0 < v := by
  have hone : (1 : ℚ) ≤ m := by exact_mod_cast hm
  have hreach := reach_le m e
  have hlow : 0 < (m - reach m e) * 2 ^ e := mul_pos (by linarith) (two_zpow_pos e)
  exact hlow.trans_le h.low

theorem lt_pow (h : RoundsTo v m e) (hregular : Regular m e) : v < 2 ^ (e + 53) := by
  have hm : (m : ℚ) + 1 ≤ 2 ^ 53 := by exact_mod_cast hregular.lt
  calc v ≤ (m + 1 / 2) * 2 ^ e := h.high
    _ < 2 ^ 53 * 2 ^ e := mul_lt_mul_of_pos_right (by linarith) (two_zpow_pos e)
    _ = 2 ^ (e + 53) := by rw [zpow_add₀ (by norm_num)]; norm_num; ring

theorem lt_greatest (h : RoundsTo v m e) (hregular : Regular m e) : v < 2 ^ (1024 : ℤ) := by
  have hgreatest := hregular.greatest
  simp only [greatestExponent] at hgreatest
  exact (h.lt_pow hregular).trans_le (zpow_le_zpow_right₀ (by norm_num) (by omega))

/-- Ratios that round to a power of two from below are rounded at the exponent before, and carry. -/
theorem eq_pow (h : RoundsTo v m e) (hregular : Regular m e) (he : e ≠ leastExponent)
    (hv : v < 2 ^ (e + 52)) : m = 2 ^ 52 ∧ (2 ^ 52 - 1 / 4) * 2 ^ e ≤ v := by
  have hunits : v / 2 ^ e < 2 ^ 52 := by
    rw [div_lt_iff₀ (two_zpow_pos e)]
    calc v < 2 ^ (e + 52) := hv
      _ = 2 ^ 52 * 2 ^ e := by rw [zpow_add₀ (by norm_num)]; norm_num; ring
  have hm : m = 2 ^ 52 := by
    have hfull := hregular.full he
    have hlow := h.near.low
    have hlt : (m : ℚ) < 2 ^ 52 + 1 := by linarith
    have hlt' : m < 2 ^ 52 + 1 := by exact_mod_cast hlt
    omega
  have hreach : reach m e = 1 / 4 := by
    have hleast := hregular.least
    exact if_pos ⟨hm, by omega⟩
  have hlow := h.low
  rw [hreach, hm] at hlow
  exact ⟨hm, by exact_mod_cast hlow⟩

/-- What rounds to a number is rounded to it. -/
theorem ofRatio {num den : ℕ} (h : RoundsTo (num / den) m e) (s : Bool) (hden : 0 < den)
    (hm : 0 < m) (hregular : Regular m e) : ofRatio s num den = .finite s m e := by
  have hnum : num ≠ 0 := by
    rintro rfl
    simpa using h.pos hm
  have hhigh := h.lt_pow hregular
  have hleast := hregular.least
  have hgreatest := hregular.greatest
  by_cases hcarry : e ≠ leastExponent ∧ (num / den : ℚ) < 2 ^ (e + 52)
  · obtain ⟨he, hv⟩ := hcarry
    obtain ⟨rfl, hlow⟩ := h.eq_pow hregular he hv
    have hhalf : (2 : ℚ) ^ e = 2 ^ (e - 1) * 2 := by
      rw [← zpow_add_one₀ (by norm_num)]
      congr 1
      omega
    have hexp : max (floorLog2 num den - 52) leastExponent = e - 1 := by
      rw [floorLog2_eq (k := e + 51) hden ?_ ?_]
      · omega
      · refine le_trans ?_ hlow
        rw [zpow_add₀ (by norm_num), mul_comm]
        exact mul_le_mul_of_nonneg_right (by norm_num) (two_zpow_pos e).le
      · convert hv using 2
        omega
    have hnear : Near (num / den / 2 ^ (e - 1)) (2 ^ 53) := by
      have hpos := two_zpow_pos (e - 1)
      refine ⟨?_, ?_, by norm_num⟩
      · rw [le_div_iff₀ hpos]
        rw [hhalf] at hlow
        push_cast
        linarith
      · rw [div_le_iff₀ hpos]
        have heq : (2 : ℚ) ^ (e + 52) = 2 ^ 53 * 2 ^ (e - 1) := by
          rw [show e + 52 = e - 1 + 53 by omega, zpow_add₀ (by norm_num)]
          norm_num
          ring
        push_cast
        linarith
    rw [ofRatio_eq_finite s hnum hden hexp hnear, if_pos rfl, if_neg (by omega)]
    congr 1
    omega
  · have hexp : max (floorLog2 num den - 52) leastExponent = e := by
      by_cases hv : (num / den : ℚ) < 2 ^ (e + 52)
      · have he : e = leastExponent := by
          by_contra hne
          exact hcarry ⟨hne, hv⟩
        have hspec := (floorLog2_spec (Nat.pos_of_ne_zero hnum) hden).1
        have hlt : floorLog2 num den < e + 52 :=
          (zpow_lt_zpow_iff_right₀ (by norm_num : (1 : ℚ) < 2)).1 (hspec.trans_lt hv)
        omega
      · rw [floorLog2_eq (k := e + 52) hden (not_lt.1 hv)
          (by rwa [show e + 52 + 1 = e + 53 by omega])]
        omega
    have hne : m ≠ 2 ^ 53 := by
      have := hregular.lt
      omega
    rw [ofRatio_eq_finite s hnum hden hexp h.near, if_neg hne, if_neg (by omega)]

theorem pow_lt_pow_cast {a b j k : ℕ} (h : a ^ j < b ^ k) :
    (a : ℚ) ^ (j : ℤ) < (b : ℚ) ^ (k : ℤ) := by
  rw [zpow_natCast, zpow_natCast, ← Nat.cast_pow, ← Nat.cast_pow]
  exact Nat.cast_lt.2 h

theorem two_zpow_lt : (2 : ℚ) ^ (1024 : ℤ) < 10 ^ (310 : ℤ) :=
  pow_lt_pow_cast (a := 2) (b := 10) (j := 1024) (k := 310) (by decide +kernel)

theorem ten_zpow_lt : (10 : ℚ) ^ (-331 : ℤ) < 2 ^ (-1075 : ℤ) := by
  rw [zpow_neg, zpow_neg]
  exact inv_strictAnti₀ (two_zpow_pos _)
    (pow_lt_pow_cast (a := 2) (b := 10) (j := 1075) (k := 331) (by decide +kernel))

/-- A decimal that rounds to a number is far from both ends of the range. -/
theorem magnitude (h : RoundsTo v m e) (hm : 0 < m) (hregular : Regular m e) {k : ℤ}
    (hlow : 10 ^ (k - 1) ≤ v) (hhigh : v < 10 ^ k) : -330 ≤ k ∧ k ≤ 310 := by
  have hten : (1 : ℚ) < 10 := by norm_num
  have htwo : (1 : ℚ) ≤ 2 := by norm_num
  constructor
  · by_contra hk
    have hv : v < 10 ^ (-331 : ℤ) :=
      hhigh.trans_le (zpow_le_zpow_right₀ hten.le (by omega))
    have hone : (1 : ℚ) ≤ m := by exact_mod_cast hm
    have hreach := reach_le m e
    have hleast : (2 : ℚ) ^ (-1074 : ℤ) ≤ 2 ^ e := zpow_le_zpow_right₀ htwo hregular.least
    have hge : 1 / 2 * (2 : ℚ) ^ (-1074 : ℤ) ≤ v :=
      (mul_le_mul (by linarith) hleast (two_zpow_pos _).le (by linarith)).trans h.low
    have hhalf : (2 : ℚ) ^ (-1074 : ℤ) = 2 ^ (-1075 : ℤ) * 2 := by
      rw [← zpow_add_one₀ (by norm_num)]
      norm_num
    linarith [ten_zpow_lt]
  · by_contra hk
    have hv : (10 : ℚ) ^ (310 : ℤ) ≤ v :=
      (zpow_le_zpow_right₀ hten.le (by omega)).trans hlow
    exact lt_asymm two_zpow_lt (hv.trans_lt (h.lt_greatest hregular))

end RoundsTo

/-- A number of so many digits lies between two powers of ten. -/
theorem toDigits_bounds {d : ℕ} (hd : 0 < d) (x : ℤ) :
    (10 : ℚ) ^ ((Nat.toDigits 10 d).length + x - 1) ≤ d * 10 ^ x ∧
      (d * 10 ^ x : ℚ) < 10 ^ ((Nat.toDigits 10 d).length + x) := by
  have hpos : (0 : ℚ) < 10 ^ x := zpow_pos (by norm_num) x
  have hlength : 0 < (Nat.toDigits 10 d).length := Nat.length_toDigits_pos
  generalize hk : (Nat.toDigits 10 d).length = k at hlength ⊢
  have hlow : 10 ^ (k - 1) ≤ d := by
    by_cases hone : k = 1
    · simpa [hone] using Nat.one_le_iff_ne_zero.2 hd.ne'
    · have hiff := Nat.length_toDigits_le_iff (b := 10) (n := d) (k := k - 1) (by omega) (by omega)
      omega
  have hhigh : d < 10 ^ k :=
    (Nat.length_toDigits_le_iff (by omega) hlength).1 hk.le
  have hlow' : (10 : ℚ) ^ ((k : ℤ) - 1) ≤ d := by
    rw [show (k : ℤ) - 1 = ((k - 1 : ℕ) : ℤ) by omega, zpow_natCast]
    exact_mod_cast hlow
  have hhigh' : (d : ℚ) < 10 ^ (k : ℤ) := by
    rw [zpow_natCast]
    exact_mod_cast hhigh
  constructor
  · rw [show (k : ℤ) + x - 1 = (k - 1) + x by ring, zpow_add₀ (by norm_num)]
    exact mul_le_mul_of_nonneg_right hlow' hpos.le
  · rw [zpow_add₀ (by norm_num)]
    exact mul_lt_mul_of_pos_right hhigh' hpos

theorem RoundsTo.ofDecimal {d m : ℕ} {x e : ℤ} (h : RoundsTo (d * 10 ^ x) m e) (s : Bool)
    (hm : 0 < m) (hregular : Regular m e) : Binary64.ofDecimal s d x = .finite s m e := by
  have hd : d ≠ 0 := by
    rintro rfl
    simpa using h.pos hm
  obtain ⟨hlow, hhigh⟩ := toDigits_bounds (Nat.pos_of_ne_zero hd) x
  obtain ⟨hleast, hgreatest⟩ := h.magnitude hm hregular hlow hhigh
  unfold Binary64.ofDecimal
  simp only [hd, if_false, Nat.pow_eq, if_neg (not_lt.2 hgreatest), if_neg (not_lt.2 hleast)]
  split
  · next hx =>
    obtain ⟨n, rfl⟩ := Int.eq_ofNat_of_zero_le hx
    refine RoundsTo.ofRatio ?_ s one_pos hm hregular
    simpa using h
  · next hx =>
    obtain ⟨n, hn⟩ := Int.eq_ofNat_of_zero_le (show 0 ≤ -x by omega)
    obtain rfl : x = -(n : ℤ) := by omega
    refine RoundsTo.ofRatio ?_ s (by positivity) hm hregular
    simpa [div_eq_mul_inv] using h

/-! ## Integers -/

/-- The number that a finite floating-point number is. -/
def Binary64.toRat? : Binary64 → Option ℚ
  | .finite s m e => some ((if s then -1 else 1) * (m * 2 ^ e))
  | _ => none

/-- A floating-point number that there is. -/
def Binary64.IsRegular : Binary64 → Prop
  | .finite _ m e => Regular m e
  | _ => True

theorem roundsTo_self {m : ℕ} (e : ℤ) : RoundsTo (m * 2 ^ e) m e := by
  have hpos := two_zpow_pos e
  have hreach : 0 < reach m e := by
    unfold reach
    split <;> norm_num
  have hlow : (m - reach m e) * 2 ^ e < m * 2 ^ e := mul_lt_mul_of_pos_right (by linarith) hpos
  have hhigh : (m * 2 ^ e : ℚ) < (m + 1 / 2) * 2 ^ e := mul_lt_mul_of_pos_right (by linarith) hpos
  exact ⟨hlow.le, hhigh.le, fun _ => ⟨hlow, hhigh⟩⟩

/-- The size of an integer that is the value of a floating-point number. -/
theorem natAbs_eq {n : ℤ} {s : Bool} {m : ℕ} {e : ℤ}
    (hn : (Binary64.finite s m e).toRat? = some (n : ℚ)) : (n.natAbs : ℚ) = m * 2 ^ e := by
  have hpos : (0 : ℚ) ≤ m * 2 ^ e := mul_nonneg (Nat.cast_nonneg m) (two_zpow_pos e).le
  simp only [Binary64.toRat?, Option.some.injEq] at hn
  rw [Nat.cast_natAbs, Int.cast_abs, ← hn]
  cases s <;> simp [abs_of_nonneg hpos]

/-- An integer that is the value of a floating-point number is rounded to such a number. -/
theorem ofInt?_of_exact {n : ℤ} {x : Binary64} (hx : x.IsRegular)
    (hn : x.toRat? = some (n : ℚ)) :
    ∃ y, Binary64.ofInt? n = some y ∧ y.toRat? = some (n : ℚ) := by
  cases x with
  | infinite s => simp [Binary64.toRat?] at hn
  | nan => simp [Binary64.toRat?] at hn
  | finite s m e =>
    have habs := natAbs_eq hn
    by_cases hm : m = 0
    · obtain rfl : n = 0 := by
        simpa [hm] using habs
      exact ⟨Binary64.zero false, rfl, by simp [Binary64.zero, Binary64.toRat?]⟩
    · have hrounds : RoundsTo (n.natAbs / (1 : ℕ)) m e := by
        rw [habs, Nat.cast_one, div_one]
        exact roundsTo_self e
      have hratio := hrounds.ofRatio (decide (n < 0)) one_pos (Nat.pos_of_ne_zero hm) hx
      refine ⟨.finite (decide (n < 0)) m e, by simp only [Binary64.ofInt?, hratio], ?_⟩
      simp only [Binary64.toRat?, ← habs, Option.some.injEq]
      rcases lt_or_ge n 0 with hneg | hnonneg
      · rw [Nat.cast_natAbs, abs_of_neg hneg]
        simp [hneg]
      · rw [Nat.cast_natAbs, abs_of_nonneg hnonneg]
        simp [not_lt.2 hnonneg]

/-- Such an integer has at most 310 digits. -/
theorem toDigits_length_of_exact {n : ℤ} {x : Binary64} (hx : x.IsRegular)
    (hn : x.toRat? = some (n : ℚ)) : (Nat.toDigits 10 n.natAbs).length ≤ 310 := by
  rw [Nat.length_toDigits_le_iff (by omega) (by omega)]
  cases x with
  | infinite s => simp [Binary64.toRat?] at hn
  | nan => simp [Binary64.toRat?] at hn
  | finite s m e =>
    have hlt : (n.natAbs : ℚ) < 2 ^ (1024 : ℤ) := by
      rw [natAbs_eq hn]
      exact (roundsTo_self e).lt_greatest hx
    have hten : (n.natAbs : ℚ) < 10 ^ (310 : ℤ) := hlt.trans RoundsTo.two_zpow_lt
    rw [show (310 : ℤ) = ((310 : ℕ) : ℤ) from rfl, zpow_natCast] at hten
    exact_mod_cast hten

end MarkdownDocx.Number

import MarkdownDocx.Number.Shortest
import MarkdownDocx.Proofs.Number.Rounding

/-!
The shortest decimal of a number rounds to the number: seventeen digits always suffice, and each
decimal that the search stops at is one that rounds back.
-/

set_option autoImplicit false

namespace MarkdownDocx.Number

open Binary64 (scaledRatio floorLog2 leastExponent greatestExponent)

namespace Shortest

theorem ten_zpow_pos (x : ℤ) : (0 : ℚ) < 10 ^ x := zpow_pos (by norm_num) x

/-! ## The interval of a number -/

theorem interval_den_pos (m : ℕ) (e : ℤ) : 0 < (interval m e).den :=
  scaledRatio_snd_pos 1 (e - 2) one_pos

/-- The interval's numbers are multiples of a quarter of a unit of the last place. -/
theorem quarters (m : ℕ) (e : ℤ) (k : ℕ) :
    ((k * (scaledRatio 1 1 (e - 2)).1 : ℕ) : ℚ) / (interval m e).den = k / 4 * 2 ^ e := by
  have h := scaledRatio_div 1 1 (e - 2)
  rw [Nat.cast_one, div_one, one_mul, zpow_sub₀ (by norm_num)] at h
  have hden : (interval m e).den = (scaledRatio 1 1 (e - 2)).2 := rfl
  rw [hden, Nat.cast_mul, mul_div_assoc, h]
  norm_num
  ring

theorem interval_value (m : ℕ) (e : ℤ) :
    ((interval m e).value : ℚ) / (interval m e).den = m * 2 ^ e := by
  have h := quarters m e (4 * m)
  rw [show (interval m e).value = 4 * m * (scaledRatio 1 1 (e - 2)).1 from rfl, h]
  push_cast
  ring

theorem interval_high (m : ℕ) (e : ℤ) :
    ((interval m e).high : ℚ) / (interval m e).den = (m + 1 / 2) * 2 ^ e := by
  have h := quarters m e (4 * m + 2)
  rw [show (interval m e).high = (4 * m + 2) * (scaledRatio 1 1 (e - 2)).1 from rfl, h]
  push_cast
  ring

theorem interval_low {m : ℕ} (hm : 0 < m) (e : ℤ) :
    ((interval m e).low : ℚ) / (interval m e).den = (m - reach m e) * 2 ^ e := by
  by_cases h : m = 2 ^ 52 ∧ leastExponent < e
  · have hlow : (interval m e).low = (4 * m - 1) * (scaledRatio 1 1 (e - 2)).1 := by
      simp only [interval, Nat.pow_eq, if_pos h]
    rw [hlow, quarters, reach, if_pos h, Nat.cast_sub (by omega)]
    push_cast
    ring
  · have hlow : (interval m e).low = (4 * m - 2) * (scaledRatio 1 1 (e - 2)).1 := by
      simp only [interval, Nat.pow_eq, if_neg h]
    rw [hlow, quarters, reach, if_neg h, Nat.cast_sub (by omega)]
    push_cast
    ring

/-- The interval of a number holds just the ratios that round to it. -/
theorem contains_iff {m num den : ℕ} {e : ℤ} (hm : 0 < m) (hden : 0 < den) :
    (interval m e).contains num den = true ↔ RoundsTo (num / den) m e := by
  have hpos : (0 : ℚ) < den := by exact_mod_cast hden
  have hpos' : (0 : ℚ) < (interval m e).den := by exact_mod_cast interval_den_pos m e
  have hlow : (interval m e).low * den ≤ num * (interval m e).den ↔
      (m - reach m e) * 2 ^ e ≤ (num / den : ℚ) := by
    rw [← interval_low hm, div_le_div_iff₀ hpos' hpos]
    exact_mod_cast Iff.rfl
  have hhigh : num * (interval m e).den ≤ (interval m e).high * den ↔
      (num / den : ℚ) ≤ (m + 1 / 2) * 2 ^ e := by
    rw [← interval_high, div_le_div_iff₀ hpos hpos']
    exact_mod_cast Iff.rfl
  have hlow' : (interval m e).low * den < num * (interval m e).den ↔
      (m - reach m e) * 2 ^ e < (num / den : ℚ) := by
    rw [← interval_low hm, div_lt_div_iff₀ hpos' hpos]
    exact_mod_cast Iff.rfl
  have hhigh' : num * (interval m e).den < (interval m e).high * den ↔
      (num / den : ℚ) < (m + 1 / 2) * 2 ^ e := by
    rw [← interval_high, div_lt_div_iff₀ hpos hpos']
    exact_mod_cast Iff.rfl
  have hclosed : (interval m e).closed = (m % 2 == 0) := rfl
  rcases Nat.mod_two_eq_zero_or_one m with hpar | hpar
  · simp only [Interval.contains, hclosed, hpar, BEq.rfl, if_true, Bool.and_eq_true,
      decide_eq_true_eq, hlow, hhigh]
    exact ⟨fun h => ⟨h.1, h.2, by omega⟩, fun h => ⟨h.low, h.high⟩⟩
  · simp only [Interval.contains, hclosed, hpar, Nat.reduceBEq, Bool.false_eq_true, if_false,
      Bool.and_eq_true, decide_eq_true_eq, hlow', hhigh']
    exact ⟨fun h => ⟨h.1.le, h.2.le, fun _ => h⟩, fun h => h.odd hpar⟩

/-! ## Powers of ten -/

theorem inUnits_snd_pos {den : ℕ} (num : ℕ) (x : ℤ) (hden : 0 < den) :
    0 < (inUnits num den x).2 := by
  unfold inUnits
  split
  · exact Nat.mul_pos hden (Nat.pow_pos (by norm_num))
  · exact hden

theorem inUnits_div (num den : ℕ) (x : ℤ) :
    ((inUnits num den x).1 : ℚ) / (inUnits num den x).2 = num / den / 10 ^ x := by
  unfold inUnits
  split
  · next h =>
    obtain ⟨n, rfl⟩ := Int.eq_ofNat_of_zero_le h
    simp only [Int.toNat_natCast, Nat.pow_eq, Nat.cast_mul, Nat.cast_pow, Nat.cast_ofNat,
      zpow_natCast]
    rw [div_mul_eq_div_div]
  · next h =>
    obtain ⟨n, hn⟩ := Int.eq_ofNat_of_zero_le (show 0 ≤ -x by omega)
    obtain rfl : x = -(n : ℤ) := by omega
    simp only [neg_neg, Int.toNat_natCast, Nat.pow_eq, Nat.cast_mul, Nat.cast_pow, Nat.cast_ofNat,
      zpow_neg, zpow_natCast]
    rw [div_inv_eq_mul, mul_div_right_comm]

/-- The guess at a power of ten is at most one too large, over the whole range of exponents. -/
theorem guess_le {k : ℤ} (hlow : -1075 < k) (hhigh : k < 1024) :
    (10 : ℚ) ^ (k * 30103 / 100000 - 1) ≤ 2 ^ k := by
  have hup : ∀ n < 1024, 10 ^ (n * 30103 / 100000) ≤ 10 * 2 ^ n := by decide +kernel
  have hdown : ∀ n < 1075, 2 ^ n ≤ 10 ^ (n * 30103 / 100000 + 1) := by decide +kernel
  rcases lt_or_ge k 0 with hneg | hnonneg
  · obtain ⟨n, hn⟩ := Int.eq_ofNat_of_zero_le (show 0 ≤ -k by omega)
    obtain rfl : k = -(n : ℤ) := by omega
    have h := hdown n (by omega)
    have hcast : (2 : ℚ) ^ (n : ℤ) ≤ 10 ^ ((n * 30103 / 100000 + 1 : ℕ) : ℤ) := by
      rw [zpow_natCast, zpow_natCast]
      exact_mod_cast h
    calc (10 : ℚ) ^ (-(n : ℤ) * 30103 / 100000 - 1)
        ≤ 10 ^ (-((n * 30103 / 100000 + 1 : ℕ) : ℤ)) :=
          zpow_le_zpow_right₀ (by norm_num) (by push_cast; omega)
      _ = (10 ^ ((n * 30103 / 100000 + 1 : ℕ) : ℤ))⁻¹ := zpow_neg _ _
      _ ≤ (2 ^ (n : ℤ))⁻¹ := inv_anti₀ (two_zpow_pos _) hcast
      _ = 2 ^ (-(n : ℤ)) := (zpow_neg _ _).symm
  · obtain ⟨n, rfl⟩ := Int.eq_ofNat_of_zero_le hnonneg
    have h := hup n (by omega)
    have hcast : (10 : ℚ) ^ ((n * 30103 / 100000 : ℕ) : ℤ) ≤ 10 * 2 ^ (n : ℤ) := by
      rw [zpow_natCast, zpow_natCast]
      exact_mod_cast h
    have hexp : (n : ℤ) * 30103 / 100000 = ((n * 30103 / 100000 : ℕ) : ℤ) := by push_cast; rfl
    rw [hexp, zpow_sub₀ (by norm_num), zpow_one, div_le_iff₀ (by norm_num)]
    linarith

theorem floorLog10_le {num den : ℕ} (hnum : 0 < num) (hden : 0 < den)
    (hlow : (2 : ℚ) ^ (-1074 : ℤ) ≤ num / den) (hhigh : (num / den : ℚ) < 2 ^ (1024 : ℤ)) :
    (10 : ℚ) ^ floorLog10 num den ≤ num / den := by
  obtain ⟨hlog, hlog'⟩ := floorLog2_spec hnum hden
  have htwo : (1 : ℚ) < 2 := by norm_num
  have hleast : (-1074 : ℤ) < floorLog2 num den + 1 :=
    (zpow_lt_zpow_iff_right₀ htwo).1 (hlow.trans_lt hlog')
  have hgreatest : floorLog2 num den < 1024 :=
    (zpow_lt_zpow_iff_right₀ htwo).1 (hlog.trans_lt hhigh)
  have hguess := guess_le (show -1075 < floorLog2 num den by omega) hgreatest
  have htest (x : ℤ) : (inUnits num den x).2 ≤ (inUnits num den x).1 ↔
      (10 : ℚ) ^ x ≤ num / den := by
    have hsnd : (0 : ℚ) < (inUnits num den x).2 := by
      exact_mod_cast inUnits_snd_pos num x hden
    rw [← Nat.cast_le (α := ℚ), ← one_le_div hsnd, inUnits_div, one_le_div (ten_zpow_pos x)]
  unfold floorLog10
  simp only [decide_eq_true_eq, htest]
  split
  · next h => exact h
  · split
    · next h => exact h
    · exact hguess.trans hlog

/-! ## The search -/

/-- Whether a grid point is one of the decimals that round to the number. -/
theorem fits_iff {m : ℕ} {e : ℤ} (hm : 0 < m) (k : ℕ) (x : ℤ) :
    (interval m e).contains (inUnits k 1 (-x)).1 (inUnits k 1 (-x)).2 = true ↔
      RoundsTo (k * 10 ^ x) m e := by
  rw [contains_iff hm (inUnits_snd_pos k (-x) one_pos), inUnits_div, Nat.cast_one, div_one,
    zpow_neg, div_inv_eq_mul]

theorem roundsTo_of_onGrid {m : ℕ} {e x : ℤ} {d : Decimal} (hm : 0 < m)
    (h : onGrid (interval m e) x = some d) : RoundsTo (d.digits * 10 ^ d.exponent) m e := by
  unfold onGrid at h
  dsimp only at h
  generalize roundHalfEven (inUnits (interval m e).value (interval m e).den x).1
    (inUnits (interval m e).value (interval m e).den x).2 = nearest at h
  generalize (if nearest = _ then _ else _ : ℕ) = other at h
  split at h
  · next hfits =>
    cases h
    exact (fits_iff hm _ _).1 hfits
  · split at h
    · next hfits =>
      cases h
      exact (fits_iff hm _ _).1 hfits
    · cases h

/-- The grid of seventeen digits is fine enough: the point nearest to a number on it is away from
the number by less than what still rounds to it. -/
theorem onGrid_finest {m : ℕ} {e top : ℤ} (hm : 0 < m) (hregular : Regular m e)
    (htop : (10 : ℚ) ^ top ≤ m * 2 ^ e) : onGrid (interval m e) (top - 16) ≠ none := by
  have hunit := ten_zpow_pos (top - 16)
  have hpos := two_zpow_pos e
  have hsmall : (10 : ℚ) ^ (top - 16) ≤ m * 2 ^ e / 10 ^ 16 := by
    rw [zpow_sub₀ (by norm_num)]
    exact div_le_div_of_nonneg_right htop (by norm_num)
  obtain ⟨hhigh, hlow⟩ := roundHalfEven_dist (inUnits (interval m e).value (interval m e).den
    (top - 16)).1 (inUnits_snd_pos (interval m e).value (top - 16) (interval_den_pos m e))
  rw [inUnits_div, interval_value] at hhigh hlow
  generalize hk : roundHalfEven (inUnits (interval m e).value (interval m e).den (top - 16)).1
    (inUnits (interval m e).value (interval m e).den (top - 16)).2 = k at hhigh hlow
  have habove : (k * 10 ^ (top - 16) : ℚ) ≤ m * 2 ^ e + 10 ^ (top - 16) / 2 := by
    have := mul_le_mul_of_nonneg_right hhigh hunit.le
    rw [add_mul, div_mul_cancel₀ _ hunit.ne'] at this
    linarith
  have hbelow : m * 2 ^ e - 10 ^ (top - 16) / 2 ≤ (k * 10 ^ (top - 16) : ℚ) := by
    have := mul_le_mul_of_nonneg_right hlow hunit.le
    rw [sub_mul, div_mul_cancel₀ _ hunit.ne'] at this
    linarith
  have hreach : (m : ℚ) / 10 ^ 16 / 2 < reach m e := by
    have hm53 : (m : ℚ) < 9007199254740992 := by exact_mod_cast hregular.lt
    unfold reach
    split
    · next h =>
      rw [h.1]
      norm_num
    · rw [show (10 : ℚ) ^ 16 = 10000000000000000 by norm_num]
      linarith
  have hstep : (10 : ℚ) ^ (top - 16) / 2 < reach m e * 2 ^ e :=
    calc (10 : ℚ) ^ (top - 16) / 2 ≤ m * 2 ^ e / 10 ^ 16 / 2 :=
          div_le_div_of_nonneg_right hsmall (by norm_num)
      _ = m / 10 ^ 16 / 2 * 2 ^ e := by ring
      _ < reach m e * 2 ^ e := mul_lt_mul_of_pos_right hreach hpos
  have hhalf : reach m e * 2 ^ e ≤ 1 / 2 * 2 ^ e :=
    mul_le_mul_of_nonneg_right (reach_le m e) hpos.le
  have hrounds : RoundsTo (k * 10 ^ (top - 16)) m e := by
    have hlow' : (m - reach m e) * 2 ^ e < (k * 10 ^ (top - 16) : ℚ) := by linarith
    have hhigh' : (k * 10 ^ (top - 16) : ℚ) < (m + 1 / 2) * 2 ^ e := by linarith
    exact ⟨hlow'.le, hhigh'.le, fun _ => ⟨hlow', hhigh'⟩⟩
  simp only [onGrid, fits_iff hm, hk, hrounds, if_true]
  exact Option.some_ne_none _

theorem roundsTo_search {m : ℕ} {e top : ℤ} (hm : 0 < m) (hregular : Regular m e)
    (htop : (10 : ℚ) ^ top ≤ m * 2 ^ e) (fuel : ℕ) :
    RoundsTo ((search (interval m e) top (fuel + 1)).digits *
      10 ^ (search (interval m e) top (fuel + 1)).exponent) m e := by
  induction fuel with
  | zero =>
    unfold search
    split
    · next d hd => exact roundsTo_of_onGrid hm hd
    · next hnone => exact absurd hnone (onGrid_finest hm hregular htop)
  | succ fuel ih =>
    unfold search
    split
    · next d hd => exact roundsTo_of_onGrid hm hd
    · exact ih

/-! ## Trailing zeros -/

/-- Dropping zeros at the end of a numeral is a division without remainder. -/
theorem exists_dropZeros (d : Decimal) : ∃ k zeros : ℕ, d.digits = 10 ^ zeros * k ∧
    dropZeros d = ⟨d.digits / 10 ^ zeros, d.exponent + zeros⟩ := by
  let ds := Nat.toDigits 10 d.digits
  let zeros := ds.reverse.takeWhile (· == '0')
  let others := ds.reverse.dropWhile (· == '0')
  have hds : ds = others.reverse ++ zeros.reverse := by
    rw [← List.reverse_append, List.takeWhile_append_dropWhile, List.reverse_reverse]
  have hzeros : zeros.reverse = List.replicate zeros.length '0' := by
    rw [List.eq_replicate_iff]
    refine ⟨List.length_reverse, fun c hc => ?_⟩
    simpa using List.all_eq_true.1 List.all_takeWhile c (List.mem_reverse.1 hc)
  have hvalue : d.digits = 10 ^ zeros.length * Nat.ofDigitChars 10 others.reverse 0 := by
    calc d.digits = Nat.ofDigitChars 10 ds 0 := Nat.ofDigitChars_ten_toDigits.symm
      _ = 10 ^ zeros.length * Nat.ofDigitChars 10 others.reverse 0 := by
        rw [hds, Nat.ofDigitChars_append, hzeros, Nat.ofDigitChars_replicate_zero]
  have hlength : ds.length - others.length = zeros.length := by
    have h := congrArg List.length hds
    simp only [List.length_append, List.length_reverse] at h
    omega
  refine ⟨_, zeros.length, hvalue, ?_⟩
  rw [← hlength]
  rfl

theorem dropZeros_value (d : Decimal) :
    ((dropZeros d).digits * 10 ^ (dropZeros d).exponent : ℚ) = d.digits * 10 ^ d.exponent := by
  obtain ⟨k, zeros, hdigits, hdrop⟩ := exists_dropZeros d
  have hdiv : d.digits / 10 ^ zeros = k := by
    rw [hdigits, Nat.mul_div_cancel_left k (by positivity)]
  rw [hdrop, hdiv, zpow_add₀ (by norm_num), zpow_natCast, hdigits]
  push_cast
  ring

/-- The shortest decimal of a number rounds to it. -/
theorem roundsTo_decimal {m : ℕ} {e : ℤ} (hm : 0 < m) (hregular : Regular m e) :
    RoundsTo ((decimal m e).digits * 10 ^ (decimal m e).exponent) m e := by
  have hpos : (0 : ℚ) < m * 2 ^ e := mul_pos (by exact_mod_cast hm) (two_zpow_pos e)
  have hvalue : 0 < (interval m e).value := by
    by_contra h
    have hzero : (interval m e).value = 0 := by omega
    have heq := interval_value m e
    rw [hzero, Nat.cast_zero, zero_div] at heq
    exact hpos.ne heq
  have hlow : (2 : ℚ) ^ (-1074 : ℤ) ≤ m * 2 ^ e := by
    have hone : (1 : ℚ) ≤ m := by exact_mod_cast hm
    have hleast : (2 : ℚ) ^ (-1074 : ℤ) ≤ 2 ^ e :=
      zpow_le_zpow_right₀ (by norm_num) hregular.least
    exact hleast.trans (le_mul_of_one_le_left (two_zpow_pos e).le hone)
  have hhigh : (m * 2 ^ e : ℚ) < 2 ^ (1024 : ℤ) := (roundsTo_self e).lt_greatest hregular
  have htop := floorLog10_le hvalue (interval_den_pos m e) (by rwa [interval_value])
    (by rwa [interval_value])
  rw [interval_value] at htop
  unfold decimal
  rw [dropZeros_value]
  exact roundsTo_search hm hregular htop 16

end Shortest

end MarkdownDocx.Number

import MarkdownDocx.Proofs.Number.Rounding

/-!
Where the floating-point numbers end. Every ratio is rounded to a number that there is or to
infinity, and to infinity just from the middle between the greatest number and the power of two
behind it. A number is doubled exactly, so a product of three factors can be told from the exact
product.
-/

set_option autoImplicit false

namespace MarkdownDocx.Number

open Binary64 (scaledRatio floorLog2 ofRatio leastExponent greatestExponent)

/-- The middle between the greatest number and `2 ^ 1024`. Of these two it is the second one that
has an even significand. -/
def overflowBound : ℚ := (2 ^ 53 - 1 / 2) * 2 ^ (971 : ℤ)

theorem overflowBound_pos : 0 < overflowBound := mul_pos (by norm_num) (two_zpow_pos 971)

theorem overflowBound_le : overflowBound ≤ 2 ^ (1024 : ℤ) := by
  calc overflowBound ≤ 2 ^ 53 * 2 ^ (971 : ℤ) :=
        mul_le_mul_of_nonneg_right (by norm_num) (two_zpow_pos 971).le
    _ = 2 ^ (1024 : ℤ) := by
        rw [← zpow_natCast (2 : ℚ) 53, ← zpow_add₀ (by norm_num)]
        rfl

theorem pow_lt_overflowBound : (2 : ℚ) ^ (1023 : ℤ) < overflowBound := by
  calc (2 : ℚ) ^ (1023 : ℤ) = 2 ^ 52 * 2 ^ (971 : ℤ) := by
        rw [← zpow_natCast (2 : ℚ) 52, ← zpow_add₀ (by norm_num)]
        rfl
    _ < overflowBound := mul_lt_mul_of_pos_right (by norm_num) (two_zpow_pos 971)

/-! ## Rounding a ratio -/

theorem near_roundHalfEven (num : ℕ) {den : ℕ} (hden : 0 < den) :
    Near (num / den) (roundHalfEven num den) := by
  obtain ⟨hhigh, hlow⟩ := roundHalfEven_dist num hden
  refine ⟨by linarith, by linarith, fun hodd => ?_⟩
  have hstrict : 2 * (roundHalfEven num den * den) < 2 * num + den ∧
      2 * num < 2 * (roundHalfEven num den * den) + den := by
    have hdiv := Nat.div_add_mod num den
    have hmod := Nat.mod_lt num hden
    revert hodd
    unfold roundHalfEven
    dsimp only
    generalize num / den = q at hdiv ⊢
    generalize num % den = r at hdiv hmod ⊢
    have hcomm : den * q = q * den := Nat.mul_comm den q
    -- a tie goes to the even neighbour, so there is none where the result is odd
    split
    · next hup =>
      simp only [Bool.or_eq_true, Bool.and_eq_true, decide_eq_true_eq, beq_iff_eq] at hup
      intro hodd
      have hsplit : (q + 1) * den = q * den + den := by ring
      omega
    · next hdown =>
      simp only [Bool.or_eq_true, Bool.and_eq_true, decide_eq_true_eq, beq_iff_eq] at hdown
      intro hodd
      omega
  have hpos : (0 : ℚ) < den := by exact_mod_cast hden
  constructor
  · rw [lt_div_iff₀ hpos]
    have hlt : (2 * (roundHalfEven num den * den) : ℚ) < 2 * num + den := by
      exact_mod_cast hstrict.1
    linarith
  · rw [div_lt_iff₀ hpos]
    have hlt : (2 * num : ℚ) < 2 * (roundHalfEven num den * den) + den := by
      exact_mod_cast hstrict.2
    linarith

/-- A positive ratio lies under the power of two that its exponent leaves room for, and over half of
that unless the exponent is the least one; and it has a nearest significand. -/
theorem exists_near {num den : ℕ} (hnum : num ≠ 0) (hden : 0 < den) :
    ∃ (m : ℕ) (e : ℤ), max (floorLog2 num den - 52) leastExponent = e ∧
      Near (num / den / 2 ^ e) m ∧ (num / den / 2 ^ e : ℚ) < 2 ^ 53 ∧
      (e ≠ leastExponent → (2 : ℚ) ^ 52 ≤ num / den / 2 ^ e) := by
  obtain ⟨hlow, hhigh⟩ := floorLog2_spec (Nat.pos_of_ne_zero hnum) hden
  generalize he : max (floorLog2 num den - 52) leastExponent = e
  have hpos := two_zpow_pos e
  have hnear := near_roundHalfEven (scaledRatio num den (-e)).1
    (scaledRatio_snd_pos num (-e) hden)
  rw [scaledRatio_div, zpow_neg, ← div_eq_mul_inv] at hnear
  refine ⟨_, e, rfl, hnear, ?_, fun hne => ?_⟩
  · rw [div_lt_iff₀ hpos, ← zpow_natCast (2 : ℚ) 53, ← zpow_add₀ (by norm_num)]
    exact hhigh.trans_le (zpow_le_zpow_right₀ (by norm_num) (by omega))
  · rw [le_div_iff₀ hpos, ← zpow_natCast (2 : ℚ) 52, ← zpow_add₀ (by norm_num)]
    exact (zpow_le_zpow_right₀ (by norm_num) (by omega)).trans hlow

theorem Near.le_pow {v : ℚ} {m k : ℕ} (h : Near v m) (hv : v < 2 ^ k) : m ≤ 2 ^ k := by
  have hlow := h.low
  have hlt : (m : ℚ) < 2 ^ k + 1 := by linarith
  have hlt' : m < 2 ^ k + 1 := by exact_mod_cast hlt
  omega

theorem Near.pow_le {v : ℚ} {m k : ℕ} (h : Near v m) (hv : 2 ^ k ≤ v) : 2 ^ k ≤ m := by
  have hhigh := h.high
  have hlt : (2 ^ k : ℚ) < m + 1 := by linarith
  have hlt' : 2 ^ k < m + 1 := by exact_mod_cast hlt
  omega

/-- What is under a power of two is rounded up to it just from the middle below it. -/
theorem Near.eq_pow_iff {v : ℚ} {m k : ℕ} (h : Near v m) (hk : 0 < k) (hv : v < 2 ^ k) :
    m = 2 ^ k ↔ 2 ^ k - 1 / 2 ≤ v := by
  constructor
  · rintro rfl
    have hlow := h.low
    push_cast at hlow
    exact hlow
  · intro hmiddle
    have hle := h.le_pow hv
    have hhigh := h.high
    have hge : (2 ^ k : ℚ) ≤ m + 1 := by linarith
    have hge' : 2 ^ k ≤ m + 1 := by exact_mod_cast hge
    by_contra hne
    have heven : 2 ^ k % 2 = 0 := Nat.mod_eq_zero_of_dvd (dvd_pow_self 2 hk.ne')
    have hsucc : m + 1 = 2 ^ k := by omega
    have hodd := (h.odd (by omega)).2
    have hcast : (m : ℚ) + 1 = 2 ^ k := by exact_mod_cast hsucc
    linarith

/-- A ratio is rounded to infinity from the bound on, and to a number that there is below it. -/
theorem ofRatio_cases (s : Bool) (num : ℕ) {den : ℕ} (hden : 0 < den) :
    overflowBound ≤ num / den ∧ ofRatio s num den = .infinite s ∨
      (num / den : ℚ) < overflowBound ∧
        ∃ m e, Regular m e ∧ ofRatio s num den = .finite s m e := by
  by_cases hnum : num = 0
  · subst hnum
    refine .inr ⟨?_, 0, leastExponent, ⟨by norm_num, by simp, le_refl _, by decide⟩, rfl⟩
    simpa using overflowBound_pos
  obtain ⟨m, e, hexp, hnear, hlt, hfull⟩ := exists_near hnum hden
  have hpos := two_zpow_pos e
  have hvalue : (num / den : ℚ) = num / den / 2 ^ e * 2 ^ e := (div_mul_cancel₀ _ hpos.ne').symm
  have hm := hnear.le_pow hlt
  have hregular (hne : m ≠ 2 ^ 53) (he : e ≤ greatestExponent) : Regular m e :=
    ⟨by omega, fun hleast => hnear.pow_le (hfull hleast), by omega, he⟩
  rw [ofRatio_eq_finite s hnum hden hexp hnear, hvalue]
  generalize (num / den / 2 ^ e : ℚ) = u at hnear hlt hfull ⊢
  have hgreatest : greatestExponent = 971 := rfl
  have hleast : leastExponent = -1074 := rfl
  rcases lt_trichotomy e 971 with hsmall | hequal | hlarge
  · -- too small an exponent to get beyond the greatest number, even with a carry
    refine .inr ⟨?_, ?_⟩
    · calc u * 2 ^ e < 2 ^ 53 * 2 ^ e := mul_lt_mul_of_pos_right hlt hpos
        _ = 2 ^ (53 + e) := by rw [zpow_add₀ (by norm_num)]; norm_num
        _ ≤ 2 ^ (1023 : ℤ) := zpow_le_zpow_right₀ (by norm_num) (by omega)
        _ < overflowBound := pow_lt_overflowBound
    · by_cases hcarry : m = 2 ^ 53
      · rw [if_pos hcarry, if_neg (by omega)]
        exact ⟨2 ^ 52, e + 1, ⟨by norm_num, fun _ => le_rfl, by omega, by omega⟩, rfl⟩
      · rw [if_neg hcarry, if_neg (by omega)]
        exact ⟨m, e, hregular hcarry (by omega), rfl⟩
  · have hbound : m = 2 ^ 53 ↔ overflowBound ≤ u * 2 ^ e := by
      rw [hnear.eq_pow_iff (by norm_num) hlt, overflowBound, ← hequal,
        mul_le_mul_iff_of_pos_right hpos]
    by_cases hcarry : m = 2 ^ 53
    · exact .inl ⟨hbound.1 hcarry, by rw [if_pos hcarry, if_pos (by omega)]⟩
    · refine .inr ⟨not_le.1 (mt hbound.2 hcarry), m, e, hregular hcarry (by omega), ?_⟩
      rw [if_neg hcarry, if_neg (by omega)]
  · refine .inl ⟨?_, ?_⟩
    · calc overflowBound ≤ 2 ^ (1024 : ℤ) := overflowBound_le
        _ ≤ 2 ^ (52 + e) := zpow_le_zpow_right₀ (by norm_num) (by omega)
        _ = 2 ^ 52 * 2 ^ e := by rw [zpow_add₀ (by norm_num)]; norm_num
        _ ≤ u * 2 ^ e := mul_le_mul_of_nonneg_right (hfull (by omega)) hpos.le
    · by_cases hcarry : m = 2 ^ 53
      · rw [if_pos hcarry, if_pos (by omega)]
      · rw [if_neg hcarry, if_pos (by omega)]

theorem ofRatio_isRegular (s : Bool) (num : ℕ) {den : ℕ} (hden : 0 < den) :
    (ofRatio s num den).IsRegular := by
  rcases ofRatio_cases s num hden with ⟨-, h⟩ | ⟨-, m, e, hregular, h⟩
  · rw [h]
    trivial
  · rw [h]
    exact hregular

theorem ofInt?_isRegular {n : ℤ} {x : Binary64} (h : Binary64.ofInt? n = some x) :
    x.IsRegular := by
  have hratio := ofRatio_isRegular (decide (n < 0)) n.natAbs one_pos
  unfold Binary64.ofInt? at h
  split at h
  · next hfinite =>
    rw [hfinite] at hratio
    obtain rfl := Option.some.inj h
    exact hratio
  · simp at h

theorem zero_isRegular (s : Bool) : (Binary64.zero s).IsRegular :=
  ⟨by norm_num, by simp, le_refl _, by decide⟩

theorem ofDecimal_isRegular (s : Bool) (digits : ℕ) (exponent : ℤ) :
    (Binary64.ofDecimal s digits exponent).IsRegular := by
  unfold Binary64.ofDecimal
  dsimp only
  split_ifs
  · exact zero_isRegular s
  · trivial
  · exact zero_isRegular s
  · exact ofRatio_isRegular s _ one_pos
  · exact ofRatio_isRegular s _ (Nat.pow_pos (by norm_num))

/-! ## Multiplying -/

section Scale

variable {m : ℕ} {e : ℤ}

theorem scaledRatio_value (m k : ℕ) (e : ℤ) :
    ((scaledRatio (m * k) 1 e).1 : ℚ) / (scaledRatio (m * k) 1 e).2 = k * (m * 2 ^ e) := by
  rw [scaledRatio_div]
  push_cast
  ring

theorem scale_cases (s : Bool) (m k : ℕ) (e : ℤ) :
    overflowBound ≤ k * (m * 2 ^ e) ∧ (Binary64.finite s m e).scale k 1 = .infinite s ∨
      (k * (m * 2 ^ e) : ℚ) < overflowBound ∧
        ∃ m' e', Regular m' e' ∧ (Binary64.finite s m e).scale k 1 = .finite s m' e' := by
  rw [← scaledRatio_value]
  exact ofRatio_cases s _ (scaledRatio_snd_pos _ e one_pos)

/-- A product that is the value of a number is that number. -/
theorem scale_of_exact {k m' : ℕ} {e' : ℤ} (s : Bool) (hm : 0 < m') (hregular : Regular m' e')
    (hvalue : (m' * 2 ^ e' : ℚ) = k * (m * 2 ^ e)) :
    (Binary64.finite s m e).scale k 1 = .finite s m' e' := by
  have hrounds := roundsTo_self (m := m') e'
  rw [hvalue, ← scaledRatio_value] at hrounds
  exact hrounds.ofRatio s (scaledRatio_snd_pos _ e one_pos) hm hregular

/-- Doubling a number is exact unless it is too large: of a full significand the exponent grows, and
one that is not full has room left. -/
theorem scale_two (hregular : Regular m e) (s : Bool) (hlt : 2 * (m * 2 ^ e) < overflowBound) :
    ∃ (m' : ℕ) (e' : ℤ), (m' * 2 ^ e' : ℚ) = 2 * (m * 2 ^ e) ∧
      (Binary64.finite s m e).scale 2 1 = .finite s m' e' := by
  have hlow := hregular.lt
  have hleast := hregular.least
  rcases Nat.eq_zero_or_pos m with rfl | hm
  · refine ⟨0, leastExponent, by simp, ?_⟩
    have hzero : (scaledRatio (0 * 2) 1 e).1 = 0 := by
      unfold scaledRatio
      split <;> simp
    exact if_pos hzero
  rcases Nat.lt_or_ge m (2 ^ 52) with hsmall | hfull
  · have he : e = leastExponent := by
      by_contra hne
      exact absurd (hregular.full hne) (not_le.2 hsmall)
    have hvalue : ((2 * m : ℕ) * 2 ^ e : ℚ) = (2 : ℕ) * (m * 2 ^ e) := by
      push_cast
      ring
    refine ⟨2 * m, e, by exact_mod_cast hvalue, scale_of_exact s (by omega) ?_ hvalue⟩
    exact ⟨by omega, fun hne => absurd he hne, hleast, hregular.greatest⟩
  · have hvalue : (m * 2 ^ (e + 1) : ℚ) = (2 : ℕ) * (m * 2 ^ e) := by
      rw [zpow_add_one₀ (by norm_num)]
      push_cast
      ring
    have hgreatest : e + 1 ≤ greatestExponent := by
      have hvalue' : (m * 2 ^ (e + 1) : ℚ) = 2 * (m * 2 ^ e) := by exact_mod_cast hvalue
      have hfull' : (2 : ℚ) ^ 52 ≤ m := by exact_mod_cast hfull
      have hpow : (2 : ℚ) ^ (e + 53) < 2 ^ (1024 : ℤ) := by
        calc (2 : ℚ) ^ (e + 53) = 2 ^ 52 * 2 ^ (e + 1) := by
              rw [← zpow_natCast (2 : ℚ) 52, ← zpow_add₀ (by norm_num)]
              congr 1
              push_cast
              ring
          _ ≤ m * 2 ^ (e + 1) := mul_le_mul_of_nonneg_right hfull' (two_zpow_pos _).le
          _ < 2 ^ (1024 : ℤ) := by rw [hvalue']; exact hlt.trans_le overflowBound_le
      have hexp := (zpow_lt_zpow_iff_right₀ (by norm_num : (1 : ℚ) < 2)).1 hpow
      have hvalue : greatestExponent = 971 := rfl
      omega
    refine ⟨m, e + 1, by exact_mod_cast hvalue, scale_of_exact s hm ?_ hvalue⟩
    exact ⟨hlow, fun _ => hfull, by omega, hgreatest⟩

/-- A number that is doubled and then multiplied again: it is infinite just if the exact product is
beyond the bound. -/
theorem scale_two_scale_cases (hregular : Regular m e) (s : Bool) {k : ℕ} (hk : 0 < k) :
    overflowBound ≤ 2 * k * (m * 2 ^ e) ∧
        ((Binary64.finite s m e).scale 2 1).scale k 1 = .infinite s ∨
      2 * k * (m * 2 ^ e) < overflowBound ∧
        ∃ m' e', ((Binary64.finite s m e).scale 2 1).scale k 1 = .finite s m' e' := by
  have hk' : (1 : ℚ) ≤ k := by exact_mod_cast hk
  rcases scale_cases s m 2 e with ⟨hbound, hdoubled⟩ | ⟨hlt, -⟩
  · refine .inl ⟨?_, by rw [hdoubled]; rfl⟩
    push_cast at hbound
    have hpos := hbound.trans' overflowBound_pos.le
    calc overflowBound ≤ 2 * (m * 2 ^ e) := hbound
      _ ≤ k * (2 * (m * 2 ^ e)) := le_mul_of_one_le_left hpos hk'
      _ = 2 * k * (m * 2 ^ e) := by ring
  · obtain ⟨m', e', hvalue, hdoubled⟩ := scale_two hregular s (by exact_mod_cast hlt)
    have hproduct : (2 * k * (m * 2 ^ e) : ℚ) = k * (m' * 2 ^ e') := by rw [hvalue]; ring
    rw [hdoubled, hproduct]
    rcases scale_cases s m' k e' with h | ⟨hlt, m'', e'', -, h⟩
    · exact .inl h
    · exact .inr ⟨hlt, m'', e'', h⟩

end Scale

end MarkdownDocx.Number

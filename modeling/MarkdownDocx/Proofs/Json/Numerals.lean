import MarkdownDocx.Json.Reader
import MarkdownDocx.Json.Writer
import MarkdownDocx.Proofs.Number.Shortest

/-!
Numbers in JSON. A number is read part by part, and the number that was written is read again:
integers digit by digit, and floating-point numbers because their decimals round to them.
-/

set_option autoImplicit false

namespace MarkdownDocx.Json

open MarkdownDocx.Number (Binary64 digitsValue DecimalFormat plainFormat padZeros finiteText
  greatestNumeralLength)
open MarkdownDocx.Text (isAsciiDigit)

/-! ## Digits -/

/-- What may follow a number. -/
def EndsNumber (r : List Char) : Prop :=
  ∀ c ∈ r.head?, isAsciiDigit c = false ∧ c ≠ '.' ∧ c ≠ 'e' ∧ c ≠ 'E'

def AllDigits (cs : List Char) : Prop := ∀ c ∈ cs, isAsciiDigit c = true

/-- Digits are not followed by more of them. -/
def NoDigit (r : List Char) : Prop := ∀ c ∈ r.head?, isAsciiDigit c = false

theorem EndsNumber.noDigit {r : List Char} (h : EndsNumber r) : NoDigit r := fun c hc => (h c hc).1

theorem takeDigits_append {ds r : List Char} (hds : AllDigits ds) (hr : NoDigit r) :
    takeDigits (ds ++ r) = (ds, r) := by
  have hr' : r.takeWhile isAsciiDigit = [] ∧ r.dropWhile isAsciiDigit = r := by
    cases r with
    | nil => exact ⟨rfl, rfl⟩
    | cons c rest => simp [List.takeWhile, List.dropWhile, hr c rfl]
  unfold takeDigits
  rw [List.takeWhile_append_of_pos hds, List.dropWhile_append_of_pos hds, hr'.1, hr'.2,
    List.append_nil]

theorem digitsValue_digitValues (cs : List Char) :
    digitsValue (digitValues cs) = Nat.ofDigitChars 10 cs 0 := by
  unfold digitsValue digitValues Nat.ofDigitChars
  rw [List.foldl_map]
  rfl

theorem allDigits_toDigits (n : ℕ) : AllDigits (Nat.toDigits 10 n) :=
  fun _ hc => Nat.isDigit_of_mem_toDigits (by decide) (by decide) hc

/-- Only the numeral of zero begins with a zero. -/
theorem head_toDigits {n : ℕ} (hn : 0 < n) : (Nat.toDigits 10 n).head? ≠ some '0' := by
  induction n using Nat.strongRecOn with
  | ind n ih =>
    by_cases hlt : n < 10
    · rw [Nat.toDigits_of_lt_base hlt]
      have hdigit : ∀ k < 10, 0 < k → Nat.digitChar k ≠ '0' := by decide
      simpa using hdigit n hlt hn
    · rw [Nat.toDigits_of_base_le (by decide) (by omega)]
      have hhead := ih (n / 10) (by omega) (by omega)
      rwa [List.head?_append_of_ne_nil _ Nat.toDigits_ne_nil]

/-! ## Parts of a number -/

/-- A number in JSON as it is written: its whole part, a fraction, and an exponent with its sign. -/
structure Numeral where
  whole : List Char
  fraction : Option (List Char) := none
  exponent : Option (Bool × List Char) := none

namespace Numeral

def fractionText : Option (List Char) → List Char
  | none => []
  | some fs => '.' :: fs

def exponentText : Option (Bool × List Char) → List Char
  | none => []
  | some (negative, es) => 'e' :: (if negative then '-' else '+') :: es

def text (p : Numeral) : List Char := p.whole ++ fractionText p.fraction ++ exponentText p.exponent

/-- All digits before and after the point, as one number. -/
def digits (p : Numeral) : ℕ := Nat.ofDigitChars 10 (p.whole ++ p.fraction.getD []) 0

def exponentValue : Option (Bool × List Char) → ℤ
  | none => 0
  | some (negative, es) =>
    if negative then -(Nat.ofDigitChars 10 es 0 : ℤ) else Nat.ofDigitChars 10 es 0

/-- The power of ten that the digits are multiplied with. -/
def power (p : Numeral) : ℤ := exponentValue p.exponent - (p.fraction.getD []).length

/-- Nothing is missing, and there is no zero in front. -/
structure Valid (p : Numeral) : Prop where
  whole : AllDigits p.whole
  nonempty : p.whole ≠ []
  leading : p.whole.head? = some '0' → p.whole = ['0']
  fraction : ∀ fs ∈ p.fraction, fs ≠ [] ∧ AllDigits fs
  exponent : ∀ e ∈ p.exponent, e.2 ≠ [] ∧ AllDigits e.2

end Numeral

/-! ## Reading the parts -/

theorem readFraction_text {fraction : Option (List Char)} {r : List Char}
    (h : ∀ fs ∈ fraction, fs ≠ [] ∧ AllDigits fs) (hr : NoDigit r)
    (hpoint : ∀ c ∈ r.head?, c ≠ '.') :
    readFraction (Numeral.fractionText fraction ++ r) = (fraction, r) := by
  cases fraction with
  | none =>
    cases r with
    | nil => rfl
    | cons c rest =>
      have hc := hpoint c rfl
      simp only [Numeral.fractionText, List.nil_append]
      unfold readFraction
      split
      · next heq => exact absurd (List.cons.inj heq).1 hc
      · rfl
  | some fs =>
    obtain ⟨hne, hfs⟩ := h fs rfl
    simp only [Numeral.fractionText, List.cons_append, readFraction, takeDigits_append hfs hr]

theorem readExponent_text {exponent : Option (Bool × List Char)} {r : List Char}
    (h : ∀ e ∈ exponent, e.2 ≠ [] ∧ AllDigits e.2) (hr : EndsNumber r) :
    readExponent (Numeral.exponentText exponent ++ r) =
      (exponent.map fun e => Numeral.exponentValue (some e), r) := by
  cases exponent with
  | none =>
    cases r with
    | nil => rfl
    | cons c rest =>
      obtain ⟨-, -, he, hE⟩ := hr c rfl
      simp [Numeral.exponentText, readExponent, he, hE]
  | some e =>
    obtain ⟨negative, es⟩ := e
    obtain ⟨hne, hes⟩ := h _ rfl
    have hdigits := takeDigits_append hes hr.noDigit
    cases negative <;>
      simp [Numeral.exponentText, readExponent, Number.readSign, hdigits,
        Numeral.exponentValue, digitsValue_digitValues]

theorem noDigit_exponentText (exponent : Option (Bool × List Char)) {r : List Char}
    (hr : EndsNumber r) : NoDigit (Numeral.exponentText exponent ++ r) ∧
      ∀ c ∈ (Numeral.exponentText exponent ++ r).head?, c ≠ '.' := by
  cases exponent with
  | none => exact ⟨hr.noDigit, fun c hc => (hr c hc).2.1⟩
  | some e =>
    constructor
    · rintro c ⟨⟩
      decide
    · rintro c ⟨⟩
      decide

theorem noDigit_fractionText (fraction : Option (List Char)) {r : List Char} (hr : NoDigit r) :
    NoDigit (Numeral.fractionText fraction ++ r) := by
  cases fraction with
  | none => exact hr
  | some fs =>
    rintro c ⟨⟩
    decide

/-- The value of a numeral: an integer without a fraction and an exponent, if it is not too long,
and a floating-point number otherwise. -/
def Numeral.read (negative : Bool) (p : Numeral) : Except ReadError Json :=
  if p.fraction.isNone && p.exponent.isNone then
    if greatestNumeralLength < p.whole.length then .error .tooManyDigits
    else .ok (.int (if negative then -(p.digits : ℤ) else p.digits))
  else .ok (.real (Binary64.ofDecimal negative p.digits p.power))

theorem readWhole_text {p : Numeral} {r : List Char} (hp : p.Valid) (hr : NoDigit r) :
    readWhole (p.whole ++ r) = (p.whole, r) := by
  obtain ⟨c, ds, hwhole⟩ := List.exists_cons_of_ne_nil hp.nonempty
  by_cases hc : c = '0'
  · have hzero : p.whole = ['0'] := hp.leading (by rw [hwhole, hc, List.head?_cons])
    rw [hzero]
    rfl
  · have htake := takeDigits_append hp.whole hr
    rw [hwhole] at htake ⊢
    unfold readWhole
    split
    · next heq => exact absurd (List.cons.inj heq).1 hc
    · exact htake

theorem readNumber_text {p : Numeral} {r : List Char} (hp : p.Valid) (hr : EndsNumber r)
    (negative : Bool) :
    readNumber negative (p.text ++ r) = (p.read negative).map fun v => (v, r) := by
  have hexponent := readExponent_text hp.exponent hr
  have hend := noDigit_exponentText p.exponent hr
  have hfraction := readFraction_text hp.fraction hend.1 hend.2
  have hwhole := readWhole_text hp (noDigit_fractionText p.fraction hend.1)
  have hne : p.whole.isEmpty = false := by simpa using hp.nonempty
  have hpower : (p.exponent.map fun e => Numeral.exponentValue (some e)).getD 0 =
      Numeral.exponentValue p.exponent := by
    cases p.exponent <;> rfl
  unfold readNumber Numeral.text
  simp only [List.append_assoc, hwhole, hfraction, hexponent, hne, hpower, digitsValue_digitValues,
    Option.isNone_map]
  unfold Numeral.read Numeral.digits Numeral.power
  by_cases hint : p.fraction = none ∧ p.exponent = none
  · by_cases hlong : greatestNumeralLength < p.whole.length <;>
      simp [hint.1, hint.2, hlong, Except.map]
  · have hreal : (p.fraction.isNone && p.exponent.isNone) = false := by
      rw [Bool.eq_false_iff, ne_eq, Bool.and_eq_true, Option.isNone_iff_eq_none,
        Option.isNone_iff_eq_none]
      exact hint
    simp [hreal, Except.map]

/-! ## Integers -/

/-- A minus before the text of a negative number. -/
def signed (negative : Bool) (cs : List Char) : List Char := if negative then '-' :: cs else cs

def Numeral.ofNat (n : ℕ) : Numeral := { whole := Nat.toDigits 10 n }

theorem Numeral.ofNat_valid (n : ℕ) : (Numeral.ofNat n).Valid where
  whole := allDigits_toDigits n
  nonempty := Nat.toDigits_ne_nil
  leading h := by
    rcases Nat.eq_zero_or_pos n with rfl | hn
    · rfl
    · exact absurd h (head_toDigits hn)
  fraction fs h := by cases h
  exponent e h := by cases h

theorem toList_toString_int (n : ℤ) :
    (toString n).toList = signed (decide (n < 0)) (Numeral.ofNat n.natAbs).text := by
  have htext : (Numeral.ofNat n.natAbs).text = Nat.toDigits 10 n.natAbs := by
    simp [Numeral.text, Numeral.ofNat, Numeral.fractionText, Numeral.exponentText]
  rw [htext, Int.toString_eq_repr, Int.repr_eq_if]
  by_cases hn : 0 ≤ n
  · simp [hn, not_lt.2 hn, signed, Nat.toList_repr, show n.toNat = n.natAbs by omega]
  · simp [hn, not_le.1 hn, signed, Nat.toList_repr, show (-n).toNat = n.natAbs by omega]

theorem Numeral.read_ofNat {n : ℤ} (h : (Nat.toDigits 10 n.natAbs).length ≤ greatestNumeralLength) :
    (Numeral.ofNat n.natAbs).read (decide (n < 0)) = .ok (.int n) := by
  have hdigits : (Numeral.ofNat n.natAbs).digits = n.natAbs := by
    simp [Numeral.digits, Numeral.ofNat, Nat.ofDigitChars_ten_toDigits]
  unfold Numeral.read
  rw [hdigits]
  by_cases hn : n < 0
  · simp [Numeral.ofNat, not_lt.2 h, hn, abs_of_neg hn]
  · simp [Numeral.ofNat, not_lt.2 h, hn, abs_of_nonneg (not_lt.1 hn)]

/-! ## Floating-point numbers -/

/-- A numeral with a fraction or an exponent, and the number that it writes. -/
structure Numeral.Decimal (p : Numeral) (v : ℚ) : Prop extends p.Valid where
  marked : (p.fraction.isNone && p.exponent.isNone) = false
  value : (p.digits * 10 ^ p.power : ℚ) = v

theorem ofDigitChars_zeros_append (k : ℕ) (cs : List Char) :
    Nat.ofDigitChars 10 (List.replicate k '0' ++ cs) 0 = Nat.ofDigitChars 10 cs 0 := by
  rw [Nat.ofDigitChars_append, Nat.ofDigitChars_replicate_zero, Nat.mul_zero]

theorem allDigits_zeros (k : ℕ) : AllDigits (List.replicate k '0') := fun c hc => by
  rw [List.eq_of_mem_replicate hc]
  rfl

theorem AllDigits.append {cs ds : List Char} (hcs : AllDigits cs) (hds : AllDigits ds) :
    AllDigits (cs ++ ds) := fun c hc => (List.mem_append.1 hc).elim (hcs c) (hds c)

section Write

variable {d : Number.Decimal}

/-- A number below one: zeros stand between the point and the digits. -/
def belowOne (d : Number.Decimal) (zeros : ℕ) : Numeral where
  whole := ['0']
  fraction := some (List.replicate zeros '0' ++ Nat.toDigits 10 d.digits)

theorem belowOne_decimal {zeros : ℕ}
    (h : (zeros : ℤ) + (Nat.toDigits 10 d.digits).length = -d.exponent) :
    (belowOne d zeros).Decimal (d.digits * 10 ^ d.exponent) where
  whole := by simp [AllDigits, belowOne, Text.isAsciiDigit]
  nonempty := by simp [belowOne]
  leading _ := rfl
  fraction fs hfs := by
    obtain rfl := Option.some.inj hfs
    exact ⟨by simp [Nat.toDigits_ne_nil], (allDigits_zeros _).append (allDigits_toDigits _)⟩
  exponent e he := by cases he
  marked := rfl
  value := by
    have hdigits : (belowOne d zeros).digits = d.digits := by
      have hone : (belowOne d zeros).whole ++ (belowOne d zeros).fraction.getD [] =
          List.replicate (zeros + 1) '0' ++ Nat.toDigits 10 d.digits := by
        simp [belowOne, List.replicate_succ]
      rw [Numeral.digits, hone, ofDigitChars_zeros_append, Nat.ofDigitChars_ten_toDigits]
    have hpower : (belowOne d zeros).power = d.exponent := by
      simp only [Numeral.power, belowOne, Numeral.exponentValue, Option.getD_some,
        List.length_append, List.length_replicate]
      push_cast
      omega
    rw [hdigits, hpower]

/-- A whole number: a zero stands after the point. -/
def wholeNumber (d : Number.Decimal) (zeros : ℕ) : Numeral where
  whole := Nat.toDigits 10 d.digits ++ List.replicate zeros '0'
  fraction := some ['0']

theorem head_digits_append (hd : 0 < d.digits) (cs : List Char) :
    (Nat.toDigits 10 d.digits ++ cs).head? ≠ some '0' := by
  rw [List.head?_append_of_ne_nil _ Nat.toDigits_ne_nil]
  exact head_toDigits hd

theorem wholeNumber_decimal (hd : 0 < d.digits) {zeros : ℕ} (h : (zeros : ℤ) = d.exponent) :
    (wholeNumber d zeros).Decimal (d.digits * 10 ^ d.exponent) where
  whole := (allDigits_toDigits _).append (allDigits_zeros _)
  nonempty := by simp [wholeNumber, Nat.toDigits_ne_nil]
  leading h := absurd h (head_digits_append hd _)
  fraction fs hfs := by
    obtain rfl := Option.some.inj hfs
    exact ⟨by simp, allDigits_zeros 1⟩
  exponent e he := by cases he
  marked := rfl
  value := by
    have hdigits : (wholeNumber d zeros).digits = 10 ^ (zeros + 1) * d.digits := by
      have hzeros : (wholeNumber d zeros).whole ++ (wholeNumber d zeros).fraction.getD [] =
          Nat.toDigits 10 d.digits ++ List.replicate (zeros + 1) '0' := by
        simp [wholeNumber, List.replicate_succ']
      rw [Numeral.digits, hzeros, Nat.ofDigitChars_append, Nat.ofDigitChars_ten_toDigits,
        Nat.ofDigitChars_replicate_zero]
    have hpower : (wholeNumber d zeros).power = -1 := rfl
    rw [hdigits, hpower, ← h, zpow_natCast]
    push_cast
    field_simp
    ring

/-- A number with digits on both sides of its point. -/
def acrossPoint (d : Number.Decimal) (count : ℕ) : Numeral where
  whole := (Nat.toDigits 10 d.digits).take count
  fraction := some ((Nat.toDigits 10 d.digits).drop count)

theorem acrossPoint_decimal (hd : 0 < d.digits) {count : ℕ} (hpos : 0 < count)
    (hlt : count < (Nat.toDigits 10 d.digits).length)
    (h : (count : ℤ) = (Nat.toDigits 10 d.digits).length + d.exponent) :
    (acrossPoint d count).Decimal (d.digits * 10 ^ d.exponent) where
  whole c hc := allDigits_toDigits _ c (List.mem_of_mem_take hc)
  nonempty := by
    rw [← List.length_pos_iff]
    simp only [acrossPoint, List.length_take]
    omega
  leading h := by
    simp only [acrossPoint, List.head?_take, hpos.ne', if_false] at h
    exact absurd h (head_toDigits hd)
  fraction fs hfs := by
    obtain rfl := Option.some.inj hfs
    refine ⟨?_, fun c hc => allDigits_toDigits _ c (List.mem_of_mem_drop hc)⟩
    rw [← List.length_pos_iff, List.length_drop]
    omega
  exponent e he := by cases he
  marked := rfl
  value := by
    have hdigits : (acrossPoint d count).digits = d.digits := by
      rw [Numeral.digits, acrossPoint, Option.getD_some, List.take_append_drop,
        Nat.ofDigitChars_ten_toDigits]
    have hpower : (acrossPoint d count).power = d.exponent := by
      simp only [Numeral.power, acrossPoint, Numeral.exponentValue, Option.getD_some,
        List.length_drop]
      omega
    rw [hdigits, hpower]

/-- A number with an exponent: one digit stands before the point. -/
def withExponent (d : Number.Decimal) (top : ℤ) : Numeral where
  whole := (Nat.toDigits 10 d.digits).take 1
  fraction := if (Nat.toDigits 10 d.digits).drop 1 = [] then none
    else some ((Nat.toDigits 10 d.digits).drop 1)
  exponent := some (decide (top < 0), padZeros 2 (Nat.toDigits 10 top.natAbs))

theorem withExponent_decimal (hd : 0 < d.digits) {top : ℤ}
    (h : top = d.exponent + (Nat.toDigits 10 d.digits).length - 1) :
    (withExponent d top).Decimal (d.digits * 10 ^ d.exponent) where
  whole c hc := allDigits_toDigits _ c (List.mem_of_mem_take hc)
  nonempty := by
    rw [← List.length_pos_iff]
    simp [withExponent, List.length_pos_iff, Nat.toDigits_ne_nil]
  leading h := by
    simp only [withExponent, List.head?_take, one_ne_zero, if_false] at h
    exact absurd h (head_toDigits hd)
  fraction fs hfs := by
    simp only [withExponent, Option.mem_def] at hfs
    split at hfs
    · cases hfs
    · next hne =>
      obtain rfl := Option.some.inj hfs
      exact ⟨hne, fun c hc => allDigits_toDigits _ c (List.mem_of_mem_drop hc)⟩
  exponent e he := by
    obtain rfl := Option.some.inj he
    exact ⟨by simp [padZeros, Nat.toDigits_ne_nil],
      (allDigits_zeros _).append (allDigits_toDigits _)⟩
  marked := by simp [withExponent]
  value := by
    have hfraction : (withExponent d top).fraction.getD [] = (Nat.toDigits 10 d.digits).drop 1 := by
      simp only [withExponent]
      split
      · next hnil => rw [hnil, Option.getD_none]
      · rfl
    have hdigits : (withExponent d top).digits = d.digits := by
      rw [Numeral.digits, hfraction, withExponent, List.take_append_drop,
        Nat.ofDigitChars_ten_toDigits]
    have hexponent : Numeral.exponentValue (withExponent d top).exponent = top := by
      simp only [withExponent, Numeral.exponentValue, padZeros, ofDigitChars_zeros_append,
        Nat.ofDigitChars_ten_toDigits, decide_eq_true_eq]
      split <;> omega
    have hlength : 0 < (Nat.toDigits 10 d.digits).length := Nat.length_toDigits_pos
    have hpower : (withExponent d top).power = d.exponent := by
      rw [Numeral.power, hexponent, hfraction, List.length_drop, h]
      omega
    rw [hdigits, hpower]

/-- The text of a decimal is that of a numeral with its value. -/
theorem exists_decimal (hd : 0 < d.digits) :
    ∃ p : Numeral, p.text = plainFormat.write d ∧ p.Decimal (d.digits * 10 ^ d.exponent) := by
  have hlength : 0 < (Nat.toDigits 10 d.digits).length := Nat.length_toDigits_pos
  unfold DecimalFormat.write
  simp only [plainFormat]
  split
  · split
    · -- No digit stands before the point.
      refine ⟨belowOne d (-(d.exponent + (Nat.toDigits 10 d.digits).length - 1) - 1).toNat, ?_, ?_⟩
      · simp [belowOne, Numeral.text, Numeral.fractionText, Numeral.exponentText]
      · exact belowOne_decimal (by omega)
    · by_cases hwhole : 0 ≤ d.exponent
      · -- All digits stand before the point, and zeros after them.
        obtain ⟨zeros, hzeros⟩ := Int.eq_ofNat_of_zero_le hwhole
        refine ⟨wholeNumber d zeros, ?_, wholeNumber_decimal hd hzeros.symm⟩
        have hcount : (d.exponent + ((Nat.toDigits 10 d.digits).length : ℤ) - 1 + 1).toNat =
            (Nat.toDigits 10 d.digits).length + zeros := by omega
        rw [hcount, Nat.add_sub_cancel_left, List.take_of_length_le (by simp),
          List.drop_of_length_le (by simp)]
        simp [wholeNumber, Numeral.text, Numeral.fractionText, Numeral.exponentText]
      · refine ⟨acrossPoint d (d.exponent + (Nat.toDigits 10 d.digits).length).toNat, ?_,
          acrossPoint_decimal hd (by omega) (by omega) (by omega)⟩
        have hcount : (d.exponent + ((Nat.toDigits 10 d.digits).length : ℤ) - 1 + 1).toNat =
            (d.exponent + (Nat.toDigits 10 d.digits).length).toNat := by omega
        have hlt : (d.exponent + (Nat.toDigits 10 d.digits).length).toNat <
            (Nat.toDigits 10 d.digits).length := by omega
        rw [hcount, Nat.sub_eq_zero_of_le hlt.le]
        simp [acrossPoint, Numeral.text, Numeral.fractionText, Numeral.exponentText, hlt]
  · refine ⟨withExponent d _, ?_, withExponent_decimal hd rfl⟩
    match hds : Nat.toDigits 10 d.digits with
    | [] => exact absurd hds Nat.toDigits_ne_nil
    | [c] => simp [withExponent, Numeral.text, Numeral.fractionText, Numeral.exponentText, hds]
    | c :: c' :: r =>
      simp [withExponent, Numeral.text, Numeral.fractionText, Numeral.exponentText, hds]

end Write

theorem Numeral.Decimal.read {p : Numeral} {v : ℚ} (h : p.Decimal v) (negative : Bool) :
    p.read negative = .ok (.real (Binary64.ofDecimal negative p.digits p.power)) := by
  simp [Numeral.read, h.marked]

/-! ## Numbers that are read again -/

/-- A text that is a numeral, and the value that is read from it. -/
def Spells (cs : List Char) (v : Json) : Prop :=
  ∃ (negative : Bool) (p : Numeral), p.Valid ∧ cs = signed negative p.text ∧
    p.read negative = .ok v

theorem spells_int {n : ℤ} (h : (Nat.toDigits 10 n.natAbs).length ≤ greatestNumeralLength) :
    Spells (toString n).toList (.int n) :=
  ⟨decide (n < 0), .ofNat n.natAbs, Numeral.ofNat_valid _, toList_toString_int n,
    Numeral.read_ofNat h⟩

/-- Zero has a digit on each side of its point. -/
theorem zero_decimal : Numeral.Decimal { whole := ['0'], fraction := some ['0'] } 0 where
  whole := allDigits_zeros 1
  nonempty := by simp
  leading _ := rfl
  fraction fs hfs := by
    obtain rfl := Option.some.inj hfs
    exact ⟨by simp, allDigits_zeros 1⟩
  exponent e he := by cases he
  marked := rfl
  value := by
    have hdigits : Numeral.digits { whole := ['0'], fraction := some ['0'] } = 0 := rfl
    rw [hdigits, Nat.cast_zero, zero_mul]

/-- A floating-point number is read again from its shortest decimal. -/
theorem spells_real {m : ℕ} {e : ℤ} (hregular : Number.Regular m e) (negative : Bool) :
    Spells (finiteText negative m e) (.real (.finite negative m e)) := by
  by_cases hm : m = 0
  · have he : e = Binary64.leastExponent := by
      by_contra he
      simpa [hm] using hregular.full he
    refine ⟨negative, _, zero_decimal.toValid, by rw [hm]; rfl, ?_⟩
    rw [zero_decimal.read, hm, he]
    rfl
  · have hpos : 0 < m := Nat.pos_of_ne_zero hm
    have hrounds := Number.Shortest.roundsTo_decimal hpos hregular
    have hdigits : 0 < (Number.Shortest.decimal m e).digits := by
      by_contra h
      have hzero : (Number.Shortest.decimal m e).digits = 0 := by omega
      have hvalue := hrounds.pos hpos
      simp [hzero] at hvalue
    obtain ⟨p, htext, hp⟩ := exists_decimal hdigits
    refine ⟨negative, p, hp.toValid, by simp [finiteText, hm, htext, signed], ?_⟩
    rw [← hp.value] at hrounds
    rw [hp.read, hrounds.ofDecimal negative hpos hregular]

end MarkdownDocx.Json

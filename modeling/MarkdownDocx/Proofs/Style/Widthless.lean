import MarkdownDocx.Proofs.Json.Regular
import MarkdownDocx.Proofs.Style.Merging

/-!
Sizes whose width in twips is no integer. Reading a size turns what is no number into the fallback,
but lets through every floating-point number that there is: infinity, NaN, and finite numbers whose
product with the twips of two points is beyond the greatest one. Merged tables hold such a size for
list items just if the overrides give it, since the templates have none.
-/

set_option autoImplicit false

namespace MarkdownDocx.Style

open MarkdownDocx.Number

/-! ## Widths -/

/-- A size of which two characters are no integer number of twips, and why. -/
inductive Widthless : Binary64 → NotIntegral → Prop
  | nan : Widthless .nan .nan
  | infinite (negative : Bool) : Widthless (.infinite negative) .infinite
  | tooLarge {negative : Bool} {m : Nat} {e : Int} (h : overflowBound ≤ 40 * (m * 2 ^ e)) :
    Widthless (.finite negative m e) .infinite

theorem twoCharacters_real_eq_error_iff {x : Binary64} (hx : x.IsRegular) {e : NotIntegral} :
    (Points.real x).twoCharacters = .error e ↔ Widthless x e := by
  have hwidth : (Points.real x).twoCharacters = ((x.scale 2 1).scale 20 1).round := rfl
  rw [hwidth]
  cases x with
  | nan =>
    refine ⟨fun h => ?_, fun h => by cases h; rfl⟩
    obtain rfl := Except.error.inj h
    exact .nan
  | infinite negative =>
    refine ⟨fun h => ?_, fun h => by cases h; rfl⟩
    obtain rfl := Except.error.inj h
    exact .infinite negative
  | finite negative m k =>
    rcases scale_two_scale_cases hx negative (k := 20) (by norm_num) with
      ⟨hbound, hscaled⟩ | ⟨hlt, m', k', hscaled⟩
    · rw [hscaled]
      refine ⟨fun h => ?_, fun h => by cases h; rfl⟩
      obtain rfl := Except.error.inj h
      exact .tooLarge (by norm_num at hbound; exact hbound)
    · rw [hscaled]
      refine ⟨fun h => by simp [Binary64.round] at h, fun h => ?_⟩
      cases h with
      | tooLarge hbound =>
        norm_num at hlt
        exact absurd hlt (not_lt.2 hbound)

/-! ## What reading lets through -/

namespace Points

/-- A size that there is. -/
def IsRegular : Points → Prop
  | .whole _ => True
  | .real x => x.IsRegular

theorem isRegular_whole (n : Int) : (Points.whole n).IsRegular := trivial

theorem isRegular_halfPoints (n : Nat) : (halfPoints n).IsRegular :=
  ofRatio_isRegular false _ (by norm_num)

end Points

theorem readUnsigned?_isRegular {negative : Bool} {cs : List Char} {x : Binary64}
    (h : readUnsigned? negative cs = some x) : x.IsRegular := by
  unfold readUnsigned? at h
  dsimp only at h
  -- with a point or without one, the digits are rounded as a decimal
  split at h
  all_goals
    split_ifs at h
    obtain ⟨k, -, rfl⟩ := Option.map_eq_some_iff.1 h
    exact ofDecimal_isRegular _ _ _

theorem readFloat?_isRegular {s : String} {x : Binary64} (h : readFloat? s = some x) :
    x.IsRegular := by
  unfold readFloat? at h
  dsimp only at h
  split_ifs at h
  · obtain rfl := Option.some.inj h
    trivial
  · obtain rfl := Option.some.inj h
    trivial
  · exact readUnsigned?_isRegular h

theorem chineseSizes_isRegular : ∀ p ∈ chineseSizes, p.2.IsRegular := by
  simp [chineseSizes, Points.isRegular_whole, Points.isRegular_halfPoints]

theorem sizeOfText?_isRegular {s : String} {p : Points} (h : sizeOfText? s = some p) :
    p.IsRegular := by
  unfold sizeOfText? at h
  dsimp only at h
  split at h
  · next q hq =>
    obtain rfl := Option.some.inj h
    exact chineseSizes_isRegular q (List.mem_of_find?_eq_some hq)
  · obtain ⟨x, hx, rfl⟩ := Option.map_eq_some_iff.1 h
    exact readFloat?_isRegular hx

theorem fallbackSize_width : fallbackSize.twoCharacters = .ok 420 := by decide

/-- A value that is read as a floating-point number of points. -/
inductive ReadsAs : Json → Binary64 → Prop
  | number (x : Binary64) : ReadsAs (.real x) x
  | whole {n : Int} {x : Binary64} (h : Binary64.ofInt? n = some x) : ReadsAs (.int n) x
  | text {s : WideString} {x : Binary64} (h : s.text?.bind sizeOfText? = some (.real x)) :
      ReadsAs (.str s) x

/-- A value that is read as a size without a width. -/
def WidthlessSize (v : Json) (e : NotIntegral) : Prop := ∃ x, ReadsAs v x ∧ Widthless x e

section Reading

variable {v : Json} {x y : Binary64}

theorem ReadsAs.unique (hx : ReadsAs v x) (hy : ReadsAs v y) : x = y := by
  cases hx with
  | number => cases hy; rfl
  | whole hn =>
    cases hy with
    | whole hn' => exact Option.some.inj (hn.symm.trans hn')
  | text hs =>
    cases hy with
    | text hs' => simpa [hs] using hs'

theorem ReadsAs.isRegular (hx : ReadsAs v x) (hv : v.Regular) : x.IsRegular := by
  cases hx with
  | number => exact hv.isRegular
  | whole hn => exact ofInt?_isRegular hn
  | text hs =>
    obtain ⟨t, -, ht⟩ := Option.bind_eq_some_iff.1 hs
    exact sizeOfText?_isRegular ht

/-- What is not read as a floating-point number has a width, be it a size with a name or the
fallback for what is no size. -/
theorem parseSize_cases {p : Points} (hp : (parseSize v).result = .ok p) :
    (∃ x, ReadsAs v x ∧ p = .real x) ∨
      (∀ x, ¬ ReadsAs v x) ∧ ∃ n, p.twoCharacters = .ok n := by
  have hfallback (h : fallbackSize = p) : ∃ n, p.twoCharacters = .ok n :=
    ⟨420, h ▸ fallbackSize_width⟩
  cases v with
  | int n =>
    cases hn : Binary64.ofInt? n with
    | none => simp [parseSize, hn, Logged.fail] at hp
    | some x =>
      have hsize : Points.real x = p := by simpa [parseSize, hn, Logged.pure] using hp
      exact .inl ⟨x, .whole hn, hsize.symm⟩
  | real x => exact .inl ⟨x, .number x, (Except.ok.inj hp).symm⟩
  | str s =>
    cases hs : s.text?.bind sizeOfText? with
    | none =>
      refine .inr ⟨fun x h => ?_, hfallback (by simpa [parseSize, hs] using hp)⟩
      cases h with
      | text hs' => simp [hs] at hs'
    | some q =>
      obtain rfl : q = p := by simpa [parseSize, hs, Logged.pure] using hp
      cases q with
      | real x => exact .inl ⟨x, .text hs, rfl⟩
      | whole n =>
        refine .inr ⟨fun x h => ?_, _, rfl⟩
        cases h with
        | text hs' => simp [hs] at hs'
  | _ => exact .inr ⟨fun x h => (by cases h), hfallback (Except.ok.inj hp)⟩

theorem parseSize_width (hv : v.Regular) {p : Points}
    (hp : (parseSize v).result = .ok p) {e : NotIntegral} :
    p.twoCharacters = .error e ↔ WidthlessSize v e := by
  rcases parseSize_cases hp with ⟨x, hx, rfl⟩ | ⟨hnone, n, hn⟩
  · rw [twoCharacters_real_eq_error_iff (hx.isRegular hv)]
    refine ⟨fun h => ⟨x, hx, h⟩, ?_⟩
    rintro ⟨y, hy, h⟩
    rwa [hx.unique hy]
  · simp [hn, WidthlessSize, hnone]

end Reading

/-! ## Merged styles -/

/-- What a JSON object names for a field of the style under a key. -/
def namedFor (members : Json.Members) (p : Slot) : Option Json :=
  match Json.find? p.key.name members with
  | some (.obj data) => p.field.find? data
  | _ => none

theorem givenFor_overridesOf (members : Json.Members) (p : Slot) :
    givenFor (overridesOf members) p = (namedFor members p).map p.field.read := by
  unfold givenFor namedFor
  rw [findOverride?_overridesOf]
  cases Json.find? p.key.name members with
  | none => rfl
  | some v => cases v <;> rfl

theorem namedFor_regular {members : Json.Members} (h : (Json.obj members).Regular)
    {key : StyleKey} {v : Json} (hv : namedFor members ⟨key, .size⟩ = some v) : v.Regular := by
  unfold namedFor at hv
  split at hv
  · next data hdata => exact (h.of_find? hdata).of_find? hv
  · simp at hv

/-- Overrides that make a style indent by a size without a width. A flag that they do not name is
that of the style. -/
structure MakesWidthless (members : Json.Members) (key : StyleKey) (base : TextStyle)
    (e : NotIntegral) : Prop where
  indent : (namedFor members ⟨key, .indent⟩).getD (.bool base.indent) = .bool true
  size : ∃ v, namedFor members ⟨key, .size⟩ = some v ∧ WidthlessSize v e

section Merged

variable {base m : StyleTable} {members : Json.Members} (key : StyleKey)

theorem merged_indent_iff (h : (base.merge (.obj members)).result = .ok m) :
    (m.style key).indent = true ↔
      (namedFor members ⟨key, .indent⟩).getD (.bool (base.style key).indent) = .bool true := by
  have hmerged : Overridden Slot.get (givenFor (overridesOf members)) base.style m.style :=
    (mergeEntries_eq_ok_iff.1 h).2.1
  have hgiven := givenFor_overridesOf members ⟨key, .indent⟩
  cases hv : namedFor members ⟨key, .indent⟩ with
  | none =>
    have hkept := hmerged.kept (f := ⟨key, .indent⟩) (by rw [hgiven, hv, Option.map_none])
    have hindent : (m.style key).indent = (base.style key).indent := hkept
    simp [hindent]
  | some v =>
    have hread := hmerged.replaced (f := ⟨key, .indent⟩) (by rw [hgiven, hv, Option.map_some])
    have hindent : StyleField.readFlag "indent" v = .ok (m.style key).indent := hread
    cases v with
    | bool b =>
      obtain rfl : b = _ := Except.ok.inj hindent
      simp
    | _ => simp [StyleField.readFlag] at hindent

theorem merged_size_iff (h : (base.merge (.obj members)).result = .ok m)
    (hbase : ∃ n, (base.style key).size.twoCharacters = .ok n)
    (hregular : (Json.obj members).Regular) {e : NotIntegral} :
    (m.style key).size.twoCharacters = .error e ↔
      ∃ v, namedFor members ⟨key, .size⟩ = some v ∧ WidthlessSize v e := by
  have hmerged : Overridden Slot.get (givenFor (overridesOf members)) base.style m.style :=
    (mergeEntries_eq_ok_iff.1 h).2.1
  have hgiven := givenFor_overridesOf members ⟨key, .size⟩
  cases hv : namedFor members ⟨key, .size⟩ with
  | none =>
    have hkept := hmerged.kept (f := ⟨key, .size⟩) (by rw [hgiven, hv, Option.map_none])
    have hsize : (m.style key).size = (base.style key).size := hkept
    obtain ⟨n, hn⟩ := hbase
    simp [hsize, hn]
  | some v =>
    have hread := hmerged.replaced (f := ⟨key, .size⟩) (by rw [hgiven, hv, Option.map_some])
    have hsize : (parseSize v).result = .ok (m.style key).size := hread.symm ▸ rfl
    rw [parseSize_width (namedFor_regular hregular hv) hsize]
    simp

end Merged

/-- The sizes of the templates are whole numbers. -/
theorem width_of_mem_templates {t : Template} (ht : t ∈ templates) (key : StyleKey) :
    ∃ n, (t.styles.style key).size.twoCharacters = .ok n := by
  have hcases : t = government ∨ t = english := by simpa [templates] using ht
  rcases hcases with rfl | rfl <;> cases key <;> exact ⟨_, rfl⟩

end MarkdownDocx.Style

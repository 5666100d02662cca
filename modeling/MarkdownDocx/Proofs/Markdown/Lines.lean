import MarkdownDocx.Proofs.Markdown.Gaps
import MarkdownDocx.Proofs.Text.Feeds

/-!
Lines with zero-width spaces in their gaps. They are as many as before, and each is read as before:
it is a fence, delimited or a bare formula if and only if it was one.
-/

set_option autoImplicit false

namespace MarkdownDocx.Markdown

open MarkdownDocx.Text

variable {l m : List Char}

/-- Line ends are where they were. -/
theorem Gapped.splitFeeds (h : Gapped l m) :
    List.Forall₂ Gapped (splitFeeds l) (splitFeeds m) := by
  have hfeed (c : Char) (hc : c ∈ emphatic) : c ≠ '\n' := by
    rintro rfl
    exact absurd hc (by decide)
  induction h with
  | nil => exact .cons .nil .nil
  | @cons c l m _ ih =>
    by_cases hc : c = '\n'
    · simp only [Text.splitFeeds, if_pos hc]
      exact .cons .nil ih
    · obtain ⟨k, ks, hk⟩ := exists_splitFeeds l
      obtain ⟨n, ns, hn⟩ := exists_splitFeeds m
      rw [hk, hn] at ih
      obtain ⟨hline, hlines⟩ := List.forall₂_cons.1 ih
      rw [splitFeeds_cons hc hk, splitFeeds_cons hc hn]
      exact .cons (.cons c hline) hlines
  | @gap c d l m hgap _ ih =>
    obtain ⟨hc, hd⟩ := mem_emphatic_of_collide hgap
    obtain ⟨k, ks, hk⟩ := exists_splitFeeds l
    obtain ⟨n, ns, hn⟩ := exists_splitFeeds m
    have hk' := splitFeeds_cons (hfeed d hd) hk
    have hn' := splitFeeds_cons (hfeed d hd) hn
    have hz := splitFeeds_cons (c := zeroWidthSpace) (by decide) hn'
    rw [hk', hn'] at ih
    obtain ⟨hline, hlines⟩ := List.forall₂_cons.1 ih
    rw [splitFeeds_cons (hfeed c hc) hk', splitFeeds_cons (hfeed c hc) hz]
    exact .cons (.gap hgap hline) hlines

theorem fence_gapless : '*' ∉ fence ∧ zeroWidthSpace ∉ fence := by decide

/-- The delimiters of formulas are as they were. -/
theorem Gapped.eq_fence_iff (h : Gapped l m) : l = fence ↔ m = fence := by
  constructor
  · rintro rfl
    exact h.eq_of_noStar fence_gapless.1
  · rintro rfl
    have hstar : '*' ∉ l := fun hmem => fence_gapless.1 ((h.mem_iff (by decide)).1 hmem)
    exact (h.eq_of_noStar hstar).symm

/-- A text that begins and ends with a fence and is not longer than two is made of dollar signs. -/
theorem noStar_of_short (hbegins : fence <+: l) (hends : fence <:+ l) (hlength : l.length ≤ 4) :
    '*' ∉ l := by
  obtain ⟨a, rfl⟩ := hbegins
  obtain ⟨b, hb⟩ := hends
  match a, hlength, hb with
  | [], _, _ => decide
  | [x], _, hb =>
    have hlast := congrArg List.getLast? hb
    simp [fence] at hlast
    simp [fence, ← hlast]
  | [x, y], _, hb =>
    have hb' : b.length = 2 := by
      have hlength := congrArg List.length hb
      simpa [fence] using hlength
    obtain ⟨-, hxy⟩ := List.append_inj hb (by simp [fence, hb'])
    simp only [fence, List.cons.injEq] at hxy
    simp [fence, ← hxy.1, ← hxy.2.1]
  | x :: y :: z :: a, hlength, _ =>
    simp only [fence, List.length_append, List.length_cons, List.length_nil] at hlength
    omega

theorem Gapped.isDelimited_eq (h : Gapped l m) : isDelimited l = isDelimited m := by
  have hbegins : fence.isPrefixOf l = fence.isPrefixOf m :=
    Bool.eq_iff_iff.2 (by simpa using h.prefix_iff fence_gapless)
  have hends : fence.isSuffixOf l = fence.isSuffixOf m :=
    Bool.eq_iff_iff.2 (by simpa using h.suffix_iff fence_gapless)
  -- only a longer text than two fences can get longer
  have hlength : fence <+: l → fence <:+ l → (4 < l.length ↔ 4 < m.length) := by
    intro hp hs
    by_cases hl : l.length ≤ 4
    · rw [h.eq_of_noStar (noStar_of_short hp hs hl)]
    · have hm := h.length_le
      constructor <;> intro <;> omega
  have hlong : (fence.isPrefixOf l && fence.isSuffixOf l && decide (4 < l.length)) =
      (fence.isPrefixOf m && fence.isSuffixOf m && decide (4 < m.length)) := by
    rw [← hbegins, ← hends, Bool.eq_iff_iff]
    simp only [Bool.and_eq_true, List.isPrefixOf_iff_prefix, List.isSuffixOf_iff_suffix,
      decide_eq_true_eq]
    exact and_congr_right fun hends => hlength hends.1 hends.2
  rw [isDelimited, isDelimited, hlong, hbegins, h.head?_eq, h.getLast?_eq]

theorem Gapped.dropWhile_isDigit (h : Gapped l m) :
    Gapped (l.dropWhile isDigit) (m.dropWhile isDigit) := by
  have hall : emphatic.all (fun c => !isDigit c) = true := by decide
  induction h with
  | nil => exact .nil
  | @cons c l m h ih =>
    cases hc : isDigit c with
    | true => simpa [List.dropWhile_cons, hc] using ih
    | false => simpa [List.dropWhile_cons, hc] using h.cons c
  | @gap c d l m hgap h _ =>
    have hc : isDigit c = false := by
      simpa using List.all_eq_true.1 hall c (mem_emphatic_of_collide hgap).1
    simpa [List.dropWhile_cons, hc] using h.gap hgap

theorem Gapped.beginsNumbered_eq (h : Gapped l m) : beginsNumbered l = beginsNumbered m := by
  have hz : isBlank zeroWidthSpace = false := by decide
  have hrest := h.dropWhile_isDigit
  rw [beginsNumbered, beginsNumbered, h.head?_eq]
  generalize l.dropWhile isDigit = k at hrest
  generalize m.dropWhile isDigit = n at hrest
  cases hrest with
  | nil => rfl
  | cons p hrest =>
    cases hrest with
    | nil => rfl
    | cons b _ => rfl
    | gap _ _ => rfl
  | gap hgap _ =>
    -- neither the glyph nor the space before it is white space
    have hblank := not_blank_of_mem_emphatic (mem_emphatic_of_collide hgap).2
    simp [hblank, hz]

theorem Gapped.beginsBlock_eq (h : Gapped l m) : beginsBlock l = beginsBlock m := by
  rw [beginsBlock, beginsBlock, h.head?_eq, h.beginsNumbered_eq]

theorem Gapped.isEquation_eq (h : Gapped l m) : isEquation l = isEquation m := by
  have hcount := h.countP_eq (p := (· == '=')) (by decide)
  rw [isEquation, isEquation, h.getLast?_eq, List.count_eq_countP, List.count_eq_countP, hcount]

theorem occursIn_eq_true_iff {w cs : List Char} : occursIn w cs = true ↔ w <:+: cs := by
  rw [occursIn_iff]
  constructor
  · rintro ⟨a, b, rfl⟩
    exact ⟨a, b, rfl⟩
  · rintro ⟨a, b, rfl⟩
    exact ⟨a, b, rfl⟩

/-- The same commands stand in both. -/
theorem Gapped.countCommands_eq (h : Gapped l m) : countCommands l = countCommands m := by
  have hgapless : ∀ w ∈ formulaCommands, '*' ∉ w.toList ∧ zeroWidthSpace ∉ w.toList := by
    decide +kernel
  refine List.countP_congr fun w hw => ?_
  rw [occursIn_eq_true_iff, occursIn_eq_true_iff, h.infix_iff (hgapless w hw)]

/-- A character that a test accepts is not the asterisk or the zero-width space that it refuses. -/
theorem gapless_of {p : Char → Bool} (hp : p '*' = false ∧ p zeroWidthSpace = false) {c : Char}
    (hc : p c = true) : '*' ≠ c ∧ zeroWidthSpace ≠ c := by
  constructor
  · rintro rfl
    simp [hp.1] at hc
  · rintro rfl
    simp [hp.2] at hc

/-- A script is read off a letter, its mark, perhaps a brace, and one character more. -/
theorem exists_of_beginsScript {cs : List Char} (h : beginsScript cs = true) :
    ∃ w r, cs = w ++ r ∧ ('*' ∉ w ∧ zeroWidthSpace ∉ w) ∧ w ≠ [] ∧
      ∀ r', beginsScript (w ++ r') = true := by
  have hletter {c : Char} := gapless_of (p := isAsciiLetter) (by decide) (c := c)
  have hword {c : Char} := gapless_of (p := isAsciiWordChar) (by decide) (c := c)
  have hdigit {c : Char} := gapless_of (p := isDigit) (by decide) (c := c)
  have hmark : zeroWidthSpace ≠ '_' ∧ zeroWidthSpace ≠ '^' ∧ zeroWidthSpace ≠ '\x7b' := by decide
  have hbrace : isAsciiWordChar '\x7b' = false ∧ isDigit '\x7b' = false := by decide
  unfold beginsScript at h
  split at h
  · rename_i c r
    obtain ⟨hc, h⟩ := (Bool.and_eq_true _ _).mp h
    split at h
    · rename_i d r _
      refine ⟨[c, '_', '\x7b', d], r, rfl, ?_, by simp, ?_⟩
      · simp [hletter hc, hword h, hmark]
      · simp [beginsScript, hc, h]
    · rename_i d r _ hne
      have hd : d ≠ '\x7b' := by
        rintro rfl
        simp [hbrace.1] at h
      refine ⟨[c, '_', d], r, rfl, ?_, by simp, ?_⟩
      · simp [hletter hc, hword h, hmark]
      · simp [beginsScript, hc, h, hd]
    · simp at h
  · rename_i c r
    obtain ⟨hc, h⟩ := (Bool.and_eq_true _ _).mp h
    split at h
    · rename_i d r _
      refine ⟨[c, '^', '\x7b', d], r, rfl, ?_, by simp, ?_⟩
      · simp [hletter hc, hdigit h, hmark]
      · simp [beginsScript, hc, h]
    · rename_i d r _ hne
      have hd : d ≠ '\x7b' := by
        rintro rfl
        simp [hbrace.2] at h
      refine ⟨[c, '^', d], r, rfl, ?_, by simp, ?_⟩
      · simp [hletter hc, hdigit h, hmark]
      · simp [beginsScript, hc, h, hd]
    · simp at h
  · simp at h

theorem hasScript_iff {cs : List Char} :
    hasScript cs = true ↔ ∃ a b, cs = a ++ b ∧ beginsScript b = true := by
  induction cs with
  | nil => simp [hasScript, beginsScript]
  | cons c r ih =>
    rw [hasScript, Bool.or_eq_true, ih]
    constructor
    · rintro (h | ⟨a, b, rfl, h⟩)
      · exact ⟨[], c :: r, rfl, h⟩
      · exact ⟨c :: a, b, rfl, h⟩
    · rintro ⟨a, b, hab, h⟩
      cases a with
      | nil =>
        obtain rfl : c :: r = b := hab
        exact .inl h
      | cons e a => exact .inr ⟨a, b, (List.cons.inj hab).2, h⟩

theorem Gapped.hasScript_eq (h : Gapped l m) : hasScript l = hasScript m := by
  refine Bool.eq_iff_iff.2 ?_
  rw [hasScript_iff, hasScript_iff]
  constructor
  · rintro ⟨a, b, rfl, hb⟩
    obtain ⟨w, r, rfl, hw, -, hscript⟩ := exists_of_beginsScript hb
    obtain ⟨a', x, rfl, hx⟩ := h.of_append
    obtain ⟨r', rfl⟩ := hx.of_word_append hw.1
    exact ⟨a', w ++ r', rfl, hscript r'⟩
  · rintro ⟨a, b, rfl, hb⟩
    obtain ⟨w, r, rfl, hw, hne, hscript⟩ := exists_of_beginsScript hb
    obtain ⟨a', x, rfl, hx⟩ := h.append_of (head?_ne_zeroWidthSpace hw.2 hne)
    obtain ⟨r', rfl⟩ := hx.word_append_of hw.2
    exact ⟨a', w ++ r', rfl, hscript r'⟩

/-- Whether a line looks like a formula does not depend on its gaps. -/
theorem Gapped.looksLikeFormula_eq (h : Gapped l m) : looksLikeFormula l = looksLikeFormula m := by
  have ht := h.trim
  have hempty : (Text.trim l).isEmpty = (Text.trim m).isEmpty :=
    Bool.eq_iff_iff.2 (by simpa using ht.eq_nil_iff)
  rw [looksLikeFormula, looksLikeFormula]
  simp only [hempty, ht.beginsBlock_eq, ht.countP_eq (p := isHan) (by decide),
    ht.countCommands_eq, ht.isEquation_eq, ht.hasScript_eq]

end MarkdownDocx.Markdown

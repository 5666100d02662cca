import Mathlib.Logic.Function.Iterate
import MarkdownDocx.Proofs.Text.ClosedGaps
import MarkdownDocx.Proofs.Text.Content
import MarkdownDocx.Proofs.Text.FlatEmphasis

/-!
Cleaning again. Quotes and gaps are settled by one run, which leaves no gap and at most one quote.
Markers inside others are not: a pass does not look into a pair, and does not come back. A text
without such nesting is clean after one run, and any other after some.
-/

set_option autoImplicit false

namespace MarkdownDocx.Text

/-! ## The second run -/

/-- A text that cleaning leaves as it is. -/
def Clean (cs : List Char) : Prop := cleanUp cs = ⟨cs, 0, 0, 0⟩

instance (cs : List Char) : Decidable (Clean cs) := inferInstanceAs (Decidable (_ = _))

theorem count_curlQuotes_le (cs : List Char) : (curlQuotes cs).text.count '"' ≤ 1 := by
  have hfrom (opened : Bool) : (curlQuotesFrom opened cs).text.count '"' ≤ 1 := by
    fun_induction curlQuotesFrom opened cs with
    | case1 => exact Nat.zero_le 1
    | case2 r ih => exact ih
    | case3 opened r hnot hmore ih => exact ih
    | case4 opened r hnot hmore =>
      have hr : '"' ∉ r := fun hmem => hmore (List.contains_iff_mem.2 hmem)
      rw [List.count_cons_self, List.count_eq_zero_of_not_mem hr]
    | case5 opened c r hc ih => rwa [Counted.keep, List.count_cons_of_ne hc]
  exact hfrom false

theorem count_quotes_cleanUp (cs : List Char) : (cleanUp cs).text.count '"' ≤ 1 := by
  have hspaces := (loses_closeChineseGaps (dropEmphasis (curlQuotes cs).text).text).count_eq
    (c := '"') (by decide)
  have hstars := (loses_dropEmphasis (curlQuotes cs).text).count_eq (c := '"') (by decide)
  exact (hspaces.trans hstars).trans_le (count_curlQuotes_le cs)

theorem count_stars_cleanUp (cs : List Char) :
    (cleanUp cs).text.count '*' + 2 * (cleanUp cs).emphasis ≤ cs.count '*' := by
  have hspaces := (loses_closeChineseGaps (dropEmphasis (curlQuotes cs).text).text).count_eq
    (c := '*') (by decide)
  have hquotes := count_curled (c := '*') (by decide) cs
  obtain ⟨k, hk, hlow, -⟩ := count_dropEmphasis (curlQuotes cs).text
  simp only [cleanUp, curlQuotes_eq] at *
  omega

theorem curlQuotes_eq_of_count {cs : List Char} (h : cs.count '"' ≤ 1) :
    curlQuotes cs = ⟨cs, 0⟩ := by
  have hfrom (opened : Bool) (hopened : opened = false) : curlQuotesFrom opened cs = ⟨cs, 0⟩ := by
    fun_induction curlQuotesFrom opened cs with
    | case1 => rfl
    | case2 => cases hopened
    | case3 opened r hnot hmore =>
      have hpos : 0 < r.count '"' := List.count_pos_iff.2 (List.contains_iff_mem.1 hmore)
      rw [List.count_cons_self] at h
      omega
    | case4 => rfl
    | case5 opened c r hc ih =>
      rw [List.count_cons_of_ne hc] at h
      rw [ih h hopened, Counted.keep]
  exact hfrom false rfl

theorem cleanUp_again (cs : List Char) :
    cleanUp (cleanUp cs).text =
      ⟨(closeChineseGaps (dropEmphasis (cleanUp cs).text).text).text, 0,
        (dropEmphasis (cleanUp cs).text).count,
        (closeChineseGaps (dropEmphasis (cleanUp cs).text).text).count⟩ := by
  rw [cleanUp, curlQuotes_eq_of_count (count_quotes_cleanUp cs)]

theorem clean_cleanUp_iff {cs : List Char} :
    Clean (cleanUp cs).text ↔ (dropEmphasis (cleanUp cs).text).count = 0 := by
  rw [Clean, cleanUp_again]
  constructor
  · intro h
    exact (Cleaned.mk.inj h).2.2.1
  · intro h
    have hgaps : closeChineseGaps (cleanUp cs).text = ⟨(cleanUp cs).text, 0⟩ :=
      closeChineseGaps_closeChineseGaps _
    rw [dropEmphasis_eq_of_count h, hgaps]

theorem clean_of_unnested {cs : List Char} (h : Unnested (curlQuotes cs).text) :
    Clean (cleanUp cs).text := by
  have hunmarked : Unmarked (cleanUp cs).text := h.unmarked.closeChineseGaps
  rw [clean_cleanUp_iff, count_dropEmphasis_eq_zero_iff]
  exact fun x hx => hunmarked.not_paired hx

/-- A run that finds a pair leaves fewer asterisks, so only so many do. -/
theorem exists_clean_of_count (k : Nat) {cs : List Char}
    (h : (cleanUp cs).text.count '*' ≤ 2 * k + 1) :
    ∃ n ≤ k, Clean ((fun ds => (cleanUp ds).text)^[n] (cleanUp cs).text) := by
  induction k generalizing cs with
  | zero =>
    refine ⟨0, Nat.le_refl 0, clean_cleanUp_iff.2 ?_⟩
    obtain ⟨j, hj, hlow, -⟩ := count_dropEmphasis (cleanUp cs).text
    omega
  | succ k ih =>
    by_cases hfound : (dropEmphasis (cleanUp cs).text).count = 0
    · exact ⟨0, Nat.zero_le _, clean_cleanUp_iff.2 hfound⟩
    · have hfewer := count_stars_cleanUp (cleanUp cs).text
      rw [cleanUp_again] at hfewer
      have hless : (cleanUp (cleanUp cs).text).text.count '*' ≤ 2 * k + 1 := by
        rw [cleanUp_again]
        simp only at hfewer ⊢
        omega
      obtain ⟨n, hn, hclean⟩ := ih hless
      exact ⟨n + 1, Nat.succ_le_succ hn, hclean⟩

/-- After one run there is no gap and no pair of quotes, and a second run changes nothing just if no
plain piece holds a pair of markers. None does if no emphasis was inside another. Runs come to an
end in any case, at the latest when the asterisks have gone two by two. -/
theorem cleanUp_twice (cs : List Char) :
    (cleanUp cs).text.count '"' ≤ 1 ∧
    (cleanUp (cleanUp cs).text).quotes = 0 ∧
    closeChineseGaps (cleanUp cs).text = ⟨(cleanUp cs).text, 0⟩ ∧
    (Clean (cleanUp cs).text ↔ ∀ x, .plain x ∈ splitSpans false (cleanUp cs).text → ¬ Paired x) ∧
    (Unnested (curlQuotes cs).text → Clean (cleanUp cs).text) ∧
    ∃ n ≤ cs.count '*' / 2 + 1, Clean ((fun ds => (cleanUp ds).text)^[n] cs) := by
  refine ⟨count_quotes_cleanUp cs, ?_, closeChineseGaps_closeChineseGaps _, ?_,
    clean_of_unnested, ?_⟩
  · rw [cleanUp_again]
  · rw [clean_cleanUp_iff, count_dropEmphasis_eq_zero_iff]
  · have hfewer := count_stars_cleanUp cs
    have hhalf : (cleanUp cs).text.count '*' ≤ 2 * (cs.count '*' / 2) + 1 := by omega
    obtain ⟨n, hn, hclean⟩ := exists_clean_of_count _ hhalf
    exact ⟨n + 1, Nat.succ_le_succ hn, hclean⟩

/-- All three kinds of markers, with quotes and gaps around them and an asterisk in a formula. -/
theorem cleanUp_twice_unnested :
    Unnested (curlQuotes "中 **国** \"x\" ***a*** $b*c$ *d*".toList).text ∧
      Clean (cleanUp "中 **国** \"x\" ***a*** $b*c$ *d*".toList).text := by
  have hpieces : splitSpans false (curlQuotes "中 **国** \"x\" ***a*** $b*c$ *d*".toList).text =
      [.plain (['中', ' '] ++ (stars 2 ++ ['国'] ++ stars 2 ++
          ([' ', '\u201c', 'x', '\u201d', ' '] ++ (stars 3 ++ ['a'] ++ stars 3 ++ [' '])))),
        .span ['$', 'b', '*', 'c', '$'],
        .plain ([' '] ++ (stars 1 ++ ['d'] ++ stars 1 ++ []))] := by decide +kernel
  have hflat : Unnested (curlQuotes "中 **国** \"x\" ***a*** $b*c$ *d*".toList).text := by
    intro x hx
    rw [hpieces] at hx
    simp only [List.mem_cons, Piece.plain.injEq, reduceCtorEq, List.not_mem_nil, or_false,
      false_or] at hx
    rcases hx with rfl | rfl
    · have hwide : Flat 3 (stars 3 ++ ['a'] ++ stars 3 ++ [' ']) :=
        .marked (by decide) (by decide) (by decide) (by decide) (by decide) (.char (by decide) .nil)
      have hquoted := hwide.append (x := [' ', '\u201c', 'x', '\u201d', ' ']) (by decide)
      have hmiddle := Flat.marked (n := 2) (x := ['国']) (by decide) (by decide) (by decide)
        (by decide) (by decide) hquoted
      exact hmiddle.append (by decide)
    · have hnarrow : Flat 3 (stars 1 ++ ['d'] ++ stars 1 ++ []) :=
        .marked (by decide) (by decide) (by decide) (by decide) (by decide) .nil
      exact hnarrow.append (by decide)
  exact ⟨hflat, (cleanUp_twice _).2.2.2.2.1 hflat⟩

/-- Italics inside bold: the first run takes the inner markers only. -/
theorem not_clean_cleanUp : ¬ ∀ cs, Clean (cleanUp cs).text := by
  intro h
  have hnested := h "**a *b* c**".toList
  revert hnested
  decide +kernel

end MarkdownDocx.Text

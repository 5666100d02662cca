import MarkdownDocx.Proofs.Text.ChineseGaps
import MarkdownDocx.Proofs.Text.Markers

/-!
What cleaning leaves. A quote is exchanged where it stands, by its number among the quotes; the
other two passes only leave characters out, asterisks outside formulas and spaces. So what is
neither a quote nor an asterisk nor a space comes through.
-/

set_option autoImplicit false

namespace MarkdownDocx.Text

/-! ## Quotes by their number -/

/-- What stands for a quote with `k` of all `n` before it. -/
def curledQuote (n k : Nat) : Char :=
  if k % 2 = 1 then '\u201d' else if k + 1 = n then '"' else '\u201c'

/-- Each quote exchanged by its number. -/
def curled (cs : List Char) : List Char :=
  cs.mapIdx fun i c => if c = '"' then curledQuote (cs.count '"') ((cs.take i).count '"') else c

theorem curledQuote_add_two (n k : Nat) : curledQuote (n + 2) (k + 2) = curledQuote n k := by
  have hnext : k + 2 + 1 = n + 2 ↔ k + 1 = n := by omega
  simp only [curledQuote, Nat.add_mod_right, hnext]

theorem mapIdx_noQuotes {r : List Char} (h : '"' ∉ r) (quote : Nat → Char) :
    r.mapIdx (fun i c => if c = '"' then quote i else c) = r := by
  refine List.ext_getElem (by simp) fun i _ hi => ?_
  have hne : r[i] ≠ '"' := fun heq => h (heq ▸ List.getElem_mem hi)
  rw [List.getElem_mapIdx, if_neg hne]

/-- Inside a pair the quote that opened it is one of those before. -/
theorem curlQuotesFrom_eq (opened : Bool) (cs : List Char) : curlQuotesFrom opened cs =
    ⟨cs.mapIdx fun i c =>
        if c = '"' then
          curledQuote (cs.count '"' + opened.toNat) ((cs.take i).count '"' + opened.toNat)
        else c,
      (cs.count '"' + opened.toNat) / 2⟩ := by
  fun_induction curlQuotesFrom opened cs with
  | case1 opened => cases opened <;> rfl
  | case2 r ih =>
    simp only [ih, Counted.change, List.mapIdx_cons, List.take_succ_cons, List.count_cons_self,
      Bool.toNat_true, Bool.toNat_false, Nat.add_zero, Nat.add_assoc, Nat.reduceAdd,
      curledQuote_add_two, List.take_zero, List.count_nil, if_true]
    refine congrArg₂ _ (by simp [curledQuote]) (by omega)
  | case3 opened r hnot hmore ih =>
    have hopened : opened = false := Bool.eq_false_iff.2 hnot
    have hcount : r.count '"' ≠ 0 := (List.count_pos_iff.2 (List.contains_iff_mem.1 hmore)).ne'
    subst hopened
    simp only [ih, Counted.keep, List.mapIdx_cons, List.take_succ_cons, List.count_cons_self,
      Bool.toNat_true, Bool.toNat_false, Nat.add_zero, List.take_zero, List.count_nil, if_true]
    simp [curledQuote, hcount]
  | case4 opened r hnot hmore =>
    have hopened : opened = false := Bool.eq_false_iff.2 hnot
    have hr : '"' ∉ r := fun hmem => hmore (List.contains_iff_mem.2 hmem)
    subst hopened
    rw [List.mapIdx_cons, mapIdx_noQuotes hr, List.count_cons_self,
      List.count_eq_zero_of_not_mem hr]
    rfl
  | case5 opened c r hc ih =>
    simp only [ih, Counted.keep, List.mapIdx_cons, List.take_succ_cons, List.count_cons_of_ne hc,
      if_neg hc]

theorem curlQuotes_eq (cs : List Char) : curlQuotes cs = ⟨curled cs, cs.count '"' / 2⟩ :=
  curlQuotesFrom_eq false cs

/-! ## What comes through -/

/-- The straight quote and the two curly ones. -/
def quoteMarks : List Char := ['"', '\u201c', '\u201d']

/-- Everything but quotes, asterisks and the spaces of a line. -/
def isContent (c : Char) : Bool := !(quoteMarks.contains c || c == '*' || isGap c)

theorem curledQuote_mem (n k : Nat) : curledQuote n k ∈ quoteMarks := by
  unfold curledQuote
  split
  · decide
  · split <;> decide

/-- Exchanging quotes does not change what is no quote. -/
theorem filter_curled {q : Char → Bool} (hq : ∀ c ∈ quoteMarks, q c = false) (cs : List Char) :
    (curled cs).filter q = cs.filter q := by
  have hmap (quote : Nat → Char) (hquote : ∀ i, quote i ∈ quoteMarks) :
      (cs.mapIdx fun i c => if c = '"' then quote i else c).filter q = cs.filter q := by
    induction cs generalizing quote with
    | nil => rfl
    | cons c r ih =>
      have hrest := ih (fun i => quote (i + 1)) fun i => hquote (i + 1)
      rw [List.mapIdx_cons, List.filter_cons, hrest, List.filter_cons]
      by_cases hc : c = '"'
      · subst hc
        simp only [if_true, hq _ (hquote 0), hq '"' (by decide), Bool.false_eq_true, if_false]
      · rw [if_neg hc]
  exact hmap _ fun i => curledQuote_mem _ _

theorem count_curled {c : Char} (hc : c ∉ quoteMarks) (cs : List Char) :
    (curled cs).count c = cs.count c := by
  have hfilter := filter_curled (q := (· == c)) (fun d hd => by
    rw [beq_eq_false_iff_ne]
    exact fun heq => hc (heq ▸ hd)) cs
  rw [List.count, List.countP_eq_length_filter, hfilter, ← List.countP_eq_length_filter]

theorem loses_closeEvery (p : Char → Char → Bool) (before : Option Char) (cs : List Char) :
    Loses isGap cs (closeEvery p before cs).text := by
  fun_induction closeEvery p before cs with
  | case1 => rfl
  | case2 before c r hgap hmore ih =>
    have hc : Loses isGap [c] [] := .all (by simpa using (Bool.and_eq_true_iff.1 hgap).1)
    exact hc.append ih
  | case3 before c r hgap hlast ih =>
    have hc : Loses isGap [c] [] := .all (by simpa using (Bool.and_eq_true_iff.1 hgap).1)
    exact hc.append ih
  | case4 before c r hopen ih => exact .cons c ih

theorem loses_closeChineseGaps (cs : List Char) : Loses isGap cs (closeChineseGaps cs).text := by
  rw [closeChineseGaps_eq]
  exact loses_closeEvery joined none cs

/-- Each pass with what it exchanges or leaves out: quotes by their number, asterisks of plain
pieces with two to six for each pair counted, spaces; and the content is the same before and
after. -/
theorem cleanUp_content (cs : List Char) :
    (cleanUp cs).quotes = cs.count '"' / 2 ∧
    (curlQuotes cs).text = curled cs ∧
    (∃ ps, List.Forall₂ Unstarred (splitSpans false (curled cs)) ps ∧
      (dropEmphasis (curled cs)).text = joinPieces ps) ∧
    (∃ k, (curled cs).count '*' = (dropEmphasis (curled cs)).text.count '*' + 2 * k ∧
      (cleanUp cs).emphasis ≤ k ∧ k ≤ 3 * (cleanUp cs).emphasis) ∧
    Loses isGap (dropEmphasis (curled cs)).text (cleanUp cs).text ∧
    (cleanUp cs).text.filter isContent = cs.filter isContent := by
  have hstar (c : Char) (hc : isContent c = true) : (c == '*') = false := by
    simp_all [isContent]
  have hgap (c : Char) (hc : isContent c = true) : isGap c = false := by
    simp_all [isContent]
  have hspaces := loses_closeChineseGaps (dropEmphasis (curled cs)).text
  have hcontent := (hspaces.filter_eq hgap).trans ((loses_dropEmphasis (curled cs)).filter_eq hstar)
  rw [filter_curled (fun c hc => by simp [isContent, hc])] at hcontent
  simp only [cleanUp, curlQuotes_eq]
  refine ⟨trivial, trivial, ⟨_, forall₂_unstarred _, ?_⟩, count_dropEmphasis _, hspaces, hcontent⟩
  rw [dropEmphasis_eq]

example : cleanUp "\"中 国\" **\"a\"** $b * c$ \"".toList =
    ⟨"“中国” “a” $b * c$ \"".toList, 2, 1, 1⟩ := by decide +kernel

end MarkdownDocx.Text

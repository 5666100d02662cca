import MarkdownDocx.Markdown.Prepare
import MarkdownDocx.Proofs.Markdown.Tidy

/-!
Prepared texts. Preparing twice adds no fence to preparing once, and changes nothing where the
prepared text has no gap outside of spans; a tidy text is prepared once and for all. Mathematics is
kept but for gaps. In a tidy text it is kept as it is, except that bare formulas and a block that
nothing closes get zero-width spaces where they have gaps.
-/

set_option autoImplicit false

namespace MarkdownDocx.Markdown

open MarkdownDocx.Text

/-! ## Tidy texts -/

namespace Passages

/-- Both passes see the same formulas and blocks. -/
def Tidy : Passages → Prop
  | done => True
  | line l rest => Contained l ∧ rest.Tidy
  | formula l rest => ¬ dollars <:+: l ∧ rest.Tidy
  | block _ body _ rest => (∀ l ∈ body, ¬ dollars <:+: l) ∧ rest.Tidy
  | unclosed _ body => ∀ l ∈ body, ¬ dollars <:+: l

/-- With filled gaps, except in blocks that are closed. -/
def separated : Passages → Passages
  | done => done
  | line l rest => line (separateEmphasis l) rest.separated
  | formula l rest => formula (separateEmphasis l) rest.separated
  | block o body c rest => block o body c rest.separated
  | unclosed o body => unclosed o (body.map separateEmphasis)

theorem forall₂_gapped_refl (ls : List Line) : List.Forall₂ Gapped ls ls :=
  List.forall₂_same.2 fun l _ => Gapped.refl l

theorem alike_separated (p : Passages) : p.Alike p.separated := by
  induction p with
  | done => exact .done
  | line l rest ih => exact .line (gapped_separateEmphasis l) ih
  | formula l rest ih => exact .formula (gapped_separateEmphasis l) ih
  | block o body c rest ih => exact .block (.refl o) (forall₂_gapped_refl body) (.refl c) ih
  | unclosed o body =>
    refine .unclosed (.refl o) ?_
    rw [List.forall₂_map_right_iff, List.forall₂_same]
    exact fun l _ => gapped_separateEmphasis l

theorem Alike.lines {p q : Passages} (h : p.Alike q) : List.Forall₂ Gapped p.lines q.lines := by
  induction h with
  | done => exact .nil
  | line hl _ ih => exact .cons hl ih
  | formula hl _ ih => exact .cons hl ih
  | block ho hbody hc _ ih => exact .cons ho (List.rel_append hbody (.cons hc ih))
  | unclosed ho hbody => exact .cons ho hbody

theorem Alike.lines_ne_nil {p q : Passages} (h : p.Alike q) (hp : p.lines ≠ []) :
    q.lines ≠ [] := by
  intro hnil
  have hlength := h.lines.length_eq
  rw [hnil, List.length_nil, List.length_eq_zero_iff] at hlength
  exact hp hlength

theorem forall_of_gapped {P : Line → Prop} (hP : ∀ {l m}, Gapped l m → P l → P m)
    {ls ms : List Line} (h : List.Forall₂ Gapped ls ms) (hls : ∀ l ∈ ls, P l) :
    ∀ m ∈ ms, P m := by
  induction h with
  | nil => simp
  | cons hl _ ih =>
    obtain ⟨hfirst, hrest⟩ := List.forall_mem_cons.1 hls
    exact List.forall_mem_cons.2 ⟨hP hl hfirst, ih hrest⟩

theorem Valid.of_alike {p q : Passages} (hp : p.Valid) (h : p.Alike q) : q.Valid := by
  have hfence {l m : Line} (hl : Gapped l m) : trim l = fence ↔ trim m = fence :=
    hl.trim.eq_fence_iff
  have hbody {ls ms : List Line} (hls : List.Forall₂ Gapped ls ms) :
      (∀ l ∈ ls, trim l ≠ fence) → ∀ m ∈ ms, trim m ≠ fence :=
    forall_of_gapped (fun hl => mt (hfence hl).2) hls
  induction h with
  | done => trivial
  | line hl _ ih => exact ⟨mt (hfence hl).2 hp.1, hl.isBare_eq ▸ hp.2.1, ih hp.2.2⟩
  | formula hl _ ih => exact ⟨mt (hfence hl).2 hp.1, hl.isBare_eq ▸ hp.2.1, ih hp.2.2⟩
  | block ho hlines hc _ ih =>
    exact ⟨(hfence ho).1 hp.1, hbody hlines hp.2.1, (hfence hc).1 hp.2.2.1, ih hp.2.2.2⟩
  | unclosed ho hlines => exact ⟨(hfence ho).1 hp.1, hbody hlines hp.2⟩

/-- The emphasis pass goes through tidy passages one by one. -/
theorem Tidy.separateEmphasis_lines {p : Passages} (hp : p.Tidy) (hvalid : p.Valid) :
    separateEmphasis (feeds p.lines) = feeds p.separated.lines := by
  induction p with
  | done => exact separateEmphasis_nil
  | line l rest ih =>
    rw [lines, hp.1.separateEmphasis_feeds, ih hp.2 hvalid.2.2]
    rfl
  | formula l rest ih =>
    rw [lines, (contained_of_noDollars hp.1).separateEmphasis_feeds, ih hp.2 hvalid.2.2]
    rfl
  | block o body c rest ih =>
    rw [lines, separateEmphasis_block hvalid.1 hp.1 hvalid.2.2.1, ih hp.2 hvalid.2.2.2, separated,
      lines, feeds_cons, feeds_cons, feeds_append, feeds_append, feeds_cons, feeds_cons]
    simp [feeds]
  | unclosed o body => exact separateEmphasis_unclosed hvalid.1 hp

theorem Tidy.separateEmphasis_text {p : Passages} (hp : p.Tidy) (hvalid : p.Valid)
    (hne : p.lines ≠ []) : separateEmphasis p.text = p.separated.text := by
  have hne' := p.alike_separated.lines_ne_nil hne
  have hlines := hp.separateEmphasis_lines hvalid
  rw [feeds_eq hne, feeds_eq hne', separateEmphasis_feed] at hlines
  exact (List.cons.inj hlines).2

theorem noDollars_of_gapped {l m : Line} (h : Gapped l m) (hl : ¬ dollars <:+: l) :
    ¬ dollars <:+: m :=
  mt (h.infix_iff (by decide)).2 hl

theorem noDollars_trim {l : Line} (h : ¬ dollars <:+: l) : ¬ dollars <:+: trim l := by
  obtain ⟨a, b, hl, -, -⟩ := exists_trim l
  exact fun hwithin => h (hwithin.trans ⟨a, b, hl.symm⟩)

/-- Prepared, a tidy text is tidy, and its formulas are all in blocks. -/
theorem Tidy.prepared {p : Passages} (hp : p.Tidy) : p.separated.fenced.Tidy := by
  induction p with
  | done => trivial
  | line l rest ih => exact ⟨hp.1.separateEmphasis, ih hp.2⟩
  | formula l rest ih =>
    refine ⟨fun k hk => ?_, ih hp.2⟩
    obtain rfl : k = trim (separateEmphasis l) := by simpa using hk
    exact noDollars_trim (noDollars_of_gapped (gapped_separateEmphasis l) hp.1)
  | block o body c rest ih => exact ⟨hp.1, ih hp.2⟩
  | unclosed o body =>
    refine ⟨fun k hk => ?_, trivial⟩
    obtain ⟨l, hl, rfl⟩ := List.mem_map.1 hk
    exact noDollars_of_gapped (gapped_separateEmphasis l) (hp l hl)

theorem separated_prepared (p : Passages) :
    p.separated.fenced.separated = p.separated.fenced := by
  induction p with
  | done => rfl
  | line l rest ih =>
    simp only [separated, fenced, ih, separateEmphasis_separateEmphasis]
  | formula l rest ih => simp only [separated, fenced, ih]
  | block o body c rest ih => simp only [separated, fenced, ih]
  | unclosed o body => rfl

end Passages

theorem passages_separateEmphasis {cs : List Char} (h : (passages cs).Tidy) :
    passages (separateEmphasis cs) = (passages cs).separated := by
  have halike := (passages cs).alike_separated
  have htext := h.separateEmphasis_text (valid_passages cs) (lines_passages_ne_nil cs)
  rw [text_passages] at htext
  rw [htext]
  have hfeed : ∀ l ∈ (passages cs).separated.lines, '\n' ∉ l :=
    Passages.forall_of_gapped (fun hl => mt (hl.mem_iff (by decide)).2) halike.lines
      fun _ hl => not_mem_of_mem_passages hl
  have hne := halike.lines_ne_nil (lines_passages_ne_nil cs)
  exact passages_text ((valid_passages cs).of_alike halike) hne hfeed

/-- What becomes of a tidy text, passage by passage. -/
theorem passages_prepareChars {cs : List Char} (h : (passages cs).Tidy) :
    passages (prepareChars cs) = (passages cs).separated.fenced := by
  rw [prepareChars, passages_fenceFormulas, passages_separateEmphasis h]

/-- Formulas and emphasis of each kind: within a line, in a block, on a line of its own, and after a
fence that stays open. -/
def mixedText : List Char :=
  "$$*(x)$$ and *(y)*\n$$\na *(b)\n$$\n\\alpha = c *(d)\n$$\n*(e)".toList

theorem tidy_mixedText : (passages mixedText).Tidy := by
  have hdivided : passages mixedText =
      .line "$$*(x)$$ and *(y)*".toList (.block fence ["a *(b)".toList] fence
        (.formula "\\alpha = c *(d)".toList (.unclosed fence ["*(e)".toList]))) := by
    decide +kernel
  have hspan : readSpan true "$$*(x)$$ and *(y)*".toList =
      some ("$$*(x)$$".toList, " and *(y)*".toList) := by
    decide
  rw [hdivided]
  refine ⟨.span hspan (contained_of_noDollars (by decide)), ?_, ?_, ?_⟩
  · decide
  · decide
  · unfold Passages.Tidy
    decide

/-! ## Preparing twice -/

theorem prepareChars_prepareChars (cs : List Char) :
    prepareChars (prepareChars cs) = separateEmphasis (prepareChars cs) :=
  fenceFormulas_of_gapped (gapped_separateEmphasis (prepareChars cs))

theorem separateEmphasis_prepareChars {cs : List Char} (h : (passages cs).Tidy) :
    separateEmphasis (prepareChars cs) = prepareChars cs := by
  have hprepared := passages_prepareChars h
  have htidy : (passages (prepareChars cs)).Tidy := hprepared ▸ h.prepared
  have htext := htidy.separateEmphasis_text (valid_passages _) (lines_passages_ne_nil _)
  rw [text_passages] at htext
  rw [htext, hprepared, Passages.separated_prepared, ← hprepared, text_passages]

/-- A second run adds no fence, and a third changes nothing. The second changes the text if and only
if it has a gap in plain text, which that of a tidy text has not. -/
theorem prepareChars_twice (cs : List Char) :
    prepareChars (prepareChars cs) = separateEmphasis (prepareChars cs) ∧
      prepareChars (prepareChars (prepareChars cs)) = prepareChars (prepareChars cs) ∧
      (prepareChars (prepareChars cs) = prepareChars cs ↔ Separated (prepareChars cs)) ∧
      ((passages cs).Tidy → prepareChars (prepareChars cs) = prepareChars cs) := by
  have hsecond := prepareChars_prepareChars cs
  have hthird : prepareChars (prepareChars (prepareChars cs)) = prepareChars (prepareChars cs) := by
    rw [hsecond, prepareChars, separateEmphasis_separateEmphasis, ← hsecond, hsecond]
    exact hsecond
  refine ⟨hsecond, hthird, ?_, fun h => ?_⟩
  · rw [hsecond, separateEmphasis_eq_self_iff]
  · rw [hsecond, separateEmphasis_prepareChars h]

theorem prepareChars_twice_mixed : (passages mixedText).Tidy ∧
    prepareChars (prepareChars mixedText) = prepareChars mixedText :=
  ⟨tidy_mixedText, (prepareChars_twice mixedText).2.2.2 tidy_mixedText⟩

/-- A formula on several lines that begins and ends beside its dollar signs is cut up by fences, and
the second run takes the line between them for plain text. -/
theorem prepareChars_twice_cut :
    prepareChars (prepareChars "$$y =\n\\alpha *(x_i)\n+ c$$".toList) ≠
      prepareChars "$$y =\n\\alpha *(x_i)\n+ c$$".toList := by
  decide +kernel

/-! ## Mathematics -/

namespace Passages

/-- The lines of mathematics: bare formulas, without white space around them, and what stands in
blocks. -/
def math : Passages → List Line
  | done => []
  | line _ rest => rest.math
  | formula l rest => trim l :: rest.math
  | block _ body _ rest => body ++ rest.math
  | unclosed _ body => body

/-- The lines of mathematics that the emphasis pass does not take for a formula. -/
def exposed : Passages → List Line
  | done => []
  | line _ rest => rest.exposed
  | formula l rest => l :: rest.exposed
  | block _ _ _ rest => rest.exposed
  | unclosed _ body => body

/-- Fencing keeps mathematics. -/
theorem math_fenced (p : Passages) : p.fenced.math = p.math := by
  induction p with
  | done => rfl
  | line l rest ih => exact ih
  | formula l rest ih => rw [fenced, math, math, ih, List.singleton_append]
  | block o body c rest ih => rw [fenced, math, math, ih]
  | unclosed o body => rw [fenced, math, math, math, List.append_nil]

theorem Alike.math {p q : Passages} (h : p.Alike q) : List.Forall₂ Gapped p.math q.math := by
  induction h with
  | done => exact .nil
  | line _ _ ih => exact ih
  | formula hl _ ih => exact .cons hl.trim ih
  | block _ hbody _ _ ih => exact List.rel_append hbody ih
  | unclosed _ hbody => exact hbody

theorem math_separated_eq_iff (p : Passages) :
    p.separated.math = p.math ↔ ∀ l ∈ p.exposed, Separated l := by
  induction p with
  | done => simp [separated, math, exposed]
  | line l rest ih => exact ih
  | formula l rest ih =>
    rw [separated, math, math, exposed, List.cons.injEq, ih, List.forall_mem_cons,
      (gapped_separateEmphasis l).trim_eq_trim_iff, separateEmphasis_eq_self_iff]
  | block o body c rest ih =>
    rw [separated, math, math, exposed, List.append_cancel_left_eq, ih]
  | unclosed o body =>
    have hid : body.map separateEmphasis = body ↔ body.map separateEmphasis = body.map id := by
      rw [List.map_id]
    rw [separated, math, math, exposed, hid, List.map_inj_left]
    simp only [id, separateEmphasis_eq_self_iff]

end Passages

/-- The lines of mathematics stay the same, one for one, but for zero-width spaces in gaps. In a
tidy text there are none but in bare formulas and in a block that nothing closes. -/
theorem prepareChars_math (cs : List Char) :
    List.Forall₂ Gapped (passages cs).math (passages (prepareChars cs)).math ∧
      ((passages cs).Tidy →
        passages (prepareChars cs) = (passages cs).separated.fenced ∧
        ((passages (prepareChars cs)).math = (passages cs).math ↔
          ∀ l ∈ (passages cs).exposed, Separated l)) := by
  constructor
  · rw [prepareChars, passages_fenceFormulas, Passages.math_fenced]
    exact (passages_alike (gapped_separateEmphasis cs)).math
  · intro h
    have hprepared := passages_prepareChars h
    refine ⟨hprepared, ?_⟩
    rw [hprepared, Passages.math_fenced, Passages.math_separated_eq_iff]

theorem prepareChars_math_mixed : (passages mixedText).Tidy ∧
    passages (prepareChars mixedText) = (passages mixedText).separated.fenced ∧
    ((passages (prepareChars mixedText)).math = (passages mixedText).math ↔
      ∀ l ∈ (passages mixedText).exposed, Separated l) :=
  ⟨tidy_mixedText, (prepareChars_math mixedText).2 tidy_mixedText⟩

/-- A bare formula with a product before a parenthesis does not stay as it is. -/
theorem prepareChars_math_product :
    (passages (prepareChars "f = \\alpha *(c)".toList)).math ≠
      (passages "f = \\alpha *(c)".toList).math := by
  decide +kernel

end MarkdownDocx.Markdown

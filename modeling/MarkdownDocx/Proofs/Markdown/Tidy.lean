import MarkdownDocx.Proofs.Markdown.Emphasis
import MarkdownDocx.Proofs.Markdown.Passages

/-!
Texts in which both passes see the same mathematics. The emphasis pass takes everything from one
`$$` to the next for a formula, wherever the two stand; the formula pass goes by fence lines. A text
is tidy if a `$$` outside of blocks opens a formula that ends on the same line, and blocks and bare
formulas hold none. Through such a text the emphasis pass goes line by line, and past blocks.
-/

set_option autoImplicit false

namespace MarkdownDocx.Markdown

open MarkdownDocx.Text

/-! ## Lines -/

/-- Lines on which each `$$` that opens a formula has one that closes it. -/
inductive Contained : Line → Prop
  | nil : Contained []
  | span {l a b : Line} : readSpan true l = some (a, b) → Contained b → Contained l
  | plain {c : Char} {r : Line} : readSpan true (c :: r) = none → ¬ dollars <+: c :: r →
    Contained r → Contained (c :: r)

theorem contained_of_noDollars {l : Line} (h : ¬ dollars <:+: l) : Contained l := by
  fun_induction splitSpans true l with
  | case1 => exact .nil
  | case2 c r a b hread ih =>
    refine .span hread (ih fun hb => h ?_)
    rw [readSpan_eq hread]
    exact hb.trans (List.suffix_append a b).isInfix
  | case3 c r hread ih =>
    rw [List.infix_cons_iff, not_or] at h
    exact .plain hread h.1 (ih h.2)

/-- What stands on later lines opens no span on this one. -/
theorem readSpan_feed {c : Char} {r x : List Char} (h : readSpan true (c :: r) = none)
    (hdollars : ¬ dollars <+: c :: r) : readSpan true (c :: (r ++ '\n' :: x)) = none := by
  have hline {mark : Char} (hmark : mark ≠ '\n') (hnone : readLineSpan mark r = none) :
      readLineSpan mark (r ++ '\n' :: x) = none := by
    have hsome := isSome_readLineSpan_feed hmark r x
    simpa [hnone] using hsome
  by_cases hdollar : c = '$'
  · subst hdollar
    have hhead : r.head? ≠ some '$' := fun heq => hdollars (dollars_prefix_iff.2 ⟨rfl, heq⟩)
    have hhead' : (r ++ '\n' :: x).head? ≠ some '$' := by
      cases r with
      | nil => simp
      | cons d r => simpa using hhead
    rw [readSpan_dollar true hhead] at h
    rw [readSpan_dollar true hhead']
    exact hline (by decide) h
  · by_cases htick : c = '\x60'
    · subst htick
      rw [readSpan_tick, if_pos rfl] at h ⊢
      exact hline (by decide) h
    · exact readSpan_other true hdollar htick _

theorem separateEmphasis_feed (x : List Char) :
    separateEmphasis ('\n' :: x) = '\n' :: separateEmphasis x :=
  separateEmphasis_plain (readSpan_other true (by decide) (by decide) x)
    fun d _ => collide_left_false (by decide) d

/-- The pass takes such a line by itself. -/
theorem Contained.separateEmphasis_append {l : Line} (h : Contained l) (x : List Char) :
    separateEmphasis (l ++ '\n' :: x) = separateEmphasis l ++ separateEmphasis ('\n' :: x) := by
  induction h with
  | nil => rw [separateEmphasis_nil, List.nil_append, List.nil_append]
  | @span l a b hread _ ih =>
    have happend : l ++ '\n' :: x = a ++ (b ++ '\n' :: x) := by
      rw [readSpan_eq hread, List.append_assoc]
    rw [happend, separateEmphasis_span (readSpan_append hread _), ih, separateEmphasis_span hread,
      List.append_assoc]
  | @plain c r hread hdollars _ ih =>
    have hnone := readSpan_feed (x := x) hread hdollars
    rw [List.cons_append]
    by_cases hgap : ∀ d ∈ r.head?, collide c d = false
    · have hgap' : ∀ d ∈ (r ++ '\n' :: x).head?, collide c d = false := by
        cases r with
        | nil =>
          intro d hd
          obtain rfl : '\n' = d := by simpa using hd
          exact collide_right_false (by decide) c
        | cons d r => simpa using hgap
      rw [separateEmphasis_plain hnone hgap', separateEmphasis_plain hread hgap, ih,
        List.cons_append]
    · cases r with
      | nil => exact absurd (by simp) hgap
      | cons d r =>
        have hcd : collide c d = true := by simpa using hgap
        rw [List.cons_append, separateEmphasis_gap hcd, separateEmphasis_gap hcd,
          ← List.cons_append, ih, List.cons_append, List.cons_append]

theorem Contained.separateEmphasis {l : Line} (h : Contained l) :
    Contained (separateEmphasis l) := by
  induction h with
  | nil =>
    rw [separateEmphasis_nil]
    exact .nil
  | span hread _ ih =>
    rw [separateEmphasis_span hread]
    exact .span (readSpan_append hread _) ih
  | @plain c r hread hdollars hr ih =>
    have hgapped := gapped_separateEmphasis (c :: r)
    have hdollars' := mt (hgapped.prefix_iff (w := dollars) (by decide)).2 hdollars
    by_cases hgap : ∀ d ∈ r.head?, collide c d = false
    · rw [separateEmphasis_plain hread hgap] at hgapped hdollars' ⊢
      have hnone := hgapped.isSome_readSpan
      rw [hread] at hnone
      exact .plain (by simpa using hnone.symm) hdollars' ih
    · cases r with
      | nil => exact absurd (by simp) hgap
      | cons d r =>
        have hcd : collide c d = true := by simpa using hgap
        rw [separateEmphasis_gap hcd] at hdollars' ⊢
        have hnone := readSpan_of_mem_emphatic (mem_emphatic_of_collide hcd).1
        have hz := readSpan_other true (c := zeroWidthSpace) (by decide) (by decide)
        have hzdollars : ¬ dollars <+: zeroWidthSpace :: Markdown.separateEmphasis (d :: r) := by
          rw [dollars_prefix_iff]
          exact fun hmem => absurd hmem.1 (by decide)
        exact .plain (hnone _) hdollars' (.plain (hz _) hzdollars ih)

/-! ## Fence lines -/

/-- A fence line: two dollar signs between white space. -/
theorem exists_of_fence {l : Line} (h : trim l = fence) :
    ∃ a b, l = a ++ '$' :: '$' :: b ∧ (∀ c ∈ a, isBlank c = true) ∧ ∀ c ∈ b, isBlank c = true := by
  obtain ⟨a, b, hl, ha, hb⟩ := exists_trim l
  rw [h] at hl
  exact ⟨a, b, by simpa [fence] using hl, ha, hb⟩

theorem ne_dollar_of_blank {c : Char} (h : isBlank c = true) : c ≠ '$' ∧ c ≠ '\x60' := by
  constructor <;> (rintro rfl; exact absurd h (by decide))

theorem separateEmphasis_blanks {a : List Char} (ha : ∀ c ∈ a, isBlank c = true)
    (x : List Char) : separateEmphasis (a ++ x) = a ++ separateEmphasis x := by
  induction a with
  | nil => rfl
  | cons c a ih =>
    have hc := ha c (by simp)
    have hgap : c ∉ emphatic := fun hmem => by simp [not_blank_of_mem_emphatic hmem] at hc
    have hnone := readSpan_other true (ne_dollar_of_blank hc).1 (ne_dollar_of_blank hc).2 (a ++ x)
    rw [List.cons_append, separateEmphasis_plain hnone fun d _ => collide_left_false hgap d,
      ih fun d hd => ha d (.tail _ hd), List.cons_append]

/-! ## Lines after one another -/

theorem head?_feeds_ne (ls : List Line) : (feeds ls).head? ≠ some '$' := by
  cases ls with
  | nil => simp [feeds]
  | cons l ls => simp [feeds_cons]

theorem noDollars_feeds {ls : List Line} (h : ∀ l ∈ ls, ¬ dollars <:+: l) :
    ¬ dollars <:+: feeds ls := by
  induction ls with
  | nil => simp [feeds, dollars]
  | cons l ls ih =>
    have hrest := ih fun k hk => h k (.tail _ hk)
    have hline := noDollars_append (h l (by simp)) hrest (.inr (head?_feeds_ne ls))
    rw [feeds_cons, List.infix_cons_iff, not_or, dollars_prefix_iff]
    exact ⟨fun hhead => absurd hhead.1 (by decide), hline⟩

/-- What stands between the dollar signs of two fence lines. -/
theorem noDollars_between {b a : List Char} {body : List Line} (hb : '$' ∉ b) (ha : '$' ∉ a)
    (hbody : ∀ l ∈ body, ¬ dollars <:+: l) :
    ¬ dollars <:+: b ++ (feeds body ++ '\n' :: a) ++ ['$'] := by
  have hmem : '$' ∉ '\n' :: a := by simpa using ha
  have hclosing : ¬ dollars <:+: '\n' :: a ++ ['$'] := by
    refine noDollars_append (noDollars_of_not_mem hmem) (by decide) (.inl fun hlast => ?_)
    exact hmem (List.mem_of_getLast? hlast)
  have hrest := noDollars_append (noDollars_feeds hbody) hclosing (.inr (by simp))
  have hhead : (feeds body ++ ('\n' :: a ++ ['$'])).head? ≠ some '$' := by
    have hfeeds := head?_feeds_ne body
    cases hf : feeds body with
    | nil => simp
    | cons c r => simpa [hf] using hfeeds
  simpa using noDollars_append (noDollars_of_not_mem hb) hrest (.inr hhead)

theorem Contained.separateEmphasis_feeds {l : Line} (h : Contained l) (ls : List Line) :
    Markdown.separateEmphasis (feeds (l :: ls)) =
      '\n' :: (Markdown.separateEmphasis l ++ Markdown.separateEmphasis (feeds ls)) := by
  rw [feeds_cons, separateEmphasis_feed]
  cases ls with
  | nil => simp [feeds, separateEmphasis_nil]
  | cons k ls => rw [feeds_cons, h.separateEmphasis_append]

theorem separateEmphasis_feeds {ls : List Line} (h : ∀ l ∈ ls, Contained l) :
    separateEmphasis (feeds ls) = feeds (ls.map separateEmphasis) := by
  induction ls with
  | nil => exact separateEmphasis_nil
  | cons l ls ih =>
    rw [(h l (by simp)).separateEmphasis_feeds, ih fun k hk => h k (.tail _ hk), List.map_cons,
      feeds_cons]

/-! ## Blocks -/

/-- From one fence line to the next, nothing is touched. -/
theorem separateEmphasis_block {o c : Line} {body : List Line} (ho : trim o = fence)
    (hbody : ∀ l ∈ body, ¬ dollars <:+: l) (hc : trim c = fence) (ls : List Line) :
    separateEmphasis (feeds (o :: (body ++ c :: ls))) =
      feeds (o :: (body ++ [c])) ++ separateEmphasis (feeds ls) := by
  obtain ⟨a, b, rfl, ha, hb⟩ := exists_of_fence ho
  obtain ⟨a', b', rfl, ha', hb'⟩ := exists_of_fence hc
  have hblank {x : List Char} (hx : ∀ c ∈ x, isBlank c = true) : '$' ∉ x :=
    fun hmem => (ne_dollar_of_blank (hx _ hmem)).1 rfl
  let inside := b ++ (feeds body ++ '\n' :: a')
  have hinside : ¬ dollars <:+: inside ++ ['$'] := noDollars_between (hblank hb) (hblank ha') hbody
  have hread (x : List Char) : readSpan true ('$' :: '$' :: (inside ++ '$' :: '$' :: x)) =
      some ('$' :: '$' :: (inside ++ ['$', '$']), x) := by
    rw [readSpan_dollars, readToDouble_append hinside]
    rfl
  have htext : feeds ((a ++ '$' :: '$' :: b) :: (body ++ (a' ++ '$' :: '$' :: b') :: ls)) =
      '\n' :: (a ++ '$' :: '$' :: (inside ++ '$' :: '$' :: (b' ++ feeds ls))) := by
    simp [feeds_cons, feeds_append, inside]
  rw [htext, separateEmphasis_feed, separateEmphasis_blanks ha, separateEmphasis_span (hread _),
    separateEmphasis_blanks hb']
  simp [feeds, inside]

/-- An open fence without another after it opens nothing. -/
theorem separateEmphasis_unclosed {o : Line} {body : List Line} (ho : trim o = fence)
    (hbody : ∀ l ∈ body, ¬ dollars <:+: l) :
    separateEmphasis (feeds (o :: body)) = feeds (o :: body.map separateEmphasis) := by
  obtain ⟨a, b, rfl, ha, hb⟩ := exists_of_fence ho
  have hdollar : '$' ∉ b := fun hmem => (ne_dollar_of_blank (hb _ hmem)).1 rfl
  have hgap (d : Char) : collide '$' d = false := collide_left_false (by decide) d
  have hhead := head?_feeds_ne body
  have hhead' : (b ++ feeds body).head? ≠ some '$' := by
    cases b with
    | nil => exact hhead
    | cons d b => simpa using fun heq : d = '$' => hdollar (by simp [heq])
  have hfirst : readSpan true ('$' :: '$' :: (b ++ feeds body)) = none := by
    have hlines := noDollars_feeds hbody
    have hnone := noDollars_append (noDollars_of_not_mem hdollar) hlines (.inr hhead)
    rw [readSpan_dollars, readToDouble_eq_none_iff.2 hnone]
    rfl
  have hsecond : readSpan true ('$' :: (b ++ feeds body)) = none := by
    have hclose : readToClose '$' b = none := by
      cases hread : readToClose '$' b with
      | none => rfl
      | some p => exact absurd (readToClose_eq (a := p.1) (b := p.2) hread ▸ by simp) hdollar
    have hnone : readToClose '$' (b ++ feeds body) = none := by
      cases body with
      | nil => simpa [feeds] using hclose
      | cons l body => rw [feeds_cons, readToClose_feed (by decide), hclose, Option.map_none]
    have hsome := isSome_readLineSpan '$' (b ++ feeds body)
    rw [readSpan_dollar true hhead']
    simpa [hnone] using hsome
  have hlines := separateEmphasis_feeds fun l hl => contained_of_noDollars (hbody l hl)
  rw [feeds_cons, List.append_assoc, List.cons_append, List.cons_append, separateEmphasis_feed,
    separateEmphasis_blanks ha, separateEmphasis_plain hfirst fun d _ => hgap d,
    separateEmphasis_plain hsecond fun d _ => hgap d, separateEmphasis_blanks hb, hlines]
  simp [feeds_cons]

end MarkdownDocx.Markdown

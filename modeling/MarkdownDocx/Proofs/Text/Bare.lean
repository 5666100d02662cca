import MarkdownDocx.Proofs.Text.Markers
import MarkdownDocx.Proofs.Text.Spans

/-!
Texts without the asterisks outside their formulas. Where asterisks go, dollar signs can come
together and be read in another way; but as long as no plain piece after a formula was asterisks
only, none that stood inside a formula is outside of one afterwards.
-/

set_option autoImplicit false

namespace MarkdownDocx.Text

/-! ## Texts without markers -/

def barePiece : Piece → Piece
  | .plain x => .plain (x.filter (· ≠ '*'))
  | .span x => .span x

/-- A text without the asterisks of its plain pieces. -/
def bare (cs : List Char) : List Char := joinPieces ((splitSpans false cs).map barePiece)

/-- The plain pieces hold no asterisk. -/
def Unmarked (cs : List Char) : Prop := ∀ x, .plain x ∈ splitSpans false cs → '*' ∉ x

/-- No plain piece is asterisks only. -/
def Worded (cs : List Char) : Prop := ∀ n, .plain (stars (n + 1)) ∉ splitSpans false cs

/-- No plain piece but the first is asterisks only. -/
def WordedLater (cs : List Char) : Prop :=
  ∀ n, .plain (stars (n + 1)) ∉ (splitSpans false cs).tail

theorem Worded.later {cs : List Char} (h : Worded cs) : WordedLater cs :=
  fun n hn => h n (List.mem_of_mem_tail hn)

theorem readSpan_star (r : List Char) : readSpan false ('*' :: r) = none :=
  readSpan_of_ne_dollar (by decide) r

section Span

variable {cs a b : List Char} (h : readSpan false cs = some (a, b))

include h

theorem bare_span : bare cs = a ++ bare b := by
  rw [bare, splitSpans_span h]
  rfl

theorem unmarked_span_iff : Unmarked cs ↔ Unmarked b := by
  simp [Unmarked, splitSpans_span h]

theorem worded_of_span (hcs : WordedLater cs) : Worded b := by
  simpa [WordedLater, Worded, splitSpans_span h] using hcs

end Span

section Plain

variable {c : Char} {r : List Char}

theorem bare_plain (h : readSpan false (c :: r) = none) :
    bare (c :: r) = [c].filter (· ≠ '*') ++ bare r := by
  rw [bare, bare, splitSpans_plain h]
  unfold consPlain
  split
  · rename_i x ps hps
    simp only [hps, List.map_cons, barePiece, joinPieces, List.flatMap_cons, Piece.chars,
      ← List.append_assoc, ← List.filter_append, List.singleton_append]
  · simp only [List.map_cons, barePiece, joinPieces, List.flatMap_cons, Piece.chars]

theorem bare_star (r : List Char) : bare ('*' :: r) = bare r :=
  bare_plain (readSpan_star r)

theorem bare_keep (h : readSpan false (c :: r) = none) (hc : c ≠ '*') :
    bare (c :: r) = c :: bare r := by
  simp [bare_plain h, hc]

theorem unmarked_plain_iff (h : readSpan false (c :: r) = none) :
    Unmarked (c :: r) ↔ c ≠ '*' ∧ Unmarked r := by
  rw [Unmarked, Unmarked, splitSpans_plain h]
  unfold consPlain
  split
  · rename_i x ps hps
    simp only [hps, List.mem_cons, Piece.plain.injEq, forall_eq_or_imp, not_or, ne_eq,
      eq_comm (a := c), and_assoc]
  · simp only [List.mem_cons, Piece.plain.injEq, forall_eq_or_imp, List.not_mem_nil, or_false,
      ne_eq, eq_comm (a := c)]

theorem wordedLater_of_plain (h : readSpan false (c :: r) = none) (hcs : WordedLater (c :: r)) :
    WordedLater r := by
  intro n hn
  refine hcs n ?_
  rw [splitSpans_plain h]
  unfold consPlain
  split
  · rename_i x ps hps
    rwa [hps] at hn
  · exact List.mem_of_mem_tail hn

end Plain

theorem unmarked_nil : Unmarked [] := by
  simp [Unmarked, splitSpans]

theorem bare_nil : bare [] = [] := by
  simp [bare, splitSpans, joinPieces]

/-! ## Asterisks before a text -/

theorem bare_stars (n : Nat) (r : List Char) : bare (stars n ++ r) = bare r := by
  induction n with
  | zero => rfl
  | succ n ih => exact (bare_star (stars n ++ r)).trans ih

theorem WordedLater.of_stars {n : Nat} {r : List Char} (h : WordedLater (stars n ++ r)) :
    WordedLater r := by
  induction n with
  | zero => exact h
  | succ n ih => exact ih (wordedLater_of_plain (readSpan_star (stars n ++ r)) h)

theorem splitSpans_stars {r a b : List Char} (h : readSpan false r = some (a, b)) (n : Nat) :
    splitSpans false (stars (n + 1) ++ r) =
      .plain (stars (n + 1)) :: .span a :: splitSpans false b := by
  induction n with
  | zero =>
    have hstep := splitSpans_plain (readSpan_star r)
    rwa [splitSpans_span h] at hstep
  | succ n ih =>
    have hstep := splitSpans_plain (readSpan_star (stars (n + 1) ++ r))
    rwa [ih] at hstep

theorem exists_stars (cs : List Char) : ∃ n r, cs = stars n ++ r ∧ r.head? ≠ some '*' := by
  induction cs with
  | nil => exact ⟨0, [], rfl, by simp⟩
  | cons c cs ih =>
    by_cases hc : c = '*'
    · obtain ⟨n, r, rfl, hr⟩ := ih
      subst hc
      exact ⟨n + 1, r, rfl, hr⟩
    · exact ⟨0, c :: cs, rfl, by simpa using hc⟩

/-! ## Dollar signs that come together -/

/-- A line that has no dollar sign has none without its asterisks. -/
theorem readToClose_bare {r : List Char} (h : readToClose '$' r = none) :
    readToClose '$' (bare r) = none := by
  induction r with
  | nil => rw [bare_nil]; rfl
  | cons c r ih =>
    have hc : c ≠ '$' := by
      rintro rfl
      simp [readToClose] at h
    have hspan := readSpan_of_ne_dollar hc r
    by_cases hfeed : c = '\n'
    · subst hfeed
      rw [bare_keep hspan (by decide)]
      rfl
    · rw [readToClose_cons hc hfeed, Option.map_eq_none_iff] at h
      by_cases hstar : c = '*'
      · subst hstar
        rw [bare_star]
        exact ih h
      · rw [bare_keep hspan hstar, readToClose_cons hc hfeed, ih h]
        rfl

/-- A dollar sign that opens nothing opens nothing either without the asterisks. -/
theorem readSpan_bare {r : List Char} (h : readSpan false ('$' :: r) = none)
    (hnext : r.head? ≠ some '$') : readSpan false ('$' :: bare r) = none := by
  have hclose := readToClose_bare (readToClose_of_plain h hnext)
  rw [readSpan_dollar false (head?_ne_of_readToClose hclose), ← Option.not_isSome_iff_eq_none,
    isSome_readLineSpan, hclose]
  simp

/-- No asterisk comes out of a formula in texts of fewer than `n` characters. -/
def UnmarkedBelow (n : Nat) : Prop := ∀ r, r.length < n → WordedLater r → Unmarked (bare r)

theorem UnmarkedBelow.mono {m n : Nat} (h : UnmarkedBelow n) (hm : m ≤ n) : UnmarkedBelow m :=
  fun r hr => h r (hr.trans_le hm)

section Dollars

variable {b u v : List Char} (hshorter : UnmarkedBelow b.length)

include hshorter

/-- Two dollar signs that come together, one at the end of a span. -/
theorem unmarked_of_bare_dollar (hb : Worded b) (hhead : b.head? ≠ some '$')
    (h : bare b = '$' :: v) : Unmarked v := by
  obtain ⟨n, r, rfl, hr⟩ := exists_stars b
  rw [bare_stars] at h
  cases r with
  | nil => rw [bare_nil] at h; cases h
  | cons c r =>
    have hc : c ≠ '*' := by simpa using hr
    cases hread : readSpan false (c :: r) with
    | some p =>
      -- The asterisks before this span would be a piece of their own.
      obtain ⟨a, b⟩ := p
      cases n with
      | zero =>
        obtain ⟨x, -, htext⟩ := exists_of_readSpan hread
        exact absurd (congrArg List.head? htext) hhead
      | succ n =>
        refine absurd ?_ (hb n)
        rw [splitSpans_stars hread]
        exact .head _
    | none =>
      rw [bare_keep hread hc] at h
      obtain ⟨-, rfl⟩ := List.cons.inj h
      have hlater : WordedLater r := wordedLater_of_plain hread hb.later.of_stars
      have hless : r.length < (stars n ++ c :: r).length := by
        simp only [List.length_append, List.length_cons]
        omega
      exact hshorter r hless hlater

/-- What follows the first `$$` that arises after the beginning `w` of a text. -/
theorem unmarked_of_readToDouble_append (hb : Worded b)
    (hplain : ∀ u, readToDouble (bare b) = some (u, v) → Unmarked v) {w : List Char}
    (hnone : ¬ dollars <:+: w ++ b) (h : readToDouble (w ++ bare b) = some (u, v)) :
    Unmarked v := by
  induction w generalizing u with
  | nil => exact hplain u h
  | cons c w ih =>
    rw [List.cons_append, List.infix_cons_iff, not_or, dollars_prefix_iff] at hnone
    by_cases hpair : dollars <+: c :: (w ++ bare b)
    · obtain ⟨x, hx⟩ := hpair
      have hread : readToDouble (dollars ++ x) = some ([], x) := rfl
      obtain ⟨rfl, hbare⟩ := List.cons.inj hx
      rw [List.cons_append, ← hx, hread] at h
      obtain ⟨-, rfl⟩ := Prod.mk.inj (Option.some.inj h)
      cases w with
      | nil =>
        have hhead : b.head? ≠ some '$' := fun heq => hnone.1 ⟨rfl, heq⟩
        exact unmarked_of_bare_dollar hshorter hb hhead hbare.symm
      | cons d w =>
        obtain ⟨rfl, -⟩ := List.cons.inj hbare
        exact absurd ⟨rfl, rfl⟩ hnone.1
    · rw [List.cons_append, readToDouble_cons hpair, Option.map_eq_some_iff] at h
      obtain ⟨⟨u', v'⟩, hread, heq⟩ := h
      obtain ⟨-, rfl⟩ := Prod.mk.inj heq
      exact ih hnone.2 hread

end Dollars

theorem unmarked_of_readToDouble {b u v : List Char} (hshorter : UnmarkedBelow b.length)
    (hb : WordedLater b) (hnone : ¬ dollars <:+: b) (h : readToDouble (bare b) = some (u, v)) :
    Unmarked v := by
  fun_induction splitSpans false b generalizing u with
  | case1 =>
    rw [bare_nil] at h
    cases h
  | case2 c r a b hread ih =>
    have hless : UnmarkedBelow b.length := hshorter.mono (readSpan_length hread).le
    have hworded := worded_of_span hread hb
    rw [readSpan_eq hread] at hnone
    rw [bare_span hread] at h
    refine unmarked_of_readToDouble_append hless hworded (fun u hu => ?_) hnone h
    exact ih hless hworded.later (noDollars_of_append hnone) hu
  | case3 c r hread ih =>
    have hless : UnmarkedBelow r.length := hshorter.mono (Nat.le_succ _)
    rw [List.infix_cons_iff, not_or, dollars_prefix_iff] at hnone
    have ih {u : List Char} := ih (u := u) hless (wordedLater_of_plain hread hb) hnone.2
    by_cases hc : c = '*'
    · subst hc
      rw [bare_star] at h
      exact ih h
    · have hpair : ¬ dollars <+: c :: bare r := by
        rw [dollars_prefix_iff]
        rintro ⟨rfl, hhead⟩
        have hnext : r.head? ≠ some '$' := fun heq => hnone.1 ⟨rfl, heq⟩
        have hclose := readToClose_bare (readToClose_of_plain hread hnext)
        exact head?_ne_of_readToClose hclose hhead
      rw [bare_keep hread hc, readToDouble_cons hpair, Option.map_eq_some_iff] at h
      obtain ⟨⟨u', v'⟩, hread', heq⟩ := h
      obtain ⟨-, rfl⟩ := Prod.mk.inj heq
      exact ih hread'

/-- What follows a span between `$$` that begins with two dollar signs that began none before. -/
theorem unmarked_of_dollars {s a v : List Char} (hshorter : UnmarkedBelow s.length)
    (hcs : WordedLater ('$' :: '$' :: s)) (hnone : readSpan false ('$' :: '$' :: s) = none)
    (h : readSpan false ('$' :: bare ('$' :: s)) = some (a, v)) : Unmarked v := by
  have hlater := wordedLater_of_plain hnone hcs
  rw [readSpan_dollars, Option.map_eq_none_iff, readToDouble_eq_none_iff] at hnone
  cases hread : readSpan false ('$' :: s) with
  | none =>
    rw [bare_keep hread (by decide), readSpan_dollars, Option.map_eq_some_iff] at h
    obtain ⟨⟨u, v'⟩, hdouble, heq⟩ := h
    obtain ⟨-, rfl⟩ := Prod.mk.inj heq
    exact unmarked_of_readToDouble hshorter (wordedLater_of_plain hread hlater) hnone hdouble
  | some p =>
    obtain ⟨x, b⟩ := p
    have hless : UnmarkedBelow b.length :=
      hshorter.mono (Nat.le_of_lt_succ (readSpan_length hread))
    obtain ⟨w, rfl, htext⟩ := exists_of_readSpan hread
    obtain rfl := (List.cons.inj htext).2
    have hworded := worded_of_span hread hlater
    rw [bare_span hread, List.cons_append, readSpan_dollars, Option.map_eq_some_iff] at h
    obtain ⟨⟨u, v'⟩, hdouble, heq⟩ := h
    obtain ⟨-, rfl⟩ := Prod.mk.inj heq
    refine unmarked_of_readToDouble_append hless hworded (fun u hu => ?_) hnone hdouble
    exact unmarked_of_readToDouble hless hworded.later (noDollars_of_append hnone) hu

/-- No asterisk comes out of a formula when those outside go. -/
theorem unmarked_bare {cs : List Char} (hcs : WordedLater cs) : Unmarked (bare cs) := by
  induction hn : cs.length using Nat.strong_induction_on generalizing cs with
  | _ n ih =>
    subst hn
    have hshorter : UnmarkedBelow cs.length := fun r hr hworded => ih r.length hr hworded rfl
    cases cs with
    | nil => rw [bare_nil]; exact unmarked_nil
    | cons c r =>
      cases hread : readSpan false (c :: r) with
      | some p =>
        obtain ⟨a, b⟩ := p
        rw [bare_span hread, unmarked_span_iff (readSpan_append hread (bare b))]
        exact hshorter b (readSpan_length hread) (worded_of_span hread hcs).later
      | none =>
        have hrest := hshorter r (Nat.lt_succ_self _) (wordedLater_of_plain hread hcs)
        by_cases hstar : c = '*'
        · subst hstar
          rwa [bare_star]
        rw [bare_keep hread hstar]
        cases hagain : readSpan false (c :: bare r) with
        | none => exact (unmarked_plain_iff hagain).2 ⟨hstar, hrest⟩
        | some p =>
          obtain ⟨a, v⟩ := p
          rw [unmarked_span_iff hagain]
          obtain ⟨x, -, htext⟩ := exists_of_readSpan hagain
          obtain ⟨rfl, -⟩ := List.cons.inj htext
          have hnext : r.head? = some '$' := by
            by_contra hne
            rw [readSpan_bare hread hne] at hagain
            cases hagain
          obtain ⟨s, rfl⟩ := List.head?_eq_some_iff.1 hnext
          exact unmarked_of_dollars (hshorter.mono (Nat.le_add_right s.length 2)) hcs hread hagain

/-- Without asterisks outside formulas there is no pair of markers. -/
theorem Unmarked.not_paired {cs x : List Char} (h : Unmarked cs)
    (hx : .plain x ∈ splitSpans false cs) : ¬ Paired x := by
  rintro ⟨m, hm, before, here, inner, rest, rfl, hreads⟩
  have hmem := List.mem_of_mem_head? (hreads.starred (width_pos hm))
  exact h _ hx (List.mem_append_right before hmem)

end MarkdownDocx.Text

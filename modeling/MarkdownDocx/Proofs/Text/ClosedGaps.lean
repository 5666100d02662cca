import MarkdownDocx.Proofs.Text.Bare
import MarkdownDocx.Proofs.Text.ChineseGaps

/-!
Gaps and formulas. The characters on both sides of a gap that is closed are no dollar signs, so what
is read as a formula is one afterwards, and what stands outside stays outside.
-/

set_option autoImplicit false

namespace MarkdownDocx.Text

/-- Only Chinese characters and their punctuation belong together. -/
theorem ne_of_joined {c d e : Char} (hhan : isHan e = false)
    (hmark : isChinesePunctuation e = false) (h : joined c d = true) : c ≠ e ∧ d ≠ e := by
  constructor
  · rintro rfl
    simp [joined, hhan, hmark] at h
  · rintro rfl
    simp [joined, hhan, hmark] at h

theorem not_mem_of_gaps {c : Char} (hc : isGap c = false) {g : List Char}
    (hg : ∀ x ∈ g, isGap x = true) : c ∉ g := by
  intro hmem
  rw [hg c hmem] at hc
  cases hc

theorem unmarked_append_iff {x r : List Char} (hx : '$' ∉ x) :
    Unmarked (x ++ r) ↔ '*' ∉ x ∧ Unmarked r := by
  induction x with
  | nil => simp
  | cons c x ih =>
    rw [List.mem_cons, not_or] at hx
    rw [List.cons_append, unmarked_plain_iff (readSpan_of_ne_dollar (Ne.symm hx.1) _), ih hx.2,
      List.mem_cons, not_or, and_assoc, ne_comm]

/-- Two readings of a text and of the text with some gaps closed: what is left to read is again a
text and the text with some gaps closed. -/
inductive SameRest : Option (List Char × List Char) → Option (List Char × List Char) → Prop
  | none : SameRest none none
  | some {a a' b : List Char} {t : Counted} : Closing joined b t →
    SameRest (some (a, b)) (some (a', t.text))

theorem SameRest.map {o o' : Option (List Char × List Char)} (h : SameRest o o')
    (f g : List Char → List Char) :
    SameRest (o.map fun p => (f p.1, p.2)) (o'.map fun p => (g p.1, p.2)) := by
  cases h with
  | none => exact .none
  | some h => exact .some h

theorem SameRest.eq_none {o : Option (List Char × List Char)} (h : SameRest .none o) :
    o = .none := by
  cases h
  rfl

theorem SameRest.exists_some {a b : List Char} {o : Option (List Char × List Char)}
    (h : SameRest (.some (a, b)) o) : ∃ a' t, o = .some (a', t.text) ∧ Closing joined b t := by
  cases h with
  | some h => exact ⟨_, _, rfl, h⟩

theorem SameRest.isSome_eq {o o' : Option (List Char × List Char)} (h : SameRest o o') :
    o.isSome = o'.isSome := by
  cases h <;> rfl

namespace Closing

variable {cs : List Char} {t : Counted}

theorem readToDouble (h : Closing joined cs t) :
    SameRest (readToDouble cs) (readToDouble t.text) := by
  induction h with
  | nil => exact .none
  | @keep c cs t h ih =>
    by_cases hpair : dollars <+: c :: cs
    · obtain ⟨rfl, hhead⟩ := dollars_prefix_iff.1 hpair
      cases h with
      | nil => cases hhead
      | close hcd =>
        obtain rfl := Option.some.inj hhead
        exact absurd rfl (ne_of_joined (by decide) (by decide) hcd).1
      | keep d h =>
        obtain rfl := Option.some.inj hhead
        exact .some h
    · have hagain : ¬ dollars <+: c :: t.text := by
        rwa [dollars_prefix_iff, h.head?_eq, ← dollars_prefix_iff]
      rw [readToDouble_cons hpair, Counted.keep, readToDouble_cons hagain]
      exact ih.map (c :: ·) (c :: ·)
  | @close c d g cs t hcd _ hg h ih =>
    have hc := (ne_of_joined (e := '$') (by decide) (by decide) hcd).1
    have hplain : '$' ∉ c :: g :=
      List.not_mem_cons_of_ne_of_not_mem hc.symm (not_mem_of_gaps (by decide) hg)
    rw [← List.cons_append, readToDouble_plain hplain, Counted.change,
      readToDouble_plain (by simpa using hc.symm)]
    exact ih.map ((c :: g) ++ ·) ([c] ++ ·)

theorem readToClose (h : Closing joined cs t) :
    SameRest (readToClose '$' cs) (readToClose '$' t.text) := by
  induction h with
  | nil => exact .none
  | @keep c cs t h ih =>
    rw [Text.readToClose, Counted.keep, Text.readToClose]
    split
    · exact .some h
    · split
      · exact .none
      · exact ih.map (c :: ·) (c :: ·)
  | @close c d g cs t hcd _ hg h ih =>
    have hc := (ne_of_joined (e := '$') (by decide) (by decide) hcd).1
    have hfeed := (ne_of_joined (e := '\n') (by decide) (by decide) hcd).1
    have hplain : '$' ∉ c :: g :=
      List.not_mem_cons_of_ne_of_not_mem hc.symm (not_mem_of_gaps (by decide) hg)
    have hline : '\n' ∉ c :: g :=
      List.not_mem_cons_of_ne_of_not_mem hfeed.symm (not_mem_of_gaps (by decide) hg)
    rw [← List.cons_append, readToClose_plain hplain hline, Counted.change,
      readToClose_plain (by simpa using hc.symm) (by simpa using hfeed.symm)]
    exact ih.map ((c :: g) ++ ·) ([c] ++ ·)

theorem readLineSpan (h : Closing joined cs t) :
    SameRest (readLineSpan '$' cs) (readLineSpan '$' t.text) := by
  have hclose := h.readToClose
  have hsome : (Text.readLineSpan '$' cs).isSome = (Text.readLineSpan '$' t.text).isSome := by
    rw [isSome_readLineSpan, isSome_readLineSpan, h.head?_eq, hclose.isSome_eq]
  cases hread : Text.readLineSpan '$' cs with
  | none =>
    rw [hread, Option.isSome_none, eq_comm, Option.isSome_eq_false_iff, Option.isNone_iff_eq_none]
      at hsome
    rw [hsome]
    exact .none
  | some p =>
    rw [hread, Option.isSome_some, eq_comm, Option.isSome_iff_exists] at hsome
    obtain ⟨⟨s, b⟩, hq⟩ := hsome
    obtain ⟨_, -, hcs, -⟩ := readLineSpan_eq_some_iff.1 hread
    obtain ⟨_, -, ht, -⟩ := readLineSpan_eq_some_iff.1 hq
    rw [hcs] at hclose
    obtain ⟨_, u, hu, hrest⟩ := hclose.exists_some
    obtain ⟨-, rfl⟩ := Prod.mk.inj (Option.some.inj (ht.symm.trans hu))
    rw [hq]
    exact .some hrest

/-- Closing gaps closes none across the beginning or the end of a formula. -/
theorem readSpan (h : Closing joined cs t) :
    SameRest (readSpan false cs) (readSpan false t.text) := by
  cases h with
  | nil => exact .none
  | close hcd =>
    have hc := (ne_of_joined (e := '$') (by decide) (by decide) hcd).1
    rw [readSpan_of_ne_dollar hc, Counted.change, List.singleton_append, readSpan_of_ne_dollar hc]
    exact .none
  | @keep c cs t h =>
    by_cases hdollar : c = '$'
    · subst hdollar
      by_cases hhead : cs.head? = some '$'
      · cases h with
        | nil => cases hhead
        | close hcd =>
          obtain rfl := Option.some.inj hhead
          exact absurd rfl (ne_of_joined (by decide) (by decide) hcd).1
        | keep d h =>
          obtain rfl := Option.some.inj hhead
          exact h.readToDouble.map (fun x => '$' :: '$' :: (x ++ ['$', '$']))
            fun x => '$' :: '$' :: (x ++ ['$', '$'])
      · rw [readSpan_dollar false hhead, Counted.keep, readSpan_dollar false (h.head?_eq ▸ hhead)]
        exact h.readLineSpan
    · rw [readSpan_of_ne_dollar hdollar, Counted.keep, readSpan_of_ne_dollar hdollar]
      exact .none

theorem unmarked (h : Closing joined cs t) (hcs : Unmarked cs) : Unmarked t.text := by
  induction hn : cs.length using Nat.strong_induction_on generalizing cs t with
  | _ n ih =>
    subst hn
    have hspan := h.readSpan
    cases hread : Text.readSpan false cs with
    | some p =>
      obtain ⟨a, b⟩ := p
      rw [hread] at hspan
      obtain ⟨_, u, hagain, hrest⟩ := hspan.exists_some
      rw [unmarked_span_iff hagain]
      exact ih b.length (readSpan_length hread) hrest ((unmarked_span_iff hread).1 hcs) rfl
    | none =>
      rw [hread] at hspan
      have hagain := hspan.eq_none
      cases h with
      | nil => exact hcs
      | @keep c cs t h =>
        obtain ⟨hc, hcs⟩ := (unmarked_plain_iff hread).1 hcs
        exact (unmarked_plain_iff hagain).2 ⟨hc, ih cs.length (Nat.lt_succ_self _) h hcs rfl⟩
      | @close c d g cs t _ _ hg h =>
        obtain ⟨hc, hcs⟩ := (unmarked_plain_iff hread).1 hcs
        have hplain : '$' ∉ g := not_mem_of_gaps (by decide) hg
        have hcs := ((unmarked_append_iff hplain).1 hcs).2
        have hless : (d :: cs).length < (c :: (g ++ d :: cs)).length := by
          simp only [List.length_cons, List.length_append]
          omega
        exact (unmarked_plain_iff hagain).2 ⟨hc, ih (d :: cs).length hless h hcs rfl⟩

end Closing

theorem Unmarked.closeGaps {left right : Char → Bool} (hjoins : Joins left right) {cs : List Char}
    (h : Unmarked cs) : Unmarked (closeGaps left right cs).text :=
  (closing_closeGaps hjoins cs).unmarked h

theorem Unmarked.closeHanGaps {cs : List Char} (h : Unmarked cs) :
    Unmarked (closeHanGaps cs).text := by
  fun_induction Text.closeHanGaps cs with
  | case1 => exact h.closeGaps joins_han
  | case2 cs a _ ih => exact ih (h.closeGaps joins_han)

theorem Unmarked.closeChineseGaps {cs : List Char} (h : Unmarked cs) :
    Unmarked (closeChineseGaps cs).text :=
  (h.closeHanGaps.closeGaps joins_hanPunctuation).closeGaps joins_punctuationHan

end MarkdownDocx.Text

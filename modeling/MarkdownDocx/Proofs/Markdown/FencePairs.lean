import Mathlib.Algebra.Group.Nat.Even
import MarkdownDocx.Proofs.Markdown.BareLines

/-!
What the formula pass does with a whole text. A line is replaced only outside of blocks, and then by
itself between two fences; each other line stays, and at most one fence is added at the end. So the
fences of the result come in pairs, what stands between the fences of a text stays between them, and
the pass changes nothing the second time.
-/

set_option autoImplicit false

namespace MarkdownDocx.Markdown

open MarkdownDocx.Text

/-! ## One line, wherever it stands -/

/-- A line that becomes a block: an even number of fences is before it, so that it is outside of
blocks, and it is neither a fence nor delimited but looks like a formula. -/
structure BareAt (ls : List Line) (i : Nat) (l : Line) : Prop where
  outside : Even ((ls.take i).countP isFence)
  notFence : trim l ≠ fence
  notDelimited : isDelimited (trim l) = false
  looks : looksLikeFormula l = true

/-- The lines that stand for each line. -/
def emittedEach (inside : Bool) : List Line → List (List Line)
  | [] => []
  | l :: rest => emitted inside l :: emittedEach (inside ^^ isFence l) rest

theorem flatten_emittedEach (inside : Bool) (ls : List Line) :
    (emittedEach inside ls).flatten = emittedLines inside ls := by
  induction ls generalizing inside with
  | nil => rfl
  | cons l rest ih => rw [emittedEach, List.flatten_cons, ih, emittedLines]

theorem length_emittedEach (inside : Bool) (ls : List Line) :
    (emittedEach inside ls).length = ls.length := by
  induction ls generalizing inside with
  | nil => rfl
  | cons l rest ih => rw [emittedEach, List.length_cons, ih, List.length_cons]

/-- What stands for a line depends on the fences before it only. -/
theorem getElem?_emittedEach (inside : Bool) (ls : List Line) (i : Nat) :
    (emittedEach inside ls)[i]? = ls[i]?.map (emitted (openAfter inside (ls.take i))) := by
  induction ls generalizing inside i with
  | nil => rfl
  | cons l rest ih =>
    cases i with
    | zero => simp [emittedEach, openAfter]
    | succ i =>
      rw [emittedEach, List.getElem?_cons_succ, ih, List.getElem?_cons_succ, List.take_succ_cons,
        openAfter_cons]

theorem openAfter_eq_false_iff {ls : List Line} :
    openAfter false ls = false ↔ Even (ls.countP isFence) := by
  rw [openAfter, Bool.false_xor, Nat.even_iff, beq_eq_false_iff_ne]
  omega

theorem emitted_of_bareAt {ls : List Line} {i : Nat} {l : Line} (h : BareAt ls i l) :
    emitted (openAfter false (ls.take i)) l = [fence, trim l, fence] := by
  have hfence : isFence l = false := by simpa [isFence] using h.notFence
  simp [emitted, openAfter_eq_false_iff.2 h.outside, hfence, isBare, h.notDelimited, h.looks]

theorem emitted_of_not_bareAt {ls : List Line} {i : Nat} {l : Line} (h : ¬ BareAt ls i l) :
    emitted (openAfter false (ls.take i)) l = [l] := by
  rw [emitted, if_neg]
  intro hbare
  obtain ⟨⟨hopen, hfence⟩, hlooks, hdelimited⟩ : (openAfter false (ls.take i) = false ∧
      isFence l = false) ∧ looksLikeFormula l = true ∧ isDelimited (trim l) = false := by
    simpa [isBare] using hbare
  have hnot : trim l ≠ fence := by
    rw [Ne, ← isFence_iff, hfence]
    exact Bool.false_ne_true
  exact h ⟨openAfter_eq_false_iff.1 hopen, hnot, hdelimited, hlooks⟩

/-! ## Pairs of fences -/

theorem openAfter_append (inside : Bool) (before after : List Line) :
    openAfter inside (before ++ after) = openAfter (openAfter inside before) after := by
  induction before generalizing inside with
  | nil => simp [openAfter]
  | cons l rest ih => rw [List.cons_append, openAfter_cons, ih, ← openAfter_cons]

theorem isFence_fence : isFence fence = true := isFence_iff.2 Passages.trim_fence

/-- What stands for a line opens and closes as the line does: a bare formula gets both fences. -/
theorem openAfter_emitted (inside : Bool) (l : Line) :
    openAfter inside (emitted inside l) = (inside ^^ isFence l) := by
  have hnil (b : Bool) : openAfter b [] = b := by simp [openAfter]
  rw [emitted]
  split
  · rename_i hbare
    obtain ⟨⟨-, hfence⟩, -⟩ : (inside = false ∧ isFence l = false) ∧ isBare l = true := by
      simpa using hbare
    have htrim : isFence (trim l) = isFence l := by rw [isFence, isFence, trim_trim]
    simp [openAfter_cons, hnil, isFence_fence, htrim, hfence]
  · rw [openAfter_cons, hnil]

theorem openAfter_emittedLines (inside : Bool) (ls : List Line) :
    openAfter inside (emittedLines inside ls) = openAfter inside ls := by
  induction ls generalizing inside with
  | nil => rfl
  | cons l rest ih =>
    rw [emittedLines, openAfter_append, openAfter_emitted, ih, openAfter_cons]

/-- After the last line nothing is open: what is left open gets one more fence. -/
theorem openAfter_fenceLines (inside : Bool) (ls : List Line) :
    openAfter inside (fenceLines inside ls) = false := by
  have happend := fenceLines_append inside ls []
  rw [List.append_nil] at happend
  rw [happend, openAfter_append, openAfter_emittedLines]
  cases openAfter inside ls <;> simp [fenceLines, openAfter, isFence_fence]

/-- The lines of a result: those that stand for the lines of the text, and a fence if one is
missing. -/
theorem fenceLines_eq (ls : List Line) :
    fenceLines false ls = (emittedEach false ls).flatten ++
      if Even (ls.countP isFence) then [] else [fence] := by
  have happend := fenceLines_append false ls []
  rw [List.append_nil] at happend
  rw [happend, flatten_emittedEach, fenceLines]
  by_cases heven : Even (ls.countP isFence)
  · simp [heven, openAfter_eq_false_iff.2 heven]
  · have hopen : openAfter false ls = true := by
      rwa [← openAfter_eq_false_iff, Bool.not_eq_false] at heven
    simp [heven, hopen]

/-! ## Blocks -/

theorem emittedLines_inside {body : List Line} (h : ∀ l ∈ body, isFence l = false) :
    emittedLines true body = body := by
  induction body with
  | nil => rfl
  | cons l rest ih =>
    obtain ⟨hl, hrest⟩ := List.forall_mem_cons.1 h
    rw [emittedLines, hl, Bool.xor_false, ih hrest]
    rfl

/-- From a fence that opens a block to the next one, or to the end, all lines stay together as they
are. -/
theorem fenceLines_block {before body : List Line} {opening : Line}
    (heven : Even (before.countP isFence)) (hopening : trim opening = fence)
    (hbody : ∀ l ∈ body, trim l ≠ fence) (after : List Line) :
    fenceLines false (before ++ opening :: (body ++ after)) =
      emittedLines false before ++ opening :: (body ++ fenceLines true after) := by
  have hlines : ∀ l ∈ body, isFence l = false := fun l hl => by simpa [isFence] using hbody l hl
  have hnone : body.countP isFence = 0 := by simpa [List.countP_eq_zero] using hlines
  have hstays : openAfter true body = true := by simp [openAfter, hnone]
  rw [fenceLines_append, openAfter_eq_false_iff.2 heven, fenceLines_cons, isFence_iff.2 hopening,
    Bool.false_xor, fenceLines_append, hstays, emittedLines_inside hlines]
  simp [emitted, isFence_iff.2 hopening]

/-! ## The pass -/

/-- Each line has lines that stand for it, in the order of the text: a bare one is trimmed and put
between two fences, any other stays, and a fence is added at the end where the fences are odd in
number. In the result they are even in number, blocks have kept their lines, and nothing is left for
the pass to do. -/
theorem fenceFormulas_lines (cs : List Char) :
    (∃ outs : List (List Line), outs.length = (splitFeeds cs).length ∧
      splitFeeds (fenceFormulas cs) = outs.flatten ++
        (if Even ((splitFeeds cs).countP isFence) then [] else [fence]) ∧
      ∀ (i : Nat) (l : Line), (splitFeeds cs)[i]? = some l →
        (BareAt (splitFeeds cs) i l → outs[i]? = some [fence, trim l, fence]) ∧
        (¬ BareAt (splitFeeds cs) i l → outs[i]? = some [l])) ∧
    Even ((splitFeeds (fenceFormulas cs)).countP isFence) ∧
    (∀ (before body after : List Line) (opening : Line),
      splitFeeds cs = before ++ opening :: (body ++ after) →
      Even (before.countP isFence) → trim opening = fence → (∀ l ∈ body, trim l ≠ fence) →
      ∃ before' after', splitFeeds (fenceFormulas cs) = before' ++ opening :: (body ++ after') ∧
        Even (before'.countP isFence)) ∧
    fenceFormulas (fenceFormulas cs) = fenceFormulas cs := by
  have hlines := splitFeeds_fenceFormulas cs
  refine ⟨⟨emittedEach false (splitFeeds cs), length_emittedEach _ _, ?_, fun i l hl => ?_⟩,
    ?_, ?_, fenceFormulas_of_gapped (.refl _)⟩
  · rw [hlines, fenceLines_eq]
  · rw [getElem?_emittedEach, hl, Option.map_some]
    exact ⟨fun h => congrArg some (emitted_of_bareAt h),
      fun h => congrArg some (emitted_of_not_bareAt h)⟩
  · rw [hlines, ← openAfter_eq_false_iff, openAfter_fenceLines]
  · intro before body after opening hcs heven hopening hbody
    refine ⟨emittedLines false before, fenceLines true after, ?_, ?_⟩
    · rw [hlines, hcs, fenceLines_block heven hopening hbody]
    · rw [← openAfter_eq_false_iff, openAfter_emittedLines, openAfter_eq_false_iff.2 heven]

end MarkdownDocx.Markdown

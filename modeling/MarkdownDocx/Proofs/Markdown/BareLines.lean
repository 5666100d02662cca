import MarkdownDocx.Proofs.Markdown.Passages
import MarkdownDocx.Proofs.Text.Spans

/-!
What the formula pass does with one line. Lines inside of blocks and fence lines stay as they are; any
other line stays unless it is bare, and then it is trimmed and put between two fences. Delimiters count
only at the two ends of a line: formulas within it do not keep it from being fenced, not even where all
its commands are in them.
-/

set_option autoImplicit false

namespace MarkdownDocx.Markdown

open MarkdownDocx.Text

/-! ## Line by line -/

def isFence (l : Line) : Bool := trim l == fence

theorem isFence_iff {l : Line} : isFence l = true ↔ trim l = fence := beq_iff_eq

/-- The lines that stand for a line. -/
def emitted (inside : Bool) (l : Line) : List Line :=
  if !inside && !isFence l && isBare l then [fence, trim l, fence] else [l]

/-- Whether a block is open after some lines. -/
def openAfter (inside : Bool) (ls : List Line) : Bool := inside ^^ (ls.countP isFence % 2 == 1)

/-- The lines that stand for some lines, before any that follow. -/
def emittedLines (inside : Bool) : List Line → List Line
  | [] => []
  | l :: rest => emitted inside l ++ emittedLines (inside ^^ isFence l) rest

theorem fenceLines_cons (inside : Bool) (l : Line) (rest : List Line) :
    fenceLines inside (l :: rest) = emitted inside l ++ fenceLines (inside ^^ isFence l) rest := by
  by_cases hl : trim l = fence
  · have hfence := isFence_iff.2 hl
    simp [fenceLines, emitted, hl, hfence]
  · have hfence : isFence l = false := by simpa [isFence] using hl
    cases inside with
    | true => simp [fenceLines, emitted, hl, hfence]
    | false =>
      cases hdelimited : isDelimited (trim l) <;> cases hlooks : looksLikeFormula l <;>
        simp [fenceLines, emitted, isBare, hl, hfence, hdelimited, hlooks]

theorem openAfter_cons (inside : Bool) (l : Line) (rest : List Line) :
    openAfter inside (l :: rest) = openAfter (inside ^^ isFence l) rest := by
  have hparity (n : Nat) : ((n + 1) % 2 == 1) = !(n % 2 == 1) := by
    rcases Nat.mod_two_eq_zero_or_one n with h | h <;> simp [Nat.add_mod, h]
  rw [openAfter, openAfter, List.countP_cons]
  cases isFence l with
  | true => simp [hparity]
  | false => simp

theorem fenceLines_append (inside : Bool) (before after : List Line) :
    fenceLines inside (before ++ after) =
      emittedLines inside before ++ fenceLines (openAfter inside before) after := by
  induction before generalizing inside with
  | nil => simp [emittedLines, openAfter]
  | cons l rest ih =>
    rw [List.cons_append, fenceLines_cons, ih, openAfter_cons, emittedLines, List.append_assoc]

theorem splitFeeds_fenceFormulas (cs : List Char) :
    splitFeeds (fenceFormulas cs) = fenceLines false (splitFeeds cs) := by
  have hlines : (passages cs).fenced.lines = fenceLines false (splitFeeds cs) :=
    lines_fenced_divide none (splitFeeds cs)
  rw [fenceFormulas_eq, Passages.text, ← hlines]
  exact splitFeeds_joinFeeds (Passages.lines_fenced_ne_nil (lines_passages_ne_nil cs))
    (Passages.feedFree_fenced fun _ hl => not_mem_of_mem_passages hl)

/-! ## Lines that stay as they are -/

/-- Why a line outside of blocks stays as it is. -/
inductive LeftAlone (l : Line) : Prop
  | delimited (h : isDelimited (trim l) = true)
  | markdown (h : beginsBlock (trim l) = true)
  | prose (h : greatestHanCount < (trim l).countP isHan)
  | noCommand (h : countCommands (trim l) = 0)
  | loneCommand (h : countCommands (trim l) = 1) (hequation : isEquation (trim l) = false)
    (hscript : hasScript (trim l) = false)

theorem countCommands_nil : countCommands [] = 0 := by decide +kernel

/-- A fence is not bare: it holds no command. -/
theorem isFence_eq_false {l : Line} (h : isBare l = true) : isFence l = false := by
  rw [Bool.eq_false_iff]
  intro hfence
  have hnone : countCommands fence = 0 := by decide +kernel
  simp [isBare, looksLikeFormula, isFence_iff.1 hfence, hnone] at h

theorem isBare_eq_false_iff {l : Line} : isBare l = false ↔ LeftAlone l := by
  constructor
  · intro h
    by_cases hdelimited : isDelimited (trim l) = true
    · exact .delimited hdelimited
    by_cases hmarkdown : beginsBlock (trim l) = true
    · exact .markdown hmarkdown
    by_cases hprose : greatestHanCount < (trim l).countP isHan
    · exact .prose hprose
    by_cases hcount : countCommands (trim l) = 0
    · exact .noCommand hcount
    have hblank : trim l ≠ [] := fun hnil => hcount (by rw [hnil, countCommands_nil])
    have hfewHan : (trim l).countP isHan ≤ greatestHanCount := by omega
    have hshape : isEquation (trim l) = false ∧ countCommands (trim l) < 2 ∧
        hasScript (trim l) = false := by
      simpa [isBare, looksLikeFormula, hdelimited, hmarkdown, hfewHan, hcount, hblank, and_assoc]
        using h
    obtain ⟨hequation, hfew, hscript⟩ := hshape
    exact .loneCommand (by omega) hequation hscript
  · intro h
    cases h with
    | delimited h => simp [isBare, h]
    | markdown h => simp [isBare, looksLikeFormula, h]
    | prose h =>
      have hmany : ¬ (trim l).countP isHan ≤ greatestHanCount := by omega
      simp [isBare, looksLikeFormula, hmany]
    | noCommand h => simp [isBare, looksLikeFormula, h]
    | loneCommand h hequation hscript =>
      simp [isBare, looksLikeFormula, h, hequation, hscript]

/-- A text that is one formula, delimiters included. -/
def IsFormula (t : List Char) : Prop := t.head? = some '$' ∧ readSpan true t = some (t, [])

instance (t : List Char) : Decidable (IsFormula t) :=
  inferInstanceAs (Decidable (_ ∧ _))

theorem IsFormula.leftAlone {l : Line} (h : IsFormula (trim l)) : LeftAlone l := by
  obtain ⟨hhead, hread⟩ := h
  obtain ⟨r, ht⟩ : ∃ r, trim l = '$' :: r := List.head?_eq_some_iff.1 hhead
  rw [ht] at hread
  by_cases hdouble : r.head? = some '$'
  · obtain ⟨r, rfl⟩ := List.head?_eq_some_iff.1 hdouble
    rw [readSpan_dollars] at hread
    obtain ⟨⟨a, b⟩, -, he⟩ := Option.map_eq_some_iff.1 hread
    obtain ⟨rfl, -⟩ : a ++ ['$', '$'] = r ∧ b = [] := by simpa using he
    cases a with
    | nil =>
      -- with nothing in between, the four characters are too short to count as delimiters
      exact .noCommand (by rw [ht]; decide +kernel)
    | cons c a =>
      refine .delimited ?_
      have hends : fence <:+ '$' :: '$' :: (c :: a ++ ['$', '$']) := ⟨'$' :: '$' :: c :: a, rfl⟩
      have hlong : 4 < ('$' :: '$' :: (c :: a ++ ['$', '$'])).length := by simp
      rw [ht, isDelimited, List.isSuffixOf_iff_suffix.2 hends, decide_eq_true hlong]
      simp [fence]
  · rw [readSpan_dollar true hdouble] at hread
    obtain ⟨a, -, -, he⟩ := readLineSpan_eq_some_iff.1 hread
    refine .delimited ?_
    have hsingle : fence.isPrefixOf ('$' :: r) = false := by
      rw [Bool.eq_false_iff]
      intro hbegins
      exact hdouble (dollars_prefix_iff.1 (List.isPrefixOf_iff_prefix.1 hbegins)).2
    have hlast : ('$' :: r).getLast? = some '$' := by
      rw [he, ← List.cons_append, List.getLast?_concat]
    rw [ht, isDelimited, hsingle, hlast]
    simp

/-! ## Commands in spans -/

/-- Where the spans among some pieces begin and end. -/
def spanRanges (start : Nat) : List Piece → List (Nat × Nat)
  | [] => []
  | .plain cs :: ps => spanRanges (start + cs.length) ps
  | .span cs :: ps => (start, start + cs.length) :: spanRanges (start + cs.length) ps

/-- One of the spans takes up a range of the joined pieces, whose first character is at `start`. -/
def SpanAt (ps : List Piece) (start : Nat) (range : Nat × Nat) : Prop :=
  ∃ a s b, .span s ∈ ps ∧ joinPieces ps = a ++ s ++ b ∧
    range = (start + a.length, start + a.length + s.length)

theorem SpanAt.cons {p : Piece} {ps : List Piece} {start : Nat} {range : Nat × Nat}
    (h : SpanAt ps (start + p.chars.length) range) : SpanAt (p :: ps) start range := by
  obtain ⟨a, s, b, hs, hjoin, hrange⟩ := h
  have hcons : joinPieces (p :: ps) = p.chars ++ joinPieces ps := rfl
  refine ⟨p.chars ++ a, s, b, .tail _ hs, ?_, ?_⟩
  · rw [hcons, hjoin, List.append_assoc, List.append_assoc, List.append_assoc]
  · rw [hrange, List.length_append, Nat.add_assoc]

theorem spanAt_of_mem {start : Nat} {ps : List Piece} {range : Nat × Nat}
    (h : range ∈ spanRanges start ps) : SpanAt ps start range := by
  fun_induction spanRanges start ps with
  | case1 => simp at h
  | case2 start cs ps ih => exact SpanAt.cons (ih h)
  | case3 start cs ps ih =>
    rcases List.mem_cons.1 h with rfl | h
    · exact ⟨[], cs, joinPieces ps, by simp, rfl, by simp⟩
    · exact SpanAt.cons (ih h)

/-- So many characters from a place on are within one span. -/
def InSpan (l : Line) (place count : Nat) : Prop :=
  ∃ range ∈ spanRanges 0 (splitSpans true l), range.1 ≤ place ∧ place + count ≤ range.2

instance (l : Line) (place count : Nat) : Decidable (InSpan l place count) :=
  inferInstanceAs (Decidable (∃ range ∈ spanRanges 0 (splitSpans true l), _))

/-- A word within a span is part of what the span holds. -/
theorem InSpan.exists_span {l word : Line} {place : Nat} (h : InSpan l place word.length)
    (hword : word <+: l.drop place) : ∃ s, .span s ∈ splitSpans true l ∧ word <:+: s := by
  obtain ⟨range, hmem, hbegins, hends⟩ := h
  obtain ⟨a, s, b, hs, hjoin, rfl⟩ := spanAt_of_mem hmem
  rw [joinPieces_splitSpans] at hjoin
  simp only [Nat.zero_add] at hbegins hends
  obtain ⟨k, rfl⟩ := Nat.exists_eq_add_of_le hbegins
  have hdrop : l.drop (a.length + k) = s.drop k ++ b := by
    have hk : k ≤ s.length := by omega
    rw [hjoin, List.append_assoc, List.drop_length_add_append, List.drop_append_of_le_length hk]
  have hlength : word.length ≤ (s.drop k).length := by
    rw [List.length_drop]
    omega
  rw [hdrop] at hword
  have hwithin : word <+: s.drop k :=
    List.prefix_of_prefix_length_le hword (List.prefix_append _ b) hlength
  exact ⟨s, hs, hwithin.isInfix.trans (List.drop_suffix k s).isInfix⟩

/-- Each command of a line stands in one of its formulas and code spans. -/
def CommandsInSpans (l : Line) : Prop :=
  ∀ command ∈ formulaCommands, ∀ place < l.length, command.toList <+: l.drop place →
    InSpan l place command.toList.length

instance (l : Line) : Decidable (CommandsInSpans l) :=
  inferInstanceAs (Decidable (∀ command ∈ formulaCommands, ∀ place < l.length, _))

theorem CommandsInSpans.exists_span {l : Line} (h : CommandsInSpans l) (hbare : ¬ LeftAlone l) :
    ∃ s, .span s ∈ splitSpans true l ∧ ∃ command ∈ formulaCommands, command.toList <:+: s := by
  have hcount : 0 < countCommands (trim l) := by
    by_contra hnone
    exact hbare (.noCommand (by omega))
  obtain ⟨command, hmem, hoccurs⟩ := List.countP_pos_iff.1 hcount
  have hwithin : command.toList <:+: l :=
    (occursIn_eq_true_iff.1 hoccurs).trans (trim_within l)
  obtain ⟨a, b, hl⟩ := hwithin
  have hne : command.toList ≠ [] := by
    have hall : ∀ command ∈ formulaCommands, command.toList ≠ [] := by decide +kernel
    exact hall command hmem
  have hplace : a.length < l.length := by
    have := List.length_pos_iff.2 hne
    simp [← hl]
    omega
  have hdrop : command.toList <+: l.drop a.length := by
    simp [← hl]
  obtain ⟨s, hs, hinfix⟩ := (h command hmem a.length hplace hdrop).exists_span hdrop
  exact ⟨s, hs, command, hmem, hinfix⟩

/-! ## One line in its text -/

/-- A line outside of blocks stays exactly if there is a reason to leave it alone, and is fenced
otherwise. A line that is one formula is left alone; one that has text around its formulas can be
fenced for the commands in them. What the other lines become depends on this one only where it is a
fence itself. -/
theorem fenceFormulas_line {cs : List Char} {before after : List Line} {l : Line}
    (hlines : splitFeeds cs = before ++ l :: after) (houtside : openAfter false before = false) :
    ∃ out, splitFeeds (fenceFormulas cs) =
        emittedLines false before ++ out ++ fenceLines (isFence l) after ∧
      (out = [l] ↔ LeftAlone l) ∧ (¬ LeftAlone l → out = [fence, trim l, fence]) ∧
      (IsFormula (trim l) → out = [l]) ∧
      (CommandsInSpans l → out ≠ [l] → ∃ s, .span s ∈ splitSpans true l ∧
        ∃ command ∈ formulaCommands, command.toList <:+: s) := by
  have hout : splitFeeds (fenceFormulas cs) =
      emittedLines false before ++ emitted false l ++ fenceLines (isFence l) after := by
    rw [splitFeeds_fenceFormulas, hlines, fenceLines_append, houtside, fenceLines_cons,
      Bool.false_xor, List.append_assoc]
  have hfenced (hbare : ¬ LeftAlone l) : emitted false l = [fence, trim l, fence] := by
    rw [← isBare_eq_false_iff, Bool.not_eq_false] at hbare
    rw [emitted, isFence_eq_false hbare, hbare]
    rfl
  have hstays : emitted false l = [l] ↔ LeftAlone l := by
    constructor
    · intro heq
      by_contra hbare
      simp [hfenced hbare] at heq
    · intro hleft
      simp [emitted, isBare_eq_false_iff.2 hleft]
  refine ⟨emitted false l, hout, hstays, hfenced, fun hformula => hstays.2 hformula.leftAlone, ?_⟩
  intro hspans hne
  exact hspans.exists_span (mt hstays.2 hne)

/-- After a block, a formula that could do without its delimiters. -/
theorem fenceFormulas_line_afterBlock :
    splitFeeds "$$\nx\n$$\n  $\\alpha = \\beta$".toList =
        ["$$".toList, "x".toList, "$$".toList] ++ "  $\\alpha = \\beta$".toList :: [] ∧
      openAfter false ["$$".toList, "x".toList, "$$".toList] = false ∧
      splitFeeds (fenceFormulas "$$\nx\n$$\n  $\\alpha = \\beta$".toList) =
        ["$$".toList, "x".toList, "$$".toList, "  $\\alpha = \\beta$".toList] := by
  have hlines : splitFeeds "$$\nx\n$$\n  $\\alpha = \\beta$".toList =
      ["$$".toList, "x".toList, "$$".toList] ++ "  $\\alpha = \\beta$".toList :: [] := by
    decide +kernel
  have houtside : openAfter false ["$$".toList, "x".toList, "$$".toList] = false := by
    decide +kernel
  have hformula : IsFormula (trim "  $\\alpha = \\beta$".toList) := by decide +kernel
  obtain ⟨out, hout, -, -, hstays, -⟩ := fenceFormulas_line hlines houtside
  rw [hstays hformula] at hout
  refine ⟨hlines, houtside, hout.trans ?_⟩
  decide +kernel

/-- Two formulas in a sentence. -/
theorem fenceFormulas_fences_sentence :
    CommandsInSpans "where $\\alpha$ and $\\beta$ hold".toList ∧
      fenceFormulas "where $\\alpha$ and $\\beta$ hold".toList =
        "$$\nwhere $\\alpha$ and $\\beta$ hold\n$$".toList := by
  decide +kernel

end MarkdownDocx.Markdown

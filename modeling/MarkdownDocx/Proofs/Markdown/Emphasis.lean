import MarkdownDocx.Proofs.Markdown.Gaps
import MarkdownDocx.Proofs.Text.Spans

/-!
The emphasis pass. It puts zero-width spaces into the gaps of plain text, and no span begins or
ends elsewhere for it: the pass cuts its own result at the same places, and changes it no more.
-/

set_option autoImplicit false

namespace MarkdownDocx.Markdown

open MarkdownDocx.Text

/-! ## The pass, character by character -/

theorem separateEmphasis_span {cs a b : List Char} (h : readSpan true cs = some (a, b)) :
    separateEmphasis cs = a ++ separateEmphasis b := by
  rw [separateEmphasis, splitSpans_span h]
  rfl

theorem readSpan_of_mem_emphatic {c : Char} (h : c ∈ emphatic) (r : List Char) :
    readSpan true (c :: r) = none := by
  refine readSpan_other true ?_ ?_ r
  · rintro rfl
    exact absurd h (by decide)
  · rintro rfl
    exact absurd h (by decide)

/-- A character beside a gap is in a plain piece. -/
theorem splitSpans_of_mem_emphatic {c : Char} (h : c ∈ emphatic) (r : List Char) :
    ∃ x ps, splitSpans true (c :: r) = .plain (c :: x) :: ps := by
  rcases exists_splitSpans true c r with hplain | ⟨rfl | rfl, _⟩
  · exact hplain
  · exact absurd h (by decide)
  · exact absurd h (by decide)

/-- A character that is not before a gap. -/
theorem separateEmphasis_plain {c : Char} {r : List Char} (h : readSpan true (c :: r) = none)
    (hgap : ∀ d ∈ r.head?, collide c d = false) :
    separateEmphasis (c :: r) = c :: separateEmphasis r := by
  rw [separateEmphasis, splitSpans_plain h]
  cases r with
  | nil => simp [splitSpans, consPlain, separateEmphasis, separatePiece, separatePlain, separate]
  | cons d r =>
    have hcd := hgap d (by simp)
    rcases exists_splitSpans true d r with ⟨x, ps, hps⟩ | ⟨_, x, ps, hps⟩
    · simp [hps, consPlain, separateEmphasis, separatePiece, separatePlain_eq_spread, spread, hcd]
    · simp [hps, consPlain, separateEmphasis, separatePiece, separatePlain, separate]

theorem separateEmphasis_gap {c d : Char} {r : List Char} (hgap : collide c d = true) :
    separateEmphasis (c :: d :: r) = c :: zeroWidthSpace :: separateEmphasis (d :: r) := by
  obtain ⟨hc, hd⟩ := mem_emphatic_of_collide hgap
  rw [separateEmphasis, splitSpans_plain (readSpan_of_mem_emphatic hc (d :: r))]
  obtain ⟨x, ps, hps⟩ := splitSpans_of_mem_emphatic hd r
  simp [hps, consPlain, separateEmphasis, separatePiece, separatePlain_eq_spread, spread, hgap]

/-- Induction along the pass: over spans, characters that stay as they are, and gaps. -/
@[elab_as_elim]
theorem emphasis_induction {motive : List Char → Prop} (nil : motive [])
    (span : ∀ cs a b, readSpan true cs = some (a, b) → motive b → motive cs)
    (plain : ∀ c r, readSpan true (c :: r) = none → (∀ d ∈ r.head?, collide c d = false) →
      motive r → motive (c :: r))
    (gap : ∀ c d r, collide c d = true → motive (d :: r) → motive (c :: d :: r))
    (cs : List Char) : motive cs := by
  fun_induction splitSpans true cs with
  | case1 => exact nil
  | case2 c r a b h ih => exact span (c :: r) a b h ih
  | case3 c r h ih =>
    by_cases hgap : ∀ d ∈ r.head?, collide c d = false
    · exact plain c r h hgap ih
    · cases r with
      | nil => exact absurd (by simp) hgap
      | cons d r => exact gap c d r (by simpa using hgap) ih

theorem separateEmphasis_nil : separateEmphasis [] = [] := by
  rw [separateEmphasis, splitSpans]
  rfl

/-- The pass puts zero-width spaces into gaps and does nothing else. -/
theorem gapped_separateEmphasis (cs : List Char) : Gapped cs (separateEmphasis cs) := by
  induction cs using emphasis_induction with
  | nil => rw [separateEmphasis_nil]
  | span cs a b h ih =>
    rw [separateEmphasis_span h, readSpan_eq h]
    exact ih.append_left
  | plain c r h hgap ih =>
    rw [separateEmphasis_plain h hgap]
    exact .cons c ih
  | gap c d r hgap ih =>
    rw [separateEmphasis_gap hgap]
    obtain ⟨x, hx⟩ : ∃ x, separateEmphasis (d :: r) = d :: x := by
      have hhead := ih.head?_eq
      cases hs : separateEmphasis (d :: r) with
      | nil => simp [hs] at hhead
      | cons e x => exact ⟨x, by simpa [hs] using hhead.symm⟩
    rw [hx] at ih ⊢
    exact .gap hgap ih

/-! ## Spans in gapped texts -/

theorem Gapped.isSome_readToClose {l m : List Char} {close : Char} (hclose : close ∉ emphatic)
    (hz : close ≠ zeroWidthSpace) (h : Gapped l m) :
    (readToClose close l).isSome = (readToClose close m).isSome := by
  have hfeed : '\n' ≠ zeroWidthSpace := by decide
  induction h with
  | nil => rfl
  | cons c _ ih =>
    rw [readToClose, readToClose]
    split
    · rfl
    · split
      · rfl
      · simpa using ih
  | @gap c d l m hgap _ ih =>
    have hc := (mem_emphatic_of_collide hgap).1
    have hne : c ≠ close := by
      rintro rfl
      exact hclose hc
    have hcfeed : c ≠ '\n' := by
      rintro rfl
      exact absurd hc (by decide)
    rw [readToClose_cons hne hcfeed, readToClose_cons hne hcfeed,
      readToClose_cons hz.symm hfeed.symm]
    simpa using ih

theorem Gapped.isSome_readLineSpan {l m : List Char} {mark : Char} (hmark : mark ∉ emphatic)
    (hz : mark ≠ zeroWidthSpace) (h : Gapped l m) :
    (readLineSpan mark l).isSome = (readLineSpan mark m).isSome := by
  rw [Text.isSome_readLineSpan, Text.isSome_readLineSpan, h.isSome_readToClose hmark hz, h.head?_eq]

/-- A span opens in a gapped text where one opens in the text. -/
theorem Gapped.isSome_readSpan {l m : List Char} (h : Gapped l m) :
    (readSpan true l).isSome = (readSpan true m).isSome := by
  cases h with
  | nil => rfl
  | gap hgap h =>
    have hc := (mem_emphatic_of_collide hgap).1
    rw [readSpan_of_mem_emphatic hc, readSpan_of_mem_emphatic hc]
  | @cons c l m h =>
    by_cases hdollar : c = '$'
    · subst hdollar
      by_cases hhead : l.head? = some '$'
      · cases h with
        | nil => simp at hhead
        | gap hgap h =>
          obtain rfl : _ = '$' := by simpa using hhead
          exact absurd (mem_emphatic_of_collide hgap).1 (by decide)
        | @cons d l m h =>
          obtain rfl : d = '$' := by simpa using hhead
          have hwithin := h.infix_iff (w := dollars) (by decide)
          rw [readSpan_dollars, readSpan_dollars, Option.isSome_map, Option.isSome_map,
            Bool.eq_iff_iff, ← Option.ne_none_iff_isSome, ← Option.ne_none_iff_isSome, ne_eq, ne_eq,
            readToDouble_eq_none_iff, readToDouble_eq_none_iff, hwithin]
      · rw [readSpan_dollar true hhead, readSpan_dollar true (h.head?_eq ▸ hhead)]
        exact h.isSome_readLineSpan (by decide) (by decide)
    · by_cases htick : c = '\x60'
      · subst htick
        rw [readSpan_tick, readSpan_tick, if_pos rfl, if_pos rfl]
        exact h.isSome_readLineSpan (by decide) (by decide)
      · rw [readSpan_other true hdollar htick, readSpan_other true hdollar htick]

/-! ## The pieces of the result -/

/-- A piece after the pass. -/
def separatedPiece : Piece → Piece
  | .plain cs => .plain (spread cs)
  | .span cs => .span cs

theorem separateEmphasis_eq (cs : List Char) :
    separateEmphasis cs = joinPieces ((splitSpans true cs).map separatedPiece) := by
  rw [separateEmphasis, joinPieces, List.flatMap_map]
  refine List.flatMap_congr fun p _ => ?_
  cases p with
  | plain cs => exact separatePlain_eq_spread cs
  | span cs => rfl

theorem consPlain_separated {c : Char} {r : List Char}
    (hgap : ∀ d ∈ r.head?, collide c d = false) :
    consPlain c ((splitSpans true r).map separatedPiece) =
      (consPlain c (splitSpans true r)).map separatedPiece := by
  cases r with
  | nil => simp [splitSpans, consPlain, separatedPiece, spread]
  | cons d r =>
    have hcd := hgap d (by simp)
    rcases exists_splitSpans true d r with ⟨x, ps, hps⟩ | ⟨_, x, ps, hps⟩
    · simp [hps, consPlain, separatedPiece, spread, hcd]
    · simp [hps, consPlain, separatedPiece, spread]

/-- The result is cut where the text is cut: the same spans in the same order, and between them the
same plain pieces with their gaps filled. -/
theorem splitSpans_separateEmphasis (cs : List Char) :
    splitSpans true (separateEmphasis cs) = (splitSpans true cs).map separatedPiece := by
  induction cs using emphasis_induction with
  | nil =>
    rw [separateEmphasis_nil, splitSpans]
    rfl
  | span cs a b h ih =>
    rw [separateEmphasis_span h, splitSpans_span (readSpan_append h _), ih, splitSpans_span h]
    rfl
  | plain c r h hgap ih =>
    have hnone : readSpan true (c :: separateEmphasis r) = none := by
      have hsome := (Gapped.cons c (gapped_separateEmphasis r)).isSome_readSpan
      rw [h] at hsome
      exact Option.not_isSome_iff_eq_none.1 (by simp [← hsome])
    rw [separateEmphasis_plain h hgap, splitSpans_plain hnone, ih, splitSpans_plain h]
    exact consPlain_separated hgap
  | gap c d r hgap ih =>
    obtain ⟨hc, hd⟩ := mem_emphatic_of_collide hgap
    have hz : readSpan true (zeroWidthSpace :: separateEmphasis (d :: r)) = none :=
      readSpan_other true (by decide) (by decide) _
    rw [separateEmphasis_gap hgap, splitSpans_plain (readSpan_of_mem_emphatic hc _),
      splitSpans_plain hz, ih, splitSpans_plain (readSpan_of_mem_emphatic hc _)]
    obtain ⟨x, ps, hps⟩ := splitSpans_of_mem_emphatic hd r
    simp [hps, consPlain, separatedPiece, spread, hgap]

/-- A second run finds no gap. -/
theorem separateEmphasis_separateEmphasis (cs : List Char) :
    separateEmphasis (separateEmphasis cs) = separateEmphasis cs := by
  rw [separateEmphasis_eq (separateEmphasis cs), splitSpans_separateEmphasis, List.map_map,
    separateEmphasis_eq cs]
  congr 1
  refine List.map_congr_left fun p _ => ?_
  cases p with
  | plain cs => simp [separatedPiece, spread_spread]
  | span cs => rfl

/-- No asterisk stands beside a glyph in plain text. -/
def Separated (cs : List Char) : Prop :=
  ∀ x, Piece.plain x ∈ splitSpans true cs → x.IsChain fun c d => collide c d = false

theorem spread_eq_self_iff {cs : List Char} :
    spread cs = cs ↔ cs.IsChain fun c d => collide c d = false := by
  induction cs with
  | nil => simp [spread]
  | cons c r ih =>
    cases r with
    | nil => simp [spread]
    | cons d r =>
      rw [spread, List.isChain_cons_cons]
      by_cases hgap : collide c d = true
      · have hz : zeroWidthSpace ≠ d := by
          rintro rfl
          have hright : collide c zeroWidthSpace = false := collide_right_false (by decide) c
          simp [hright] at hgap
        simp [hgap, hz]
      · simp [hgap, ih]

/-- The texts that the pass leaves as they are. -/
theorem separateEmphasis_eq_self_iff {cs : List Char} :
    separateEmphasis cs = cs ↔ Separated cs := by
  constructor
  · intro h x hx
    have hsplit := splitSpans_separateEmphasis cs
    rw [h] at hsplit
    have hpieces : (splitSpans true cs).map separatedPiece = (splitSpans true cs).map id := by
      rw [List.map_id, ← hsplit]
    have hpiece := List.map_inj_left.1 hpieces (.plain x) hx
    exact spread_eq_self_iff.1 (by simpa [separatedPiece] using hpiece)
  · intro h
    have hpieces : (splitSpans true cs).map separatedPiece = (splitSpans true cs).map id := by
      refine List.map_congr_left fun p hp => ?_
      cases p with
      | plain x => rw [separatedPiece, spread_eq_self_iff.2 (h x hp), id]
      | span x => rfl
    rw [separateEmphasis_eq, hpieces, List.map_id, joinPieces_splitSpans]

/-! ## What the pass does to a text -/

/-- A piece, and the piece with zero-width spaces in gaps if it is plain. -/
inductive GappedPiece : Piece → Piece → Prop
  | plain {x y : List Char} : Gapped x y → GappedPiece (.plain x) (.plain y)
  | span (x : List Char) : GappedPiece (.span x) (.span x)

def spanTexts : List Piece → List (List Char)
  | [] => []
  | .plain _ :: ps => spanTexts ps
  | .span x :: ps => x :: spanTexts ps

theorem spanTexts_eq {ps qs : List Piece} (h : List.Forall₂ GappedPiece ps qs) :
    spanTexts ps = spanTexts qs := by
  induction h with
  | nil => rfl
  | cons hp _ ih =>
    cases hp with
    | plain _ => exact ih
    | span x => rw [spanTexts, spanTexts, ih]

theorem gapped_spread (cs : List Char) : Gapped cs (spread cs) := by
  fun_induction spread cs with
  | case1 c d r hgap ih =>
    obtain ⟨x, hx⟩ := spread_cons d r
    rw [hx] at ih ⊢
    exact .gap hgap ih
  | case2 c d r hgap ih => exact .cons c ih
  | case3 cs _ => exact .refl cs

theorem forall₂_gappedPiece (cs : List Char) :
    List.Forall₂ GappedPiece (splitSpans true cs) (splitSpans true (separateEmphasis cs)) := by
  rw [splitSpans_separateEmphasis, List.forall₂_map_right_iff, List.forall₂_same]
  intro p _
  cases p with
  | plain x => exact .plain (gapped_spread x)
  | span x => exact .span x

/-- The result has the same spans in the same order, and the same plain text between them but for
zero-width spaces beside asterisks; so it is the text without regard to these. No asterisk is left
beside a glyph in plain text, and a second run changes nothing. -/
theorem separateEmphasis_pieces (cs : List Char) :
    spanTexts (splitSpans true (separateEmphasis cs)) = spanTexts (splitSpans true cs) ∧
      List.Forall₂ GappedPiece (splitSpans true cs) (splitSpans true (separateEmphasis cs)) ∧
      (separateEmphasis cs).filter (· != zeroWidthSpace) = cs.filter (· != zeroWidthSpace) ∧
      Separated (separateEmphasis cs) ∧
      separateEmphasis (separateEmphasis cs) = separateEmphasis cs := by
  have hpieces := forall₂_gappedPiece cs
  have hagain := separateEmphasis_separateEmphasis cs
  exact ⟨(spanTexts_eq hpieces).symm, hpieces, (gapped_separateEmphasis cs).filter_eq.symm,
    separateEmphasis_eq_self_iff.1 hagain, hagain⟩

end MarkdownDocx.Markdown

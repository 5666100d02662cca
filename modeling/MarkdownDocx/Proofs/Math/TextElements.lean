import MarkdownDocx.Proofs.Math.Escaping

/-!
Text elements found among other markup. Whatever the contents look like, repairing a text escapes
the contents of its text elements and changes nothing else.
-/

set_option autoImplicit false

namespace MarkdownDocx.Math

open MarkdownDocx.Text

/-! The tags of text elements. -/

/-- What may stand in an opening tag behind its name. -/
structure OpeningInside (inside : List Char) : Prop where
  noBrackets : ∀ c ∈ inside, c ≠ '<' ∧ c ≠ '>'
  spaced : ∀ c ∈ inside.head?, isBlank c = true
  notSelfClosing : inside.getLast? ≠ some '/'

def openingTag (inside : List Char) : List Char := ['<', 'm', ':', 't'] ++ inside ++ ['>']

def closingTag (inside : List Char) : List Char := ['<', '/', 'm', ':', 't'] ++ inside ++ ['>']

def IsOpening (tag : List Char) : Prop := ∃ inside, OpeningInside inside ∧ tag = openingTag inside

def IsClosing (tag : List Char) : Prop :=
  ∃ inside, (∀ c ∈ inside, isBlank c = true) ∧ tag = closingTag inside

theorem notBracket_of_isBlank {c : Char} (h : isBlank c = true) : c ≠ '<' ∧ c ≠ '>' := by
  constructor <;> rintro rfl <;> exact absurd h (by decide)

theorem headed_openingTag {inside : List Char} (h : ∀ c ∈ inside, c ≠ '<' ∧ c ≠ '>') :
    Headed '<' (openingTag inside) := by
  refine ⟨['m', ':', 't'] ++ inside ++ ['>'], rfl, ?_⟩
  have hin : '<' ∉ inside := fun hin => (h '<' hin).1 rfl
  simp [hin]

theorem IsOpening.headed {tag : List Char} (h : IsOpening tag) : Headed '<' tag := by
  obtain ⟨inside, hin, rfl⟩ := h
  exact headed_openingTag hin.noBrackets

theorem IsClosing.headed {tag : List Char} (h : IsClosing tag) : Headed '<' tag := by
  obtain ⟨inside, hin, rfl⟩ := h
  refine ⟨['/', 'm', ':', 't'] ++ inside ++ ['>'], rfl, ?_⟩
  have hnot : '<' ∉ inside := fun hm => (notBracket_of_isBlank (hin '<' hm)).1 rfl
  simp [hnot]

theorem readTextOpening_iff {cs tag rest : List Char} :
    readTextOpening cs = some (tag, rest) ↔ IsOpening tag ∧ cs = tag ++ rest := by
  constructor
  · intro h
    refine ⟨?_, (readTextOpening_eq h).1⟩
    unfold readTextOpening at h
    split at h
    · simp only [Option.some.injEq, Prod.mk.injEq] at h
      exact ⟨[], ⟨by simp, by simp, by simp⟩, h.1.symm⟩
    · rename_i c r _ _
      split at h
      · rename_i hc
        simp only at h
        split at h
        · split at h
          · simp at h
          · rename_i hslash
            simp only [Option.some.injEq, Prod.mk.injEq] at h
            refine ⟨_, ⟨?_, by simpa using hc, by simpa using hslash⟩, h.1.symm⟩
            refine List.forall_mem_cons.2 ⟨notBracket_of_isBlank hc, fun d hd => ?_⟩
            simpa using List.all_eq_true.1 List.all_takeWhile d hd
        · simp at h
      · simp at h
    · simp at h
  · rintro ⟨⟨inside, h, rfl⟩, rfl⟩
    have hword : afterWord ['<', 'm', ':', 't'] (openingTag inside ++ rest) =
        some (inside ++ '>' :: rest) := by
      rw [afterWord_eq_some_iff]
      simp [openingTag]
    rw [readTextOpening, hword]
    cases inside with
    | nil => rfl
    | cons c r =>
      have hc : isBlank c = true := h.spaced c rfl
      have hr : ∀ d ∈ r, (d != '<' && d != '>') = true := fun d hd => by
        simpa using h.noBrackets d (List.mem_cons_of_mem c hd)
      have hslash := h.notSelfClosing
      rw [List.cons_append]
      split
      · rename_i heq
        exact absurd (List.cons.inj (Option.some.inj heq)).1 (notBracket_of_isBlank hc).2
      · rename_i c' r' _ heq
        obtain ⟨rfl, rfl⟩ := List.cons.inj (Option.some.inj heq)
        simp [hc, List.takeWhile_append_of_pos hr, List.dropWhile_append_of_pos hr, hslash,
          openingTag]
      · rename_i hnone
        exact absurd rfl (hnone c _)

theorem readTextClosing_iff {cs tag rest : List Char} :
    readTextClosing cs = some (tag, rest) ↔ IsClosing tag ∧ cs = tag ++ rest := by
  constructor
  · intro h
    refine ⟨?_, readTextClosing_eq h⟩
    unfold readTextClosing at h
    split at h
    · split at h
      · simp only [Option.some.injEq, Prod.mk.injEq] at h
        exact ⟨_, fun c hc => List.all_eq_true.1 List.all_takeWhile c hc, h.1.symm⟩
      · simp at h
    · simp at h
  · rintro ⟨⟨inside, h, rfl⟩, rfl⟩
    have hword : afterWord ['<', '/', 'm', ':', 't'] (closingTag inside ++ rest) =
        some (inside ++ '>' :: rest) := by
      rw [afterWord_eq_some_iff]
      simp [closingTag]
    have hgt : isBlank '>' = false := by decide
    rw [readTextClosing, hword]
    simp [List.takeWhile_append_of_pos h, List.dropWhile_append_of_pos h, hgt, closingTag]

/-! Segments: text elements with what stands between them. -/

/-- Whether something can be read at some place of a text. -/
def readsSomewhere (read : List Char → Option (List Char × List Char)) : List Char → Bool
  | [] => false
  | c :: r => (read (c :: r)).isSome || readsSomewhere read r

theorem readsSomewhere_eq_false_iff {P : List Char → Prop}
    {read : List Char → Option (List Char × List Char)}
    (hread : ∀ {cs tag rest}, read cs = some (tag, rest) ↔ P tag ∧ cs = tag ++ rest)
    (hne : ∀ tag, P tag → tag ≠ []) {cs : List Char} :
    readsSomewhere read cs = false ↔ Lacks P cs := by
  unfold Lacks
  induction cs with
  | nil => simpa [readsSomewhere] using hne
  | cons c cs ih =>
    have hhere : (read (c :: cs)).isSome = false ↔ ∀ tag, P tag → ¬tag <+: c :: cs := by
      cases h : read (c :: cs) with
      | none =>
        simp only [Option.isSome_none, true_iff]
        rintro tag htag ⟨rest, hrest⟩
        simp [hread.2 ⟨htag, hrest.symm⟩] at h
      | some p =>
        obtain ⟨htag, he⟩ := hread.1 h
        simp only [Option.isSome_some, Bool.true_eq_false, false_iff]
        exact fun hno => hno p.1 htag ⟨p.2, he.symm⟩
    rw [readsSomewhere, Bool.or_eq_false_iff, hhere, ih]
    simp only [List.infix_cons_iff, not_or]
    exact ⟨fun h tag htag => ⟨h.1 tag htag, h.2 tag htag⟩,
      fun h => ⟨fun tag htag => (h tag htag).1, fun tag htag => (h tag htag).2⟩⟩

instance : DecidablePred (Lacks IsOpening) := fun _ =>
  decidable_of_iff _ (readsSomewhere_eq_false_iff readTextOpening_iff fun _ h => h.headed.ne_nil)

instance : DecidablePred (Lacks IsClosing) := fun _ =>
  decidable_of_iff _ (readsSomewhere_eq_false_iff readTextClosing_iff fun _ h => h.headed.ne_nil)

/-- Only the last tag closes the element. The content may hold anything else. -/
structure TextElement.Proper (e : TextElement) : Prop where
  opening : IsOpening e.opening
  content : Lacks IsClosing e.content
  closing : IsClosing e.closing

/-- A text element and what stands between it and the next one. -/
structure Segment where
  element : TextElement
  after : List Char
  deriving DecidableEq, Repr

structure Segment.Proper (s : Segment) : Prop where
  element : s.element.Proper
  after : Lacks IsOpening s.after

def Segment.source (s : Segment) : List Char :=
  s.element.opening ++ s.element.content ++ s.element.closing ++ s.after

def Segment.repaired (s : Segment) : List Char :=
  s.element.opening ++ escapeContent s.element.content ++ s.element.closing ++ s.after

theorem readContent_append {content closing : List Char}
    (hcontent : Lacks IsClosing content) (hclosing : IsClosing closing)
    (rest : List Char) :
    readContent (content ++ (closing ++ rest)) = some (content, closing, rest) := by
  induction content with
  | nil =>
    have hread : readTextClosing (closing ++ rest) = some (closing, rest) :=
      readTextClosing_iff.2 ⟨hclosing, rfl⟩
    cases hc : closing ++ rest with
    | nil => exact absurd (List.append_eq_nil_iff.1 hc).1 hclosing.headed.ne_nil
    | cons c r =>
      rw [hc] at hread
      simp [readContent, hread]
  | cons c content ih =>
    -- a tag that began here would lie in the content, for the next tag stops it
    have hnone : readTextClosing (c :: (content ++ (closing ++ rest))) = none := by
      cases hread : readTextClosing (c :: (content ++ (closing ++ rest))) with
      | none => rfl
      | some p =>
        obtain ⟨htag, he⟩ := readTextClosing_iff.1 hread
        exact absurd he (hcontent.not_begins (fun _ h => h.headed) (by simp)
          (hclosing.headed.head? rest) htag)
    simp [readContent, hnone, ih hcontent.tail]

theorem readTextElement_proper {e : TextElement} (h : e.Proper) (rest : List Char) :
    readTextElement (e.opening ++ e.content ++ e.closing ++ rest) = some (e, rest) := by
  have hopening : readTextOpening (e.opening ++ e.content ++ e.closing ++ rest) =
      some (e.opening, e.content ++ (e.closing ++ rest)) :=
    readTextOpening_iff.2 ⟨h.opening, by simp⟩
  rw [readTextElement, hopening]
  simp [readContent_append h.content h.closing]

theorem repairChars_proper {e : TextElement} (h : e.Proper) (rest : List Char) :
    repairChars (e.opening ++ e.content ++ e.closing ++ rest) =
      e.opening ++ escapeContent e.content ++ e.closing ++ repairChars rest := by
  have hread := readTextElement_proper h rest
  cases hcs : e.opening ++ e.content ++ e.closing ++ rest with
  | nil => simp [h.opening.headed.ne_nil] at hcs
  | cons c r =>
    rw [hcs] at hread
    rw [repairChars]
    split
    · rename_i e' rest' hread'
      obtain ⟨rfl, rfl⟩ : e = e' ∧ rest = rest' := by simpa [hread] using hread'
      rfl
    · rename_i hnone
      simp [hread] at hnone

theorem readTextElement_of_opening {cs : List Char} (h : readTextOpening cs = none) :
    readTextElement cs = none := by
  rw [readTextElement, h]

theorem repairChars_skip {u r : List Char}
    (h : ∀ s, s <:+ u → s ≠ [] → readTextElement (s ++ r) = none) :
    repairChars (u ++ r) = u ++ repairChars r := by
  induction u with
  | nil => rfl
  | cons c u ih =>
    have hnone : readTextElement (c :: (u ++ r)) = none := h (c :: u) List.suffix_rfl (by simp)
    have hrest := ih fun s hs => h s (hs.trans (List.suffix_cons c u))
    rw [List.cons_append, repairChars]
    split
    · rename_i hread
      simp [hnone] at hread
    · rw [hrest, List.cons_append]

theorem repairChars_untouched {u r : List Char} (hu : Lacks IsOpening u)
    (hr : ∀ c ∈ r.head?, c = '<') : repairChars (u ++ r) = u ++ repairChars r := by
  refine repairChars_skip fun s hs hne => readTextElement_of_opening ?_
  cases hread : readTextOpening (s ++ r) with
  | none => rfl
  | some p =>
    obtain ⟨htag, he⟩ := readTextOpening_iff.1 hread
    exact absurd he ((hu.of_suffix hs).not_begins (fun _ h => h.headed) hne hr htag)

theorem repairChars_nil : repairChars [] = [] := by rw [repairChars]

/-- The segments are found one after the other: none reaches into the next. -/
theorem repairChars_segments {u : List Char} (hu : Lacks IsOpening u) (ss : List Segment)
    (hss : ∀ s ∈ ss, s.Proper) :
    repairChars (u ++ ss.flatMap Segment.source) = u ++ ss.flatMap Segment.repaired := by
  induction ss generalizing u with
  | nil => rw [repairChars_untouched hu (by simp), List.flatMap_nil, repairChars_nil]; rfl
  | cons s ss ih =>
    have hs := hss s List.mem_cons_self
    have hrest := ih hs.after fun s' hs' => hss s' (List.mem_cons_of_mem s hs')
    have hhead : ∀ c ∈ ((s :: ss).flatMap Segment.source).head?, c = '<' := by
      rw [List.flatMap_cons, Segment.source]
      simp only [List.append_assoc]
      exact hs.element.opening.headed.head? _
    rw [repairChars_untouched hu hhead, List.flatMap_cons, List.flatMap_cons, Segment.source,
      Segment.repaired, List.append_assoc _ s.after, repairChars_proper hs.element, hrest]
    simp

/-! Look-alikes. -/

theorem openingTag_inj {a b r : List Char} (ha : ∀ c ∈ a, c ≠ '<' ∧ c ≠ '>')
    (hb : ∀ c ∈ b, c ≠ '<' ∧ c ≠ '>') {r' : List Char}
    (h : openingTag a ++ r = openingTag b ++ r') : a = b := by
  have hsame : a ++ '>' :: r = b ++ '>' :: r' := by simpa [openingTag] using h
  have hinside : ∀ {cs : List Char}, (∀ c ∈ cs, c ≠ '<' ∧ c ≠ '>') → ∀ t,
      (cs ++ '>' :: t).takeWhile (· != '>') = cs := by
    intro cs hcs t
    have hne : ∀ c ∈ cs, (c != '>') = true := fun c hc => by simpa using (hcs c hc).2
    simp [List.takeWhile_append_of_pos hne]
  rw [← hinside ha r, hsame, hinside hb r']

/-- A tag that is no opening tag of a text element, though it begins like one, is left alone. -/
theorem repairChars_lookAlike {inside : List Char} (h : ∀ c ∈ inside, c ≠ '<' ∧ c ≠ '>')
    (hno : ¬OpeningInside inside) (r : List Char) :
    repairChars (openingTag inside ++ r) = openingTag inside ++ repairChars r := by
  refine repairChars_skip fun s hs hne => readTextElement_of_opening ?_
  cases hread : readTextOpening (s ++ r) with
  | none => rfl
  | some p =>
    obtain ⟨htag, he⟩ := readTextOpening_iff.1 hread
    obtain ⟨tail, htail, hlt⟩ := headed_openingTag h
    rw [htail] at hs
    rcases List.suffix_cons_iff.1 hs with rfl | hs
    · obtain ⟨inside', hin, htag⟩ := htag
      rw [← htail, htag] at he
      exact absurd (openingTag_inj h hin.noBrackets he ▸ hin) hno
    · -- further on there is no bracket that a tag could begin with
      have hhead := htag.headed.head? p.2
      cases s with
      | nil => exact absurd rfl hne
      | cons c s =>
        rw [← he] at hhead
        obtain rfl : c = '<' := hhead c rfl
        exact absurd (hs.subset List.mem_cons_self) hlt

end MarkdownDocx.Math

import MarkdownDocx.Proofs.Math.TextElements

/-!
Repairing what has been repaired. Any text whatever is cut in just one way into text elements and
what stands between them. Main statement: a repaired text is cut at the same places and between the
same tags, so that repairing it again changes nothing.
-/

set_option autoImplicit false

namespace MarkdownDocx.Math

open MarkdownDocx.Text

/-! The elements of any text. -/

/-- An element with its tags. -/
def TextElement.text (e : TextElement) : List Char := e.opening ++ e.content ++ e.closing

/-- No text element begins in a text that the rest follows. It might end there. -/
def BeginsNone (u rest : List Char) : Prop :=
  ∀ v, v <:+ u → v ≠ [] → ∀ e : TextElement, e.Proper → ∀ r, v ++ rest ≠ e.text ++ r

/-- A text cut into what stands before its first text element, and the elements with what stands
behind each. Every element begins at the first place where one can. -/
inductive Cuts : List Char → List Char → List Segment → Prop
  | last {u : List Char} (h : BeginsNone u []) : Cuts u u []
  | next {u cs v : List Char} {e : TextElement} {ss : List Segment}
      (hu : BeginsNone u (e.text ++ cs)) (he : e.Proper) (h : Cuts cs v ss) :
      Cuts (u ++ (e.text ++ cs)) u (⟨e, v⟩ :: ss)

theorem Cuts.eq_append {cs u : List Char} {ss : List Segment} (h : Cuts cs u ss) :
    cs = u ++ ss.flatMap Segment.source := by
  induction h with
  | last h => simp
  | next hu he h ih => simp [ih, Segment.source, TextElement.text]

theorem beginsNone_nil (rest : List Char) : BeginsNone [] rest :=
  fun _ hv hne => absurd (List.suffix_nil.1 hv) hne

/-! Reading finds them. -/

/-- The first closing tag is found wherever there is one. -/
theorem exists_readContent (a : List Char) {closing : List Char} (h : IsClosing closing)
    (b : List Char) : ∃ p, readContent (a ++ (closing ++ b)) = some p := by
  induction a with
  | nil =>
    have hnone : Lacks IsClosing [] := by decide
    exact ⟨_, readContent_append hnone h b⟩
  | cons c a ih =>
    obtain ⟨p, hp⟩ := ih
    rw [List.cons_append, readContent]
    split
    · exact ⟨_, rfl⟩
    · exact ⟨_, congrArg (Option.map _) hp⟩

theorem readContent_sound {cs content closing rest : List Char}
    (h : readContent cs = some (content, closing, rest)) :
    Lacks IsClosing content ∧ IsClosing closing ∧ cs = content ++ (closing ++ rest) := by
  induction cs generalizing content with
  | nil => simp [readContent] at h
  | cons c r ih =>
    rw [readContent] at h
    split at h
    · rename_i tag rest' htag
      simp only [Option.some.injEq, Prod.mk.injEq] at h
      obtain ⟨rfl, rfl, rfl⟩ := h
      obtain ⟨hclosing, heq⟩ := readTextClosing_iff.1 htag
      exact ⟨by decide, hclosing, heq⟩
    · rename_i hnone
      obtain ⟨⟨a, k, b⟩, hp, heq⟩ := Option.map_eq_some_iff.1 h
      simp only [Prod.mk.injEq] at heq
      obtain ⟨rfl, rfl, rfl⟩ := heq
      obtain ⟨hlacks, hclosing, rfl⟩ := ih hp
      refine ⟨fun tag htag hin => ?_, hclosing, rfl⟩
      rcases List.infix_cons_iff.1 hin with ⟨z, hz⟩ | hin
      · -- a tag at the first place would have been read
        have hread : readTextClosing (c :: (a ++ (k ++ b))) = some (tag, z ++ (k ++ b)) := by
          refine readTextClosing_iff.2 ⟨htag, ?_⟩
          rw [← List.cons_append, ← hz, List.append_assoc]
        rw [hnone] at hread
        cases hread
      · exact hlacks tag htag hin

theorem readTextElement_iff {cs rest : List Char} {e : TextElement} :
    readTextElement cs = some (e, rest) ↔ e.Proper ∧ cs = e.text ++ rest := by
  constructor
  · intro h
    unfold readTextElement at h
    split at h
    · rename_i opening r hopening
      obtain ⟨⟨a, k, b⟩, hp, heq⟩ := Option.map_eq_some_iff.1 h
      simp only [Prod.mk.injEq] at heq
      obtain ⟨rfl, rfl⟩ := heq
      obtain ⟨htag, rfl⟩ := readTextOpening_iff.1 hopening
      obtain ⟨hlacks, hclosing, rfl⟩ := readContent_sound hp
      exact ⟨⟨htag, hlacks, hclosing⟩, by simp [TextElement.text]⟩
    · cases h
  · rintro ⟨he, rfl⟩
    exact readTextElement_proper he rest

theorem readTextElement_eq_none_iff {cs : List Char} :
    readTextElement cs = none ↔ ∀ e : TextElement, e.Proper → ∀ r, cs ≠ e.text ++ r := by
  rw [Option.eq_none_iff_forall_ne_some]
  exact ⟨fun h e he r heq => h (e, r) (readTextElement_iff.2 ⟨he, heq⟩),
    fun h p hp => h p.1 (readTextElement_iff.1 hp).1 p.2 (readTextElement_iff.1 hp).2⟩

theorem beginsNone_cons_iff {c : Char} {u rest : List Char} :
    BeginsNone (c :: u) rest ↔
      readTextElement (c :: (u ++ rest)) = none ∧ BeginsNone u rest := by
  rw [readTextElement_eq_none_iff]
  constructor
  · intro h
    exact ⟨h (c :: u) List.suffix_rfl (by simp), fun v hv => h v (hv.trans (List.suffix_cons c u))⟩
  · rintro ⟨hfirst, hothers⟩ v hv hne
    rcases List.suffix_cons_iff.1 hv with rfl | hv
    · exact hfirst
    · exact hothers v hv hne

theorem TextElement.Proper.exists_cons {e : TextElement} (h : e.Proper) (rest : List Char) :
    ∃ r, e.text ++ rest = '<' :: r := by
  obtain ⟨tail, htail, _⟩ := h.opening.headed
  exact ⟨tail ++ e.content ++ e.closing ++ rest, by simp [TextElement.text, htail]⟩

/-- Where an element follows, an opening tag would begin one. -/
theorem beginsNone_iff_lacks {e : TextElement} (he : e.Proper) {u cs : List Char} :
    BeginsNone u (e.text ++ cs) ↔ Lacks IsOpening u := by
  constructor
  · rintro h opening hopening ⟨a, b, rfl⟩
    obtain ⟨⟨content, closing, rest⟩, hread⟩ :=
      exists_readContent (b ++ e.opening ++ e.content) he.closing cs
    obtain ⟨hlacks, hclosing, heq⟩ := readContent_sound hread
    have hsuffix : opening ++ b <:+ a ++ opening ++ b := ⟨a, by simp⟩
    have hne : opening ++ b ≠ [] := by simp [hopening.headed.ne_nil]
    refine h _ hsuffix hne ⟨opening, content, closing⟩ ⟨hopening, hlacks, hclosing⟩ rest ?_
    simpa [TextElement.text] using heq
  · intro h v hv hne e' he' r heq
    obtain ⟨t, ht⟩ := he.exists_cons cs
    have hbegins : v ++ (e.text ++ cs) = e'.opening ++ (e'.content ++ e'.closing ++ r) := by
      simpa [TextElement.text] using heq
    exact (h.of_suffix hv).not_begins (fun _ hword => hword.headed) hne (by simp [ht, eq_comm])
      he'.opening hbegins

/-! Every text is cut in one way. -/

theorem Cuts.cons {c : Char} {cs u : List Char} {ss : List Segment}
    (hnone : readTextElement (c :: cs) = none) (h : Cuts cs u ss) : Cuts (c :: cs) (c :: u) ss := by
  cases h with
  | last h => exact .last (beginsNone_cons_iff.2 ⟨by simpa using hnone, h⟩)
  | next hu he h => exact .next (beginsNone_cons_iff.2 ⟨hnone, hu⟩) he h

theorem exists_cuts (cs : List Char) : ∃ u ss, Cuts cs u ss := by
  fun_induction repairChars cs with
  | case1 => exact ⟨[], [], .last (beginsNone_nil [])⟩
  | case2 c r e rest hread ih =>
    obtain ⟨v, ss, h⟩ := ih
    obtain ⟨he, heq⟩ := readTextElement_iff.1 hread
    refine ⟨[], ⟨e, v⟩ :: ss, ?_⟩
    rw [heq]
    exact .next (beginsNone_nil _) he h
  | case3 c r hread ih =>
    obtain ⟨u, ss, h⟩ := ih
    exact ⟨c :: u, ss, h.cons hread⟩

/-- An element does not begin inside of what is cut off before the first one. -/
theorem BeginsNone.exists_append {u u' rest cs : List Char} {e : TextElement} (he : e.Proper)
    (h : BeginsNone u rest) (heq : u ++ rest = u' ++ (e.text ++ cs)) : ∃ z, u' = u ++ z := by
  rcases List.append_eq_append_iff.1 heq with ⟨z, hz, _⟩ | ⟨z, hz, hrest⟩
  · exact ⟨z, hz⟩
  · cases z with
    | nil => exact ⟨[], by simpa using hz.symm⟩
    | cons c z => exact absurd hrest.symm (h (c :: z) ⟨u', hz.symm⟩ (by simp) e he cs)

theorem Cuts.unique {cs u u' : List Char} {ss ss' : List Segment} (h : Cuts cs u ss)
    (h' : Cuts cs u' ss') : u' = u ∧ ss' = ss := by
  induction h generalizing u' ss' with
  | @last u hu =>
    cases h' with
    | last hu' => exact ⟨rfl, rfl⟩
    | @next _ cs _ e _ hu' he _ =>
      obtain ⟨t, ht⟩ := he.exists_cons cs
      exact absurd (List.append_nil _) (hu _ (List.suffix_append u' _) (by simp [ht]) e he cs)
  | @next u cs v e ss hu he h ih =>
    generalize hcs : u ++ (e.text ++ cs) = whole at h'
    cases h' with
    | last hu' =>
      subst hcs
      obtain ⟨t, ht⟩ := he.exists_cons cs
      exact absurd (List.append_nil _) (hu' _ (List.suffix_append u _) (by simp [ht]) e he cs)
    | @next _ cs' v' e' ss' hu' he' h' =>
      obtain ⟨z, hz⟩ := hu.exists_append he' hcs
      obtain ⟨z', hz'⟩ := hu'.exists_append he hcs.symm
      have hsame : u' = u := by
        have hlen := congrArg List.length (hz.trans (congrArg (· ++ z) hz'))
        simp only [List.length_append] at hlen
        have hnil : z' = [] := List.eq_nil_of_length_eq_zero (by omega)
        rw [hz', hnil, List.append_nil]
      subst hsame
      have hread : readTextElement (e.text ++ cs) = some (e, cs) := readTextElement_iff.2 ⟨he, rfl⟩
      rw [readTextElement_iff.2 ⟨he', List.append_cancel_left hcs⟩] at hread
      cases hread
      obtain ⟨rfl, rfl⟩ := ih h'
      exact ⟨rfl, rfl⟩

/-! Repairing keeps the cut. -/

def TextElement.escaped (e : TextElement) : TextElement :=
  { e with content := escapeContent e.content }

def Segment.escaped (s : Segment) : Segment := { s with element := s.element.escaped }

theorem Segment.source_escaped (s : Segment) : s.escaped.source = s.repaired := rfl

theorem TextElement.Proper.escaped {e : TextElement} (h : e.Proper) : e.escaped.Proper where
  opening := h.opening
  content := by
    rintro tag htag hin
    obtain ⟨tail, rfl, _⟩ := htag.headed
    exact (not_mem_escapeContent e.content).1 (hin.subset List.mem_cons_self)
  closing := h.closing

theorem Cuts.repairChars_eq {cs u : List Char} {ss : List Segment} (h : Cuts cs u ss) :
    repairChars cs = u ++ ss.flatMap Segment.repaired := by
  have hskip : ∀ {u rest : List Char}, BeginsNone u rest →
      repairChars (u ++ rest) = u ++ repairChars rest := by
    intro u rest hu
    refine repairChars_skip fun v hv hne => ?_
    exact readTextElement_eq_none_iff.2 (hu v hv hne)
  induction h with
  | last hu =>
    have hwhole := hskip hu
    simpa [repairChars_nil] using hwhole
  | @next u cs v e ss hu he h ih =>
    rw [hskip hu, TextElement.text, repairChars_proper he, ih]
    simp [Segment.repaired]

/-- The elements that are found in a repaired text are those of the text, their contents escaped. -/
theorem Cuts.repaired {cs u : List Char} {ss : List Segment} (h : Cuts cs u ss) :
    Cuts (u ++ ss.flatMap Segment.repaired) u (ss.map Segment.escaped) := by
  induction h with
  | last hu => simpa using Cuts.last hu
  | @next u cs v e ss hu he h ih =>
    have hu' : BeginsNone u (e.escaped.text ++ (v ++ ss.flatMap Segment.repaired)) :=
      (beginsNone_iff_lacks he.escaped).2 ((beginsNone_iff_lacks he).1 hu)
    have hnext := Cuts.next hu' he.escaped ih
    simpa [Segment.repaired, Segment.escaped, TextElement.text, TextElement.escaped] using hnext

/-- A content without brackets whose ampersands all begin references stays as it is. -/
theorem escapeContent_eq_self {cs : List Char} (hbrackets : '<' ∉ cs ∧ '>' ∉ cs)
    (hampersands : ∀ r, '&' :: r <:+ cs → beginsReference r = true) : escapeContent cs = cs := by
  induction cs with
  | nil => rfl
  | cons c cs ih =>
    simp only [List.mem_cons, not_or] at hbrackets
    have hrest := ih ⟨hbrackets.1.2, hbrackets.2.2⟩
      fun r hr => hampersands r (hr.trans (List.suffix_cons c cs))
    have hspelled : spelling c cs = .itself c := by
      rw [spelling, if_neg (Ne.symm hbrackets.1.1), if_neg (Ne.symm hbrackets.2.1)]
      refine if_neg ?_
      simp only [Bool.and_eq_true, decide_eq_true_eq, Bool.not_eq_true', not_and,
        Bool.not_eq_false]
      rintro rfl
      exact hampersands cs List.suffix_rfl
    rw [escapeContent_cons, hspelled, hrest]
    rfl

theorem escapeContent_escapeContent (cs : List Char) :
    escapeContent (escapeContent cs) = escapeContent cs :=
  escapeContent_eq_self (not_mem_escapeContent cs) fun _ hr =>
    beginsReference_iff.2 (reference_of_ampersand hr)

theorem Segment.escaped_escaped (s : Segment) : s.escaped.escaped = s.escaped := by
  simp [Segment.escaped, TextElement.escaped, escapeContent_escapeContent]

/-- A text is cut in one way, and repairing it keeps this cut: the tags and all that stands between
the elements are the same, in the same order, and only the contents are escaped. A second repair
finds nothing to do. -/
theorem repair_repair (s : String) : ∃ u ss,
    (∀ u' ss', Cuts s.toList u' ss' ↔ u' = u ∧ ss' = ss) ∧
      s.toList = u ++ ss.flatMap Segment.source ∧
      (∀ u' ss', Cuts (repair s).toList u' ss' ↔ u' = u ∧ ss' = ss.map Segment.escaped) ∧
      (repair s).toList = u ++ (ss.map Segment.escaped).flatMap Segment.source ∧
      (∀ t ∈ ss.map Segment.escaped,
        '<' ∉ t.element.content ∧ '>' ∉ t.element.content ∧
          ∀ r, '&' :: r <:+ t.element.content → ∃ ref b, IsReference ref ∧ '&' :: r = ref ++ b) ∧
      repair (repair s) = repair s := by
  obtain ⟨u, ss, hcut⟩ := exists_cuts s.toList
  have hrepaired : (repair s).toList = u ++ ss.flatMap Segment.repaired := by
    rw [repair, String.toList_ofList, hcut.repairChars_eq]
  have hcut' : Cuts (repair s).toList u (ss.map Segment.escaped) := by
    rw [hrepaired]
    exact hcut.repaired
  have hsources : (ss.map Segment.escaped).flatMap Segment.source = ss.flatMap Segment.repaired := by
    rw [List.flatMap_map]
    rfl
  refine ⟨u, ss, fun u' ss' => ⟨hcut.unique, ?_⟩, hcut.eq_append,
    fun u' ss' => ⟨hcut'.unique, ?_⟩, hcut'.eq_append, ?_, ?_⟩
  · rintro ⟨rfl, rfl⟩
    exact hcut
  · rintro ⟨rfl, rfl⟩
    exact hcut'
  · intro t ht
    obtain ⟨seg, _, rfl⟩ := List.mem_map.1 ht
    exact ⟨(not_mem_escapeContent _).1, (not_mem_escapeContent _).2,
      fun r hr => reference_of_ampersand hr⟩
  · -- the second repair escapes contents that are escaped
    have htwice : (ss.map Segment.escaped).flatMap Segment.repaired =
        ss.flatMap Segment.repaired := by
      rw [List.flatMap_map]
      refine congrArg (fun f => ss.flatMap f) (funext fun seg => ?_)
      rw [← Segment.source_escaped, Segment.escaped_escaped]
      rfl
    rw [repair, hcut'.repairChars_eq, htwice, ← hrepaired, String.ofList_toList]

end MarkdownDocx.Math

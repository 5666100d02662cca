import MarkdownDocx.Proofs.Math.RoundTrip
import MarkdownDocx.Proofs.Math.TextElements

/-!
Repaired markup. Around its text elements it is what it was, and an equation whose texts hold
comparison signs is read with just these texts.
-/

set_option autoImplicit false

namespace MarkdownDocx.Math

open MarkdownDocx.Text

/-! Equations whose texts are written as they are. -/

/-- A content between the tags of a name in the math namespace. -/
def enclosed (name content : List Char) : List Char :=
  '<' :: 'm' :: ':' :: (name ++ '>' :: (content ++ '<' :: '/' :: 'm' :: ':' :: (name ++ ['>'])))

def rawRun (content : List Char) : List Char := enclosed ['r'] (enclosed ['t'] content)

def rawRuns (contents : List (List Char)) : List Char :=
  enclosed ['o', 'M', 'a', 't', 'h'] (contents.flatMap rawRun)

def rawEquation (texts : List String) : String := String.ofList (rawRuns (texts.map String.toList))

/-- What becomes of markup in front of further tags. -/
def RepairsTo (cs cs' : List Char) : Prop :=
  ∀ r : List Char, (∀ c ∈ r.head?, c = '<') → repairChars (cs ++ r) = cs' ++ repairChars r

theorem RepairsTo.append {a a' b b' : List Char} (ha : RepairsTo a a') (hb : RepairsTo b b')
    (hhead : ∀ c ∈ b.head?, c = '<') : RepairsTo (a ++ b) (a' ++ b') := by
  intro r hr
  have hbr : ∀ c ∈ (b ++ r).head?, c = '<' := by
    cases b with
    | nil => exact hr
    | cons c b => simpa using hhead
  rw [List.append_assoc, ha _ hbr, hb r hr, List.append_assoc]

theorem repairsTo_untouched {u : List Char} (h : Lacks IsOpening u) : RepairsTo u u :=
  fun _ hr => repairChars_untouched h hr

theorem RepairsTo.enclosed {name content content' : List Char}
    (hstart : Lacks IsOpening ('<' :: 'm' :: ':' :: (name ++ ['>'])))
    (hend : Lacks IsOpening ('<' :: '/' :: 'm' :: ':' :: (name ++ ['>'])))
    (h : RepairsTo content content') (hhead : ∀ c ∈ content.head?, c = '<') :
    RepairsTo (enclosed name content) (enclosed name content') := by
  have hboth := ((repairsTo_untouched hstart).append h hhead).append
    (repairsTo_untouched hend) (by simp)
  simpa [Math.enclosed] using hboth

theorem repairsTo_rawRun {content : List Char} (h : Lacks IsClosing content) :
    RepairsTo (rawRun content) (rawRun (escapeContent content)) := by
  have hproper : TextElement.Proper ⟨openingTag [], content, closingTag []⟩ :=
    ⟨⟨[], ⟨by simp, by simp, by simp⟩, rfl⟩, h, ⟨[], by simp, rfl⟩⟩
  have htext : RepairsTo (enclosed ['t'] content) (enclosed ['t'] (escapeContent content)) := by
    intro r _
    simpa [enclosed, openingTag, closingTag] using repairChars_proper hproper r
  exact htext.enclosed (by decide) (by decide) (by simp [enclosed])

theorem head?_rawRuns (contents : List (List Char)) :
    ∀ c ∈ (contents.flatMap rawRun).head?, c = '<' := by
  cases contents <;> simp [rawRun, enclosed]

theorem repairsTo_rawRuns {contents : List (List Char)} (h : ∀ c ∈ contents, Lacks IsClosing c) :
    RepairsTo (rawRuns contents) (rawRuns (contents.map escapeContent)) := by
  have hruns : RepairsTo (contents.flatMap rawRun)
      ((contents.map escapeContent).flatMap rawRun) := by
    induction contents with
    | nil => exact fun _ _ => rfl
    | cons content contents ih =>
      rw [List.forall_mem_cons] at h
      exact (repairsTo_rawRun h.1).append (ih h.2) (head?_rawRuns contents)
  exact hruns.enclosed (by decide) (by decide) (head?_rawRuns contents)

theorem repair_rawEquation {texts : List String} (h : ∀ s ∈ texts, Lacks IsClosing s.toList) :
    repair (rawEquation texts) =
      String.ofList (rawRuns ((texts.map String.toList).map escapeContent)) := by
  have hcontents : ∀ c ∈ texts.map String.toList, Lacks IsClosing c := by
    simpa using h
  have hrepaired := repairsTo_rawRuns hcontents [] (by simp)
  rw [List.append_nil, repairChars_nil, List.append_nil] at hrepaired
  rw [repair, rawEquation, String.toList_ofList, hrepaired]

/-! Reading such an equation. -/

/-- A text with comparison signs of its own, which XML could hold if they were escaped. -/
structure ComparingText (s : String) : Prop where
  legal : Legal s
  noReturn : '\r' ∉ s.toList
  compares : '<' ∈ s.toList ∨ '>' ∈ s.toList
  closingFree : Lacks IsClosing s.toList
  referenceFree : Lacks IsReference s.toList

theorem ComparingText.notBlank {s : String} (h : ComparingText s) : isBlankString s = false := by
  cases hb : isBlankString s with
  | false => rfl
  | true =>
    have hall := List.all_eq_true.1 hb
    rcases h.compares with hmem | hmem
    · exact absurd (hall _ hmem) (by decide)
    · exact absurd (hall _ hmem) (by decide)

theorem ComparingText.ne_empty {s : String} (h : ComparingText s) : s ≠ "" := by
  rintro rfl
  simpa using h.compares

def plainRun (s : String) : Xml.Node := box "r" [box "t" [.text s]]

theorem written_box (name : String) (children : List Xml.Node) :
    (box name children).written = enclosed name.toList (Xml.writtenAll children) := by
  simp [box, Xml.Node.written, Xml.mathName, Xml.Name.marked, Xml.writtenAttributes, enclosed]

theorem written_plainRun {s : String} (h : ComparingText s) :
    (plainRun s).written = rawRun (escapeContent s.toList) := by
  rw [escapeContent_eq_flatMap h.referenceFree h.noReturn]
  simp [plainRun, written_box, rawRun, Xml.writtenAll, Xml.Node.written, Xml.escapedText]

theorem writtenAll_plainRuns {texts : List String} (h : ∀ s ∈ texts, ComparingText s) :
    Xml.writtenAll (texts.map plainRun) =
      ((texts.map String.toList).map escapeContent).flatMap rawRun := by
  induction texts with
  | nil => rfl
  | cons s texts ih =>
    rw [List.forall_mem_cons] at h
    simp [Xml.writtenAll, written_plainRun h.1, ih h.2]

theorem faithfulAll_plainRuns {texts : List String} (h : ∀ s ∈ texts, ComparingText s) :
    Xml.FaithfulAll (texts.map plainRun) := by
  induction texts with
  | nil => trivial
  | cons s texts ih =>
    rw [List.forall_mem_cons] at h
    have htext : Xml.FaithfulAll [.text s] :=
      ⟨⟨h.1.ne_empty, h.1.legal⟩, trivial, by simp [Xml.startsWithText]⟩
    exact faithfulAll_box (by decide) (faithfulAll_box (by decide) htext faithfulAll_nil) (ih h.2)

theorem depthAll_plainRuns (texts : List String) : Xml.depthAll (texts.map plainRun) ≤ 2 := by
  induction texts with
  | nil => simp [Xml.depthAll]
  | cons s texts ih => simp [Xml.depthAll, plainRun, box, Xml.Node.depth, ih]

theorem readNodes_plainRuns {texts : List String} (h : ∀ s ∈ texts, ComparingText s) :
    readNodes (texts.map plainRun) = texts.map .run := by
  induction texts with
  | nil => rfl
  | cons s texts ih =>
    rw [List.forall_mem_cons] at h
    simp [readNodes, plainRun, readRun, Xml.leadingText, h.1.notBlank, ih h.2]

theorem readEquation_repair_rawEquation {texts : List String} (h : ∀ s ∈ texts, ComparingText s) :
    readEquation (repair (rawEquation texts)) = some (texts.map .run) := by
  have hrepaired := repair_rawEquation fun s hs => (h s hs).closingFree
  have hwritten : rawRuns ((texts.map String.toList).map escapeContent) =
      (box "oMath" (texts.map plainRun)).written := by
    rw [written_box, writtenAll_plainRuns h]
    rfl
  have hread : Xml.readFragment (box "oMath" (texts.map plainRun)).written =
      some [box "oMath" (texts.map plainRun)] := by
    have hdepth : (box "oMath" (texts.map plainRun)).depth < Xml.greatestDepth := by
      have := depthAll_plainRuns texts
      simp only [box, Xml.Node.depth, Xml.greatestDepth]
      omega
    have hfaithful : (box "oMath" (texts.map plainRun)).Faithful :=
      faithful_box (by decide) (faithfulAll_plainRuns h)
    exact (Xml.readFragment_written hfaithful).trans (if_pos hdepth)
  rw [hrepaired, hwritten, readEquation, String.toList_ofList, dropDeclaration_written, hread]
  simp [equationNodes, firstEquationIn, firstEquation, box, readNodes_plainRuns h]

/-! Markup repaired. -/

/-- In markup cut into text elements and what stands between them, the contents of the elements are
escaped and all the rest stays: tags that look alike, too. Texts with comparison signs are read as
they were meant. -/
theorem repair_segments (u : List Char) (ss : List Segment) (hu : Lacks IsOpening u)
    (hss : ∀ s ∈ ss, s.Proper) :
    repair (String.ofList (u ++ ss.flatMap Segment.source)) =
        String.ofList (u ++ ss.flatMap Segment.repaired) ∧
      (∀ s ∈ ss, Restorable s.element.content) ∧
      (∀ inside r, (∀ c ∈ inside, c ≠ '<' ∧ c ≠ '>') → ¬OpeningInside inside →
        repair (String.ofList (openingTag inside ++ r)) =
          String.ofList (openingTag inside) ++ repair (String.ofList r)) ∧
      ∀ texts : List String, (∀ s ∈ texts, ComparingText s) →
        readEquation (repair (rawEquation texts)) = some (texts.map .run) := by
  refine ⟨?_, fun s _ => restorable s.element.content, fun inside r h hno => ?_,
    fun texts h => readEquation_repair_rawEquation h⟩
  · rw [repair, String.toList_ofList, repairChars_segments hu ss hss]
  · rw [repair, repair, String.toList_ofList, String.toList_ofList,
      repairChars_lookAlike h hno, String.ofList_append]

/-- A content that looks like an opening tag itself. -/
def lookAlikeSegment : Segment :=
  ⟨⟨openingTag " xml:space=\"preserve\"".toList, "a<m:t> & &lt;".toList, closingTag " ".toList⟩,
    "</m:r>".toList⟩

theorem lookAlikeSegment_proper : lookAlikeSegment.Proper where
  element :=
    { opening := ⟨_, ⟨by simp, by simp [isBlank], by decide⟩, rfl⟩
      content := by decide
      closing := ⟨_, List.all_eq_true.1 (by decide), rfl⟩ }
  after := by decide

theorem comparingText_less : ComparingText "a < b" where
  legal := by unfold Legal; decide
  noReturn := by decide
  compares := by decide
  closingFree := by decide
  referenceFree := lacks_reference (by decide)

theorem repair_segments_lookAlike :
    Lacks IsOpening "<m:r><m:type/>".toList ∧ lookAlikeSegment.Proper ∧
      repair "<m:r><m:type/><m:t xml:space=\"preserve\">a<m:t> & &lt;</m:t ></m:r>" =
        "<m:r><m:type/><m:t xml:space=\"preserve\">a&lt;m:t&gt; &amp; &lt;</m:t ></m:r>" ∧
      repair "<m:t /><m:tPr>x</m:tPr>" = "<m:t />" ++ repair "<m:tPr>x</m:tPr>" ∧
      readEquation (repair (rawEquation ["a < b"])) = some [.run "a < b"] := by
  have hu : Lacks IsOpening "<m:r><m:type/>".toList := by decide
  have hss : ∀ s ∈ [lookAlikeSegment], s.Proper := by
    simpa using lookAlikeSegment_proper
  obtain ⟨hrepair, _, hlike, hread⟩ :=
    repair_segments "<m:r><m:type/>".toList [lookAlikeSegment] hu hss
  refine ⟨hu, lookAlikeSegment_proper, ?_, ?_, ?_⟩
  · exact hrepair
  · exact hlike " /".toList "<m:tPr>x</m:tPr>".toList (by simp)
      fun h => h.notSelfClosing (by decide)
  · exact hread ["a < b"] (by simpa using comparingText_less)

/-- A text that is read as another one, or not at all: XML takes a carriage return for a line feed
and a reference for what it refers to, and knows not every character. -/
theorem readEquation_repair_lineEnd :
    (∀ s ∈ ["a\r<b", "a<&gt;", "\u0001<"], '<' ∈ s.toList ∧ Lacks IsClosing s.toList) ∧
      readEquation (repair (rawEquation ["a\r<b"])) ≠ some [.run "a\r<b"] ∧
      (readEquation (repair (rawEquation ["a\r<b"]))).map plainTexts = some "a\n<b" ∧
      (readEquation (repair (rawEquation ["a<&gt;"]))).map plainTexts = some "a<>" ∧
      (readEquation (repair (rawEquation ["\u0001<"]))).map plainTexts = none := by
  have hreturn : (readEquation (repair (rawEquation ["a\r<b"]))).map plainTexts =
      some "a\n<b" := by
    rw [repair_rawEquation (by decide)]
    decide +kernel
  refine ⟨by decide, fun h => ?_, hreturn, ?_, ?_⟩
  · rw [h] at hreturn
    revert hreturn
    decide
  · rw [repair_rawEquation (by decide)]
    decide +kernel
  · rw [repair_rawEquation (by decide)]
    decide +kernel

end MarkdownDocx.Math

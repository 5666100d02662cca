import MarkdownDocx.Proofs.Layout.Drawn
import MarkdownDocx.Proofs.Layout.QuoteDepth
import MarkdownDocx.Style.Template

/-!
What a layout takes from the styles. It is the base indent of lists and nothing else: under other
styles the lists outside of quotes move by the difference, and all the rest stays as it is.
-/

set_option autoImplicit false

namespace MarkdownDocx.Layout

open MarkdownDocx.Markdown (Inline Block)

def Paragraph.leftIndent? (p : Paragraph) : Option Int := p.indent.bind Indent.left

/-- A paragraph whose first line moves, but only if it is one of a list and has no left indent. -/
def Paragraph.shifted (d : Int) (p : Paragraph) : Paragraph :=
  if p.style = .listParagraph ∧ p.leftIndent? = none then
    { p with indent := p.indent.map fun i => { i with firstLine := i.firstLine.map (· + d) } }
  else p

/-- Tables do not move. -/
def Element.shifted (d : Int) : Element → Element
  | .paragraph p => .paragraph (p.shifted d)
  | .table t => .table t

section Shifted

variable {p : Paragraph} (d : Int)

theorem Paragraph.shifted_of_style (h : p.style ≠ .listParagraph) : p.shifted d = p :=
  if_neg fun hboth => h hboth.1

theorem Paragraph.shifted_of_left {n : Int} (h : p.leftIndent? = some n) :
    p.shifted d = p :=
  if_neg fun hboth => by simp [h] at hboth

theorem Paragraph.shifted_of_unindented (h : p.indent = none) : p.shifted d = p := by
  unfold shifted
  split
  · rw [h]
    exact congrArg (fun i => { p with indent := i }) h.symm
  · rfl

end Shifted

/-- Only the indent in an item that is outside of quotes counts from the base. -/
theorem shifted_inItem (base d : Int) (around : List Ancestor) (runs : List Run) :
    ({ runs := runs, style := .listParagraph,
       indent := some (indentInItem base around) } : Paragraph).shifted d =
      { runs := runs
        style := .listParagraph
        indent := some (indentInItem (base + d) around) } := by
  cases hleft : quoteLeft around with
  | none =>
    simp [Paragraph.shifted, Paragraph.leftIndent?, indentInItem, hleft, Int.add_right_comm]
  | some left =>
    rw [Paragraph.shifted_of_left (n := left)]
    · simp [indentInItem, hleft]
    · simp [Paragraph.leftIndent?, indentInItem, hleft]

namespace Place

variable (tools : Math.Tools) (m n : Int)

/-- The same place in two layouts, whose lists count from `m` and from `n`. -/
theorem paragraph_shifted (p : Place) (children : List Inline) :
    p.paragraph ⟨tools, .ok m⟩ children =
      (p.paragraph ⟨tools, .ok n⟩ children).shifted (m - n) := by
  obtain ⟨origin, around, first⟩ := p
  cases around with
  | nil => exact (Paragraph.shifted_of_unindented _ rfl).symm
  | cons ancestor outer =>
    cases ancestor with
    | quote => exact (Paragraph.shifted_of_style _ (by simp [paragraph])).symm
    | item marker =>
      have hbase : n + (m - n) = m := by omega
      have hitem := shifted_inItem n (m - n) (.item marker :: outer)
        (markerRuns (Place.marker ⟨origin, .item marker :: outer, first⟩) ++
          runsOf ⟨tools, .ok n⟩ children)
      rw [hbase] at hitem
      exact hitem.symm

theorem heading_shifted (p : Place) (depth : Int) (children : List Inline) :
    p.heading ⟨tools, .ok m⟩ depth children =
      (p.heading ⟨tools, .ok n⟩ depth children).shifted (m - n) := by
  obtain ⟨origin, around, first⟩ := p
  cases around with
  | nil => exact (Paragraph.shifted_of_unindented _ rfl).symm
  | cons ancestor outer =>
    cases ancestor with
    | quote => exact paragraph_shifted tools m n ⟨origin, .quote :: outer, first⟩ children
    | item marker => exact (Paragraph.shifted_of_unindented _ rfl).symm

theorem element_shifted (p : Place) :
    p.element ⟨tools, .ok m⟩ = (p.element ⟨tools, .ok n⟩).shifted (m - n) := by
  unfold element
  cases p.origin with
  | heading depth children =>
    exact congrArg Element.paragraph (heading_shifted tools m n p depth children)
  | paragraph children => exact congrArg Element.paragraph (paragraph_shifted tools m n p children)
  | formula source display =>
    exact congrArg Element.paragraph (Paragraph.shifted_of_unindented _ rfl).symm
  | line text => exact congrArg Element.paragraph (Paragraph.shifted_of_unindented _ rfl).symm
  | table rows => rfl

end Place

theorem listBaseIndent_congr {styles styles' : Style.StyleTable}
    (hsize : (styles.style .listItem).size = (styles'.style .listItem).size)
    (hindent : (styles.style .listItem).indent = (styles'.style .listItem).indent) :
    listBaseIndent styles = listBaseIndent styles' := by
  simp only [listBaseIndent, hsize, hindent]

/-- Under other styles a document has the same elements, but that the lists outside of quotes move by
as much as their base indent does; and it reports the same. Nothing changes at all if the styles have
the same size for list items and agree on whether these are indented. -/
theorem flow_shifted (tools : Math.Tools) (styles styles' : Style.StyleTable)
    (blocks : List Block) :
    (∀ m n, listBaseIndent styles = .ok m → listBaseIndent styles' = .ok n →
      (flow tools styles blocks).events = (flow tools styles' blocks).events ∧
      ∃ elements, (flow tools styles' blocks).result = .ok elements ∧
        (flow tools styles blocks).result = .ok (elements.map (Element.shifted (m - n)))) ∧
    ((styles.style .listItem).size = (styles'.style .listItem).size →
      (styles.style .listItem).indent = (styles'.style .listItem).indent →
      flow tools styles blocks = flow tools styles' blocks) := by
  refine ⟨fun m n hm hn => ?_, fun hsize hindent => ?_⟩
  · unfold flow
    rw [hm, hn]
    obtain ⟨shifted, hshifted, hdrawn⟩ :=
      blocksElements_draws (c := ⟨tools, .ok m⟩) rfl blocks
    obtain ⟨elements, helements, hdrawn'⟩ :=
      blocksElements_draws (c := ⟨tools, .ok n⟩) rfl blocks
    refine ⟨hdrawn.events_eq.trans hdrawn'.events_eq.symm, elements, helements, ?_⟩
    rw [hshifted, blocksElements_places _ true blocks _ hshifted,
      blocksElements_places _ true blocks _ helements, List.map_map]
    exact congrArg Except.ok (List.map_congr_left fun p _ => p.element_shifted tools m n)
  · unfold flow
    rw [listBaseIndent_congr hsize hindent]

/-- A list in a list, and one in a quote. -/
def listsAround : List Block :=
  [.list false 1 [[.paragraph [.text "a"], .list true 1 [[.paragraph [.math "x"]]]]],
    .quote [.list true 1 [[.paragraph [.text "b"]]]]]

theorem flow_shifted_lists :
    let styles := Style.government.styles
    let retitled := styles.set .title {}
    listBaseIndent styles = .ok 640 ∧ listBaseIndent Style.StyleTable.default = .ok 0 ∧
      (∃ elements,
        (flow blankTools Style.StyleTable.default listsAround).result = .ok elements ∧
        (flow blankTools styles listsAround).result =
          .ok (elements.map (Element.shifted 640))) ∧
      styles.style .title ≠ retitled.style .title ∧
      (styles.style .listItem).size = (retitled.style .listItem).size ∧
      (styles.style .listItem).indent = (retitled.style .listItem).indent ∧
      flow blankTools styles listsAround = flow blankTools retitled listsAround := by
  intro styles retitled
  obtain ⟨hshifted, -⟩ :=
    flow_shifted blankTools styles Style.StyleTable.default listsAround
  obtain ⟨-, hsame⟩ := flow_shifted blankTools styles retitled listsAround
  exact ⟨rfl, rfl, (hshifted 640 0 rfl rfl).2, by decide, rfl, rfl, hsame rfl rfl⟩

end MarkdownDocx.Layout

import MarkdownDocx.Proofs.Layout.Leaves
import MarkdownDocx.Proofs.Logged

/-!
Layout is local. Each element is made at a place of the tree, and it depends on what stands there
and on the quotes and the items around it, but on nothing beside it. The laws that the indents,
styles and markers follow are told here place by place, without the recursion that threads them
through the tree.
-/

set_option autoImplicit false

namespace MarkdownDocx.Layout

open MarkdownDocx.Markdown (Inline Block)
open MarkdownDocx.Number (NotIntegral)

/-- What can stand around a block: a quote, or an item with the marker that its list has for it.
An item outside of any list has none. -/
inductive Ancestor where
  | quote
  | item (marker : Option String)
  deriving DecidableEq, Repr

inductive Origin where
  | heading (depth : Int) (children : List Inline)
  | paragraph (children : List Inline)
  | formula (source : String) (display : Bool)
  | line (text : String)
  | table (rows : List Markdown.Row)
  deriving Repr

def Origin.leaves : Origin → List String
  | .heading _ children => inlinesLeaves children
  | .paragraph children => inlinesLeaves children
  | .formula source _ => [source]
  | .line text => [text]
  | .table rows => rows.flatMap fun row => row.flatMap inlinesLeaves

/-- An origin with its ancestors, the nearest first. -/
structure Place where
  origin : Origin
  around : List Ancestor
  /-- Whether nothing comes before it in its nearest ancestor. -/
  first : Bool
  deriving Repr

mutual
/-- The places of a block at which elements are made, depth first and from left to right. -/
def blockPlaces (around : List Ancestor) (first : Bool) : Block → List Place
  | .heading depth children => [⟨.heading depth children, around, first⟩]
  | .paragraph children => [⟨.paragraph children, around, first⟩]
  | .list ordered start items => itemsPlaces around ordered start items
  | .item children => blocksPlaces (.item none :: around) true children
  | .table _ rows => [⟨.table rows, around, first⟩]
  | .quote children => blocksPlaces (.quote :: around) true children
  | .html value => (htmlLines value).map fun text => ⟨.line text, around, first⟩
  | .math formula display => [⟨.formula formula display, around, first⟩]
  | .unsupported _ _ => []

def blocksPlaces (around : List Ancestor) (first : Bool) : List Block → List Place
  | [] => []
  | b :: rest => blockPlaces around first b ++ blocksPlaces around false rest

def itemsPlaces (around : List Ancestor) (ordered : Bool) (number : Int) :
    List (List Block) → List Place
  | [] => []
  | item :: rest =>
    blocksPlaces (.item (some (listMarker ordered number)) :: around) true item ++
      itemsPlaces around ordered (number + 1) rest
end

/-! ## What the ancestors bring about -/

/-- The number of quotes from here outwards that stand directly in one another. -/
def quoteRun : List Ancestor → Nat
  | .quote :: rest => quoteRun rest + 1
  | _ => 0

/-- What is around the lists that are nested in one another from here outwards. -/
def outsideLists : List Ancestor → List Ancestor
  | .item (some _) :: rest => outsideLists rest
  | around => around

/-- The level of the nearest item: how many more there are around it, each directly in the next, up
to one that is outside of any list. -/
def itemLevel : List Ancestor → Nat
  | .item (some _) :: .item marker :: rest => itemLevel (.item marker :: rest) + 1
  | _ => 0

def quotesLeft : Nat → Option Int
  | 0 => none
  | n + 1 => some (quoteIndentStep * (n + 1 : Nat))

/-- The left indent that the items of a list take from the quotes right around it. -/
def quoteLeft (around : List Ancestor) : Option Int := quotesLeft (quoteRun (outsideLists around))

/-- The indent in the nearest item. The level of a list counts from the base indent, but from
nought in a quote. -/
def indentInItem (base : Int) (around : List Ancestor) : Indent :=
  match quoteLeft around with
  | none => { firstLine := some (base + listIndentStep * itemLevel around) }
  | some left => { left := some left, firstLine := some (listIndentStep * (itemLevel around + 1)) }

def indentInQuote (around : List Ancestor) : Indent :=
  { left := quotesLeft (quoteRun around), firstLine := some 0 }

/-- The base indent of lists; one that is no integer is never used. -/
def Context.base (c : Context) : Int := (c.listBase.toOption).getD 0

namespace Place

/-- A marker goes to a paragraph that comes first in its item. -/
def marker (p : Place) : Option String :=
  match p.origin, p.around, p.first with
  | .paragraph _, .item marker :: _, true => marker
  | _, _, _ => none

def runsOf (c : Context) (children : List Inline) : List Run :=
  (inlinesRuns c.tools false false children).2

/-- A paragraph with the look of its nearest ancestor. -/
def paragraph (c : Context) (p : Place) (children : List Inline) : Paragraph :=
  match p.around with
  | [] => { runs := runsOf c children }
  | .quote :: _ =>
    { runs := runsOf c children, style := .blockQuote, indent := some (indentInQuote p.around) }
  | .item _ :: _ =>
    { runs := markerRuns p.marker ++ runsOf c children
      style := .listParagraph
      indent := some (indentInItem c.base p.around) }

/-- A heading is told from a paragraph unless it is right in a quote. -/
def heading (c : Context) (p : Place) (depth : Int) (children : List Inline) : Paragraph :=
  match p.around with
  | .quote :: _ => p.paragraph c children
  | _ => { runs := runsOf c children, style := headingStyle depth }

def element (c : Context) (p : Place) : Element :=
  match p.origin with
  | .heading depth children => .paragraph (p.heading c depth children)
  | .paragraph children => .paragraph (p.paragraph c children)
  | .formula source display =>
    .paragraph
      { runs := [formulaRun (Math.drawFormula c.tools source display).2 source display false]
        style := .formula
        alignment := some .center }
  | .line text => .paragraph { runs := [.text text false false] }
  | .table rows => .table { rows := (tableRows c.tools true rows).2 }

end Place

namespace Place

theorem paragraph_runs (c : Context) (p : Place) {children : List Inline}
    (h : p.origin = .paragraph children) :
    (p.paragraph c children).runs = markerRuns p.marker ++ runsOf c children := by
  obtain ⟨origin, around, first⟩ := p
  obtain rfl : origin = .paragraph children := h
  cases around with
  | nil => rfl
  | cons a outer => cases a <;> rfl

theorem heading_runs (c : Context) (p : Place) (depth : Int) (children : List Inline) :
    (p.heading c depth children).runs = runsOf c children := by
  obtain ⟨origin, around, first⟩ := p
  cases around with
  | nil => rfl
  | cons a outer => cases a <;> rfl

/-- What stands at a place is in its element, behind the marker if one goes there. -/
theorem element_sources (c : Context) (p : Place) :
    (p.element c).runs.map Run.source =
      (markerRuns p.marker).map Run.source ++ p.origin.leaves := by
  cases horigin : p.origin with
  | heading depth children =>
    simp [element, Element.runs, Element.paragraphs, heading_runs, runsOf, inlinesRuns_source,
      marker, markerRuns, Origin.leaves, horigin]
  | paragraph children =>
    simp [element, Element.runs, Element.paragraphs, paragraph_runs c p horigin, runsOf,
      inlinesRuns_source, Origin.leaves, horigin]
  | formula source display =>
    simp [element, Element.runs, Element.paragraphs, marker, markerRuns, Origin.leaves, horigin]
  | line text =>
    simp [element, Element.runs, Element.paragraphs, marker, markerRuns, Origin.leaves, horigin,
      Run.source]
  | table rows =>
    have hrows := rows_sources (tableRows c.tools true rows).2
    rw [tableRows_sources] at hrows
    simpa [element, Element.runs, Element.paragraphs, marker, markerRuns, Origin.leaves, horigin,
      List.flatMap_def, Function.comp_def] using hrows

end Place

/-! ## The elements are made at the places -/

/-- Whatever is laid out successfully are the elements of these places in this order. -/
def MadeAt (c : Context) (x : Flow (List Element)) (places : List Place) : Prop :=
  ∀ elements, x.result = .ok elements → elements = places.map (Place.element c)

theorem madeAt_of_result {c : Context} {x : Flow (List Element)} {places : List Place}
    (h : x.result = .ok (places.map (Place.element c))) : MadeAt c x places := by
  intro elements hx
  rw [h] at hx
  exact (Except.ok.inj hx).symm

theorem MadeAt.append {c : Context} {x y : Flow (List Element)} {ps qs : List Place}
    (hx : MadeAt c x ps) (hy : MadeAt c y qs) :
    MadeAt c (x >>= fun first => y >>= fun others => pure (first ++ others)) (ps ++ qs) := by
  intro elements h
  obtain ⟨first, hfirst, h⟩ := Logged.bind_result_eq_ok.1 h
  obtain ⟨others, hothers, h⟩ := Logged.bind_result_eq_ok.1 h
  cases h
  rw [hx first hfirst, hy others hothers, List.map_append]

theorem MadeAt.after {c : Context} {α : Type} {r : Except NotIntegral α}
    {f : α → Flow (List Element)} {places : List Place}
    (h : ∀ a, r = .ok a → MadeAt c (f a) places) : MadeAt c (Logged.ofExcept r >>= f) places := by
  intro elements helements
  obtain ⟨a, ha, hf⟩ := Logged.bind_result_eq_ok.1 helements
  exact h a ha elements hf

/-- The indent that is threaded through lists is the one that the ancestors bring about. -/
theorem itemIndent_eq {c : Context} {around : List Ancestor} {indent : Indent}
    (h : itemIndent c.listBase (itemLevel around) (quoteLeft around) = .ok indent) :
    indent = indentInItem c.base around := by
  unfold itemIndent at h
  unfold indentInItem
  cases hleft : quoteLeft around with
  | none =>
    rw [hleft] at h
    cases hbase : c.listBase with
    | error e => simp [hbase, listIndent, Except.map] at h
    | ok n =>
      simp only [hbase, listIndent, Except.map, Except.ok.injEq] at h
      simp [← h, Context.base, hbase, Except.toOption]
  | some left =>
    rw [hleft] at h
    exact (Except.ok.inj h).symm

/-- Blocks that are laid out alike with these ancestors and with none. -/
def Fresh (around : List Ancestor) : Block → Prop
  | .paragraph _ => around = []
  | .list _ _ _ => around = []
  | .heading _ _ => quoteRun around = 0
  | .quote _ => quoteRun around = 0
  | _ => True

theorem fresh_nil (b : Block) : Fresh [] b := by
  cases b <;> simp [Fresh, quoteRun]

mutual
theorem blockElements_places (c : Context) (around : List Ancestor) (first : Bool) : ∀ b : Block,
    Fresh around b → MadeAt c (blockElements c b) (blockPlaces around first b)
  | .heading depth children, h => by
    refine madeAt_of_result ?_
    cases around with
    | nil => rfl
    | cons a outer =>
      cases a with
      | quote => simp [Fresh, quoteRun] at h
      | item marker => rfl
  | .paragraph children, h => by
    obtain rfl : around = [] := h
    exact madeAt_of_result rfl
  | .list ordered start items, h => by
    obtain rfl : around = [] := h
    exact listElements_places c [] ordered start (fun _ => rfl) items
  | .item children, _ => by
    simp only [blockElements, blockPlaces]
    exact .after fun indent hindent =>
      itemElements_places c none around true hindent children
  | .table _ rows, _ => madeAt_of_result rfl
  | .quote children, h => by
    have hquotes := quoteElements_places c around true children
    rwa [show quoteRun around = 0 from h] at hquotes
  | .html value, _ => by
    refine madeAt_of_result ?_
    simp [blockElements, blockPlaces, htmlParagraphs, htmlLines, Place.element]
  | .math formula display, _ => madeAt_of_result rfl
  | .unsupported _ _, _ => madeAt_of_result rfl

/-- The level and the left indent that a list is given have to be those that its ancestors bring
about. -/
theorem listElements_places (c : Context) (around : List Ancestor) (ordered : Bool) (number : Int)
    {level : Nat} (hlevel : ∀ marker, itemLevel (.item (some marker) :: around) = level) :
    ∀ items : List (List Block),
    MadeAt c (listElements c ordered number level (quoteLeft around) items)
      (itemsPlaces around ordered number items)
  | [] => madeAt_of_result rfl
  | item :: rest => by
    have hrest := listElements_places c around ordered (number + 1) hlevel rest
    simp only [listElements, itemsPlaces]
    refine .after fun indent hindent => .append ?_ hrest
    rw [← hlevel (listMarker ordered number)] at hindent ⊢
    exact itemElements_places c (some (listMarker ordered number)) around true hindent item

theorem itemElements_places (c : Context) (marker : Option String) (outer : List Ancestor)
    (first : Bool) {indent : Indent}
    (hindent : itemIndent c.listBase (itemLevel (.item marker :: outer))
      (quoteLeft (.item marker :: outer)) = .ok indent) : ∀ bs : List Block,
    MadeAt c (itemElements c (if first then marker else none) indent
      (itemLevel (.item marker :: outer)) (quoteLeft (.item marker :: outer)) bs)
      (blocksPlaces (.item marker :: outer) first bs)
  | [] => madeAt_of_result rfl
  | b :: rest => by
    have hb := blockElements_places c (.item marker :: outer) first b
    have hrest := itemElements_places c marker outer false hindent rest
    simp only [blocksPlaces]
    cases b with
    | paragraph children =>
      simp only [itemElements]
      refine .append (madeAt_of_result ?_) hrest
      rw [itemIndent_eq hindent]
      cases first <;> rfl
    | list ordered start items =>
      simp only [itemElements]
      exact .append (listElements_places c _ ordered start (fun _ => rfl) items) hrest
    | _ =>
      simp only [itemElements]
      exact .append (hb (by simp [Fresh, quoteRun])) hrest

theorem quoteElements_places (c : Context) (outer : List Ancestor) (first : Bool) :
    ∀ bs : List Block,
    MadeAt c (quoteElements c (quoteRun outer + 1) bs) (blocksPlaces (.quote :: outer) first bs)
  | [] => madeAt_of_result rfl
  | b :: rest => by
    have hb := blockElements_places c (.quote :: outer) first b
    have hrest := quoteElements_places c outer false rest
    simp only [blocksPlaces]
    cases b with
    | paragraph children =>
      simp only [quoteElements]
      exact .append (madeAt_of_result rfl) hrest
    | heading depth children =>
      simp only [quoteElements]
      exact .append (madeAt_of_result rfl) hrest
    | quote children =>
      simp only [quoteElements]
      exact .append (quoteElements_places c (.quote :: outer) true children) hrest
    | list ordered start items =>
      simp only [quoteElements]
      have hlist := listElements_places c (.quote :: outer) ordered start (fun _ => rfl) items
      exact .append hlist hrest
    | _ =>
      simp only [quoteElements]
      exact .append (hb trivial) hrest
end

theorem blocksElements_places (c : Context) (first : Bool) : ∀ bs : List Block,
    MadeAt c (blocksElements c bs) (blocksPlaces [] first bs)
  | [] => madeAt_of_result rfl
  | b :: rest => by
    simp only [blocksElements, blocksPlaces]
    exact .append (blockElements_places c [] first b (fresh_nil b))
      (blocksElements_places c false rest)

def documentPlaces (blocks : List Block) : List Place := blocksPlaces [] true blocks

theorem flow_eq_places {tools : Math.Tools} {styles : Style.StyleTable} {blocks : List Block}
    {elements : List Element} (h : (flow tools styles blocks).result = .ok elements) :
    elements = (documentPlaces blocks).map (Place.element ⟨tools, listBaseIndent styles⟩) :=
  blocksElements_places ⟨tools, listBaseIndent styles⟩ true blocks elements h

theorem exists_flow (tools : Math.Tools) {styles : Style.StyleTable} {n : Int}
    (h : listBaseIndent styles = .ok n) (blocks : List Block) :
    ∃ elements, (flow tools styles blocks).result = .ok elements := by
  have hc : (Context.mk tools (listBaseIndent styles)).listBase = .ok n := h
  obtain ⟨elements, helements, _⟩ := blocksElements_pieces hc blocks
  exact ⟨elements, helements⟩

end MarkdownDocx.Layout

import MarkdownDocx.Proofs.Layout.Formula
import MarkdownDocx.Proofs.Layout.Leaves

/-!
The formulas of a document. Each one is handed to the tools once, in the order of the source and
wherever it stands, so the log of a document is the logs of its formulas one after the other. A
formula is either drawn or warned of, and nothing else is.
-/

set_option autoImplicit false

namespace MarkdownDocx

def Event.isWarning : Event → Bool
  | .warning _ => true
  | _ => false

end MarkdownDocx

namespace MarkdownDocx.Math

/-- A formula as it stands in a document: on its own, or in a line of text. -/
structure Formula where
  source : String
  display : Bool
  deriving DecidableEq, Repr

namespace Formula

/-- What drawing a formula reports. -/
def log (tools : Tools) (f : Formula) : List Event := (drawFormula tools f.source f.display).1

/-- The equation that a formula is drawn as. -/
def equation? (tools : Tools) (f : Formula) : Option (List Node) :=
  match (drawFormula tools f.source f.display).2 with
  | .equation nodes => some nodes
  | .source => none

/-- Whether the check lets a formula pass. -/
def accepted (f : Formula) : Bool := (Latex.check f.source).toOption.isSome

/-- The formula of a call of the renderer. -/
def ofCall? : Event → Option Formula
  | .rendered source display => some ⟨source, display⟩
  | _ => none

end Formula

/-! ## One formula -/

theorem Course.warnings_calls (formula : String) (display : Bool) (c : Course) :
    (c.calls formula display).countP Event.isWarning = 0 := by
  cases c <;> rfl

theorem Formula.drawn_or_warned (tools : Tools) (f : Formula) :
    (∃ nodes, f.equation? tools = some nodes ∧ (f.log tools).countP Event.isWarning = 0) ∨
      f.equation? tools = none ∧ (f.log tools).countP Event.isWarning = 1 := by
  have hcalls := (course tools f.source f.display).warnings_calls f.source f.display
  cases hread : (course tools f.source f.display).markup?.bind readEquation with
  | some nodes =>
    have hdrawn := drawFormula_of_some hread
    exact .inl ⟨nodes, by simp [equation?, hdrawn], by simp [log, hdrawn, hcalls]⟩
  | none =>
    obtain ⟨message, hdrawn⟩ := drawFormula_of_none hread
    refine .inr ⟨by simp [equation?, hdrawn], ?_⟩
    simp [log, hdrawn, hcalls, Event.isWarning]

theorem Formula.rendered_calls (tools : Tools) (f : Formula) :
    ((course tools f.source f.display).calls f.source f.display).filterMap ofCall? =
      [f].filter accepted := by
  unfold course
  cases hcheck : Latex.check f.source with
  | error fault => simp [Course.calls, accepted, hcheck, Except.toOption]
  | ok u =>
    have haccepted : f.accepted = true := by simp [accepted, hcheck, Except.toOption]
    cases tools.render f.source f.display with
    | error e => simp [Course.calls, ofCall?, haccepted]
    | ok markup =>
      cases htransduce : tools.transduce markup <;>
        simp [Course.calls, ofCall?, haccepted, htransduce]

/-- The renderer is called once for a formula that is accepted, and else not at all. -/
theorem Formula.rendered_log (tools : Tools) (f : Formula) :
    (f.log tools).filterMap ofCall? = [f].filter accepted := by
  rw [← rendered_calls tools f]
  cases hread : (course tools f.source f.display).markup?.bind readEquation with
  | some nodes => rw [log, drawFormula_of_some hread]
  | none =>
    obtain ⟨message, hdrawn⟩ := drawFormula_of_none hread
    simp [log, hdrawn, ofCall?]

/-! ## Formulas in a row -/

theorem rendered_drawn (tools : Tools) (fs : List Formula) :
    (fs.flatMap (Formula.log tools)).filterMap Formula.ofCall? = fs.filter Formula.accepted := by
  induction fs with
  | nil => rfl
  | cons f rest ih =>
    rw [List.flatMap_cons, List.filterMap_append, f.rendered_log, ih, ← List.filter_append,
      List.singleton_append]

end MarkdownDocx.Math

namespace MarkdownDocx.Layout

open MarkdownDocx.Markdown (Inline Block)
open MarkdownDocx.Math (Formula)
open MarkdownDocx.Number (NotIntegral)

mutual
/-- The formulas of an inline node, from left to right. -/
def inlineFormulas : Inline → List Formula
  | .text _ => []
  | .strong children => inlinesFormulas children
  | .emphasis children => inlinesFormulas children
  | .code _ => []
  | .link _ children => inlinesFormulas children
  | .math formula => [⟨formula, false⟩]
  | .unsupported _ _ => []

def inlinesFormulas : List Inline → List Formula
  | [] => []
  | i :: rest => inlineFormulas i ++ inlinesFormulas rest
end

mutual
/-- The formulas of a block, depth first and from left to right. -/
def blockFormulas : Block → List Formula
  | .heading _ children => inlinesFormulas children
  | .paragraph children => inlinesFormulas children
  | .list _ _ items => itemsFormulas items
  | .item children => blocksFormulas children
  | .table _ rows => rows.flatMap fun row => row.flatMap inlinesFormulas
  | .quote children => blocksFormulas children
  | .html _ => []
  | .math formula display => [⟨formula, display⟩]
  | .unsupported _ _ => []

def blocksFormulas : List Block → List Formula
  | [] => []
  | b :: rest => blockFormulas b ++ blocksFormulas rest

def itemsFormulas : List (List Block) → List Formula
  | [] => []
  | item :: rest => blocksFormulas item ++ itemsFormulas rest
end

/-- The run of a formula that is drawn. -/
def equationRun? (tools : Math.Tools) (f : Formula) : Option Run :=
  (f.equation? tools).map fun nodes => .equation nodes f.display f.source

/-! ## Runs of drawn formulas -/

@[simp] theorem isEquation_text (value : String) (bold italic : Bool) :
    (Run.text value bold italic).isEquation = false := rfl

@[simp] theorem isEquation_equation (nodes : List Math.Node) (display : Bool) (formula : String) :
    (Run.equation nodes display formula).isEquation = true := rfl

/-- No formula is both drawn and warned of, and none is neither. -/
theorem length_drawn (tools : Math.Tools) (fs : List Formula) :
    (fs.filterMap (equationRun? tools)).length +
      (fs.flatMap (Formula.log tools)).countP Event.isWarning = fs.length := by
  induction fs with
  | nil => rfl
  | cons f rest ih =>
    rw [List.flatMap_cons, List.countP_append, List.length_cons]
    rcases f.drawn_or_warned tools with ⟨nodes, hdrawn, hwarned⟩ | ⟨hdrawn, hwarned⟩
    · have hrun : equationRun? tools f = some (.equation nodes f.display f.source) := by
        rw [equationRun?, hdrawn, Option.map_some]
      rw [List.filterMap_cons_some hrun, List.length_cons]
      omega
    · have hrun : equationRun? tools f = none := by rw [equationRun?, hdrawn, Option.map_none]
      rw [List.filterMap_cons_none hrun]
      omega

/-- What is reported is what these formulas report, and the equations among the runs are theirs. -/
structure Drawn (tools : Math.Tools) (formulas : List Formula) (events : List Event)
    (runs : List Run) : Prop where
  events_eq : events = formulas.flatMap (Formula.log tools)
  equations_eq : runs.filter Run.isEquation = formulas.filterMap (equationRun? tools)

section Drawn

variable {tools : Math.Tools} {fs gs : List Formula} {es es' : List Event} {rs rs' : List Run}

theorem Drawn.append (h : Drawn tools fs es rs) (h' : Drawn tools gs es' rs') :
    Drawn tools (fs ++ gs) (es ++ es') (rs ++ rs') where
  events_eq := by rw [h.events_eq, h'.events_eq, List.flatMap_append]
  equations_eq := by
    rw [List.filter_append, h.equations_eq, h'.equations_eq, List.filterMap_append]

theorem drawn_nil : Drawn tools [] [] [] := ⟨rfl, rfl⟩

/-- Text is drawn without formulas. -/
theorem drawn_texts (h : ∀ r ∈ rs, r.isEquation = false) : Drawn tools [] [] rs :=
  ⟨rfl, List.filter_eq_nil_iff.2 (by simpa using h)⟩

theorem drawn_text (value : String) (bold italic : Bool) :
    Drawn tools [] [] [.text value bold italic] := ⟨rfl, rfl⟩

end Drawn

theorem drawn_formulaRun (tools : Math.Tools) (formula : String) (display bold : Bool) :
    Drawn tools [⟨formula, display⟩] (Math.drawFormula tools formula display).1
      [formulaRun (Math.drawFormula tools formula display).2 formula display bold] where
  events_eq := (List.flatMap_singleton _ _).symm
  equations_eq := by
    unfold equationRun? Formula.equation?
    cases h : (Math.drawFormula tools formula display).2 <;> simp [formulaRun, h]

mutual
theorem inlineRuns_drawn (tools : Math.Tools) (bold italic : Bool) : ∀ i : Inline,
    Drawn tools (inlineFormulas i) (inlineRuns tools bold italic i).1
      (inlineRuns tools bold italic i).2
  | .text value => drawn_text value bold italic
  | .strong children => inlinesRuns_drawn tools true italic children
  | .emphasis children => inlinesRuns_drawn tools bold true children
  | .code value => drawn_text value bold italic
  | .link _ children => inlinesRuns_drawn tools bold italic children
  | .math formula => drawn_formulaRun tools formula false bold
  | .unsupported _ _ => drawn_nil

theorem inlinesRuns_drawn (tools : Math.Tools) (bold italic : Bool) : ∀ is : List Inline,
    Drawn tools (inlinesFormulas is) (inlinesRuns tools bold italic is).1
      (inlinesRuns tools bold italic is).2
  | [] => drawn_nil
  | i :: rest => (inlineRuns_drawn tools bold italic i).append
      (inlinesRuns_drawn tools bold italic rest)
end

theorem rowCells_drawn (tools : Math.Tools) (header : Bool) (row : Markdown.Row) :
    Drawn tools (row.flatMap inlinesFormulas) (rowCells tools header row).1
      ((rowCells tools header row).2.flatMap Paragraph.runs) := by
  induction row with
  | nil => exact drawn_nil
  | cons cell rest ih => exact (inlinesRuns_drawn tools header false cell).append ih

theorem tableRows_drawn (tools : Math.Tools) (header : Bool) (rows : List Markdown.Row) :
    Drawn tools (rows.flatMap fun row => row.flatMap inlinesFormulas)
      (tableRows tools header rows).1
      (((tableRows tools header rows).2.flatMap Row.cells).flatMap Paragraph.runs) := by
  induction rows generalizing header with
  | nil => exact drawn_nil
  | cons row rest ih =>
    have hrow := (rowCells_drawn tools header row).append (ih false)
    rwa [← List.flatMap_append] at hrow

/-! ## Blocks -/

/-- Laying out succeeds and draws just these formulas in this order. -/
def Draws (tools : Math.Tools) (x : Flow (List Element)) (formulas : List Formula) : Prop :=
  ∃ elements, x.result = .ok elements ∧
    Drawn tools formulas x.events (elements.flatMap Element.runs)

section Draws

variable {tools : Math.Tools} {x y : Flow (List Element)} {fs gs : List Formula}

theorem draws_nil : Draws tools (pure []) [] := ⟨[], rfl, drawn_nil⟩

theorem Draws.append (hx : Draws tools x fs) (hy : Draws tools y gs) :
    Draws tools (x >>= fun first => y >>= fun others => pure (first ++ others)) (fs ++ gs) := by
  obtain ⟨es, r⟩ := x
  obtain ⟨es', r'⟩ := y
  obtain ⟨first, rfl, hfirst⟩ := hx
  obtain ⟨others, rfl, hothers⟩ := hy
  refine ⟨first ++ others, rfl, ?_⟩
  simpa using hfirst.append hothers

theorem Draws.after {α : Type} {r : Except NotIntegral α} {a : α} {f : α → Flow (List Element)}
    (hr : r = .ok a) (h : Draws tools (f a) fs) : Draws tools (Logged.ofExcept r >>= f) fs := by
  subst hr
  exact h

end Draws

theorem draws_paragraphOf (tools : Math.Tools) (marker : Option String) (children : List Inline)
    {shape : List Run → Paragraph}
    (h : ∀ runs, (shape runs).runs = markerRuns marker ++ runs) :
    Draws tools (paragraphOf tools children shape) (inlinesFormulas children) := by
  have hmarker : Drawn tools [] [] (markerRuns marker) := drawn_texts (by
    cases marker <;> simp [markerRuns])
  refine ⟨_, rfl, ?_⟩
  simpa [paragraphOf, Element.runs, Element.paragraphs, h] using
    hmarker.append (inlinesRuns_drawn tools false false children)

theorem draws_formulaParagraph (tools : Math.Tools) (formula : String) (display : Bool) :
    Draws tools (formulaParagraph tools formula display) [⟨formula, display⟩] :=
  ⟨_, rfl, drawn_formulaRun tools formula display false⟩

theorem draws_htmlParagraphs (tools : Math.Tools) (value : String) :
    Draws tools (pure (htmlParagraphs value)) [] := by
  refine ⟨_, rfl, drawn_texts fun r hr => ?_⟩
  obtain ⟨line, -, rfl⟩ : ∃ line, line ∈ Text.lines value.toList ∧
      Run.text (String.ofList line) false false = r := by
    simpa [htmlParagraphs, Element.runs, Element.paragraphs, eq_comm] using hr
  rfl

theorem draws_tableOf (tools : Math.Tools) (rows : List Markdown.Row) :
    Draws tools (tableOf tools rows) (rows.flatMap fun row => row.flatMap inlinesFormulas) := by
  refine ⟨_, rfl, ?_⟩
  simpa [tableOf, Element.runs, Element.paragraphs] using tableRows_drawn tools true rows

mutual
theorem blockElements_draws {c : Context} {n : Int} (hc : c.listBase = .ok n) : ∀ b : Block,
    Draws c.tools (blockElements c b) (blockFormulas b)
  | .heading _ children => draws_paragraphOf c.tools none children fun _ => rfl
  | .paragraph children => draws_paragraphOf c.tools none children fun _ => rfl
  | .list ordered start items => listElements_draws hc ordered start 0 none items
  | .item children => by
    obtain ⟨indent, hindent⟩ := itemIndent_ok hc 0 none
    simp only [blockElements, blockFormulas]
    exact .after hindent (itemElements_draws hc none indent 0 none children)
  | .table _ rows => draws_tableOf c.tools rows
  | .quote children => quoteElements_draws hc 1 children
  | .html value => draws_htmlParagraphs c.tools value
  | .math formula display => draws_formulaParagraph c.tools formula display
  | .unsupported _ _ => draws_nil

theorem blocksElements_draws {c : Context} {n : Int} (hc : c.listBase = .ok n) :
    ∀ bs : List Block, Draws c.tools (blocksElements c bs) (blocksFormulas bs)
  | [] => draws_nil
  | b :: rest => by
    simp only [blocksElements, blocksFormulas]
    exact .append (blockElements_draws hc b) (blocksElements_draws hc rest)

theorem listElements_draws {c : Context} {n : Int} (hc : c.listBase = .ok n) (ordered : Bool)
    (number : Int) (level : Nat) (quoteLeft : Option Int) : ∀ items : List (List Block),
    Draws c.tools (listElements c ordered number level quoteLeft items) (itemsFormulas items)
  | [] => draws_nil
  | item :: rest => by
    obtain ⟨indent, hindent⟩ := itemIndent_ok hc level quoteLeft
    have hitem :=
      itemElements_draws hc (some (listMarker ordered number)) indent level quoteLeft item
    have hrest := listElements_draws hc ordered (number + 1) level quoteLeft rest
    simp only [listElements, itemsFormulas]
    exact .after hindent (.append hitem hrest)

theorem itemElements_draws {c : Context} {n : Int} (hc : c.listBase = .ok n)
    (marker : Option String) (indent : Indent) (level : Nat) (quoteLeft : Option Int) :
    ∀ bs : List Block,
    Draws c.tools (itemElements c marker indent level quoteLeft bs) (blocksFormulas bs)
  | [] => draws_nil
  | b :: rest => by
    have hb := blockElements_draws hc b
    have hrest := itemElements_draws hc none indent level quoteLeft rest
    cases b with
    | paragraph children =>
      simp only [itemElements, blocksFormulas, blockFormulas]
      exact .append (draws_paragraphOf c.tools marker children fun _ => rfl) hrest
    | list ordered start items =>
      have hitems := listElements_draws hc ordered start (level + 1) quoteLeft items
      simp only [itemElements, blocksFormulas, blockFormulas]
      exact .append hitems hrest
    | _ =>
      simp only [itemElements, blocksFormulas]
      exact .append hb hrest

theorem quoteElements_draws {c : Context} {n : Int} (hc : c.listBase = .ok n) (depth : Nat) :
    ∀ bs : List Block, Draws c.tools (quoteElements c depth bs) (blocksFormulas bs)
  | [] => draws_nil
  | b :: rest => by
    have hb := blockElements_draws hc b
    have hrest := quoteElements_draws hc depth rest
    cases b with
    | paragraph children =>
      simp only [quoteElements, blocksFormulas, blockFormulas]
      exact .append (draws_paragraphOf c.tools none children fun _ => rfl) hrest
    | heading _ children =>
      simp only [quoteElements, blocksFormulas, blockFormulas]
      exact .append (draws_paragraphOf c.tools none children fun _ => rfl) hrest
    | quote children =>
      simp only [quoteElements, blocksFormulas, blockFormulas]
      exact .append (quoteElements_draws hc (depth + 1) children) hrest
    | list ordered start items =>
      have hitems := listElements_draws hc ordered start 0 (some (quoteIndentStep * depth)) items
      simp only [quoteElements, blocksFormulas, blockFormulas]
      exact .append hitems hrest
    | _ =>
      simp only [quoteElements, blocksFormulas]
      exact .append hb hrest
end

/-- Each formula of a document is drawn once and in the order of the source, whatever the tools do.
The log is that of its formulas, in which the renderer is called for those that the check accepts;
the equations in the document are those of its formulas; and whatever is no equation is one
warning. -/
theorem flow_formulas (tools : Math.Tools) (styles : Style.StyleTable) {n : Int}
    (h : listBaseIndent styles = .ok n) (blocks : List Block) :
    ∃ elements, (flow tools styles blocks).result = .ok elements ∧
      (flow tools styles blocks).events = (blocksFormulas blocks).flatMap (Formula.log tools) ∧
      (flow tools styles blocks).events.filterMap Formula.ofCall? =
        (blocksFormulas blocks).filter Formula.accepted ∧
      (elements.flatMap Element.runs).filter Run.isEquation =
        (blocksFormulas blocks).filterMap (equationRun? tools) ∧
      countEquations elements + (flow tools styles blocks).events.countP Event.isWarning =
        (blocksFormulas blocks).length := by
  have hc : (Context.mk tools (listBaseIndent styles)).listBase = .ok n := h
  obtain ⟨elements, hresult, hevents, hequations⟩ := blocksElements_draws hc blocks
  have hlog : (flow tools styles blocks).events = _ := hevents
  refine ⟨elements, hresult, hlog, ?_, hequations, ?_⟩
  · rw [hlog, Math.rendered_drawn]
  · rw [countEquations, List.countP_eq_length_filter, hequations, hlog, length_drawn]

/-- Tools that can draw but one formula, and draw nothing for it. -/
def choosyTools : Math.Tools where
  render formula _ := .ok formula
  transduce markup := if markup = "x" then .ok "" else .error ⟨"RuntimeError", "xslt"⟩
  markupFault markup := "no markup: " ++ markup

/-- Formulas in a heading, in a quoted list, in both rows of a table and on their own. One of them has
a brace too many. -/
def scatteredFormulas : List Block :=
  [.heading 1 [.strong [.math "x"]],
    .quote [.list true 1 [[.paragraph [.link "u" [.emphasis [.math "y"]]], .math "\x7d" true]]],
    .table [none] [[[.math "z"]], [[.text "a", .math "x"]]], .math "z" true]

theorem flow_formulas_scattered :
    listBaseIndent Style.StyleTable.default = .ok 0 ∧
      ∃ elements,
        (flow choosyTools Style.StyleTable.default scatteredFormulas).result = .ok elements ∧
        (flow choosyTools Style.StyleTable.default scatteredFormulas).events.filterMap
            Formula.ofCall? =
          [⟨"x", false⟩, ⟨"y", false⟩, ⟨"z", false⟩, ⟨"x", false⟩, ⟨"z", true⟩] ∧
        ((elements.flatMap Element.runs).filter Run.isEquation).map Run.source = ["x", "x"] ∧
        countEquations elements +
          (flow choosyTools Style.StyleTable.default scatteredFormulas).events.countP
            Event.isWarning = 6 := by
  have hformulas : blocksFormulas scatteredFormulas = [⟨"x", false⟩, ⟨"y", false⟩, ⟨"\x7d", true⟩,
      ⟨"z", false⟩, ⟨"x", false⟩, ⟨"z", true⟩] := by decide
  obtain ⟨elements, hresult, -, hcalls, hequations, hcount⟩ :=
    flow_formulas choosyTools Style.StyleTable.default rfl scatteredFormulas
  rw [hformulas] at hcalls hequations hcount
  have hsources := congrArg (List.map Run.source) hequations
  exact ⟨rfl, elements, hresult, hcalls.trans (by cbv), hsources.trans (by decide +kernel), hcount⟩

end MarkdownDocx.Layout

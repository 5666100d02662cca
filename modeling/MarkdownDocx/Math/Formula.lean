import MarkdownDocx.Latex.Check
import MarkdownDocx.Logged
import MarkdownDocx.Math.Reader
import MarkdownDocx.Math.Repair
import MarkdownDocx.Text.Quoted

/-!
From a LaTeX formula to an equation, by way of two tools: one that renders LaTeX as MathML and one
that turns MathML into Office math markup. Either may answer anything, or fail.
-/

set_option autoImplicit false

namespace MarkdownDocx.Math

/-- An error that a tool reports, by its kind and its text. -/
structure ToolError where
  kind : String
  message : String
  deriving DecidableEq, Repr

/-- The tools that draw formulas. -/
structure Tools where
  render : String → Bool → Except ToolError String
  transduce : String → Except ToolError String
  /-- What the parser of markup says of a text that it cannot read. -/
  markupFault : String → String

/-- What a formula becomes. One that cannot be drawn stays as it is written. -/
inductive Drawing where
  | equation (nodes : List Node)
  | source
  deriving Repr

/-- Why a formula could be rendered but not read as an equation. -/
inductive DrawingError where
  | tool (e : ToolError)
  | malformedMarkup (fault : String)
  deriving DecidableEq, Repr

def DrawingError.message : DrawingError → String
  | .tool e => e.message
  | .malformedMarkup fault => fault

/-- MathML for a formula that passes the check. -/
def renderFormula (tools : Tools) (formula : String) (display : Bool) :
    Logged Latex.Fault String := do
  Logged.ofExcept (Latex.check formula)
  Logged.report (.rendered formula display)
  match tools.render formula display with
  | .ok markup => return markup
  | .error e => Logged.fail (.rendering e.kind e.message)

/-- Markup with its text escaped as it has to be. -/
def transduceMarkup (tools : Tools) (markup : String) : Logged ToolError String := do
  Logged.report (.transduced markup)
  match tools.transduce markup with
  | .ok equation => return repair equation
  | .error e => Logged.fail e

def renderingWarning (formula reason : String) : Event :=
  .warning ("LaTeX conversion failed for " ++ Text.quoted formula ++ ": " ++ reason)

def readingWarning (formula reason : String) : Event :=
  .warning ("OMML conversion failed for " ++ Text.quoted formula ++ ", using raw LaTeX: " ++ reason)

/-- Office math markup for a formula, or a warning. -/
def formulaMarkup (tools : Tools) (formula : String) (display : Bool) :
    List Event × Option String :=
  let rendered := renderFormula tools formula display
  match rendered.result with
  | .error fault => (rendered.events ++ [renderingWarning formula fault.message], none)
  | .ok markup =>
    let transduced := transduceMarkup tools markup
    match transduced.result with
    | .error e => (rendered.events ++ transduced.events ++ [renderingWarning formula e.message], none)
    | .ok equation => (rendered.events ++ transduced.events, some equation)

/-- The equation of rendered markup. -/
def readTransduced (tools : Tools) (markup : String) : Logged DrawingError (List Node) := do
  let equation ← (transduceMarkup tools markup).mapError .tool
  match readEquation equation with
  | some nodes => return nodes
  | none => Logged.fail (.malformedMarkup (tools.markupFault equation))

/-- The equation of a formula, or a warning and the formula itself. -/
def drawFormula (tools : Tools) (formula : String) (display : Bool) : List Event × Drawing :=
  let rendered := renderFormula tools formula display
  match rendered.result with
  | .error fault => (rendered.events ++ [renderingWarning formula fault.message], .source)
  | .ok markup =>
    let read := readTransduced tools markup
    match read.result with
    | .error e => (rendered.events ++ read.events ++ [readingWarning formula e.message], .source)
    | .ok nodes => (rendered.events ++ read.events, .equation nodes)

end MarkdownDocx.Math

import MarkdownDocx.Layout.Flow

/-!
Formulas on their way through the tools. There are four ways that this may go, and both what is
drawn and what is written as markup follow from the way alone.
-/

set_option autoImplicit false

namespace MarkdownDocx.Math

/-- How far a formula gets. -/
inductive Course where
  | rejected (fault : Latex.Fault)
  | unrendered (e : ToolError)
  | untransduced (markup : String) (e : ToolError)
  | transduced (markup equation : String)

def course (tools : Tools) (formula : String) (display : Bool) : Course :=
  match Latex.check formula with
  | .error fault => .rejected fault
  | .ok () =>
    match tools.render formula display with
    | .error e => .unrendered e
    | .ok markup =>
      match tools.transduce markup with
      | .error e => .untransduced markup e
      | .ok equation => .transduced markup equation

/-- The calls that a course takes: none of a formula that is rejected, and otherwise one call after
the other until one fails. -/
def Course.calls (formula : String) (display : Bool) : Course → List Event
  | .rejected _ => []
  | .unrendered _ => [.rendered formula display]
  | .untransduced markup _ => [.rendered formula display, .transduced markup]
  | .transduced markup _ => [.rendered formula display, .transduced markup]

def Course.markup? : Course → Option String
  | .transduced _ equation => some (repair equation)
  | _ => none

/-- What goes wrong where a course ends in no equation: the tools are to blame in the end, or their
markup. -/
def Course.reason (tools : Tools) : Course → String
  | .rejected fault => fault.message
  | .unrendered e => (Latex.Fault.rendering e.kind e.message).message
  | .untransduced _ e => e.message
  | .transduced _ equation => tools.markupFault (repair equation)

/-- A formula that was rendered but not drawn is reported in other words than one that was not. -/
def Course.warning (tools : Tools) (formula : String) (c : Course) : Event :=
  match c with
  | .rejected _ | .unrendered _ => renderingWarning formula (c.reason tools)
  | .untransduced _ _ | .transduced _ _ => readingWarning formula (c.reason tools)

/-- No tool is called twice, and none before its turn. -/
theorem Course.calls_prefix (formula : String) (display : Bool) (c : Course) :
    ∃ markup, c.calls formula display <+: [.rendered formula display, .transduced markup] := by
  cases c with
  | rejected fault => exact ⟨"", List.nil_prefix⟩
  | unrendered e => exact ⟨"", by simp [calls]⟩
  | untransduced markup e => exact ⟨markup, List.prefix_rfl⟩
  | transduced markup equation => exact ⟨markup, List.prefix_rfl⟩

theorem Course.warning_eq (tools : Tools) (formula : String) (c : Course) :
    ∃ message, c.warning tools formula = .warning message := by
  cases c <;> exact ⟨_, rfl⟩

theorem renderFormula_eq (tools : Tools) (formula : String) (display : Bool) :
    renderFormula tools formula display =
      match Latex.check formula with
      | .error fault => ⟨[], .error fault⟩
      | .ok () =>
        match tools.render formula display with
        | .error e => ⟨[.rendered formula display], .error (.rendering e.kind e.message)⟩
        | .ok markup => ⟨[.rendered formula display], .ok markup⟩ := by
  unfold renderFormula
  cases hcheck : Latex.check formula with
  | error fault => simp [Logged.ofExcept]
  | ok u =>
    cases tools.render formula display <;> simp [Logged.ofExcept, Logged.report, Logged.fail]

theorem transduceMarkup_eq (tools : Tools) (markup : String) :
    transduceMarkup tools markup = ⟨[.transduced markup], (tools.transduce markup).map repair⟩ := by
  unfold transduceMarkup
  cases tools.transduce markup <;> simp [Logged.report, Logged.fail, Except.map]

theorem readTransduced_eq (tools : Tools) (markup : String) :
    readTransduced tools markup =
      match tools.transduce markup with
      | .error e => ⟨[.transduced markup], .error (.tool e)⟩
      | .ok equation =>
        match readEquation (repair equation) with
        | some nodes => ⟨[.transduced markup], .ok nodes⟩
        | none =>
          ⟨[.transduced markup], .error (.malformedMarkup (tools.markupFault (repair equation)))⟩ := by
  unfold readTransduced
  rw [transduceMarkup_eq]
  cases tools.transduce markup with
  | error e => rfl
  | ok equation =>
    cases hread : readEquation (repair equation) <;>
      simp [Except.map, Logged.fail, hread]

/-- The course of a formula decides what is written as its markup. -/
theorem formulaMarkup_eq (tools : Tools) (formula : String) (display : Bool) :
    formulaMarkup tools formula display =
      match (course tools formula display).markup? with
      | some m => ((course tools formula display).calls formula display, some m)
      | none => ((course tools formula display).calls formula display ++
          [renderingWarning formula ((course tools formula display).reason tools)], none) := by
  unfold course
  cases hcheck : Latex.check formula with
  | error fault =>
    simp [formulaMarkup, renderFormula_eq, hcheck, Course.markup?, Course.calls, Course.reason]
  | ok u =>
    cases hrender : tools.render formula display with
    | error e =>
      simp [formulaMarkup, renderFormula_eq, hcheck, hrender, Course.markup?, Course.calls,
        Course.reason]
    | ok markup =>
      cases htransduce : tools.transduce markup <;>
        simp [formulaMarkup, renderFormula_eq, transduceMarkup_eq, hcheck, hrender, htransduce,
          Except.map, Course.markup?, Course.calls, Course.reason]

theorem drawFormula_eq (tools : Tools) (formula : String) (display : Bool) :
    drawFormula tools formula display =
      match (course tools formula display).markup?.bind readEquation with
      | some nodes => ((course tools formula display).calls formula display, .equation nodes)
      | none => ((course tools formula display).calls formula display ++
          [(course tools formula display).warning tools formula], .source) := by
  unfold course
  cases hcheck : Latex.check formula with
  | error fault =>
    simp [drawFormula, renderFormula_eq, hcheck, Course.markup?, Course.calls, Course.warning,
      Course.reason]
  | ok u =>
    cases hrender : tools.render formula display with
    | error e =>
      simp [drawFormula, renderFormula_eq, hcheck, hrender, Course.markup?, Course.calls,
        Course.warning, Course.reason]
    | ok markup =>
      cases htransduce : tools.transduce markup with
      | error e =>
        simp [drawFormula, renderFormula_eq, readTransduced_eq, hcheck, hrender, htransduce,
          Course.markup?, Course.calls, Course.warning, Course.reason, DrawingError.message]
      | ok equation =>
        cases hread : readEquation (repair equation) <;>
          simp [drawFormula, renderFormula_eq, readTransduced_eq, hcheck, hrender, htransduce,
            hread, Course.markup?, Course.calls, Course.warning, Course.reason,
            DrawingError.message]

section Outcome

variable {tools : Tools} {formula : String} {display : Bool}

theorem formulaMarkup_of_some {m : String} (h : (course tools formula display).markup? = some m) :
    formulaMarkup tools formula display =
      ((course tools formula display).calls formula display, some m) := by
  rw [formulaMarkup_eq, h]

theorem formulaMarkup_of_none (h : (course tools formula display).markup? = none) :
    ∃ message, formulaMarkup tools formula display =
      ((course tools formula display).calls formula display ++ [.warning message], none) := by
  rw [formulaMarkup_eq, h]
  exact ⟨_, rfl⟩

theorem formulaMarkup_snd :
    (formulaMarkup tools formula display).2 = (course tools formula display).markup? := by
  rw [formulaMarkup_eq]
  cases (course tools formula display).markup? <;> rfl

theorem drawFormula_of_some {nodes : List Node}
    (h : (course tools formula display).markup?.bind readEquation = some nodes) :
    drawFormula tools formula display =
      ((course tools formula display).calls formula display, .equation nodes) := by
  rw [drawFormula_eq, h]

theorem drawFormula_of_none
    (h : (course tools formula display).markup?.bind readEquation = none) :
    ∃ message, drawFormula tools formula display =
      ((course tools formula display).calls formula display ++ [.warning message], .source) := by
  obtain ⟨message, hmessage⟩ := (course tools formula display).warning_eq tools formula
  rw [drawFormula_eq, h, hmessage]
  exact ⟨message, rfl⟩

end Outcome

/-! The courses told by what the tools do. -/

/-- The check accepts a formula, and both tools succeed. -/
def Transduces (tools : Tools) (formula : String) (display : Bool) (equation : String) : Prop :=
  Latex.check formula = .ok () ∧
    ∃ markup, tools.render formula display = .ok markup ∧ tools.transduce markup = .ok equation

/-- The check rejects a formula, or a tool that is called fails. -/
def Fails (tools : Tools) (formula : String) (display : Bool) : Prop :=
  (∃ fault, Latex.check formula = .error fault) ∨
    Latex.check formula = .ok () ∧
      ((∃ e, tools.render formula display = .error e) ∨
        ∃ markup e, tools.render formula display = .ok markup ∧ tools.transduce markup = .error e)

theorem course_markup?_eq_some_iff {tools : Tools} {formula : String} {display : Bool}
    {markup : String} :
    (course tools formula display).markup? = some markup ↔
      ∃ equation, Transduces tools formula display equation ∧ repair equation = markup := by
  unfold course Transduces
  cases Latex.check formula with
  | error fault => simp [Course.markup?]
  | ok u =>
    cases tools.render formula display with
    | error e => simp [Course.markup?]
    | ok mathml => cases h : tools.transduce mathml <;> simp [Course.markup?, h]

theorem course_markup?_eq_none_iff {tools : Tools} {formula : String} {display : Bool} :
    (course tools formula display).markup? = none ↔ Fails tools formula display := by
  unfold course Fails
  cases Latex.check formula with
  | error fault => simp [Course.markup?]
  | ok u =>
    cases tools.render formula display with
    | error e => simp [Course.markup?]
    | ok mathml => cases h : tools.transduce mathml <;> simp [Course.markup?, h]

end MarkdownDocx.Math

namespace MarkdownDocx.Layout

open MarkdownDocx.Math (Tools Transduces Fails course repair readEquation)

theorem formulaRun_eq_equation_iff {tools : Tools} {formula : String} {display : Bool}
    {nodes : List Math.Node} :
    formulaRun (Math.drawFormula tools formula display).2 formula display false =
        .equation nodes display formula ↔
      ∃ m, (course tools formula display).markup? = some m ∧ readEquation m = some nodes := by
  rw [← Option.bind_eq_some_iff]
  cases hread : (course tools formula display).markup?.bind readEquation with
  | none =>
    obtain ⟨message, hdrawn⟩ := Math.drawFormula_of_none hread
    simp [hdrawn, formulaRun]
  | some nodes' => simp [Math.drawFormula_of_some hread, formulaRun]

/-- A formula always becomes something: an equation, without any warning, or its own text with just
one. The calls of the tools are those of its course, whether it is drawn or written as markup, and
an equation that is drawn is the one that its markup reads as. -/
theorem formulaRun_drawFormula (tools : Tools) (formula : String) (display : Bool) :
    let c := course tools formula display
    let drawn := Math.drawFormula tools formula display
    let run := formulaRun drawn.2 formula display false
    let markup := Math.formulaMarkup tools formula display
    ((∃ nodes, run = .equation nodes display formula ∧ drawn.1 = c.calls formula display) ∨
      run = .text formula false true ∧
        ∃ message, drawn.1 = c.calls formula display ++ [.warning message]) ∧
    (∀ nodes, run = .equation nodes display formula ↔
      ∃ equation, Transduces tools formula display equation ∧
        readEquation (repair equation) = some nodes) ∧
    ((∃ m, markup = (c.calls formula display, some m)) ∨
      ∃ message, markup = (c.calls formula display ++ [.warning message], none)) ∧
    (markup.2 = none ↔ Fails tools formula display) ∧
    (∀ nodes, run = .equation nodes display formula →
      ∃ m, markup.2 = some m ∧ readEquation m = some nodes) ∧
    (∃ m, c.calls formula display <+: [.rendered formula display, .transduced m]) ∧
    ∀ fault, Latex.check formula = .error fault → c.calls formula display = [] := by
  intro c drawn run markup
  refine ⟨?_, fun nodes => ?_, ?_, ?_, fun nodes h => ?_, c.calls_prefix formula display,
    fun fault h => ?_⟩
  · cases hread : c.markup?.bind readEquation with
    | none =>
      obtain ⟨message, hdrawn⟩ := Math.drawFormula_of_none hread
      exact .inr ⟨by simp [run, drawn, hdrawn, formulaRun], message, congrArg Prod.fst hdrawn⟩
    | some nodes =>
      have hdrawn := Math.drawFormula_of_some hread
      exact .inl ⟨nodes, by simp [run, drawn, hdrawn, formulaRun], congrArg Prod.fst hdrawn⟩
  · rw [formulaRun_eq_equation_iff]
    constructor
    · rintro ⟨m, hm, hread⟩
      obtain ⟨equation, h, rfl⟩ := Math.course_markup?_eq_some_iff.1 hm
      exact ⟨equation, h, hread⟩
    · rintro ⟨equation, h, hread⟩
      exact ⟨repair equation, Math.course_markup?_eq_some_iff.2 ⟨equation, h, rfl⟩, hread⟩
  · cases hm : c.markup? with
    | none => exact .inr (Math.formulaMarkup_of_none hm)
    | some m => exact .inl ⟨m, Math.formulaMarkup_of_some hm⟩
  · rw [← Math.course_markup?_eq_none_iff, ← Math.formulaMarkup_snd]
  · obtain ⟨m, hm, hread⟩ := formulaRun_eq_equation_iff.1 h
    exact ⟨m, Math.formulaMarkup_snd.trans hm, hread⟩
  · simp [c, course, h, Math.Course.calls]

end MarkdownDocx.Layout

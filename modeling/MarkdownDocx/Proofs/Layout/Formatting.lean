import MarkdownDocx.Proofs.Layout.Addresses
import MarkdownDocx.Proofs.Layout.QuoteDepth

/-!
Bold and italics. The formatting of a run is told by what is around its text in the tree: it is bold
in a strong node and italic in an emphasized one, at any depth and whatever else is around it. A
formula that is not drawn is italic in any case. The header of a table is bold throughout.
-/

set_option autoImplicit false

namespace MarkdownDocx.Layout

open MarkdownDocx.Markdown (Inline Block)

/-- What may be around a text in a paragraph. -/
inductive Wrapper where
  | strong
  | emphasis
  | link (url : String)
  deriving DecidableEq, Repr

/-- What becomes one run. -/
inductive Leaf where
  | text (value : String)
  | code (value : String)
  | math (formula : String)
  deriving DecidableEq, Repr

mutual
/-- The leaves of an inline node, depth first and from left to right, each with all that is around
it, the nearest first. -/
def leavesUnder (around : List Wrapper) : Inline → List (List Wrapper × Leaf)
  | .text value => [(around, .text value)]
  | .strong children => allLeavesUnder (.strong :: around) children
  | .emphasis children => allLeavesUnder (.emphasis :: around) children
  | .code value => [(around, .code value)]
  | .link url children => allLeavesUnder (.link url :: around) children
  | .math formula => [(around, .math formula)]
  | .unsupported _ _ => []

def allLeavesUnder (around : List Wrapper) : List Inline → List (List Wrapper × Leaf)
  | [] => []
  | i :: rest => leavesUnder around i ++ allLeavesUnder around rest
end

/-- The run of a leaf, where all of it may be bold or italic from the start. An equation has no
formatting. -/
inductive Formatted (tools : Math.Tools) (bold italic : Prop) : List Wrapper × Leaf → Run → Prop
  | text {around : List Wrapper} {value : String} {b i : Bool}
      (hbold : b = true ↔ bold ∨ .strong ∈ around)
      (hitalic : i = true ↔ italic ∨ .emphasis ∈ around) :
      Formatted tools bold italic (around, .text value) (.text value b i)
  | code {around : List Wrapper} {value : String} {b i : Bool}
      (hbold : b = true ↔ bold ∨ .strong ∈ around)
      (hitalic : i = true ↔ italic ∨ .emphasis ∈ around) :
      Formatted tools bold italic (around, .code value) (.text value b i)
  | equation {around : List Wrapper} {formula : String} {nodes : List Math.Node}
      (hdrawn : (Math.drawFormula tools formula false).2 = .equation nodes) :
      Formatted tools bold italic (around, .math formula) (.equation nodes false formula)
  | source {around : List Wrapper} {formula : String} {b : Bool}
      (hfailed : (Math.drawFormula tools formula false).2 = .source)
      (hbold : b = true ↔ bold ∨ .strong ∈ around) :
      Formatted tools bold italic (around, .math formula) (.text formula b true)

/-- The row at a position of a table: only the first one is the header, and bold from the start. -/
structure RowFormatted (tools : Math.Tools) (source : Markdown.Row × Nat) (row : Row) : Prop where
  header : row.header = true ↔ source.2 = 0
  cells : List.Forall₂ (fun cell p =>
    List.Forall₂ (Formatted tools (source.2 = 0) False) (allLeavesUnder [] cell) p.runs)
      source.1 row.cells

/-! ## Runs -/

/-- Whether something is set, from the start or by what is around. -/
def isSet (start : Bool) (w : Wrapper) (around : List Wrapper) : Bool := start || around.contains w

@[simp] theorem isSet_nil (start : Bool) (w : Wrapper) : isSet start w [] = start := by
  simp [isSet]

@[simp] theorem isSet_self (start : Bool) (w : Wrapper) (around : List Wrapper) :
    isSet start w (w :: around) = true := by
  simp [isSet]

/-- Nothing else sets it or takes it back. -/
theorem isSet_other (start : Bool) {w v : Wrapper} (h : w ≠ v) (around : List Wrapper) :
    isSet start w (v :: around) = isSet start w around := by
  simp [isSet, h]

theorem isSet_iff {start : Bool} {w : Wrapper} {around : List Wrapper} :
    isSet start w around = true ↔ start = true ∨ w ∈ around := by
  simp [isSet]

theorem formatted_formulaRun (tools : Math.Tools) (bold italic : Bool) (around : List Wrapper)
    (formula : String) : Formatted tools (bold = true) (italic = true) (around, .math formula)
      (formulaRun (Math.drawFormula tools formula false).2 formula false
        (isSet bold .strong around)) := by
  cases hdrawn : (Math.drawFormula tools formula false).2 with
  | equation nodes => exact .equation hdrawn
  | source => exact .source hdrawn isSet_iff

mutual
/-- The formatting that is passed down to a node is what is around it. -/
theorem inlineRuns_formatted (tools : Math.Tools) (bold italic : Bool) (around : List Wrapper) :
    ∀ i : Inline, List.Forall₂ (Formatted tools (bold = true) (italic = true)) (leavesUnder around i)
      (inlineRuns tools (isSet bold .strong around) (isSet italic .emphasis around) i).2
  | .text value => .cons (.text isSet_iff isSet_iff) .nil
  | .strong children => by
    have h := inlinesRuns_formatted tools bold italic (.strong :: around) children
    rwa [isSet_self, isSet_other italic (by decide)] at h
  | .emphasis children => by
    have h := inlinesRuns_formatted tools bold italic (.emphasis :: around) children
    rwa [isSet_self, isSet_other bold (by decide)] at h
  | .code value => .cons (.code isSet_iff isSet_iff) .nil
  | .link url children => by
    have h := inlinesRuns_formatted tools bold italic (.link url :: around) children
    rwa [isSet_other bold (by simp), isSet_other italic (by simp)] at h
  | .math formula => .cons (formatted_formulaRun tools bold italic around formula) .nil
  | .unsupported _ _ => .nil

theorem inlinesRuns_formatted (tools : Math.Tools) (bold italic : Bool) (around : List Wrapper) :
    ∀ is : List Inline,
      List.Forall₂ (Formatted tools (bold = true) (italic = true)) (allLeavesUnder around is)
      (inlinesRuns tools (isSet bold .strong around) (isSet italic .emphasis around) is).2
  | [] => .nil
  | i :: rest => List.rel_append (inlineRuns_formatted tools bold italic around i)
      (inlinesRuns_formatted tools bold italic around rest)
end

/-! ## Tables -/

theorem rowCells_formatted (tools : Math.Tools) (header : Bool) (source : Markdown.Row) :
    List.Forall₂ (fun cell p =>
        List.Forall₂ (Formatted tools (header = true) False) (allLeavesUnder [] cell) p.runs)
      source (rowCells tools header source).2 := by
  induction source with
  | nil => exact .nil
  | cons cell rest ih =>
    have hcell := inlinesRuns_formatted tools header false [] cell
    simp only [isSet_nil, Bool.false_eq_true] at hcell
    exact .cons hcell ih

theorem tableRows_formatted (tools : Math.Tools) (n : Nat) (rows : List Markdown.Row) :
    List.Forall₂ (RowFormatted tools) (rows.zipIdx n) (tableRows tools (n == 0) rows).2 := by
  induction rows generalizing n with
  | nil => exact .nil
  | cons row rest ih =>
    have hcells := rowCells_formatted tools (n == 0) row
    have hrest := ih (n + 1)
    rw [beq_false_of_ne (Nat.succ_ne_zero n)] at hrest
    simp only [beq_iff_eq] at hcells
    exact .cons ⟨beq_iff_eq, hcells⟩ hrest

/-! ## Documents -/

/-- Every leaf becomes one run, which is formatted as what is around the leaf tells. So it is in every
table of a document, wherever the table stands: there all texts of the first row are bold, and of the
other rows those in a strong node. -/
theorem flow_formatting (tools : Math.Tools) :
    (∀ bold italic is,
      List.Forall₂ (Formatted tools (bold = true) (italic = true)) (allLeavesUnder [] is)
        (inlinesRuns tools bold italic is).2) ∧
    ∀ styles blocks,
      (∀ n, listBaseIndent styles = .ok n →
        ∃ elements, (flow tools styles blocks).result = .ok elements) ∧
      ∀ elements, (flow tools styles blocks).result = .ok elements →
        ∃ shares, Shares blocks elements shares ∧
          ∀ a around align rows, documentAt blocks a = some (around, .table align rows) →
            ∃ t, (a, [.table t]) ∈ shares ∧
              List.Forall₂ (RowFormatted tools) rows.zipIdx t.rows := by
  refine ⟨fun bold italic is => ?_, fun styles blocks => ?_⟩
  · have hruns := inlinesRuns_formatted tools bold italic [] is
    rwa [isSet_nil, isSet_nil] at hruns
  · refine ⟨fun n h => exists_flow tools h blocks, fun elements h => ?_⟩
    refine ⟨_, flow_shares h, fun a around align rows hat => ?_⟩
    exact ⟨_, @mem_shares ⟨tools, listBaseIndent styles⟩ blocks a _ hat rfl,
      tableRows_formatted tools 0 rows⟩

/-- In a quoted list, a table whose header holds a formula and whose second row a link. -/
def quotedTable : List Block :=
  [.quote [.list false 1 [[.table [none]
    [[[.text "a", .emphasis [.math "x"]]],
      [[.strong [.link "u" [.emphasis [.code "b"]]], .unsupported "image" "i", .text "c"]]]]]]]

theorem flow_formatting_quoted :
    ∃ elements shares t header row p q,
      (flow blankTools Style.StyleTable.default quotedTable).result = .ok elements ∧
      Shares quotedTable elements shares ∧ ([0, 0, 0, 0], [.table t]) ∈ shares ∧
      t.rows = [header, row] ∧ header.cells = [p] ∧ row.cells = [q] ∧
      List.Forall₂ (Formatted blankTools (0 = 0) False)
        [([], .text "a"), ([.emphasis], .math "x")] p.runs ∧
      List.Forall₂ (Formatted blankTools (1 = 0) False)
        [([.emphasis, .link "u", .strong], .code "b"), ([], .text "c")] q.runs := by
  obtain ⟨-, hdocuments⟩ := flow_formatting blankTools
  obtain ⟨hok, hflow⟩ := hdocuments Style.StyleTable.default quotedTable
  obtain ⟨elements, helements⟩ := hok 0 rfl
  obtain ⟨shares, hshares, htables⟩ := hflow elements helements
  obtain ⟨t, ht, hrows⟩ := htables [0, 0, 0, 0] _ _ _ rfl
  obtain ⟨header, others, hheader, hothers, htop⟩ := List.forall₂_cons_left_iff.1 hrows
  obtain ⟨row, rest, hrow, hend, rfl⟩ := List.forall₂_cons_left_iff.1 hothers
  obtain rfl := List.forall₂_nil_left_iff.1 hend
  obtain ⟨p, ps, hp, hps, hcaption⟩ := List.forall₂_cons_left_iff.1 hheader.cells
  obtain rfl := List.forall₂_nil_left_iff.1 hps
  obtain ⟨q, qs, hq, hqs, htext⟩ := List.forall₂_cons_left_iff.1 hrow.cells
  obtain rfl := List.forall₂_nil_left_iff.1 hqs
  exact ⟨elements, shares, t, header, row, p, q, helements, hshares, ht, htop, hcaption, htext, hp,
    hq⟩

end MarkdownDocx.Layout

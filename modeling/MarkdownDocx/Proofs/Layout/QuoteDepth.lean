import Mathlib.Data.List.Count
import MarkdownDocx.Proofs.Layout.Places

/-!
What left indents tell of quotes. They count the quotes right around a place, or right around the
lists that it is in. Those are all its quotes unless an item stands between them: a quote in an item
begins to count again, and so does everything in an item outside of any list.
-/

set_option autoImplicit false

namespace MarkdownDocx.Layout

open MarkdownDocx.Markdown (Inline Block)

def Element.left? : Element → Option Int
  | .paragraph p => p.indent.bind Indent.left
  | .table _ => none

theorem count_quote (around : List Ancestor) :
    around.count .quote = quoteRun around + (around.drop (quoteRun around)).count .quote := by
  induction around with
  | nil => rfl
  | cons a rest ih =>
    cases a with
    | quote => simp only [List.count_cons_self, quoteRun, List.drop_succ_cons]; omega
    | item marker => simp [quoteRun]

@[simp] theorem count_outsideLists (around : List Ancestor) :
    (outsideLists around).count .quote = around.count .quote := by
  induction around with
  | nil => rfl
  | cons a rest ih =>
    cases a with
    | quote => rfl
    | item marker =>
      cases marker with
      | none => rfl
      | some m => simpa [outsideLists] using ih

namespace Place

def quoteDepth (p : Place) : Nat := p.around.count .quote

/-- The number of quotes that show in the left indent: those right around a paragraph or a heading,
or right around the lists that a paragraph is in. -/
def quotesShown (p : Place) : Nat :=
  match p.origin with
  | .heading _ _ => quoteRun p.around
  | .paragraph _ => quoteRun (outsideLists p.around)
  | _ => 0

/-- Where the left indent is to tell of all quotes: at paragraphs and headings right in a quote, and
at paragraphs right in an item that is anywhere in a quote. -/
def Quoted (p : Place) : Prop :=
  match p.origin, p.around with
  | .heading _ _, .quote :: _ => True
  | .paragraph _, .quote :: _ => True
  | .paragraph _, .item _ :: outer => .quote ∈ outer
  | _, _ => False

/-- Whether all quotes stand directly in one another, and around the lists right here if there are
any. -/
def Unbroken (p : Place) : Prop :=
  .quote ∉ (outsideLists p.around).drop (quoteRun (outsideLists p.around))

theorem quotesShown_of_quoted {p : Place} (h : p.Quoted) :
    p.quotesShown = quoteRun (outsideLists p.around) := by
  obtain ⟨origin, around, first⟩ := p
  cases origin with
  | heading depth children =>
    match around, h with
    | .quote :: outer, _ => rfl
  | paragraph children => rfl
  | _ => simp [Quoted] at h

theorem quoteDepth_pos_of_quoted {p : Place} (h : p.Quoted) : 0 < p.quoteDepth := by
  obtain ⟨origin, around, first⟩ := p
  refine List.count_pos_iff.2 ?_
  match origin, around, h with
  | .heading _ _, .quote :: _, _ => exact List.mem_cons_self
  | .paragraph _, .quote :: _, _ => exact List.mem_cons_self
  | .paragraph _, .item _ :: _, h => exact List.mem_cons_of_mem _ h

/-- No more quotes show than there are, and all of them just where they are unbroken. -/
theorem quotesShown_eq_iff {p : Place} (h : p.Quoted) :
    p.quotesShown = p.quoteDepth ↔ p.Unbroken := by
  have hcount := count_quote (outsideLists p.around)
  rw [count_outsideLists] at hcount
  rw [quotesShown_of_quoted h, quoteDepth, Unbroken, ← List.count_eq_zero]
  omega

theorem element_left? (c : Context) (p : Place) :
    (p.element c).left? = quotesLeft p.quotesShown := by
  obtain ⟨origin, around, first⟩ := p
  cases origin with
  | heading depth children =>
    cases around with
    | nil => rfl
    | cons a outer => cases a <;> rfl
  | paragraph children =>
    cases around with
    | nil => rfl
    | cons a outer =>
      cases a with
      | quote => rfl
      | item marker =>
        simp only [element, paragraph, quotesShown, Element.left?, indentInItem, quoteLeft]
        cases quotesLeft (quoteRun (outsideLists (.item marker :: outer))) <;> rfl
  | _ => rfl

theorem element_left?_eq_iff (c : Context) {p : Place} (h : p.Quoted) :
    (p.element c).left? = some (quoteIndentStep * p.quoteDepth) ↔ p.Unbroken := by
  have hpos := quoteDepth_pos_of_quoted h
  rw [← quotesShown_eq_iff h, element_left?]
  cases p.quotesShown with
  | zero => simp only [quotesLeft, reduceCtorEq, false_iff]; omega
  | succ n => simp only [quotesLeft, quoteIndentStep, Option.some.injEq]; omega

end Place

/-- A layout succeeds if lists have a base indent. It is made place by place, and the left indents
show the quotes right around a place or its lists. In a place that is quoted this is the whole depth
of quotes just where the quotes are unbroken, and among these places the left indents tell different
depths apart. -/
theorem flow_quoteIndents (tools : Math.Tools) (styles : Style.StyleTable) (blocks : List Block) :
    (∀ n, listBaseIndent styles = .ok n →
      ∃ elements, (flow tools styles blocks).result = .ok elements) ∧
    ∀ elements, (flow tools styles blocks).result = .ok elements →
      List.Forall₂ (fun e p =>
          e.runs.map Run.source = (markerRuns p.marker).map Run.source ++ p.origin.leaves ∧
          e.left? = quotesLeft p.quotesShown ∧
          (p.Quoted → (e.left? = some (quoteIndentStep * p.quoteDepth) ↔ p.Unbroken)))
        elements (documentPlaces blocks) ∧
      ∀ x ∈ elements.zip (documentPlaces blocks), ∀ y ∈ elements.zip (documentPlaces blocks),
        x.2.Quoted → x.2.Unbroken → y.2.Quoted → y.2.Unbroken →
        x.1.left? = y.1.left? → x.2.quoteDepth = y.2.quoteDepth := by
  refine ⟨fun n h => exists_flow tools h blocks, fun elements h => ?_⟩
  have helements := flow_eq_places h
  generalize Context.mk tools (listBaseIndent styles) = c at helements
  have hmade : List.Forall₂ (fun e p => e = p.element c) elements (documentPlaces blocks) := by
    rw [helements, List.forall₂_map_left_iff, List.forall₂_same]
    exact fun _ _ => rfl
  have made : ∀ x ∈ elements.zip (documentPlaces blocks), x.1 = x.2.element c :=
    fun _ hx => (List.forall₂_iff_zip.1 hmade).2 hx
  refine ⟨hmade.imp ?_, fun x hx y hy hxq hxu hyq hyu hleft => ?_⟩
  · rintro e p rfl
    exact ⟨p.element_sources c, p.element_left? c, fun hp => Place.element_left?_eq_iff c hp⟩
  · rw [made x hx, made y hy, (Place.element_left?_eq_iff c hxq).2 hxu,
      (Place.element_left?_eq_iff c hyq).2 hyu] at hleft
    simp only [quoteIndentStep, Option.some.injEq] at hleft
    omega

/-- Quotes in one another, with lists and a heading in the inner one. -/
def nestedQuotes : List Block :=
  [.quote [.paragraph [.text "a"],
    .quote [.list true 1 [[.paragraph [.text "b"], .list false 1 [[.paragraph [.text "c"]]]]],
      .heading 2 [.text "d"]]]]

theorem quoted_nestedQuotes : ∀ p ∈ documentPlaces nestedQuotes, p.Quoted ∧ p.Unbroken := by
  intro p hp
  simp only [documentPlaces, nestedQuotes, blocksPlaces, blockPlaces, itemsPlaces, List.append_nil,
    List.cons_append, List.nil_append, List.mem_cons, List.not_mem_nil, or_false] at hp
  rcases hp with rfl | rfl | rfl | rfl <;>
    exact ⟨by simp [Place.Quoted], by simp [Place.Unbroken, outsideLists, quoteRun]⟩

theorem flow_quoteIndents_nested :
    listBaseIndent Style.StyleTable.default = .ok 0 ∧
      ∃ elements, (flow blankTools Style.StyleTable.default nestedQuotes).result = .ok elements ∧
        elements.map Element.left? = [some 567, some 1134, some 1134, some 1134] ∧
        ∀ x ∈ elements.zip (documentPlaces nestedQuotes),
          ∀ y ∈ elements.zip (documentPlaces nestedQuotes),
          x.1.left? = y.1.left? → x.2.quoteDepth = y.2.quoteDepth := by
  obtain ⟨hok, hflow⟩ := flow_quoteIndents blankTools Style.StyleTable.default nestedQuotes
  obtain ⟨elements, helements⟩ := hok 0 rfl
  obtain ⟨hplaces, hdepths⟩ := hflow elements helements
  have quoted : ∀ x ∈ elements.zip (documentPlaces nestedQuotes), x.2.Quoted ∧ x.2.Unbroken :=
    fun x hx => quoted_nestedQuotes x.2 (List.of_mem_zip hx).2
  have hlefts : elements.map Element.left? =
      (documentPlaces nestedQuotes).map fun p => quotesLeft p.quotesShown := by
    rw [← List.forall₂_eq_eq_eq, List.forall₂_map_left_iff, List.forall₂_map_right_iff]
    exact hplaces.imp fun _ _ h => h.2.1
  refine ⟨rfl, elements, helements, hlefts.trans (by decide), fun x hx y hy => ?_⟩
  exact hdepths x hx y hy (quoted x hx).1 (quoted x hx).2 (quoted y hy).1 (quoted y hy).2

def cutQuotes : List Block :=
  [.quote [.list false 1 [[.paragraph [.text "a"], .quote [.paragraph [.text "b"]]]]]]

/-- The inner paragraph is in two quotes and shows only one, as the paragraph before it does. -/
theorem flow_quoteIndents_cut :
    ∃ outer inner p q,
      (flow blankTools Style.StyleTable.default cutQuotes).result = .ok [outer, inner] ∧
      documentPlaces cutQuotes = [p, q] ∧
      p.Quoted ∧ q.Quoted ∧ p.quoteDepth = 1 ∧ q.quoteDepth = 2 ∧
      outer.left? = some quoteIndentStep ∧ inner.left? = some quoteIndentStep :=
  ⟨_, _, _, _, rfl, rfl, by simp [Place.Quoted], trivial, rfl, rfl, rfl, rfl⟩

end MarkdownDocx.Layout

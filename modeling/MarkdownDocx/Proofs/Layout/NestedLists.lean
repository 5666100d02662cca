import MarkdownDocx.Proofs.Layout.Markers

/-!
Lists in lists. Where nothing but lists stands between a paragraph and the top of a document or a
quote, its indent tells how deep in lists it is: each level adds a step to the base indent at the top,
and in a quote the steps count from nought beside the left indent of the quote. The numbers are those
of the nearest list.
-/

set_option autoImplicit false

namespace MarkdownDocx.Layout

open MarkdownDocx.Markdown (Inline Block)

/-- Items of lists only, each right in the next. -/
def AllItems (lists : List Ancestor) : Prop := ∀ x ∈ lists, ∃ marker, x = .item (some marker)

theorem outsideLists_append {lists : List Ancestor} (h : AllItems lists) (outer : List Ancestor) :
    outsideLists (lists ++ outer) = outsideLists outer := by
  induction lists with
  | nil => rfl
  | cons x rest ih =>
    obtain ⟨hx, hrest⟩ := List.forall_mem_cons.1 h
    obtain ⟨marker, rfl⟩ := hx
    rw [List.cons_append, outsideLists, ih hrest]

theorem itemLevel_append {lists outer : List Ancestor} (h : AllItems lists)
    (houter : ∀ marker rest, outer ≠ .item marker :: rest) (marker : String) :
    itemLevel (.item (some marker) :: (lists ++ outer)) = lists.length := by
  induction lists generalizing marker with
  | nil =>
    cases outer with
    | nil => rfl
    | cons x rest =>
      cases x with
      | quote => rfl
      | item m => exact absurd rfl (houter m rest)
  | cons x rest ih =>
    obtain ⟨hx, hrest⟩ := List.forall_mem_cons.1 h
    obtain ⟨m, rfl⟩ := hx
    rw [List.cons_append, itemLevel, ih hrest, List.length_cons]

theorem indentInItem_top {lists : List Ancestor} (h : AllItems lists) (base : Int)
    (marker : String) :
    indentInItem base (.item (some marker) :: (lists ++ [])) =
      { firstLine := some (base + listIndentStep * lists.length) } := by
  have houtside : outsideLists (.item (some marker) :: (lists ++ [])) = [] :=
    outsideLists_append h []
  rw [indentInItem, itemLevel_append h (by simp), quoteLeft, houtside]
  rfl

theorem indentInItem_quote {lists : List Ancestor} (h : AllItems lists) (base : Int)
    (marker : String) (rest : List Ancestor) :
    indentInItem base (.item (some marker) :: (lists ++ .quote :: rest)) =
      { left := some (quoteIndentStep * quoteRun (.quote :: rest))
        firstLine := some (listIndentStep * (lists.length + 1)) } := by
  have houtside : outsideLists (.item (some marker) :: (lists ++ .quote :: rest)) =
      .quote :: rest := outsideLists_append h (.quote :: rest)
  rw [indentInItem, itemLevel_append h (by simp), quoteLeft, houtside]
  rfl

/-- A paragraph right in a quote has the left indent of that quote. -/
theorem mem_shares_quoted {c : Context} {blocks : List Block} {a : Address} {rest : List Ancestor}
    {children : List Inline}
    (hat : documentAt blocks a = some (.quote :: rest, .paragraph children)) :
    (a, [Element.paragraph
      { runs := (inlinesRuns c.tools false false children).2
        style := .blockQuote
        indent := some
          { left := some (quoteIndentStep * quoteRun (.quote :: rest)), firstLine := some 0 } }]) ∈
      (documentAddresses blocks).map fun a => (a, elementsAt c blocks a) :=
  @mem_shares c blocks _ _ hat rfl

/-- A paragraph in a list, which may be in further lists, keeps its place in the source and is
numbered by its nearest list. Its indent counts all these lists, from the base indent at the top of a
document and beside the left indent of a quote. -/
theorem flow_nestedLists (tools : Math.Tools) (styles : Style.StyleTable) (blocks : List Block) :
    (∀ n, listBaseIndent styles = .ok n →
      ∃ elements, (flow tools styles blocks).result = .ok elements) ∧
    ∀ elements, (flow tools styles blocks).result = .ok elements →
      ∃ shares, Shares blocks elements shares ∧
        (∀ a lists outer ordered start items, AllItems lists →
          documentAt blocks a = some (lists ++ outer, .list ordered start items) →
          ∀ (i : Nat) item, items[i]? = some item →
          ∀ (j : Nat) children, item[j]? = some (.paragraph children) →
            (outer = [] → ∀ base, listBaseIndent styles = .ok base →
              (a ++ [i, j], [.paragraph
                { runs := itemRuns tools ordered start i j children
                  style := .listParagraph
                  indent := some
                    { firstLine := some (base + listIndentStep * lists.length) } }]) ∈ shares) ∧
            ∀ rest, outer = .quote :: rest →
              (a ++ [i, j], [.paragraph
                { runs := itemRuns tools ordered start i j children
                  style := .listParagraph
                  indent := some
                    { left := some (quoteIndentStep * quoteRun outer)
                      firstLine := some (listIndentStep * (lists.length + 1)) } }]) ∈ shares) ∧
        ∀ a rest children, documentAt blocks a = some (.quote :: rest, .paragraph children) →
          (a, [.paragraph
            { runs := (inlinesRuns tools false false children).2
              style := .blockQuote
              indent := some
                { left := some (quoteIndentStep * quoteRun (.quote :: rest))
                  firstLine := some 0 } }]) ∈ shares := by
  refine ⟨fun n h => exists_flow tools h blocks, fun elements h => ?_⟩
  refine ⟨_, flow_shares h, ?_, fun a rest children hat => mem_shares_quoted hat⟩
  intro a lists outer ordered start items hlists hlist i item hitem j children hb
  have hshare := mem_shares_listItem (c := ⟨tools, listBaseIndent styles⟩) hlist hitem hb
  constructor
  · rintro rfl base hbase
    have hc : Context.base ⟨tools, listBaseIndent styles⟩ = base := by
      rw [Context.base, hbase]
      rfl
    rwa [indentInItem_top hlists, hc] at hshare
  · rintro rest rfl
    rwa [indentInItem_quote hlists] at hshare

/-- Numbered lists in one another at the top, and in a quote a numbered list in one with bullets. -/
def nestedItems : List Block :=
  [.list true 3
    [[.paragraph [.text "a"],
      .list true 7 [[.paragraph [.text "b"]], [.paragraph [.text "c"]]],
      .paragraph [.text "d"]],
    [.paragraph [.text "e"]]],
  .quote [.list false 1 [[.list true 1 [[.paragraph [.text "f"]]]]]]]

theorem allItems_singleton (marker : String) : AllItems [.item (some marker)] := by
  simp [AllItems]

theorem flow_nestedLists_sample :
    ∃ elements shares,
      (flow blankTools Style.StyleTable.default nestedItems).result = .ok elements ∧
      Shares nestedItems elements shares ∧
      ([0, 0, 1, 1, 0], [.paragraph
        { runs := [.text "8. " false false, .text "c" false false]
          style := .listParagraph
          indent := some { firstLine := some 640 } }]) ∈ shares ∧
      ([0, 1, 0], [.paragraph
        { runs := [.text "4. " false false, .text "e" false false]
          style := .listParagraph
          indent := some { firstLine := some 0 } }]) ∈ shares ∧
      ([1, 0, 0, 0, 0, 0], [.paragraph
        { runs := [.text "1. " false false, .text "f" false false]
          style := .listParagraph
          indent := some { left := some 567, firstLine := some 1280 } }]) ∈ shares := by
  obtain ⟨hok, hflow⟩ := flow_nestedLists blankTools Style.StyleTable.default nestedItems
  obtain ⟨elements, helements⟩ := hok 0 rfl
  obtain ⟨shares, hshares, hlists, -⟩ := hflow elements helements
  have htop := hlists [0] [] [] true 3 _ (by simp [AllItems]) rfl 1 _ rfl 0 _ rfl
  have hinner := hlists [0, 0, 1] _ [] true 7 _ (allItems_singleton "3. ") rfl 1 _ rfl 0 _ rfl
  have hquoted := hlists [1, 0, 0, 0] _ [.quote] true 1 _ (allItems_singleton bullet) rfl
    0 _ rfl 0 _ rfl
  exact ⟨elements, shares, helements, hshares, hinner.1 rfl 0 rfl, htop.1 rfl 0 rfl,
    hquoted.2 [] rfl⟩

end MarkdownDocx.Layout

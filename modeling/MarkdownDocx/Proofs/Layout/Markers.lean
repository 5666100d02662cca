import MarkdownDocx.Proofs.Layout.Addresses
import MarkdownDocx.Proofs.Layout.QuoteDepth

/-!
The markers of list items. The marker of an item goes to its first block if that is a paragraph, and
to nothing else: an item that begins with any other block has no marker at all, though paragraphs may
follow.
-/

set_option autoImplicit false

namespace MarkdownDocx.Layout

open MarkdownDocx.Markdown (Inline Block)

/-- The marker in front of a block at an address. -/
def markerAt (around : List Ancestor) (a : Address) (b : Block) : Option String :=
  match b, around with
  | .paragraph _, .item marker :: _ => if a.getLast? = some 0 then marker else none
  | _, _ => none

theorem comesFirst_eq {blocks : List Block} {a : Address} {p : List Ancestor × Block}
    (h : documentAt blocks a = some p) (first : Bool) :
    comesFirst first a = decide (a.getLast? = some 0) := by
  cases hlast : a.getLast? with
  | none =>
    rw [List.getLast?_eq_none_iff.1 hlast] at h
    simp [documentAt] at h
  | some n =>
    rw [comesFirst, hlast]
    simp [beq_eq_decide]

theorem marker_paragraph (children : List Inline) (around : List Ancestor) (a : Address) :
    Place.marker ⟨.paragraph children, around, decide (a.getLast? = some 0)⟩ =
      markerAt around a (.paragraph children) := by
  cases around with
  | nil => rfl
  | cons ancestor outer =>
    cases ancestor with
    | quote => rfl
    | item marker => by_cases h : a.getLast? = some 0 <;> simp [Place.marker, markerAt, h]

/-- What the elements of a block say: its texts, behind the marker. -/
theorem elementsAt_sources {c : Context} {blocks : List Block} {a : Address}
    {around : List Ancestor} {b : Block} (h : documentAt blocks a = some (around, b))
    (hleaf : isContainer b = false) :
    ((elementsAt c blocks a).flatMap Element.runs).map Run.source =
      (markerRuns (markerAt around a b)).map Run.source ++ blockLeaves b := by
  rw [elementsAt, h, Option.elim_some, comesFirst_eq h, List.flatMap_map, List.map_flatMap]
  simp only [Place.element_sources]
  cases b with
  | list _ _ _ => simp [isContainer] at hleaf
  | item _ => simp [isContainer] at hleaf
  | quote _ => simp [isContainer] at hleaf
  | paragraph children =>
    rw [blockPlaces, List.flatMap_singleton, marker_paragraph, Origin.leaves, blockLeaves]
  | html value =>
    simp [blockPlaces, Place.marker, markerAt, markerRuns, Origin.leaves, blockLeaves,
      List.flatMap_map]
  | _ => simp [blockPlaces, Place.marker, markerAt, markerRuns, Origin.leaves, blockLeaves]

/-- The runs of a paragraph in a list, by the position of its item and its own in that item. Only
the first one has a marker, which is numbered from the start of the list. -/
def itemRuns (tools : Math.Tools) (ordered : Bool) (start : Int) (i j : Nat)
    (children : List Inline) : List Run :=
  markerRuns (if j = 0 then some (listMarker ordered (start + i)) else none) ++
    (inlinesRuns tools false false children).2

/-- The share of a paragraph in an item of a list. -/
theorem mem_shares_listItem {c : Context} {blocks : List Block} {a : Address}
    {around : List Ancestor} {ordered : Bool} {start : Int} {items : List (List Block)}
    (hlist : documentAt blocks a = some (around, .list ordered start items)) {i j : Nat}
    {item : List Block} {children : List Inline} (hitem : items[i]? = some item)
    (hb : item[j]? = some (.paragraph children)) :
    (a ++ [i, j], [Element.paragraph
      { runs := itemRuns c.tools ordered start i j children
        style := .listParagraph
        indent := some (indentInItem c.base
          (.item (some (listMarker ordered (start + i))) :: around)) }]) ∈
      (documentAddresses blocks).map fun a => (a, elementsAt c blocks a) := by
  have hat := documentAt_listItem hlist hitem hb
  have hshare := @mem_shares c blocks _ _ hat rfl
  have hmarker := marker_paragraph children
    (.item (some (listMarker ordered (start + i))) :: around) (a ++ [i, j])
  rw [comesFirst_eq hat] at hshare
  simp only [blockPlaces, List.map_singleton, Place.element, Place.paragraph, hmarker] at hshare
  simpa [markerAt, Place.runsOf, itemRuns] using hshare

/-- The first block of an item in a list has the marker if it is a paragraph, and no later paragraph
has it; nor has anything else, wherever the list is. -/
theorem flow_markers (tools : Math.Tools) (styles : Style.StyleTable) (blocks : List Block) :
    (∀ n, listBaseIndent styles = .ok n →
      ∃ elements, (flow tools styles blocks).result = .ok elements) ∧
    ∀ elements, (flow tools styles blocks).result = .ok elements →
      ∃ shares, Shares blocks elements shares ∧
        (∀ a around ordered start items,
          documentAt blocks a = some (around, .list ordered start items) →
          ∀ (i : Nat) item, items[i]? = some item →
          ∀ (j : Nat) children, item[j]? = some (.paragraph children) →
            ∃ p, (a ++ [i, j], [.paragraph p]) ∈ shares ∧
              p.runs = itemRuns tools ordered start i j children) ∧
        ∀ a es, (a, es) ∈ shares → ∀ around b, documentAt blocks a = some (around, b) →
          (es.flatMap Element.runs).map Run.source =
            (markerRuns (markerAt around a b)).map Run.source ++ blockLeaves b := by
  refine ⟨fun n h => exists_flow tools h blocks, fun elements h => ?_⟩
  have hshares := flow_shares h
  refine ⟨_, hshares, fun a around ordered start items hlist i item hitem j children hb => ?_,
    fun a es hes around b hb => ?_⟩
  · exact ⟨_, mem_shares_listItem hlist hitem hb, rfl⟩
  · obtain ⟨a', ha', heq⟩ := List.mem_map.1 hes
    obtain ⟨rfl, rfl⟩ := Prod.mk.inj heq
    obtain ⟨p, hp, hleaf⟩ := mem_documentAddresses.1 ha'
    obtain rfl : p = (around, b) := by simpa [hb] using hp.symm
    exact elementsAt_sources hb hleaf

/-- In a quote, a list from three on. Its first item has two paragraphs, its second begins with a
formula. -/
def quotedItems : List Block :=
  [.quote [.list true 3
    [[.paragraph [.text "a"], .paragraph [.text "b"]], [.math "x" true, .paragraph [.text "c"]]]]]

theorem flow_markers_quoted :
    ∃ elements shares,
      (flow blankTools Style.StyleTable.default quotedItems).result = .ok elements ∧
      Shares quotedItems elements shares ∧
      (∃ p, ([0, 0, 0, 0], [.paragraph p]) ∈ shares ∧
        p.runs = [.text "3. " false false, .text "a" false false]) ∧
      (∃ p, ([0, 0, 0, 1], [.paragraph p]) ∈ shares ∧ p.runs = [.text "b" false false]) ∧
      ∃ p, ([0, 0, 1, 1], [.paragraph p]) ∈ shares ∧ p.runs = [.text "c" false false] := by
  obtain ⟨hok, hflow⟩ := flow_markers blankTools Style.StyleTable.default quotedItems
  obtain ⟨elements, helements⟩ := hok 0 rfl
  obtain ⟨shares, hshares, hitems, -⟩ := hflow elements helements
  have hlist := hitems [0, 0] [.quote] true 3 _ rfl
  exact ⟨elements, shares, helements, hshares, hlist 0 _ rfl 0 _ rfl, hlist 0 _ rfl 1 _ rfl,
    hlist 1 _ rfl 1 _ rfl⟩

/-- The only paragraph of an item loses the number that its list has for it to a code block that is
dropped. -/
theorem flow_markers_lost :
    ∃ p, (flow blankTools Style.StyleTable.default
        [.list true 1 [[.unsupported "block_code" "x", .paragraph [.text "a"]]]]).result =
          .ok [.paragraph p] ∧
      p.runs = [.text "a" false false] ∧
      p.runs.head? ≠ some (.text (listMarker true 1) false false) := by
  refine ⟨_, rfl, rfl, fun hhead => ?_⟩
  have hmarker : "a" = listMarker true 1 := (Run.text.inj (Option.some.inj hhead)).1
  exact absurd hmarker (by decide)

end MarkdownDocx.Layout

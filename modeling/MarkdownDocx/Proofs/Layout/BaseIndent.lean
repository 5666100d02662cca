import MarkdownDocx.Proofs.Layout.Addresses
import MarkdownDocx.Proofs.Layout.QuoteDepth
import MarkdownDocx.Proofs.Style.Widthless

/-!
Who asks for the base indent of lists. Items count from it unless their list takes its indent from a
quote. A layout stops at the first of them if the base is no integer, and without one it does not
look at the base at all. With what merging makes of sizes this tells which documents can be laid out.
-/

set_option autoImplicit false

namespace MarkdownDocx.Layout

open MarkdownDocx.Markdown (Block)
open MarkdownDocx.Number (NotIntegral)
open MarkdownDocx.Style (StyleTable MakesWidthless)

/-! ## Where the base is asked for -/

/-- A list with items that takes no indent from the quotes around it, or an item in no list. -/
def CountsFromBase (around : List Ancestor) : Block → Prop
  | .list _ _ items => items ≠ [] ∧ quoteLeft around = none
  | .item _ => True
  | _ => False

/-- A block asks for the base if what is at one of its addresses counts from it. -/
def Asks (around : List Ancestor) (b : Block) : Prop :=
  ∃ a p, blockAt around b a = some p ∧ CountsFromBase p.1 p.2

def BlocksAsk (around : List Ancestor) (bs : List Block) : Prop := ∃ b ∈ bs, Asks around b

/-- The items of a list from a number on. -/
def ItemsAsk (around : List Ancestor) (ordered : Bool) (number : Int)
    (items : List (List Block)) : Prop :=
  ∃ (i : Nat) (item : List Block), items[i]? = some item ∧
    BlocksAsk (.item (some (listMarker ordered (number + i))) :: around) item

def DocumentAsks (blocks : List Block) : Prop :=
  ∃ a p, documentAt blocks a = some p ∧ CountsFromBase p.1 p.2

section Asks

variable {around : List Ancestor}

theorem blocksAsk_iff {bs : List Block} :
    BlocksAsk around bs ↔ ∃ (i : Nat) (a : Address) (p : List Ancestor × Block),
      (bs[i]?.bind fun b => blockAt around b a) = some p ∧ CountsFromBase p.1 p.2 := by
  constructor
  · rintro ⟨b, hmem, a, p, h, hcounts⟩
    obtain ⟨i, hb⟩ := List.mem_iff_getElem?.1 hmem
    exact ⟨i, a, p, by rw [hb, Option.bind_some, h], hcounts⟩
  · rintro ⟨i, a, p, h, hcounts⟩
    obtain ⟨b, hb, h⟩ := Option.bind_eq_some_iff.1 h
    exact ⟨b, List.mem_of_getElem? hb, a, p, h, hcounts⟩

theorem not_asks_leaf {b : Block} (hb : isContainer b = false) : ¬ Asks around b := by
  rintro ⟨a, p, h, hcounts⟩
  cases a with
  | nil =>
    obtain rfl := Option.some.inj h
    cases b <;> simp [isContainer, CountsFromBase] at hb hcounts
  | cons i a => cases b <;> simp [isContainer, blockAt] at hb h

theorem asks_item (children : List Block) : Asks around (.item children) :=
  ⟨[], (around, .item children), rfl, trivial⟩

@[simp] theorem asks_quote_iff {children : List Block} :
    Asks around (.quote children) ↔ BlocksAsk (.quote :: around) children := by
  rw [blocksAsk_iff]
  constructor
  · rintro ⟨a, p, h, hcounts⟩
    cases a with
    | nil =>
      obtain rfl := Option.some.inj h
      exact hcounts.elim
    | cons i a => exact ⟨i, a, p, h, hcounts⟩
  · rintro ⟨i, a, p, h, hcounts⟩
    exact ⟨i :: a, p, h, hcounts⟩

@[simp] theorem asks_list_iff {ordered : Bool} {start : Int} {items : List (List Block)} :
    Asks around (.list ordered start items) ↔
      (items ≠ [] ∧ quoteLeft around = none) ∨ ItemsAsk around ordered start items := by
  simp only [ItemsAsk, blocksAsk_iff]
  constructor
  · rintro ⟨a, p, h, hcounts⟩
    match a with
    | [] =>
      obtain rfl := Option.some.inj h
      exact .inl hcounts
    | [_] => simp [blockAt] at h
    | i :: j :: a =>
      rw [blockAt, Option.bind_assoc] at h
      obtain ⟨item, hitem, h⟩ := Option.bind_eq_some_iff.1 h
      exact .inr ⟨i, item, hitem, j, a, p, h, hcounts⟩
  · rintro (hcounts | ⟨i, item, hitem, j, a, p, h, hcounts⟩)
    · exact ⟨[], (around, .list ordered start items), rfl, hcounts⟩
    · refine ⟨i :: j :: a, p, ?_, hcounts⟩
      rw [blockAt, hitem, Option.bind_some, h]

@[simp] theorem not_blocksAsk_nil : ¬ BlocksAsk around [] := by simp [BlocksAsk]

@[simp] theorem blocksAsk_cons_iff {b : Block} {rest : List Block} :
    BlocksAsk around (b :: rest) ↔ Asks around b ∨ BlocksAsk around rest :=
  List.exists_mem_cons_iff ..

@[simp] theorem not_itemsAsk_nil {ordered : Bool} {number : Int} :
    ¬ ItemsAsk around ordered number [] := by simp [ItemsAsk]

@[simp] theorem itemsAsk_cons_iff {ordered : Bool} {number : Int} {item : List Block}
    {rest : List (List Block)} :
    ItemsAsk around ordered number (item :: rest) ↔
      BlocksAsk (.item (some (listMarker ordered number)) :: around) item ∨
        ItemsAsk around ordered (number + 1) rest := by
  have hnext (i : Nat) : number + 1 + (i : Int) = number + ((i + 1 : Nat) : Int) := by omega
  unfold ItemsAsk
  rw [← Nat.or_exists_add_one]
  simp [hnext]

theorem documentAsks_iff {blocks : List Block} : DocumentAsks blocks ↔ BlocksAsk [] blocks := by
  rw [blocksAsk_iff, DocumentAsks]
  constructor
  · rintro ⟨a, p, h, hcounts⟩
    cases a with
    | nil => simp [documentAt] at h
    | cons i a => exact ⟨i, a, p, h, hcounts⟩
  · rintro ⟨i, a, p, h, hcounts⟩
    exact ⟨i :: a, p, h, hcounts⟩

end Asks

/-! ## Where a layout stops -/

/-- What fails with a given error if the base is asked for, and succeeds if not. -/
structure Stops (e : NotIntegral) {α : Type} (x : Flow α) (asked : Prop) : Prop where
  fails : asked → x.result = .error e
  succeeds : ¬ asked → ∃ a, x.result = .ok a

namespace Stops

variable {e : NotIntegral} {α : Type} {p q : Prop}

theorem of_ok {x : Flow α} {a : α} (h : x.result = .ok a) (hp : ¬ p) : Stops e x p :=
  ⟨fun hasked => absurd hasked hp, fun _ => ⟨a, h⟩⟩

theorem of_error {x : Flow α} (h : x.result = .error e) (hp : p) : Stops e x p :=
  ⟨fun _ => h, fun hnot => absurd hp hnot⟩

theorem result_eq_error_iff {x : Flow α} (h : Stops e x p) {e' : NotIntegral} :
    x.result = .error e' ↔ e = e' ∧ p := by
  by_cases hp : p
  · simp [h.fails hp, hp]
  · obtain ⟨a, ha⟩ := h.succeeds hp
    simp [ha, hp]

theorem append {x y : Flow (List Element)} (hx : Stops e x p) (hy : Stops e y q) :
    Stops e (x >>= fun first => y >>= fun others => pure (first ++ others)) (p ∨ q) := by
  by_cases hp : p
  · exact of_error (Logged.bind_result_eq_error.2 (.inl (hx.fails hp))) (.inl hp)
  obtain ⟨first, hfirst⟩ := hx.succeeds hp
  by_cases hq : q
  · exact of_error (Logged.bind_result_eq_error.2 (.inr ⟨first, hfirst,
      Logged.bind_result_eq_error.2 (.inl (hy.fails hq))⟩)) (.inr hq)
  · obtain ⟨others, hothers⟩ := hy.succeeds hq
    exact of_ok (Logged.bind_result_eq_ok.2 ⟨first, hfirst,
      Logged.bind_result_eq_ok.2 ⟨others, hothers, rfl⟩⟩) (not_or.2 ⟨hp, hq⟩)

end Stops

mutual
theorem blockElements_stops {c : Context} {e : NotIntegral} (hc : c.listBase = .error e)
    (around : List Ancestor) : ∀ b : Block, Fresh around b →
      Stops e (blockElements c b) (Asks around b)
  | .heading _ _, _ => .of_ok rfl (not_asks_leaf rfl)
  | .paragraph _, _ => .of_ok rfl (not_asks_leaf rfl)
  | .list ordered start items, h => by
    obtain rfl : around = [] := h
    rw [asks_list_iff]
    exact listElements_stops hc [] ordered start 0 items
  | .item children, _ => by
    refine .of_error (Logged.bind_result_eq_error.2 (.inl ?_)) (asks_item children)
    simp [itemIndent, listIndent, hc, Except.map]
  | .table _ _, _ => .of_ok rfl (not_asks_leaf rfl)
  | .quote children, h => by
    have hquote := quoteElements_stops hc around children
    rw [show quoteRun around = 0 from h] at hquote
    rw [asks_quote_iff]
    exact hquote
  | .html _, _ => .of_ok rfl (not_asks_leaf rfl)
  | .math _ _, _ => .of_ok rfl (not_asks_leaf rfl)
  | .unsupported _ _, _ => .of_ok rfl (not_asks_leaf rfl)

/-- Outside of quotes it is the first item that asks. -/
theorem listElements_stops {c : Context} {e : NotIntegral} (hc : c.listBase = .error e)
    (around : List Ancestor) (ordered : Bool) (number : Int) (level : Nat) :
    ∀ items : List (List Block),
      Stops e (listElements c ordered number level (quoteLeft around) items)
        ((items ≠ [] ∧ quoteLeft around = none) ∨ ItemsAsk around ordered number items)
  | [] => .of_ok rfl (by simp)
  | item :: rest => by
    cases hleft : quoteLeft around with
    | none =>
      refine .of_error (Logged.bind_result_eq_error.2 (.inl ?_)) (.inl ⟨by simp, rfl⟩)
      simp [itemIndent, listIndent, hc, Except.map]
    | some left =>
      have hitem := itemElements_stops hc (some (listMarker ordered number))
        { left := some left, firstLine := some (listIndentStep * (level + 1)) } level
        (some (listMarker ordered number)) around item
      have hrest := listElements_stops hc around ordered (number + 1) level rest
      have hinner : quoteLeft (.item (some (listMarker ordered number)) :: around) = some left :=
        hleft
      rw [hinner] at hitem
      simp only [hleft, reduceCtorEq, and_false, false_or] at hrest ⊢
      rw [itemsAsk_cons_iff]
      exact hitem.append hrest

theorem itemElements_stops {c : Context} {e : NotIntegral} (hc : c.listBase = .error e)
    (marker : Option String) (indent : Indent) (level : Nat) (outerMarker : Option String)
    (outer : List Ancestor) : ∀ bs : List Block,
      Stops e (itemElements c marker indent level (quoteLeft (.item outerMarker :: outer)) bs)
        (BlocksAsk (.item outerMarker :: outer) bs)
  | [] => .of_ok rfl not_blocksAsk_nil
  | b :: rest => by
    have hb := blockElements_stops hc (.item outerMarker :: outer) b
    have hrest := itemElements_stops hc none indent level outerMarker outer rest
    rw [blocksAsk_cons_iff]
    cases b with
    | paragraph children =>
      exact .append (.of_ok rfl (not_asks_leaf rfl)) hrest
    | list ordered start items =>
      have hlist := listElements_stops hc (.item outerMarker :: outer) ordered start (level + 1)
        items
      rw [← asks_list_iff] at hlist
      exact hlist.append hrest
    | _ => exact .append (hb (by simp [Fresh, quoteRun])) hrest

theorem quoteElements_stops {c : Context} {e : NotIntegral} (hc : c.listBase = .error e)
    (outer : List Ancestor) : ∀ bs : List Block,
      Stops e (quoteElements c (quoteRun outer + 1) bs) (BlocksAsk (.quote :: outer) bs)
  | [] => .of_ok rfl not_blocksAsk_nil
  | b :: rest => by
    have hb := blockElements_stops hc (.quote :: outer) b
    have hrest := quoteElements_stops hc outer rest
    rw [blocksAsk_cons_iff]
    cases b with
    | paragraph children => exact .append (.of_ok rfl (not_asks_leaf rfl)) hrest
    | heading depth children => exact .append (.of_ok rfl (not_asks_leaf rfl)) hrest
    | quote children =>
      have hquote := quoteElements_stops hc (.quote :: outer) children
      rw [← asks_quote_iff] at hquote
      exact hquote.append hrest
    | list ordered start items =>
      have hlist := listElements_stops hc (.quote :: outer) ordered start 0 items
      rw [← asks_list_iff] at hlist
      exact hlist.append hrest
    | _ => exact .append (hb trivial) hrest
end

theorem blocksElements_stops {c : Context} {e : NotIntegral} (hc : c.listBase = .error e) :
    ∀ bs : List Block, Stops e (blocksElements c bs) (BlocksAsk [] bs)
  | [] => .of_ok rfl not_blocksAsk_nil
  | b :: rest => by
    rw [blocksAsk_cons_iff]
    exact (blockElements_stops hc [] b (fresh_nil b)).append (blocksElements_stops hc rest)

/-! ## Layouts under merged styles -/

section Merged

variable {styles : StyleTable} {e : NotIntegral}

/-- A layout fails with what is wrong with the base, if the document asks for it. -/
theorem flow_eq_error_iff {tools : Math.Tools} {blocks : List Block} :
    (flow tools styles blocks).result = .error e ↔
      listBaseIndent styles = .error e ∧ DocumentAsks blocks := by
  rw [documentAsks_iff]
  cases hbase : listBaseIndent styles with
  | ok n =>
    obtain ⟨elements, helements⟩ := exists_flow tools hbase blocks
    simp [helements]
  | error e' =>
    have hstops := blocksElements_stops (c := ⟨tools, listBaseIndent styles⟩) hbase blocks
    rw [flow, hstops.result_eq_error_iff, Except.error.injEq]

theorem listIndent_eq_error_iff {base : Except NotIntegral Int} {level : Int} :
    listIndent base level = .error e ↔ base = .error e := by
  cases base <;> simp [listIndent, Except.map]

theorem listBaseIndent_eq_error_iff :
    listBaseIndent styles = .error e ↔
      (styles.style .listItem).indent = true ∧
        (styles.style .listItem).size.twoCharacters = .error e := by
  cases hindent : (styles.style .listItem).indent <;> simp [listBaseIndent, hindent]

theorem exists_ok_iff {α : Type} {r : Except NotIntegral α} :
    (∃ a, r = .ok a) ↔ ∀ e, r ≠ .error e := by
  cases r <;> simp

/-- A table that is merged over a template has no base indent just if the overrides are at fault. -/
theorem listBaseIndent_merged_iff {t : Style.Template} (ht : t ∈ Style.templates)
    {members : Json.Members} {m : StyleTable}
    (hm : (t.styles.merge (.obj members)).result = .ok m)
    (hregular : (Json.obj members).Regular) :
    listBaseIndent m = .error e ↔
      MakesWidthless members .listItem (t.styles.style .listItem) e := by
  rw [listBaseIndent_eq_error_iff, Style.merged_indent_iff .listItem hm,
    Style.merged_size_iff .listItem hm (Style.width_of_mem_templates ht .listItem) hregular]
  exact ⟨fun h => ⟨h.1, h.2⟩, fun h => ⟨h.indent, h.size⟩⟩

/-- Every table that is merged over a template can be used for every document, unless the overrides
make list items indent by a size without a width. A table of that kind fails the documents that ask
for the base indent, and it can be used for the other ones. That overrides are regular is no more
than what reading them from a text gives. -/
theorem flow_merged (tools : Math.Tools) {t : Style.Template} (ht : t ∈ Style.templates)
    {members : Json.Members} {m : StyleTable}
    (hm : (t.styles.merge (.obj members)).result = .ok m)
    (hregular : (Json.obj members).Regular) :
    ((∀ e, ¬ MakesWidthless members .listItem (t.styles.style .listItem) e) →
      (∀ level, ∃ n, listIndent (listBaseIndent m) level = .ok n) ∧
        ∀ blocks, ∃ elements, (flow tools m blocks).result = .ok elements) ∧
    ∀ e, MakesWidthless members .listItem (t.styles.style .listItem) e →
      (∀ level, listIndent (listBaseIndent m) level = .error e) ∧
        ∀ blocks,
          (DocumentAsks blocks → (flow tools m blocks).result = .error e) ∧
          (¬ DocumentAsks blocks → ∃ elements, (flow tools m blocks).result = .ok elements) := by
  have hbase (e : NotIntegral) :
      listBaseIndent m = .error e ↔
        MakesWidthless members .listItem (t.styles.style .listItem) e :=
    listBaseIndent_merged_iff ht hm hregular
  constructor
  · intro hwidth
    have hok (e : NotIntegral) : listBaseIndent m ≠ .error e := mt (hbase e).1 (hwidth e)
    exact ⟨fun level => exists_ok_iff.2 fun e => mt listIndent_eq_error_iff.1 (hok e),
      fun blocks => exists_ok_iff.2 fun e h => hok e (flow_eq_error_iff.1 h).1⟩
  · intro e hwidthless
    have herror := (hbase e).2 hwidthless
    refine ⟨fun level => listIndent_eq_error_iff.2 herror, fun blocks => ⟨fun hasks => ?_,
      fun hasks => ?_⟩⟩
    · exact flow_eq_error_iff.2 ⟨herror, hasks⟩
    · exact exists_ok_iff.2 fun e' h => hasks (flow_eq_error_iff.1 h).2

def oneItem : Block := .list false 1 [[.paragraph [.text "a"]]]

theorem documentAsks_oneItem : DocumentAsks [oneItem] :=
  ⟨[0], ([], oneItem), rfl, by simp, rfl⟩

theorem not_documentAsks_quoted : ¬ DocumentAsks [.quote [oneItem]] := by
  have hleft : quoteLeft [.quote] = some quoteIndentStep := rfl
  have hparagraph (around : List Ancestor) : ¬ Asks around (.paragraph [.text "a"]) :=
    not_asks_leaf rfl
  simp [documentAsks_iff, oneItem, hleft, hparagraph]

def sizedItems (size : String) : Json.Members := [("listItem", .obj [("size", .str size)])]

theorem regular_sizedItems (size : String) : (Json.obj (sizedItems size)).Regular := by
  have hsize : (Json.obj [("size", .str size)]).Regular :=
    .obj (List.forall_mem_singleton.2 (.str size))
  exact .obj (List.forall_mem_singleton.2 hsize)

theorem makesWidthless_inf {base : Style.TextStyle} (hindent : base.indent = true) :
    MakesWidthless (sizedItems "inf") .listItem base .infinite := by
  refine ⟨?_, .str "inf", rfl, .infinite false, .text rfl, .infinite false⟩
  have hnamed : Style.namedFor (sizedItems "inf") ⟨.listItem, .indent⟩ = none := rfl
  simp [hnamed, hindent]

theorem not_makesWidthless_nine {base : Style.TextStyle} (e : NotIntegral) :
    ¬ MakesWidthless (sizedItems "小五") .listItem base e := by
  rintro ⟨-, v, hv, x, hx, -⟩
  obtain rfl : Json.str "小五" = v := Option.some.inj hv
  have hnine : Style.sizeOfText? "小五" = some (.whole 9) := rfl
  cases hx with
  | text hs => simp [hnine] at hs

/-- A list asks for the base, and in a quote it does not. -/
theorem flow_merged_sizes :
    (∃ m, (Style.government.styles.merge (.obj (sizedItems "inf"))).result = .ok m ∧
      (flow blankTools m [oneItem]).result = .error .infinite ∧
      ∃ elements, (flow blankTools m [.quote [oneItem]]).result = .ok elements) ∧
    ∃ m, (Style.government.styles.merge (.obj (sizedItems "小五"))).result = .ok m ∧
      ∀ blocks, ∃ elements, (flow blankTools m blocks).result = .ok elements := by
  have hgovernment : Style.government ∈ Style.templates := by simp [Style.templates]
  refine ⟨⟨_, rfl, ?_⟩, ⟨_, rfl, ?_⟩⟩
  · obtain ⟨-, hinfinite⟩ :=
      flow_merged blankTools hgovernment rfl (regular_sizedItems "inf")
    obtain ⟨-, hdocuments⟩ := hinfinite .infinite (makesWidthless_inf rfl)
    exact ⟨(hdocuments [oneItem]).1 documentAsks_oneItem,
      (hdocuments [.quote [oneItem]]).2 not_documentAsks_quoted⟩
  · obtain ⟨hsizes, -⟩ :=
      flow_merged blankTools hgovernment rfl (regular_sizedItems "小五")
    exact (hsizes not_makesWidthless_nine).2

/-- Tables with such a size are accepted all the same. -/
theorem flow_merged_notANumber :
    ∃ t ∈ Style.templates, ∃ m,
      (t.styles.merge (.obj (sizedItems "nan"))).result = .ok m ∧
      (flow blankTools m [oneItem]).result = .error .nan :=
  ⟨Style.government, by simp [Style.templates], _, rfl, rfl⟩

end Merged

end MarkdownDocx.Layout

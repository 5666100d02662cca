import Mathlib.Data.List.Forall2
import MarkdownDocx.Proofs.Layout.Leaves

/-!
What parsed tokens become in a syntax tree. Every token but a blank line is one block of the kind
that it names, and the tree says what the tokens say, from left to right: nothing that is supported
gets lost, is said twice or moves.
-/

set_option autoImplicit false

namespace MarkdownDocx.Markdown

open MarkdownDocx.Layout (inlineLeaves inlinesLeaves)

/-! ## Tokens inside of paragraphs -/

/-- What a token says by itself, whatever it holds. -/
def TokenKind.ownText (raw : String) : TokenKind → Option String
  | .text => some raw
  | .codeSpan => some raw
  | .inlineMath => some raw
  | .inlineHtml => some raw
  | .softBreak => some "\n"
  | .lineBreak => some "\n"
  | _ => none

mutual
/-- The texts of a token inside of a paragraph, from left to right. -/
def Token.inlineTexts : Token → List String
  | .token kind raw _ children =>
    match kind.ownText raw with
    | some s => [s]
    | none => inlineTextsOf children

def inlineTextsOf : List Token → List String
  | [] => []
  | t :: rest => t.inlineTexts ++ inlineTextsOf rest
end

/-- The kinds that have inline nodes of their own. -/
def inlineKinds : List TokenKind :=
  [.text, .strong, .emphasis, .codeSpan, .link, .inlineMath, .softBreak, .lineBreak, .inlineHtml]

/-- The nodes that a token inside of a paragraph stands for. -/
inductive Token.IsInline : Token → List Inline → Prop
  | text {raw : String} {a : Attributes} {cs : List Token} :
      IsInline (.token .text raw a cs) [.text raw]
  | html {raw : String} {a : Attributes} {cs : List Token} :
      IsInline (.token .inlineHtml raw a cs) [.text raw]
  | softBreak {raw : String} {a : Attributes} {cs : List Token} :
      IsInline (.token .softBreak raw a cs) [.text "\n"]
  | lineBreak {raw : String} {a : Attributes} {cs : List Token} :
      IsInline (.token .lineBreak raw a cs) [.text "\n"]
  | code {raw : String} {a : Attributes} {cs : List Token} :
      IsInline (.token .codeSpan raw a cs) [.code raw]
  | math {raw : String} {a : Attributes} {cs : List Token} :
      IsInline (.token .inlineMath raw a cs) [.math raw]
  | strong {raw : String} {a : Attributes} {cs : List Token} {parts : List (List Inline)}
      (h : List.Forall₂ IsInline cs parts) :
      IsInline (.token .strong raw a cs) [.strong parts.flatten]
  | emphasis {raw : String} {a : Attributes} {cs : List Token} {parts : List (List Inline)}
      (h : List.Forall₂ IsInline cs parts) :
      IsInline (.token .emphasis raw a cs) [.emphasis parts.flatten]
  | link {raw : String} {a : Attributes} {cs : List Token} {parts : List (List Inline)}
      (h : List.Forall₂ IsInline cs parts) :
      IsInline (.token .link raw a cs) [.link a.url parts.flatten]
  /-- Any other token that holds some is dropped, and what it holds is kept. -/
  | decoration {kind : TokenKind} {raw : String} {a : Attributes} {cs : List Token}
      {parts : List (List Inline)} (hkind : kind ∉ inlineKinds) (hcs : cs ≠ [])
      (h : List.Forall₂ IsInline cs parts) : IsInline (.token kind raw a cs) parts.flatten
  | unsupported {kind : TokenKind} {raw : String} {a : Attributes} (hkind : kind ∉ inlineKinds) :
      IsInline (.token kind raw a []) [.unsupported kind.name raw]

/-- The nodes that tokens stand for in a row. -/
def InlinesStand (ts : List Token) (nodes : List Inline) : Prop :=
  ∃ parts, List.Forall₂ Token.IsInline ts parts ∧ nodes = parts.flatten

theorem inlinesOf_eq_flatten (ts : List Token) : inlinesOf ts = (ts.map Token.inlines).flatten := by
  induction ts with
  | nil => simp [inlinesOf]
  | cons t rest ih => simp [inlinesOf, ih]

/-- A token without nodes of its own has those of what it holds. -/
theorem inlines_other {kind : TokenKind} (hkind : kind ∉ inlineKinds) (raw : String)
    (a : Attributes) (cs : List Token) :
    (Token.token kind raw a cs).inlines =
      if cs = [] then [.unsupported kind.name raw] else inlinesOf cs := by
  have hne : ∀ k ∈ inlineKinds, kind ≠ k := fun k hk h => hkind (h ▸ hk)
  simp only [inlineKinds, List.forall_mem_cons, List.not_mem_nil, false_imp_iff, implies_true,
    and_true] at hne
  cases cs <;> cases kind <;> simp [Token.inlines, inlinesOf] <;> simp at hne

mutual
theorem Token.isInline_inlines : ∀ t : Token, t.IsInline t.inlines
  | .token kind raw a cs => by
    have hcs := forall₂_isInline cs
    by_cases hkind : kind ∈ inlineKinds
    · simp only [inlineKinds, List.mem_cons, List.not_mem_nil, or_false] at hkind
      rcases hkind with rfl | rfl | rfl | rfl | rfl | rfl | rfl | rfl | rfl <;>
        simp only [Token.inlines, inlinesOf_eq_flatten]
      · exact .text
      · exact .strong hcs
      · exact .emphasis hcs
      · exact .code
      · exact .link hcs
      · exact .math
      · exact .softBreak
      · exact .lineBreak
      · exact .html
    · rw [inlines_other hkind]
      split
      · next hnil =>
        subst hnil
        exact .unsupported hkind
      · next hne =>
        rw [inlinesOf_eq_flatten]
        exact .decoration hkind hne hcs

theorem forall₂_isInline : ∀ ts : List Token,
    List.Forall₂ Token.IsInline ts (ts.map Token.inlines)
  | [] => .nil
  | t :: rest => .cons t.isInline_inlines (forall₂_isInline rest)
end

theorem inlinesStand_inlinesOf (ts : List Token) : InlinesStand ts (inlinesOf ts) :=
  ⟨_, forall₂_isInline ts, inlinesOf_eq_flatten ts⟩

theorem inlinesLeaves_append (xs ys : List Inline) :
    inlinesLeaves (xs ++ ys) = inlinesLeaves xs ++ inlinesLeaves ys := by
  induction xs with
  | nil => simp [inlinesLeaves]
  | cons x rest ih => simp [inlinesLeaves, ih]

mutual
theorem Token.inlines_leaves : ∀ t : Token, inlinesLeaves t.inlines = t.inlineTexts
  | .token kind raw a cs => by
    have hcs := inlinesOf_leaves cs
    by_cases hkind : kind ∈ inlineKinds
    · simp only [inlineKinds, List.mem_cons, List.not_mem_nil, or_false] at hkind
      rcases hkind with rfl | rfl | rfl | rfl | rfl | rfl | rfl | rfl | rfl <;>
        simp [Token.inlines, Token.inlineTexts, TokenKind.ownText, inlinesLeaves, inlineLeaves, hcs]
    · have hown : kind.ownText raw = none := by
        unfold TokenKind.ownText
        split <;> simp_all [inlineKinds]
      rw [inlines_other hkind]
      split
      · next hnil =>
        subst hnil
        simp [Token.inlineTexts, hown, inlineTextsOf, inlinesLeaves, inlineLeaves]
      · simp [Token.inlineTexts, hown, hcs]

theorem inlinesOf_leaves : ∀ ts : List Token, inlinesLeaves (inlinesOf ts) = inlineTextsOf ts
  | [] => by simp [inlinesOf, inlinesLeaves, inlineTextsOf]
  | t :: rest => by
    simp [inlinesOf, inlineTextsOf, inlinesLeaves_append, t.inlines_leaves, inlinesOf_leaves rest]
end

/-! ## Tables -/

/-- The cells of one part of a table, row by row: a head is a row of its own, and has cells among
what it holds; a body has rows among what it holds, and all that a row holds are cells. -/
def partRows (part : Token) : List (List Token) :=
  match part.kind with
  | .tableHead => [part.children.filter fun c => c.kind == .tableCell]
  | .tableBody => (part.children.filter fun r => r.kind == .tableRow).map Token.children
  | _ => []

def cellTexts (cell : Token) : List String := inlineTextsOf cell.children

/-- The columns are aligned as the cells of the last head, if there is a head. -/
def Aligned (parts : List Token) (align : List (Option String)) : Prop :=
  (∀ before head after, parts = before ++ head :: after → head.kind = .tableHead →
    (∀ p ∈ after, p.kind ≠ .tableHead) →
    align = (head.children.filter fun c => c.kind == .tableCell).map fun c => c.attributes.align) ∧
  ((∀ p ∈ parts, p.kind ≠ .tableHead) → align = [])

theorem aligned_columnAlignment (parts : List Token) : Aligned parts (columnAlignment parts) := by
  constructor
  · rintro before head after rfl hhead hafter
    have hnone : (after.filter fun p => p.kind == .tableHead) = [] := by simpa using hafter
    simp [columnAlignment, hhead, hnone, headCells]
  · intro h
    have hnone : (parts.filter fun p => p.kind == .tableHead) = [] := by simpa using h
    simp [columnAlignment, hnone]

theorem sectionRows_eq (part : Token) :
    sectionRows part = (partRows part).map fun row => row.map cellOf := by
  unfold sectionRows partRows
  split <;> simp_all [headCells, bodyRows]

theorem flatMap_sectionRows (parts : List Token) :
    parts.flatMap sectionRows = (parts.flatMap partRows).map fun row => row.map cellOf := by
  induction parts with
  | nil => rfl
  | cons part rest ih => simp [sectionRows_eq, ih]

/-! ## Blocks -/

mutual
/-- The texts of a token in the place of a block, depth first and from left to right. -/
def Token.blockTexts : Token → List String
  | .token .heading _ _ children => inlineTextsOf children
  | .token .paragraph _ _ children => inlineTextsOf children
  | .token .blockText _ _ children => inlineTextsOf children
  | .token .list _ _ children => itemTextsOf children
  | .token .listItem _ _ children => blockTextsOf children
  | .token .blockQuote _ _ children => blockTextsOf children
  | .token .table _ _ children =>
    (children.flatMap partRows).flatMap fun row => row.flatMap cellTexts
  | .token .blockHtml raw _ _ => [raw]
  | .token .blockMath raw _ _ => [Text.trimmed raw]
  | .token _ _ _ _ => []

def blockTextsOf : List Token → List String
  | [] => []
  | t :: rest => t.blockTexts ++ blockTextsOf rest

/-- The texts of the items of a list; whatever else stands in it says nothing. -/
def itemTextsOf : List Token → List String
  | [] => []
  | .token .listItem _ _ children :: rest => blockTextsOf children ++ itemTextsOf rest
  | _ :: rest => itemTextsOf rest
end

mutual
/-- The texts of a block, depth first and from left to right. -/
def Block.texts : Block → List String
  | .heading _ children => inlinesLeaves children
  | .paragraph children => inlinesLeaves children
  | .list _ _ items => itemsTexts items
  | .item children => blocksTexts children
  | .table _ rows => rows.flatMap fun row => row.flatMap inlinesLeaves
  | .quote children => blocksTexts children
  | .html value => [value]
  | .math formula _ => [formula]
  | .unsupported _ _ => []

def blocksTexts : List Block → List String
  | [] => []
  | b :: rest => b.texts ++ blocksTexts rest

def itemsTexts : List (List Block) → List String
  | [] => []
  | item :: rest => blocksTexts item ++ itemsTexts rest
end

/-- The kinds that have blocks of their own. -/
def blockKinds : List TokenKind :=
  [.heading, .paragraph, .blockText, .list, .listItem, .blockQuote, .table, .blockHtml, .blockMath]

/-- All tokens but blank lines. -/
def contentTokens (ts : List Token) : List Token := ts.filter fun t => t.kind != .blankLine

/-- The block that a token stands for. -/
inductive Token.IsBlock : Token → Block → Prop
  | heading {raw : String} {a : Attributes} {cs : List Token} {nodes : List Inline}
      (h : InlinesStand cs nodes) : IsBlock (.token .heading raw a cs) (.heading a.level nodes)
  | paragraph {raw : String} {a : Attributes} {cs : List Token} {nodes : List Inline}
      (h : InlinesStand cs nodes) : IsBlock (.token .paragraph raw a cs) (.paragraph nodes)
  | blockText {raw : String} {a : Attributes} {cs : List Token} {nodes : List Inline}
      (h : InlinesStand cs nodes) : IsBlock (.token .blockText raw a cs) (.paragraph nodes)
  | list {raw : String} {a : Attributes} {cs : List Token} {items : List (List Block)}
      (h : List.Forall₂ (fun item blocks => List.Forall₂ IsBlock (contentTokens item) blocks)
        ((cs.filter fun item => item.kind == .listItem).map Token.children) items) :
      IsBlock (.token .list raw a cs) (.list a.ordered a.start items)
  | item {raw : String} {a : Attributes} {cs : List Token} {blocks : List Block}
      (h : List.Forall₂ IsBlock (contentTokens cs) blocks) :
      IsBlock (.token .listItem raw a cs) (.item blocks)
  | quote {raw : String} {a : Attributes} {cs : List Token} {blocks : List Block}
      (h : List.Forall₂ IsBlock (contentTokens cs) blocks) :
      IsBlock (.token .blockQuote raw a cs) (.quote blocks)
  | table {raw : String} {a : Attributes} {cs : List Token} {align : List (Option String)}
      {rows : List Row} (halign : Aligned cs align)
      (h : List.Forall₂ (List.Forall₂ fun cell nodes => InlinesStand cell.children nodes)
        (cs.flatMap partRows) rows) : IsBlock (.token .table raw a cs) (.table align rows)
  | html {raw : String} {a : Attributes} {cs : List Token} :
      IsBlock (.token .blockHtml raw a cs) (.html raw)
  | math {raw : String} {a : Attributes} {cs : List Token} :
      IsBlock (.token .blockMath raw a cs) (.math (Text.trimmed raw) true)
  | unsupported {kind : TokenKind} {raw : String} {a : Attributes} {cs : List Token}
      (hkind : kind ∉ blockKinds) : IsBlock (.token kind raw a cs) (.unsupported kind.name raw)

theorem block_other {kind : TokenKind} (hkind : kind ∉ blockKinds) (raw : String)
    (a : Attributes) (cs : List Token) :
    (Token.token kind raw a cs).block = .unsupported kind.name raw := by
  cases kind <;> simp_all [Token.block, blockKinds]

theorem blockTexts_other {kind : TokenKind} (hkind : kind ∉ blockKinds) (raw : String)
    (a : Attributes) (cs : List Token) : (Token.token kind raw a cs).blockTexts = [] := by
  cases kind <;> simp_all [Token.blockTexts, blockKinds]

theorem forall₂_rows (rows : List (List Token)) :
    List.Forall₂ (List.Forall₂ fun cell nodes => InlinesStand cell.children nodes) rows
      (rows.map fun row => row.map cellOf) :=
  List.forall₂_map_right_iff.2 (List.forall₂_same.2 fun _ _ =>
    List.forall₂_map_right_iff.2 (List.forall₂_same.2 fun cell _ =>
      inlinesStand_inlinesOf cell.children))

mutual
theorem Token.isBlock_block : ∀ t : Token, t.IsBlock t.block
  | .token kind raw a cs => by
    have hblocks := forall₂_isBlock cs
    have hitems := forall₂_items cs
    have hnodes := inlinesStand_inlinesOf cs
    by_cases hkind : kind ∈ blockKinds
    · simp only [blockKinds, List.mem_cons, List.not_mem_nil, or_false] at hkind
      rcases hkind with rfl | rfl | rfl | rfl | rfl | rfl | rfl | rfl | rfl <;>
        simp only [Token.block]
      · exact .heading hnodes
      · exact .paragraph hnodes
      · exact .blockText hnodes
      · exact .list hitems
      · exact .item hblocks
      · exact .quote hblocks
      · rw [flatMap_sectionRows]
        exact .table (aligned_columnAlignment cs) (forall₂_rows _)
      · exact .html
      · exact .math
    · rw [block_other hkind]
      exact .unsupported hkind

/-- Every token but a blank line stands for one block, in order. -/
theorem forall₂_isBlock : ∀ ts : List Token,
    List.Forall₂ Token.IsBlock (contentTokens ts) (blocksOf ts)
  | [] => .nil
  | t :: rest => by
    have ht := t.isBlock_block
    have hrest := forall₂_isBlock rest
    by_cases hblank : t.kind = .blankLine
    · simpa [contentTokens, blocksOf, hblank] using hrest
    · simpa [contentTokens, blocksOf, hblank] using And.intro ht hrest

theorem forall₂_items : ∀ ts : List Token,
    List.Forall₂ (fun item blocks => List.Forall₂ Token.IsBlock (contentTokens item) blocks)
      ((ts.filter fun item => item.kind == .listItem).map Token.children) (itemsOf ts)
  | [] => .nil
  | .token kind raw a cs :: rest => by
    have hcs := forall₂_isBlock cs
    have hrest := forall₂_items rest
    by_cases hkind : kind = .listItem
    · subst hkind
      simpa [itemsOf, Token.kind, Token.children] using And.intro hcs hrest
    · have hitems : itemsOf (.token kind raw a cs :: rest) = itemsOf rest := by
        cases kind <;> simp_all [itemsOf]
      simpa [hitems, Token.kind, hkind] using hrest
end

theorem rows_texts (rows : List (List Token)) :
    ((rows.map fun row => row.map cellOf).flatMap fun row => row.flatMap inlinesLeaves) =
      rows.flatMap fun row => row.flatMap cellTexts := by
  have hcell : (fun cell : Token => inlinesLeaves (cellOf cell)) = cellTexts :=
    funext fun cell => inlinesOf_leaves cell.children
  simp [List.flatMap_map, hcell]

mutual
theorem Token.block_texts : ∀ t : Token, t.block.texts = t.blockTexts
  | .token kind raw a cs => by
    have hblocks := blocksOf_texts cs
    have hitems := itemsOf_texts cs
    by_cases hkind : kind ∈ blockKinds
    · simp only [blockKinds, List.mem_cons, List.not_mem_nil, or_false] at hkind
      rcases hkind with rfl | rfl | rfl | rfl | rfl | rfl | rfl | rfl | rfl <;>
        simp [Token.block, Block.texts, Token.blockTexts, inlinesOf_leaves, hblocks, hitems,
          flatMap_sectionRows, rows_texts]
    · rw [block_other hkind, blockTexts_other hkind]
      simp [Block.texts]

theorem blocksOf_texts : ∀ ts : List Token, blocksTexts (blocksOf ts) = blockTextsOf ts
  | [] => by simp [blocksOf, blocksTexts, blockTextsOf]
  | t :: rest => by
    have ht := t.block_texts
    have hrest := blocksOf_texts rest
    by_cases hblank : t.kind = .blankLine
    · obtain ⟨kind, raw, a, cs⟩ := t
      simp only [Token.kind] at hblank
      subst hblank
      simpa [blocksOf, blockTextsOf, Token.blockTexts, Token.kind] using hrest
    · simp [blocksOf, blocksTexts, blockTextsOf, hblank, ht, hrest]

theorem itemsOf_texts : ∀ ts : List Token, itemsTexts (itemsOf ts) = itemTextsOf ts
  | [] => by simp [itemsOf, itemsTexts, itemTextsOf]
  | .token kind raw a cs :: rest => by
    have hcs := blocksOf_texts cs
    have hrest := itemsOf_texts rest
    cases kind <;> simp [itemsOf, itemsTexts, itemTextsOf, hcs, hrest]
end

/-- The blocks of tokens, whatever these are. Every token but a blank line becomes one block of the
kind that it names, in order, and so do those that it holds; and the blocks say what the tokens
say. -/
theorem blocksOf_tokens (ts : List Token) :
    List.Forall₂ Token.IsBlock (contentTokens ts) (blocksOf ts) ∧
      blocksTexts (blocksOf ts) = blockTextsOf ts :=
  ⟨forall₂_isBlock ts, blocksOf_texts ts⟩

end MarkdownDocx.Markdown

import MarkdownDocx.Proofs.Layout.Places

/-!
Addresses in a tree. An address leads to a block by the positions of what is around it, and addresses
in lexicographic order are blocks in the order of the source. The elements of a document fall to the
blocks that hold no others: each of these gets its own, and they stand in the order of the addresses.
-/

set_option autoImplicit false

namespace MarkdownDocx.Layout

open MarkdownDocx.Markdown (Inline Block)

/-- Positions from the outside in, counted from nought. In a list the position of an item comes
before that of a block in it. -/
abbrev Address := List Nat

/-- What an address leads to from a block, with its ancestors. -/
def blockAt (around : List Ancestor) : Block → Address → Option (List Ancestor × Block)
  | b, [] => some (around, b)
  | .item children, i :: a => children[i]?.bind fun b => blockAt (.item none :: around) b a
  | .quote children, i :: a => children[i]?.bind fun b => blockAt (.quote :: around) b a
  | .list ordered start items, i :: j :: a =>
    (items[i]?.bind fun item => item[j]?).bind fun b =>
      blockAt (.item (some (listMarker ordered (start + i))) :: around) b a
  | _, _ => none

def documentAt (blocks : List Block) : Address → Option (List Ancestor × Block)
  | [] => none
  | i :: a => blocks[i]?.bind fun b => blockAt [] b a

/-- Lists, items and quotes hold further blocks. -/
def isContainer : Block → Bool
  | .list _ _ _ => true
  | .item _ => true
  | .quote _ => true
  | _ => false

mutual
/-- The addresses, from here on, of the blocks that hold no others. -/
def blockAddresses : Block → List Address
  | .list _ _ items => itemsAddresses 0 items
  | .item children => blocksAddresses 0 children
  | .quote children => blocksAddresses 0 children
  | _ => [[]]

/-- The first block has the given position. -/
def blocksAddresses (n : Nat) : List Block → List Address
  | [] => []
  | b :: rest => (blockAddresses b).map (n :: ·) ++ blocksAddresses (n + 1) rest

def itemsAddresses (n : Nat) : List (List Block) → List Address
  | [] => []
  | item :: rest => (blocksAddresses 0 item).map (n :: ·) ++ itemsAddresses (n + 1) rest
end

def documentAddresses (blocks : List Block) : List Address := blocksAddresses 0 blocks

/-! ## Addresses behind a position -/

section Numbered

variable {α : Type} {f : α → List Address}

/-- The addresses in each of a row, behind its position. -/
def numbered (f : α → List Address) (xs : List α) : List Address :=
  xs.zipIdx.flatMap fun p => (f p.1).map (p.2 :: ·)

theorem nil_not_mem_numbered {xs : List α} : [] ∉ numbered f xs := by
  simp [numbered]

theorem cons_mem_numbered {xs : List α} {i : Nat} {a : Address} :
    i :: a ∈ numbered f xs ↔ ∃ x, xs[i]? = some x ∧ a ∈ f x := by
  simp [numbered, List.mem_zipIdx_iff_getElem?]

theorem pairwise_numbered {xs : List α} (h : ∀ x ∈ xs, (f x).Pairwise (· < ·)) :
    (numbered f xs).Pairwise (· < ·) := by
  have hpositions : xs.zipIdx.Pairwise fun p q => p.2 < q.2 := by
    rw [← List.pairwise_map, List.zipIdx_map_snd]
    exact List.pairwise_lt_range' 1
  refine List.pairwise_flatMap.2 ⟨fun p hp => ?_, hpositions.imp fun hlt a ha b hb => ?_⟩
  · have hx := h p.1 (List.mem_of_getElem? (List.mem_zipIdx_iff_getElem?.1 hp))
    exact List.pairwise_map.2 (hx.imp fun hlt => List.cons_lt_cons_iff.2 (.inr ⟨rfl, hlt⟩))
  · obtain ⟨a', -, rfl⟩ := List.mem_map.1 ha
    obtain ⟨b', -, rfl⟩ := List.mem_map.1 hb
    exact List.cons_lt_cons_iff.2 (.inl hlt)

end Numbered

theorem blocksAddresses_eq (n : Nat) (bs : List Block) :
    blocksAddresses n bs = (bs.zipIdx n).flatMap fun p => (blockAddresses p.1).map (p.2 :: ·) := by
  induction bs generalizing n with
  | nil => rw [blocksAddresses, List.zipIdx_nil, List.flatMap_nil]
  | cons b rest ih => rw [blocksAddresses, ih, List.zipIdx_cons, List.flatMap_cons]

theorem itemsAddresses_eq (n : Nat) (items : List (List Block)) :
    itemsAddresses n items =
      (items.zipIdx n).flatMap fun p => (numbered blockAddresses p.1).map (p.2 :: ·) := by
  induction items generalizing n with
  | nil => rw [itemsAddresses, List.zipIdx_nil, List.flatMap_nil]
  | cons item rest ih =>
    rw [itemsAddresses, ih, List.zipIdx_cons, List.flatMap_cons, blocksAddresses_eq, numbered]

theorem blockAddresses_list (ordered : Bool) (start : Int) (items : List (List Block)) :
    blockAddresses (.list ordered start items) = numbered (numbered blockAddresses) items := by
  rw [blockAddresses, itemsAddresses_eq, numbered]

theorem blockAddresses_item (children : List Block) :
    blockAddresses (.item children) = numbered blockAddresses children := by
  rw [blockAddresses, blocksAddresses_eq, numbered]

theorem blockAddresses_quote (children : List Block) :
    blockAddresses (.quote children) = numbered blockAddresses children := by
  rw [blockAddresses, blocksAddresses_eq, numbered]

theorem documentAddresses_eq (blocks : List Block) :
    documentAddresses blocks = numbered blockAddresses blocks :=
  blocksAddresses_eq 0 blocks

theorem blockAddresses_leaf {b : Block} (h : isContainer b = false) : blockAddresses b = [[]] := by
  cases b with
  | list _ _ _ => simp [isContainer] at h
  | item _ => simp [isContainer] at h
  | quote _ => simp [isContainer] at h
  | _ => simp [blockAddresses]

/-- Induction over the blocks of a tree: those that hold no others, and the three kinds that do. -/
@[elab_as_elim]
theorem block_induction {motive : Block → Prop} (leaf : ∀ b, isContainer b = false → motive b)
    (list : ∀ ordered start items, (∀ item ∈ items, ∀ b ∈ item, motive b) →
      motive (.list ordered start items))
    (item : ∀ children, (∀ b ∈ children, motive b) → motive (.item children))
    (quote : ∀ children, (∀ b ∈ children, motive b) → motive (.quote children)) (b : Block) :
    motive b := by
  match b with
  | .list ordered start items =>
    exact list ordered start items fun bs _ b _ => block_induction leaf list item quote b
  | .item children => exact item children fun b _ => block_induction leaf list item quote b
  | .quote children => exact quote children fun b _ => block_induction leaf list item quote b
  | .heading depth children => exact leaf (.heading depth children) rfl
  | .paragraph children => exact leaf (.paragraph children) rfl
  | .table align rows => exact leaf (.table align rows) rfl
  | .html value => exact leaf (.html value) rfl
  | .math formula display => exact leaf (.math formula display) rfl
  | .unsupported kind raw => exact leaf (.unsupported kind raw) rfl
termination_by sizeOf b
decreasing_by
  · have hb := List.sizeOf_lt_of_mem ‹_ ∈ bs›
    have hbs := List.sizeOf_lt_of_mem ‹_ ∈ items›
    simp only [Block.list.sizeOf_spec]
    omega
  · have hb := List.sizeOf_lt_of_mem ‹_ ∈ children›
    simp only [Block.item.sizeOf_spec]
    omega
  · have hb := List.sizeOf_lt_of_mem ‹_ ∈ children›
    simp only [Block.quote.sizeOf_spec]
    omega

/-! ## Which addresses there are, and in which order -/

theorem nil_mem_blockAddresses {b : Block} : [] ∈ blockAddresses b ↔ isContainer b = false := by
  cases b with
  | list _ _ _ => simp [blockAddresses_list, nil_not_mem_numbered, isContainer]
  | item _ => simp [blockAddresses_item, nil_not_mem_numbered, isContainer]
  | quote _ => simp [blockAddresses_quote, nil_not_mem_numbered, isContainer]
  | _ => simp [blockAddresses, isContainer]

/-- They are those that lead to a block that holds no others. -/
theorem mem_blockAddresses {around : List Ancestor} {b : Block} {a : Address} :
    a ∈ blockAddresses b ↔ ∃ p, blockAt around b a = some p ∧ isContainer p.2 = false := by
  fun_induction blockAt around b a with
  | case1 around b =>
    rw [nil_mem_blockAddresses]
    simp
  | case2 around children i a ih =>
    rw [blockAddresses_item, cons_mem_numbered]
    cases children[i]? <;> simp [ih]
  | case3 around children i a ih =>
    rw [blockAddresses_quote, cons_mem_numbered]
    cases children[i]? <;> simp [ih]
  | case4 around ordered start items i j a ih =>
    rw [blockAddresses_list, cons_mem_numbered]
    simp only [cons_mem_numbered]
    cases hitem : items[i]? with
    | none => simp
    | some item =>
      cases hb : item[j]? with
      | none => simp [hb]
      | some b => simp [hb, ih]
  | case5 a around b hnil hitem hquote hlist =>
    have hmem : a ∉ blockAddresses b := by
      obtain ⟨i, a, rfl⟩ := List.exists_cons_of_ne_nil hnil
      cases b with
      | item children => exact absurd rfl (hitem children i a rfl)
      | quote children => exact absurd rfl (hquote children i a rfl)
      | list ordered start items =>
        cases a with
        | nil => simp [blockAddresses_list, cons_mem_numbered, nil_not_mem_numbered]
        | cons j a => exact absurd rfl (hlist ordered start items i j a rfl)
      | _ => simp [blockAddresses]
    simp [hmem]

theorem pairwise_blockAddresses (b : Block) : (blockAddresses b).Pairwise (· < ·) := by
  induction b using block_induction with
  | leaf b h =>
    rw [blockAddresses_leaf h]
    exact List.pairwise_singleton _ _
  | list ordered start items ih =>
    rw [blockAddresses_list]
    exact pairwise_numbered fun item hitem => pairwise_numbered (ih item hitem)
  | item children ih =>
    rw [blockAddresses_item]
    exact pairwise_numbered ih
  | quote children ih =>
    rw [blockAddresses_quote]
    exact pairwise_numbered ih

/-! ## The places at an address -/

/-- Whether what an address leads to comes first in what is right around it. -/
def comesFirst (first : Bool) (a : Address) : Bool := a.getLast?.elim first (· == 0)

theorem comesFirst_cons (first : Bool) (i : Nat) (a : Address) :
    comesFirst first (i :: a) = comesFirst (i == 0) a := by
  cases a <;> rfl

def placesAt (around : List Ancestor) (first : Bool) (b : Block) (a : Address) : List Place :=
  (blockAt around b a).elim [] fun p => blockPlaces p.1 (comesFirst first a) p.2

theorem blocksPlaces_eq (around : List Ancestor) (n : Nat) (bs : List Block) :
    blocksPlaces around (n == 0) bs =
      (bs.zipIdx n).flatMap fun p => blockPlaces around (p.2 == 0) p.1 := by
  induction bs generalizing n with
  | nil => rw [blocksPlaces, List.zipIdx_nil, List.flatMap_nil]
  | cons b rest ih =>
    have hrest := ih (n + 1)
    rw [beq_false_of_ne (Nat.succ_ne_zero n)] at hrest
    rw [blocksPlaces, hrest, List.zipIdx_cons, List.flatMap_cons]

theorem itemsPlaces_eq (around : List Ancestor) (ordered : Bool) (start : Int) (n : Nat)
    (items : List (List Block)) :
    itemsPlaces around ordered (start + n) items = (items.zipIdx n).flatMap fun p =>
      blocksPlaces (.item (some (listMarker ordered (start + p.2))) :: around) true p.1 := by
  induction items generalizing n with
  | nil => rw [itemsPlaces, List.zipIdx_nil, List.flatMap_nil]
  | cons item rest ih =>
    have hrest := ih (n + 1)
    rw [Int.natCast_succ, ← Int.add_assoc] at hrest
    rw [itemsPlaces, hrest, List.zipIdx_cons, List.flatMap_cons]

/-- Blocks in a row are at the addresses behind their positions. -/
theorem blocksPlaces_numbered {around : List Ancestor} {bs : List Block}
    (hplaces : ∀ b ∈ bs, ∀ around first,
      blockPlaces around first b = (blockAddresses b).flatMap (placesAt around first b))
    {g : Address → List Place}
    (hg : ∀ i b, bs[i]? = some b → ∀ a, g (i :: a) = placesAt around (i == 0) b a) :
    blocksPlaces around true bs = (numbered blockAddresses bs).flatMap g := by
  have heach : ∀ p ∈ bs.zipIdx, blockPlaces around (p.2 == 0) p.1 =
      ((blockAddresses p.1).map (p.2 :: ·)).flatMap g := by
    rintro ⟨b, i⟩ hp
    have hb := List.mem_zipIdx_iff_getElem?.1 hp
    rw [hplaces b (List.mem_of_getElem? hb), List.flatMap_map]
    exact List.flatMap_congr fun a _ => (hg i b hb a).symm
  calc blocksPlaces around true bs
      = bs.zipIdx.flatMap fun p => blockPlaces around (p.2 == 0) p.1 := blocksPlaces_eq around 0 bs
    _ = bs.zipIdx.flatMap fun p => ((blockAddresses p.1).map (p.2 :: ·)).flatMap g :=
        List.flatMap_congr heach
    _ = (numbered blockAddresses bs).flatMap g := List.flatMap_assoc.symm

/-- The places of a block are those at its addresses. -/
theorem blockPlaces_addresses (b : Block) (around : List Ancestor) (first : Bool) :
    blockPlaces around first b = (blockAddresses b).flatMap (placesAt around first b) := by
  induction b using block_induction generalizing around first with
  | leaf b h =>
    rw [blockAddresses_leaf h, List.flatMap_singleton, placesAt, blockAt]
    rfl
  | item children ih =>
    rw [blockPlaces, blockAddresses_item]
    refine blocksPlaces_numbered ih fun i b hb a => ?_
    rw [placesAt, blockAt, hb, comesFirst_cons]
    rfl
  | quote children ih =>
    rw [blockPlaces, blockAddresses_quote]
    refine blocksPlaces_numbered ih fun i b hb a => ?_
    rw [placesAt, blockAt, hb, comesFirst_cons]
    rfl
  | list ordered start items ih =>
    have hitems := itemsPlaces_eq around ordered start 0 items
    rw [Int.natCast_zero, Int.add_zero] at hitems
    rw [blockPlaces, hitems, blockAddresses_list, numbered, List.flatMap_assoc]
    refine List.flatMap_congr ?_
    rintro ⟨item, i⟩ hp
    have hitem := List.mem_zipIdx_iff_getElem?.1 hp
    rw [List.flatMap_map]
    refine blocksPlaces_numbered (ih item (List.mem_of_getElem? hitem)) fun j b hb a => ?_
    rw [placesAt, blockAt, hitem, Option.bind_some, hb, comesFirst_cons, comesFirst_cons]
    rfl

theorem documentPlaces_addresses (blocks : List Block) :
    documentPlaces blocks = (documentAddresses blocks).flatMap fun a =>
      (documentAt blocks a).elim [] fun p => blockPlaces p.1 (comesFirst true a) p.2 := by
  rw [documentPlaces, documentAddresses_eq]
  refine blocksPlaces_numbered (fun b _ => blockPlaces_addresses b) fun i b hb a => ?_
  rw [documentAt, hb, comesFirst_cons]
  rfl

/-! ## Further on from an address -/

theorem blockAt_append {around outer : List Ancestor} {b inner : Block} {a : Address}
    (h : blockAt around b a = some (outer, inner)) (rest : Address) :
    blockAt around b (a ++ rest) = blockAt outer inner rest := by
  fun_induction blockAt around b a with
  | case1 around b =>
    obtain ⟨rfl, rfl⟩ : around = outer ∧ b = inner := by simpa using h
    rfl
  | case2 around children i a ih =>
    obtain ⟨b, hb, h⟩ := Option.bind_eq_some_iff.1 h
    rw [List.cons_append, blockAt, hb, Option.bind_some, ih b h]
  | case3 around children i a ih =>
    obtain ⟨b, hb, h⟩ := Option.bind_eq_some_iff.1 h
    rw [List.cons_append, blockAt, hb, Option.bind_some, ih b h]
  | case4 around ordered start items i j a ih =>
    obtain ⟨b, hb, h⟩ := Option.bind_eq_some_iff.1 h
    rw [List.cons_append, List.cons_append, blockAt, hb, Option.bind_some, ih b h]
  | case5 => simp at h

theorem documentAt_append {blocks : List Block} {around : List Ancestor} {b : Block} {a : Address}
    (h : documentAt blocks a = some (around, b)) (rest : Address) :
    documentAt blocks (a ++ rest) = blockAt around b rest := by
  cases a with
  | nil => simp [documentAt] at h
  | cons i a =>
    obtain ⟨b', hb', h⟩ := Option.bind_eq_some_iff.1 h
    rw [List.cons_append, documentAt, hb', Option.bind_some, blockAt_append h]

/-- A block in an item of a list, with the marker that its list has for it. -/
theorem documentAt_listItem {blocks : List Block} {a : Address} {around : List Ancestor}
    {ordered : Bool} {start : Int} {items : List (List Block)}
    (h : documentAt blocks a = some (around, .list ordered start items)) {i j : Nat}
    {item : List Block} {b : Block} (hitem : items[i]? = some item) (hb : item[j]? = some b) :
    documentAt blocks (a ++ [i, j]) =
      some (.item (some (listMarker ordered (start + i))) :: around, b) := by
  rw [documentAt_append h, blockAt, hitem, Option.bind_some, hb, Option.bind_some, blockAt]

/-! ## The elements of each block -/

/-- How many elements there are for a block that holds no others. -/
def elementCount : Block → Nat
  | .html value => (htmlLines value).length
  | .unsupported _ _ => 0
  | _ => 1

/-- Elements shared out among the blocks of a tree that hold no others: each has as many as are
made for it, and they come in the order of the blocks. -/
structure Shares (blocks : List Block) (elements : List Element)
    (shares : List (Address × List Element)) : Prop where
  elements_eq : shares.flatMap Prod.snd = elements
  sorted : (shares.map Prod.fst).Pairwise (· < ·)
  mem_iff : ∀ a, a ∈ shares.map Prod.fst ↔
    ∃ p, documentAt blocks a = some p ∧ isContainer p.2 = false
  length_eq : ∀ a es, (a, es) ∈ shares → ∀ p, documentAt blocks a = some p →
    es.length = elementCount p.2

theorem mem_documentAddresses {blocks : List Block} {a : Address} :
    a ∈ documentAddresses blocks ↔
      ∃ p, documentAt blocks a = some p ∧ isContainer p.2 = false := by
  rw [documentAddresses_eq]
  cases a with
  | nil => simp [nil_not_mem_numbered, documentAt]
  | cons i a =>
    rw [cons_mem_numbered, documentAt]
    cases blocks[i]? with
    | none => simp
    | some b => simpa using @mem_blockAddresses [] b a

theorem pairwise_documentAddresses (blocks : List Block) :
    (documentAddresses blocks).Pairwise (· < ·) := by
  rw [documentAddresses_eq]
  exact pairwise_numbered fun b _ => pairwise_blockAddresses b

/-- What is laid out for the block at an address. -/
def elementsAt (c : Context) (blocks : List Block) (a : Address) : List Element :=
  (documentAt blocks a).elim [] fun p =>
    (blockPlaces p.1 (comesFirst true a) p.2).map (Place.element c)

theorem blockPlaces_length {b : Block} (h : isContainer b = false) (around : List Ancestor)
    (first : Bool) : (blockPlaces around first b).length = elementCount b := by
  cases b with
  | list _ _ _ => simp [isContainer] at h
  | item _ => simp [isContainer] at h
  | quote _ => simp [isContainer] at h
  | _ => simp [blockPlaces, elementCount]

theorem flow_shares {tools : Math.Tools} {styles : Style.StyleTable} {blocks : List Block}
    {elements : List Element} (h : (flow tools styles blocks).result = .ok elements) :
    Shares blocks elements ((documentAddresses blocks).map fun a =>
      (a, elementsAt ⟨tools, listBaseIndent styles⟩ blocks a)) where
  elements_eq := by
    rw [flow_eq_places h, documentPlaces_addresses, List.map_flatMap, List.flatMap_map]
    refine List.flatMap_congr fun a _ => ?_
    unfold elementsAt
    cases documentAt blocks a <;> rfl
  sorted := by
    rw [List.map_map]
    simpa [Function.comp_def] using pairwise_documentAddresses blocks
  mem_iff a := by
    rw [← mem_documentAddresses, List.map_map]
    simp [Function.comp_def]
  length_eq a es hshare p hp := by
    obtain ⟨a', ha', heq⟩ := List.mem_map.1 hshare
    obtain ⟨rfl, rfl⟩ := Prod.mk.inj heq
    obtain ⟨q, hq, hleaf⟩ := mem_documentAddresses.1 ha'
    obtain rfl : q = p := by simpa [hp] using hq.symm
    rw [elementsAt, hp, Option.elim_some, List.length_map, blockPlaces_length hleaf]

/-- Each block that holds no others has its share. -/
theorem mem_shares {c : Context} {blocks : List Block} {a : Address} {p : List Ancestor × Block}
    (hp : documentAt blocks a = some p) (hleaf : isContainer p.2 = false) :
    (a, (blockPlaces p.1 (comesFirst true a) p.2).map (Place.element c)) ∈
      (documentAddresses blocks).map fun a => (a, elementsAt c blocks a) := by
  refine List.mem_map.2 ⟨a, mem_documentAddresses.2 ⟨p, hp, hleaf⟩, ?_⟩
  rw [elementsAt, hp]
  rfl

end MarkdownDocx.Layout

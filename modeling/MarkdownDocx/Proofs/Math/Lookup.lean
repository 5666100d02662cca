import MarkdownDocx.Math.Reader
import MarkdownDocx.Proofs.Xml.Elements
import MarkdownDocx.Proofs.Xml.Legal

/-!
What the reader of formulas looks up. Each part of an element is found among its children by name,
and all that is read of it is read of what was found.
-/

set_option autoImplicit false

namespace MarkdownDocx.Math

open MarkdownDocx.Xml (mathName elementsIn depthAll directText)

/-- The attributes and children of a math element with this name. -/
def asNamed (name : String) : Xml.Node → Option (List Xml.Attribute × List Xml.Node)
  | .element n attributes children => if n = mathName name then some (attributes, children) else none
  | _ => none

theorem asNamed_eq_some_iff {name : String} {x : Xml.Node}
    {p : List Xml.Attribute × List Xml.Node} :
    asNamed name x = some p ↔ x = .element (mathName name) p.1 p.2 := by
  cases x with
  | element n as children =>
    by_cases h : n = mathName name
    · simp [asNamed, h, Prod.ext_iff]
    · simp [asNamed, h]
  | text | comment | instruction => simp [asNamed]

/-- The attributes and children of all math children with this name. -/
def allNamed (name : String) (xs : List Xml.Node) : List (List Xml.Attribute × List Xml.Node) :=
  xs.filterMap (asNamed name)

/-- The content of the first math child with this name; nothing if there is none. -/
def part (name : String) (xs : List Xml.Node) : List Xml.Node :=
  ((allNamed name xs).head?.map Prod.snd).getD []

theorem mem_allNamed {name : String} {xs : List Xml.Node} {p : List Xml.Attribute × List Xml.Node} :
    p ∈ allNamed name xs ↔ .element (mathName name) p.1 p.2 ∈ xs := by
  simp [allNamed, asNamed_eq_some_iff]

@[simp] theorem allNamed_append (name : String) (xs ys : List Xml.Node) :
    allNamed name (xs ++ ys) = allNamed name xs ++ allNamed name ys := List.filterMap_append

theorem child?_eq (name : String) (xs : List Xml.Node) :
    child? name xs = (allNamed name xs).head? := by
  induction xs with
  | nil => rfl
  | cons x rest ih =>
    cases x with
    | element n as children =>
      rw [child?, allNamed, List.filterMap_cons, asNamed]
      split
      · rfl
      · exact ih
    | text | comment | instruction => exact ih

theorem partOf_eq (name : String) (xs : List Xml.Node) :
    partOf name xs = readNodes (part name xs) := by
  induction xs with
  | nil => rfl
  | cons x rest ih =>
    cases x with
    | element n as children =>
      rw [partOf, part, allNamed, List.filterMap_cons, asNamed]
      split
      · rfl
      · exact ih
    | text | comment | instruction => exact ih

/-- What takes one thing from each math child with a name, and passes over all else. -/
theorem eq_map_allNamed {β : Type} {name : String} (f : List Xml.Node → List β)
    (g : List Xml.Node → β) (hnil : f [] = [])
    (helement : ∀ n as children rest, f (.element n as children :: rest) =
      if n = mathName name then g children :: f rest else f rest)
    (htext : ∀ s rest, f (.text s :: rest) = f rest)
    (hcomment : ∀ s rest, f (.comment s :: rest) = f rest)
    (hinstruction : ∀ t b rest, f (.instruction t b :: rest) = f rest) (xs : List Xml.Node) :
    f xs = (allNamed name xs).map fun p => g p.2 := by
  induction xs with
  | nil => exact hnil
  | cons x rest ih =>
    cases x with
    | element n as children =>
      rw [helement, allNamed, List.filterMap_cons, asNamed]
      split
      · rw [ih]
        rfl
      · exact ih
    | text s => exact (htext s rest).trans ih
    | comment s => exact (hcomment s rest).trans ih
    | instruction t b => exact (hinstruction t b rest).trans ih

theorem partsOf_eq (name : String) (xs : List Xml.Node) :
    partsOf name xs = (allNamed name xs).map fun p => readNodes p.2 :=
  eq_map_allNamed (partsOf name) readNodes rfl (fun _ _ _ _ => rfl) (fun _ _ => rfl)
    (fun _ _ => rfl) (fun _ _ _ => rfl) xs

/-- The first of several parts is the one that is read where one is looked for. -/
theorem partOf_eq_head (name : String) (xs : List Xml.Node) :
    partOf name xs = (partsOf name xs).head?.getD [] := by
  rw [partOf_eq, partsOf_eq, part, List.head?_map]
  cases (allNamed name xs).head? <;> rfl

theorem rowsOf_eq (xs : List Xml.Node) :
    rowsOf xs = (allNamed "mr" xs).map fun p => cellsOf p.2 :=
  eq_map_allNamed rowsOf cellsOf rfl (fun _ _ _ _ => rfl) (fun _ _ => rfl) (fun _ _ => rfl)
    (fun _ _ _ => rfl) xs

theorem cellsOf_eq (xs : List Xml.Node) :
    cellsOf xs = (allNamed "e" xs).map fun p => slot (readNodes p.2) :=
  eq_map_allNamed cellsOf (fun children => slot (readNodes children)) rfl (fun _ _ _ _ => rfl)
    (fun _ _ => rfl) (fun _ _ => rfl) (fun _ _ _ => rfl) xs

theorem cellsOf_eq_map (xs : List Xml.Node) : cellsOf xs = (partsOf "e" xs).map slot := by
  rw [cellsOf_eq, partsOf_eq, List.map_map]
  rfl

theorem readNodes_eq (xs : List Xml.Node) : readNodes xs = xs.flatMap readNode := by
  induction xs with
  | nil => rfl
  | cons x rest ih => rw [readNodes, ih, List.flatMap_cons]

/-- Texts alone are no nodes. -/
theorem readNodes_eq_nil {xs : List Xml.Node} (h : Xml.hasChildren xs = false) :
    readNodes xs = [] := by
  induction xs with
  | nil => rfl
  | cons x rest ih =>
    cases x with
    | text s => exact ih h
    | element | comment | instruction => cases h

theorem readRun_eq (xs : List Xml.Node) : readRun xs =
    let text := ((allNamed "t" xs).map fun p => Xml.leadingText p.2).head?.getD (Xml.innerTexts xs)
    if isBlankString text then [] else [.run text] := by
  unfold readRun
  rw [child?_eq, List.head?_map]
  cases (allNamed "t" xs).head? <;> rfl

theorem innerTexts_eq_directText {xs : List Xml.Node} (h : Xml.hasChildren xs = false) :
    Xml.innerTexts xs = directText xs := by
  induction xs with
  | nil => rfl
  | cons x rest ih =>
    cases x with
    | text s => rw [Xml.innerTexts, directText, ih h, Xml.Node.innerText]
    | element | comment | instruction => cases h

/-- An element without a meaning of its own and without text of its own is read as its children, also
if it has none. -/
theorem readWrapper_of_blank {xs : List Xml.Node} (h : isBlankString (directText xs) = true) :
    (if Xml.hasChildren xs = true then readNodes xs
      else
        let text := Text.trimmed (Xml.innerTexts xs)
        if text = "" then [] else [.run text]) = readNodes xs := by
  split
  · rfl
  · rename_i hchildren
    have hleaf := Bool.eq_false_iff.2 hchildren
    have htext : Text.trimmed (Xml.innerTexts xs) = "" := by
      rw [innerTexts_eq_directText hleaf, Text.trimmed, Text.trim_eq_nil_iff.2 h]
    simp only [htext, if_true, readNodes_eq_nil hleaf]

theorem part_nil_or_mem (name : String) (xs : List Xml.Node) :
    part name xs = [] ∨ ∃ p ∈ allNamed name xs, part name xs = p.2 := by
  unfold part
  cases allNamed name xs with
  | nil => exact .inl rfl
  | cons p rest => exact .inr ⟨p, List.mem_cons_self, rfl⟩

/-! What is read of an element. -/

/-- A part that a flag may hide. -/
def shownPart (group flag name : String) (xs : List Xml.Node) : List (List Xml.Node) :=
  if isSwitchedOn group flag xs then [] else [part name xs]

/-- The contents that the reader goes on to in an element. -/
def readParts : Role → List Xml.Node → List (List Xml.Node)
  | .text, _ | .run, _ => []
  | .fraction, xs => [part "num" xs, part "den" xs]
  | .superscript, xs => [part "e" xs, part "sup" xs]
  | .subscript, xs => [part "e" xs, part "sub" xs]
  | .subSuperscript, xs => [part "e" xs, part "sub" xs, part "sup" xs]
  | .radical, xs => part "e" xs :: shownPart "radPr" "degHide" "deg" xs
  | .delimited, xs => (allNamed "e" xs).map Prod.snd
  | .nary, xs =>
    part "e" xs :: (shownPart "naryPr" "subHide" "sub" xs ++ shownPart "naryPr" "supHide" "sup" xs)
  | .accent, xs => [part "e" xs]
  | .matrix, xs => (allNamed "mr" xs).flatMap fun row => (allNamed "e" row.2).map Prod.snd
  | .wrapper, xs => [xs]

/-- The content of an element in which the reader meets runs, not their texts: all that is in it is
among the elements of a larger content, nested no deeper, and as legal. -/
structure Within (ys : List Xml.Node) (outer : Option Xml.Name) (xs : List Xml.Node) : Prop where
  depth : depthAll ys ≤ depthAll xs
  legal : Xml.LegalAll xs → Xml.LegalAll ys
  elements : ∃ around, around ≠ some (mathName "r") ∧
    (elementsIn around ys).Sublist (elementsIn outer xs)

theorem within_nil (outer : Option Xml.Name) (xs : List Xml.Node) : Within [] outer xs :=
  ⟨Nat.zero_le _, fun _ => Xml.legalAll_nil, none, by simp, List.nil_sublist _⟩

theorem legalAll_of_mem {name : String} {xs : List Xml.Node}
    {p : List Xml.Attribute × List Xml.Node} (h : p ∈ allNamed name xs) (hlegal : Xml.LegalAll xs) :
    Xml.LegalAll p.2 :=
  (Xml.legalAll_iff.1 hlegal _ (mem_allNamed.1 h)).2.2

theorem within_of_mem {name : String} {xs : List Xml.Node} {outer : Option Xml.Name}
    {p : List Xml.Attribute × List Xml.Node} (hname : name ≠ "r") (h : p ∈ allNamed name xs) :
    Within p.2 outer xs :=
  ⟨Nat.le_of_lt (Xml.depthAll_lt (mem_allNamed.1 h)), legalAll_of_mem h, some (mathName name),
    by simpa [mathName], Xml.sublist_elementsIn_children _ (mem_allNamed.1 h)⟩

theorem within_part {name : String} (hname : name ≠ "r") (outer : Option Xml.Name)
    (xs : List Xml.Node) : Within (part name xs) outer xs := by
  rcases part_nil_or_mem name xs with hnil | ⟨p, hp, heq⟩
  · rw [hnil]
    exact within_nil outer xs
  · rw [heq]
    exact within_of_mem hname hp

theorem within_shownPart {group flag name : String} {ys : List Xml.Node} (hname : name ≠ "r")
    (outer : Option Xml.Name) {xs : List Xml.Node} (h : ys ∈ shownPart group flag name xs) :
    Within ys outer xs := by
  unfold shownPart at h
  split at h
  · cases h
  · rw [List.mem_singleton.1 h]
    exact within_part hname outer xs

theorem roleOf_eq_run_iff {name : Xml.Name} : roleOf name = .run ↔ name = mathName "r" := by
  constructor
  · intro h
    unfold roleOf at h
    split_ifs at h with _ hspace
    obtain ⟨space, base⟩ := name
    obtain rfl : space = .math := hspace
    unfold mathRole at h
    split at h
    · rename_i hbase
      exact congrArg (Xml.Name.mk .math) hbase
    all_goals cases h
  · rintro rfl
    decide

theorem roleOf_eq_text_iff {name : Xml.Name} : roleOf name = .text ↔ name.base = "t" := by
  unfold roleOf
  split
  · rename_i h
    exact iff_of_true rfl h
  · rename_i h
    refine iff_of_false ?_ h
    split
    · unfold mathRole
      split <;> simp
    · simp

/-- What is not a run is read through its parts, in which runs are met and not their texts. -/
theorem within_readParts {name : Xml.Name} {children ys : List Xml.Node}
    (h : ys ∈ readParts (roleOf name) children) : Within ys (some name) children := by
  have hpart : ∀ part, part ≠ "r" → ∀ zs, zs = Math.part part children →
      Within zs (some name) children := by
    rintro part hne _ rfl
    exact within_part hne _ _
  cases hrole : roleOf name with
  | text | run =>
    rw [hrole] at h
    cases h
  | accent =>
    rw [hrole] at h
    exact hpart "e" (by decide) _ (List.mem_singleton.1 h)
  | fraction | superscript | subscript =>
    rw [hrole] at h
    simp only [readParts, List.mem_cons, List.not_mem_nil, or_false] at h
    rcases h with h | h <;> exact hpart _ (by decide) _ h
  | subSuperscript =>
    rw [hrole] at h
    simp only [readParts, List.mem_cons, List.not_mem_nil, or_false] at h
    rcases h with h | h | h <;> exact hpart _ (by decide) _ h
  | radical =>
    rw [hrole] at h
    rcases List.mem_cons.1 h with rfl | h
    · exact within_part (by decide) _ _
    · exact within_shownPart (by decide) _ h
  | delimited =>
    rw [hrole] at h
    obtain ⟨p, hp, rfl⟩ := List.mem_map.1 h
    exact within_of_mem (by decide) hp
  | nary =>
    rw [hrole] at h
    rcases List.mem_cons.1 h with rfl | h
    · exact within_part (by decide) _ _
    · rcases List.mem_append.1 h with h | h
      · exact within_shownPart (by decide) _ h
      · exact within_shownPart (by decide) _ h
  | matrix =>
    rw [hrole] at h
    obtain ⟨row, hrow, hcell⟩ := List.mem_flatMap.1 h
    obtain ⟨p, hp, rfl⟩ := List.mem_map.1 hcell
    have hinner : Within p.2 (some (mathName "mr")) row.2 := within_of_mem (by decide) hp
    obtain ⟨around, hne, hsub⟩ := hinner.elements
    exact ⟨Nat.le_trans hinner.depth (Nat.le_of_lt (Xml.depthAll_lt (mem_allNamed.1 hrow))),
      fun hlegal => hinner.legal (legalAll_of_mem hrow hlegal), around, hne,
      hsub.trans (Xml.sublist_elementsIn_children _ (mem_allNamed.1 hrow))⟩
  | wrapper =>
    have hne : name ≠ mathName "r" := by
      rintro rfl
      rw [roleOf_eq_run_iff.2 rfl] at hrole
      cases hrole
    rw [hrole] at h
    rw [List.mem_singleton.1 h]
    exact ⟨Nat.le_refl _, id, some name, by simpa using hne, List.Sublist.refl _⟩

/-! The equation of a fragment. -/

/-- What a fragment is read for: the content of its first equation, or all of it if it has none. -/
def equationContent (content : List Xml.Node) : List Xml.Node :=
  (firstEquationIn content).getD content

mutual
theorem sublist_firstEquation (x : Xml.Node) {inside : List Xml.Node}
    (h : firstEquation x = some inside) (outer : Option Xml.Name) :
    (elementsIn (some (mathName "oMath")) inside).Sublist (x.elements outer) :=
  match x, h with
  | .element name as children, h => by
    rw [firstEquation] at h
    refine List.Sublist.cons _ ?_
    split at h
    · rename_i hname
      cases h
      rw [hname]
    · exact sublist_firstEquationIn children h (some name)
  | .text _, h | .comment _, h | .instruction _ _, h => by cases h

theorem sublist_firstEquationIn (xs : List Xml.Node) {inside : List Xml.Node}
    (h : firstEquationIn xs = some inside) (outer : Option Xml.Name) :
    (elementsIn (some (mathName "oMath")) inside).Sublist (elementsIn outer xs) :=
  match xs, h with
  | [], h => by cases h
  | x :: rest, h => by
    rw [firstEquationIn] at h
    cases hx : firstEquation x with
    | some content =>
      rw [hx] at h
      cases h
      exact (sublist_firstEquation x hx outer).trans (List.sublist_append_left _ _)
    | none =>
      rw [hx] at h
      exact (sublist_firstEquationIn rest h outer).trans (List.sublist_append_right _ _)
end

theorem sublist_equationContent (content : List Xml.Node) : ∃ around, around ≠ some (mathName "r") ∧
    (elementsIn around (equationContent content)).Sublist (elementsIn none content) := by
  unfold equationContent
  cases h : firstEquationIn content with
  | none => exact ⟨none, by simp, List.Sublist.refl _⟩
  | some inside => exact ⟨some (mathName "oMath"), by decide, sublist_firstEquationIn content h none⟩

/-- A fragment that can be read and is found to have a property. -/
theorem exists_fragment {P : List Xml.Node → Prop} [DecidablePred P] {markup : String}
    (h : ((Xml.readFragment (dropDeclaration markup.toList)).any fun content => decide (P content)) =
      true) : ∃ content, Xml.readFragment (dropDeclaration markup.toList) = some content ∧
        readEquation markup = some (equationNodes content) ∧ P content := by
  obtain ⟨hsome, hcontent⟩ := (Option.any_eq_true_iff_get _ _).1 h
  have hread := (Option.some_get hsome).symm
  exact ⟨_, hread, congrArg (Option.map equationNodes) hread, of_decide_eq_true hcontent⟩

end MarkdownDocx.Math

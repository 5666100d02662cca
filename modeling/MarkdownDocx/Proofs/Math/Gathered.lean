import MarkdownDocx.Proofs.Math.Lookup
import Mathlib.Algebra.Order.BigOperators.Group.List
import Mathlib.Data.Multiset.Bind
import Mathlib.Tactic.Abel

/-!
What the elements of a content hold together, in no order: it is divided among the children of the
content, and among the parts that the reader of formulas goes on to.
-/

set_option autoImplicit false

namespace MarkdownDocx.Math

open MarkdownDocx.Xml (mathName elementsIn)

variable (f : Xml.Name → List Xml.Node → List String)

/-- What all elements hold, where `f` says what one holds by itself. -/
def gathered (xs : List Xml.Node) : List String :=
  (elementsIn none xs).flatMap fun e => f e.name e.children

/-- The same with its order forgotten. -/
def bag (xs : List Xml.Node) : Multiset String := gathered f xs

/-- What an element holds does not depend on where it stands. -/
theorem gathered_elementsIn (outer : Option Xml.Name) (xs : List Xml.Node) :
    ((elementsIn outer xs).flatMap fun e => f e.name e.children) = gathered f xs := by
  unfold gathered
  induction xs with
  | nil => rfl
  | cons x rest ih =>
    rw [elementsIn, elementsIn, List.flatMap_append, List.flatMap_append, ih]
    cases x <;> rfl

theorem gathered_append (xs ys : List Xml.Node) :
    gathered f (xs ++ ys) = gathered f xs ++ gathered f ys := by
  rw [gathered, Xml.elementsIn_append, List.flatMap_append]
  rfl

theorem gathered_element (name : Xml.Name) (as : List Xml.Attribute) (children : List Xml.Node) :
    gathered f [.element name as children] = f name children ++ gathered f children := by
  rw [← gathered_elementsIn f (some name) children]
  simp [gathered, elementsIn, Xml.Node.elements]

theorem gathered_sublist {outer around : Option Xml.Name} {xs ys : List Xml.Node}
    (h : (elementsIn around ys).Sublist (elementsIn outer xs)) :
    (gathered f ys).Sublist (gathered f xs) := by
  rw [← gathered_elementsIn f around, ← gathered_elementsIn f outer]
  exact h.flatMap _

theorem gathered_eq_nil (outer : Option Xml.Name) {xs : List Xml.Node} (h : ∀ e ∈ elementsIn outer xs, f e.name e.children = []) :
    gathered f xs = [] := by
  rw [← gathered_elementsIn f outer]
  exact List.flatMap_eq_nil_iff.2 h

theorem bag_nil : bag f [] = 0 := rfl

theorem bag_append (xs ys : List Xml.Node) : bag f (xs ++ ys) = bag f xs + bag f ys := by
  rw [bag, gathered_append, ← Multiset.coe_add]
  rfl

theorem bag_cons (x : Xml.Node) (xs : List Xml.Node) : bag f (x :: xs) = bag f [x] + bag f xs :=
  bag_append f [x] xs

theorem bag_element (name : Xml.Name) (as : List Xml.Attribute) (children : List Xml.Node) :
    bag f [.element name as children] = f name children + bag f children := by
  rw [bag, gathered_element, ← Multiset.coe_add]
  rfl

theorem bag_eq_sum (xs : List Xml.Node) :
    bag f xs = (xs.map fun x => bag f [x]).sum := by
  induction xs with
  | nil => rfl
  | cons x rest ih => rw [bag_cons, ih, List.map_cons, List.sum_cons]

theorem bag_eq_zero {xs : List Xml.Node} (h : ∀ x ∈ xs, gathered f [x] = []) : bag f xs = 0 := by
  induction xs with
  | nil => rfl
  | cons x rest ih =>
    obtain ⟨hx, hrest⟩ := List.forall_mem_cons.1 h
    rw [bag_cons, ih hrest, add_zero, bag, hx]
    rfl

/-! Children by their names. -/

/-- A child that has none of these names. -/
def isUnnamed (names : List String) (x : Xml.Node) : Bool :=
  names.all fun name => (asNamed name x).isNone

/-- What the children with a name hold. -/
def namedBag (name : String) (xs : List Xml.Node) : Multiset String :=
  ((allNamed name xs).map fun p => bag f [.element (mathName name) p.1 p.2]).sum

theorem namedBag_cons (name : String) (x : Xml.Node) (rest : List Xml.Node) :
    namedBag f name (x :: rest) = namedBag f name [x] + namedBag f name rest := by
  rw [namedBag, ← List.singleton_append, allNamed_append, List.map_append, List.sum_append]
  rfl

/-- A child has one name at most. -/
theorem sum_namedBag_singleton {names : List String} (hnodup : names.Nodup) (x : Xml.Node) :
    (names.map fun name => namedBag f name [x]).sum =
      if isUnnamed names x = true then 0 else bag f [x] := by
  induction names with
  | nil => rfl
  | cons name rest ih =>
    obtain ⟨hname, hrest⟩ := List.nodup_cons.1 hnodup
    rw [List.map_cons, List.sum_cons, ih hrest]
    cases hx : asNamed name x with
    | none => simp [namedBag, allNamed, hx, isUnnamed]
    | some p =>
      obtain rfl := asNamed_eq_some_iff.1 hx
      have hother : isUnnamed rest (.element (mathName name) p.1 p.2) = true := by
        refine List.all_eq_true.2 fun other hother => ?_
        have hne : mathName name ≠ mathName other := by
          intro heq
          exact hname (by rwa [show name = other by simpa [mathName] using heq])
        simp [asNamed, hne]
      rw [if_pos hother]
      simp [namedBag, allNamed, hx, isUnnamed]

/-- What a content holds is held by the children with given names and by all others. -/
theorem bag_eq_named {names : List String} (hnodup : names.Nodup) (xs : List Xml.Node) :
    bag f xs = (names.map fun name => namedBag f name xs).sum +
      bag f (xs.filter (isUnnamed names)) := by
  induction xs with
  | nil => simp [namedBag, allNamed, bag_nil]
  | cons x rest ih =>
    have hcons : (names.map fun name => namedBag f name (x :: rest)).sum =
        (names.map fun name => namedBag f name [x]).sum +
          (names.map fun name => namedBag f name rest).sum := by
      rw [← List.sum_map_add]
      exact congrArg List.sum (List.map_congr_left fun name _ => namedBag_cons f name x rest)
    rw [bag_cons, ih, hcons, sum_namedBag_singleton f hnodup, List.filter_cons]
    split
    · rw [bag_cons f x (rest.filter _)]
      abel
    · abel

theorem sum_namedBag_le {names : List String} (hnodup : names.Nodup) (xs : List Xml.Node) :
    (names.map fun name => namedBag f name xs).sum ≤ bag f xs := by
  rw [bag_eq_named f hnodup]
  exact Multiset.le_add_right _ _

/-- Only children with given names hold anything. -/
def OnlyIn (names : List String) (xs : List Xml.Node) : Prop :=
  ∀ x ∈ xs, isUnnamed names x = true → gathered f [x] = []

instance (names : List String) (xs : List Xml.Node) : Decidable (OnlyIn f names xs) :=
  inferInstanceAs (Decidable (∀ x ∈ xs, isUnnamed names x = true → gathered f [x] = []))

theorem sum_namedBag {names : List String} (hnodup : names.Nodup) {xs : List Xml.Node}
    (honly : OnlyIn f names xs) :
    (names.map fun name => namedBag f name xs).sum = bag f xs := by
  have hothers : bag f (xs.filter (isUnnamed names)) = 0 := bag_eq_zero f fun x hx =>
    honly x (List.mem_filter.1 hx).1 (List.mem_filter.1 hx).2
  rw [bag_eq_named f hnodup, hothers, add_zero]

theorem sum_allNamed_le (name : String) (xs : List Xml.Node) :
    ((allNamed name xs).map fun p => bag f p.2).sum ≤ namedBag f name xs :=
  List.sum_le_sum fun p _ => by
    rw [bag_element]
    exact Multiset.le_add_left _ _

theorem sum_allNamed {name : String} (hf : ∀ ys, f (mathName name) ys = []) (xs : List Xml.Node) :
    ((allNamed name xs).map fun p => bag f p.2).sum = namedBag f name xs :=
  congrArg List.sum (List.map_congr_left fun p _ => by
    rw [bag_element, hf, Multiset.coe_nil, zero_add])

/-! Parts. -/

theorem bag_part_le (name : String) (xs : List Xml.Node) :
    bag f (part name xs) ≤ ((allNamed name xs).map fun p => bag f p.2).sum := by
  unfold part
  cases allNamed name xs with
  | nil => exact Multiset.zero_le _
  | cons p rest => exact Multiset.le_add_right _ _

theorem bag_part {name : String} {xs : List Xml.Node} (honce : (allNamed name xs).length ≤ 1) :
    bag f (part name xs) = ((allNamed name xs).map fun p => bag f p.2).sum := by
  unfold part
  cases hall : allNamed name xs with
  | nil => rfl
  | cons p rest =>
    obtain rfl : rest = [] := by simpa [hall] using honce
    simp

/-- The names of the parts of an element that has each part once. -/
def slotNames : Role → List String
  | .fraction => ["num", "den"]
  | .superscript => ["e", "sup"]
  | .subscript => ["e", "sub"]
  | .subSuperscript => ["e", "sub", "sup"]
  | .radical => ["e", "deg"]
  | .nary => ["e", "sub", "sup"]
  | .accent => ["e"]
  | _ => []

theorem nodup_slotNames (role : Role) : (slotNames role).Nodup := by
  cases role <;> decide

theorem sum_shownPart_le (group flag name : String) (xs : List Xml.Node) :
    ((shownPart group flag name xs).map (bag f)).sum ≤ bag f (part name xs) := by
  unfold shownPart
  split
  · exact Multiset.zero_le _
  · simp

theorem sum_cells (rows : List (List Xml.Attribute × List Xml.Node)) :
    ((rows.flatMap fun row => (allNamed "e" row.2).map Prod.snd).map (bag f)).sum =
      (rows.map fun row => ((allNamed "e" row.2).map fun p => bag f p.2).sum).sum := by
  induction rows with
  | nil => rfl
  | cons row rest ih =>
    rw [List.flatMap_cons, List.map_append, List.sum_append, ih, List.map_map]
    rfl

/-- The reader goes on to nothing that is not in the element, and to nothing twice. -/
theorem sum_readParts_le (role : Role) (xs : List Xml.Node) :
    ((readParts role xs).map (bag f)).sum ≤ bag f xs := by
  have hslots : ((slotNames role).map fun name => bag f (part name xs)).sum ≤ bag f xs :=
    le_trans (List.sum_le_sum fun name _ =>
      le_trans (bag_part_le f name xs) (sum_allNamed_le f name xs))
      (sum_namedBag_le f (nodup_slotNames role) xs)
  have hnamed : ∀ name, ((allNamed name xs).map fun p => bag f p.2).sum ≤ bag f xs := fun name =>
    le_trans (sum_allNamed_le f name xs)
      (by simpa using sum_namedBag_le f (List.nodup_singleton name) xs)
  cases role with
  | text | run => exact Multiset.zero_le _
  | fraction | superscript | subscript | subSuperscript | accent => exact hslots
  | radical =>
    refine le_trans ?_ hslots
    simpa [readParts, slotNames] using sum_shownPart_le f "radPr" "degHide" "deg" xs
  | nary =>
    refine le_trans ?_ hslots
    simpa [readParts, slotNames] using add_le_add (sum_shownPart_le f "naryPr" "subHide" "sub" xs)
      (sum_shownPart_le f "naryPr" "supHide" "sup" xs)
  | delimited => simpa [readParts, Function.comp_def] using hnamed "e"
  | matrix =>
    refine le_trans ?_ (hnamed "mr")
    rw [readParts, sum_cells]
    exact List.sum_le_sum fun row _ =>
      le_trans (sum_allNamed_le f "e" row.2)
        (by simpa using sum_namedBag_le f (List.nodup_singleton "e") row.2)
  | wrapper => simp [readParts]

/-- What is in an element is in its parts. Each part is there once, but cells and the items of a
delimiter may repeat. -/
def OnlyInParts (role : Role) (xs : List Xml.Node) : Prop :=
  match role with
  | .text | .run | .wrapper => True
  | .delimited => OnlyIn f ["e"] xs
  | .matrix => OnlyIn f ["mr"] xs ∧ ∀ row ∈ allNamed "mr" xs, OnlyIn f ["e"] row.2
  | .fraction | .superscript | .subscript | .subSuperscript | .radical | .nary | .accent =>
    OnlyIn f (slotNames role) xs ∧ ∀ name ∈ slotNames role, (allNamed name xs).length ≤ 1

instance (role : Role) (xs : List Xml.Node) : Decidable (OnlyInParts f role xs) :=
  match role with
  | .text | .run | .wrapper => inferInstanceAs (Decidable True)
  | .delimited => inferInstanceAs (Decidable (OnlyIn f ["e"] xs))
  | .matrix | .fraction | .superscript | .subscript | .subSuperscript | .radical | .nary | .accent =>
    inferInstanceAs (Decidable (_ ∧ _))

/-- No part is hidden by a flag. -/
def AllShown (role : Role) (xs : List Xml.Node) : Prop :=
  (role = .radical → isSwitchedOn "radPr" "degHide" xs = false) ∧
    (role = .nary →
      isSwitchedOn "naryPr" "subHide" xs = false ∧ isSwitchedOn "naryPr" "supHide" xs = false)

instance (role : Role) (xs : List Xml.Node) : Decidable (AllShown role xs) :=
  inferInstanceAs (Decidable (_ ∧ _))

theorem shownPart_of_shown {group flag name : String} {xs : List Xml.Node}
    (h : isSwitchedOn group flag xs = false) : shownPart group flag name xs = [part name xs] := by
  simp [shownPart, h]

/-- What is in an element is in the parts that the reader goes on to. -/
theorem sum_readParts (hf : ∀ name, name ≠ "t" → ∀ ys, f (mathName name) ys = []) {role : Role}
    (htext : role ≠ .text) (hrun : role ≠ .run) {xs : List Xml.Node} (honly : OnlyInParts f role xs)
    (hshown : AllShown role xs) : ((readParts role xs).map (bag f)).sum = bag f xs := by
  have hall : ∀ {name : String} {ys : List Xml.Node}, name ≠ "t" → OnlyIn f [name] ys →
      ((allNamed name ys).map fun p => bag f p.2).sum = bag f ys := by
    intro name ys hname hys
    rw [sum_allNamed f (hf name hname)]
    simpa using sum_namedBag f (List.nodup_singleton name) hys
  have hslots : OnlyIn f (slotNames role) xs →
      (∀ name ∈ slotNames role, (allNamed name xs).length ≤ 1) →
        ((slotNames role).map fun name => bag f (part name xs)).sum = bag f xs := by
    intro hxs honce
    rw [← sum_namedBag f (nodup_slotNames role) hxs]
    refine congrArg List.sum (List.map_congr_left fun name hname => ?_)
    have hne : name ≠ "t" := by
      rintro rfl
      revert hname
      cases role <;> decide
    rw [bag_part f (honce name hname), sum_allNamed f (hf name hne)]
  cases role with
  | text => exact absurd rfl htext
  | run => exact absurd rfl hrun
  | fraction | superscript | subscript | subSuperscript | accent => exact hslots honly.1 honly.2
  | radical =>
    rw [readParts, shownPart_of_shown (hshown.1 rfl)]
    exact hslots honly.1 honly.2
  | nary =>
    obtain ⟨hsub, hsup⟩ := hshown.2 rfl
    rw [readParts, shownPart_of_shown hsub, shownPart_of_shown hsup]
    exact hslots honly.1 honly.2
  | delimited =>
    rw [readParts, List.map_map]
    exact hall (by decide) honly
  | matrix =>
    rw [readParts, sum_cells, ← hall (by decide) honly.1]
    exact congrArg List.sum (List.map_congr_left fun row hrow => hall (by decide) (honly.2 row hrow))
  | wrapper => simp [readParts]

end MarkdownDocx.Math

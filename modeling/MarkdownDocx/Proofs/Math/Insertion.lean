import MarkdownDocx.Proofs.Math.Lookup
import Mathlib.Logic.Relation

/-!
What the reader of formulas passes over. Main statement: comments, instructions and elements of the
namespace of documents that hold no text may be put anywhere in the markup of a formula where no
text stands, and it is read as before.
-/

set_option autoImplicit false

namespace MarkdownDocx.Math

open MarkdownDocx.Xml (mathName depthAll directText)

mutual
/-- Markup that says nothing about a formula: comments, instructions, and elements of the namespace
of documents, at every depth without text and without an element named `t`. -/
def Passive : Xml.Node → Prop
  | .element name _ children => name.space = .word ∧ name.base ≠ "t" ∧ PassiveAll children
  | .text s => s = ""
  | .comment _ | .instruction _ _ => True

def PassiveAll : List Xml.Node → Prop
  | [] => True
  | x :: rest => Passive x ∧ PassiveAll rest
end

/-- A content parted in two, maybe in the middle of a text. -/
inductive Parted : List Xml.Node → List Xml.Node → List Xml.Node → Prop where
  | between (before after : List Xml.Node) : Parted (before ++ after) before after
  | amid (before : List Xml.Node) (s t : String) (after : List Xml.Node) :
    Parted (before ++ .text (s ++ t) :: after) (before ++ [.text s]) (.text t :: after)

/-- One item more, at any depth: it is put in an element that is not named `t` and has no text of its
own but white space. -/
inductive Inserted : Option Xml.Name → List Xml.Node → List Xml.Node → Prop where
  | here {outer : Option Xml.Name} {xs before after : List Xml.Node} {x : Xml.Node}
    (item : Passive x) (parted : Parted xs before after) (place : ∀ name ∈ outer, name.base ≠ "t")
    (blank : isBlankString (directText xs) = true) : Inserted outer xs (before ++ x :: after)
  | inside {outer : Option Xml.Name} {name : Xml.Name} {as : List Xml.Attribute}
    {xs ys : List Xml.Node} (before after : List Xml.Node) (inner : Inserted (some name) xs ys) :
    Inserted outer (before ++ .element name as xs :: after)
      (before ++ .element name as ys :: after)

/-! Items. -/

mutual
theorem readNode_passive (x : Xml.Node) (h : Passive x) : readNode x = [] :=
  match x, h with
  | .element name as children, ⟨hspace, hbase, hchildren⟩ => by
    have hrole : roleOf name = .wrapper := by simp [roleOf, hspace, hbase]
    rw [readNode, hrole]
    dsimp only
    split
    · exact readNodes_passive children hchildren
    · rw [innerTexts_passive children hchildren, if_pos (by decide)]
  | .text _, _ | .comment _, _ | .instruction _ _, _ => rfl

theorem readNodes_passive (xs : List Xml.Node) (h : PassiveAll xs) : readNodes xs = [] :=
  match xs, h with
  | [], _ => rfl
  | x :: rest, ⟨hx, hrest⟩ => by
    rw [readNodes, readNode_passive x hx, readNodes_passive rest hrest, List.append_nil]

theorem innerText_passive (x : Xml.Node) (h : Passive x) : x.innerText = "" :=
  match x, h with
  | .element _ _ children, ⟨_, _, hchildren⟩ => innerTexts_passive children hchildren
  | .text _, h => h
  | .comment _, _ | .instruction _ _, _ => rfl

theorem innerTexts_passive (xs : List Xml.Node) (h : PassiveAll xs) : Xml.innerTexts xs = "" :=
  match xs, h with
  | [], _ => rfl
  | x :: rest, ⟨hx, hrest⟩ => by
    rw [Xml.innerTexts, innerText_passive x hx, innerTexts_passive rest hrest]
    rfl

theorem firstEquation_passive (x : Xml.Node) (h : Passive x) : firstEquation x = none :=
  match x, h with
  | .element name as children, ⟨hspace, _, hchildren⟩ => by
    have hne : name ≠ mathName "oMath" := by
      rintro rfl
      cases hspace
    rw [firstEquation, if_neg hne, firstEquationIn_passive children hchildren]
  | .text _, _ | .comment _, _ | .instruction _ _, _ => rfl

theorem firstEquationIn_passive (xs : List Xml.Node) (h : PassiveAll xs) :
    firstEquationIn xs = none :=
  match xs, h with
  | [], _ => rfl
  | x :: rest, ⟨hx, hrest⟩ => by
    rw [firstEquationIn, firstEquation_passive x hx, firstEquationIn_passive rest hrest]
    rfl
end

theorem asNamed_passive (name : String) {x : Xml.Node} (h : Passive x) : asNamed name x = none := by
  cases x with
  | element n as children =>
    have hne : n ≠ mathName name := by
      rintro rfl
      cases h.1
    simp [asNamed, hne]
  | text | comment | instruction => rfl

/-! An item is passed over at any place. -/

theorem innerTexts_append (xs ys : List Xml.Node) :
    Xml.innerTexts (xs ++ ys) = Xml.innerTexts xs ++ Xml.innerTexts ys := by
  induction xs with
  | nil => simp [Xml.innerTexts]
  | cons x rest ih => rw [List.cons_append, Xml.innerTexts, Xml.innerTexts, ih, String.append_assoc]

theorem readProperties_append (xs ys : List Xml.Node) :
    readProperties (xs ++ ys) = readProperties xs ++ readProperties ys := by
  induction xs with
  | nil => rfl
  | cons x rest ih =>
    cases x with
    | element n as children =>
      rw [List.cons_append, readProperties, readProperties, ih]
      split
      · rw [List.append_assoc]
      · rfl
    | text | comment | instruction => exact ih

theorem firstEquationIn_append (xs ys : List Xml.Node) :
    firstEquationIn (xs ++ ys) = (firstEquationIn xs).orElse fun _ => firstEquationIn ys := by
  induction xs with
  | nil => rfl
  | cons x rest ih =>
    rw [List.cons_append, firstEquationIn, firstEquationIn, ih]
    cases firstEquation x <;> rfl

/-- What is said of a content node by node, for a text as for its pieces. -/
structure Additive {β : Type} (f : List Xml.Node → β) (op : β → β → β) : Prop where
  append : ∀ xs ys, f (xs ++ ys) = op (f xs) (f ys)
  cut : ∀ s t, f [.text (s ++ t)] = f [.text s, .text t]

theorem Additive.insert {β : Type} {f : List Xml.Node → β} {op : β → β → β} (hf : Additive f op)
    {xs before after : List Xml.Node} (h : Parted xs before after) {x : Xml.Node}
    (hx : ∀ rest, f (x :: rest) = f rest) : f xs = f (before ++ x :: after) := by
  rw [hf.append, hx, ← hf.append]
  cases h with
  | between => rfl
  | amid before s t after =>
    calc f (before ++ .text (s ++ t) :: after)
        = op (f before) (op (f [.text (s ++ t)]) (f after)) := by
          rw [← hf.append, ← hf.append, List.singleton_append]
      _ = op (f before) (op (f [.text s, .text t]) (f after)) := by rw [hf.cut]
      _ = f (before ++ [.text s] ++ .text t :: after) := by
          rw [← hf.append, ← hf.append, List.append_assoc]
          rfl

theorem additive_allNamed (name : String) : Additive (allNamed name) (· ++ ·) :=
  ⟨allNamed_append name, fun _ _ => rfl⟩

theorem additive_readNodes : Additive readNodes (· ++ ·) :=
  ⟨fun xs ys => by simp [readNodes_eq], fun _ _ => rfl⟩

theorem additive_innerTexts : Additive Xml.innerTexts (· ++ ·) :=
  ⟨innerTexts_append, fun s t => by simp [Xml.innerTexts, Xml.Node.innerText]⟩

theorem additive_readProperties : Additive readProperties (· ++ ·) :=
  ⟨readProperties_append, fun _ _ => rfl⟩

theorem additive_directText : Additive directText (· ++ ·) :=
  ⟨Xml.directText_append, fun s t => by simp [directText]⟩

theorem additive_firstEquationIn : Additive firstEquationIn fun e d => e.orElse fun _ => d :=
  ⟨firstEquationIn_append, fun _ _ => rfl⟩

section Here

variable {xs before after : List Xml.Node} {x : Xml.Node} (hp : Parted xs before after)
  (hx : Passive x)

include hp hx

theorem allNamed_here (name : String) : allNamed name xs = allNamed name (before ++ x :: after) :=
  (additive_allNamed name).insert hp fun rest => by
    rw [allNamed, allNamed, List.filterMap_cons, asNamed_passive name hx]

theorem readNodes_here : readNodes xs = readNodes (before ++ x :: after) :=
  additive_readNodes.insert hp fun rest => by rw [readNodes, readNode_passive x hx, List.nil_append]

theorem innerTexts_here : Xml.innerTexts xs = Xml.innerTexts (before ++ x :: after) :=
  additive_innerTexts.insert hp fun rest => by
    rw [Xml.innerTexts, innerText_passive x hx, String.empty_append]

theorem readProperties_here : readProperties xs = readProperties (before ++ x :: after) :=
  additive_readProperties.insert hp fun rest => by
    cases x with
    | element n as children => simp [readProperties, hx.1]
    | text | comment | instruction => rfl

theorem firstEquationIn_here : firstEquationIn xs = firstEquationIn (before ++ x :: after) :=
  additive_firstEquationIn.insert hp fun rest => by
    rw [firstEquationIn, firstEquation_passive x hx]
    rfl

theorem directText_here : directText xs = directText (before ++ x :: after) :=
  additive_directText.insert hp fun rest => by
    cases x with
    | text s => rw [directText, show s = "" from hx, String.empty_append]
    | element | comment | instruction => rfl

end Here

/-! What stands before the first child. -/

theorem prefix_leadingText (xs : List Xml.Node) :
    (Xml.leadingText xs).toList <+: (directText xs).toList := by
  induction xs with
  | nil => exact List.prefix_refl _
  | cons x rest ih =>
    cases x with
    | text s =>
      rw [Xml.leadingText, directText, String.toList_append, String.toList_append]
      exact (List.prefix_append_right_inj _).2 ih
    | element | comment | instruction => exact List.nil_prefix

theorem leadingText_inside (before after : List Xml.Node) (name : Xml.Name)
    (as : List Xml.Attribute) (xs ys : List Xml.Node) :
    Xml.leadingText (before ++ .element name as xs :: after) =
      Xml.leadingText (before ++ .element name as ys :: after) := by
  induction before with
  | nil => rfl
  | cons z rest ih =>
    cases z with
    | text s => simp only [List.cons_append, Xml.leadingText, ih]
    | element | comment | instruction => rfl

theorem propertyText?_of_blank {xs : List Xml.Node} (h : isBlankString (directText xs) = true) :
    propertyText? xs = none := by
  have hleading : isBlankString (Xml.leadingText xs) = true :=
    List.all_eq_true.2 fun c hc => List.all_eq_true.1 h c ((prefix_leadingText xs).subset hc)
  simp [propertyText?, hleading]

/-! What is looked up in an element. -/

theorem property?_eq (group name : String) (xs : List Xml.Node) :
    property? group name xs = ((allNamed group xs).map fun p =>
      ((allNamed name p.2).map fun q => valueOf? q.1).head?.join).head?.join := by
  simp only [property?, child?_eq, List.head?_map]
  cases (allNamed group xs).head? with
  | none => rfl
  | some p =>
    dsimp only [Option.map_some, Option.join_some]
    cases (allNamed name p.2).head? <;> rfl

theorem matrixProperties_eq (xs : List Xml.Node) : matrixProperties xs =
    ((allNamed "mPr" xs).map fun p =>
      readProperty (.element (mathName "mPr") p.1 p.2)).head?.getD [] := by
  unfold matrixProperties
  rw [child?_eq, List.head?_map]
  cases (allNamed "mPr" xs).head? <;> rfl

section Congr

variable {outer : Option Xml.Name} {xs ys : List Xml.Node} (h : Inserted outer xs ys)

include h

/-- The text of an element named `t` stays, since nothing is put among its own children. -/
theorem leadingText_congr {name : Xml.Name} (houter : outer = some name) (hname : name.base = "t") :
    Xml.leadingText xs = Xml.leadingText ys := by
  cases h with
  | here _ _ place => exact absurd hname (place name houter)
  | inside before after => exact leadingText_inside before after _ _ _ _

theorem propertyText?_congr : propertyText? xs = propertyText? ys := by
  cases h with
  | here item parted _ blank =>
    rw [propertyText?_of_blank blank, propertyText?_of_blank (directText_here parted item ▸ blank)]
  | inside before after inner =>
    rename_i zs ws
    rw [propertyText?, propertyText?, leadingText_inside before after _ _ zs ws]

theorem innerTexts_congr : Xml.innerTexts xs = Xml.innerTexts ys := by
  induction h with
  | here item parted => exact innerTexts_here parted item
  | inside before after inner ih =>
    simp [innerTexts_append, Xml.innerTexts, Xml.Node.innerText, ih]

theorem readProperties_congr : readProperties xs = readProperties ys := by
  induction h with
  | here item parted => exact readProperties_here parted item
  | inside before after inner ih =>
    simp [readProperties_append, readProperties, readProperty, ih, propertyText?_congr inner]

/-- What does not change with an insertion into a child does not change with one anywhere. -/
theorem map_allNamed_congr {β : Type} {name : String}
    (f : List Xml.Attribute × List Xml.Node → β)
    (hf : ∀ as zs ws, (as, zs) ∈ allNamed name xs → Inserted (some (mathName name)) zs ws →
      f (as, zs) = f (as, ws)) :
    (allNamed name xs).map f = (allNamed name ys).map f := by
  cases h with
  | here item parted => rw [allNamed_here parted item]
  | inside before after inner =>
    rename_i n as zs ws
    rw [allNamed_append, allNamed_append, List.map_append, List.map_append, List.append_cancel_left_eq]
    by_cases hn : n = mathName name
    · subst hn
      have hfront := hf as zs ws (mem_allNamed.2 (List.mem_append_right _ List.mem_cons_self)) inner
      simp [allNamed, asNamed, hfront]
    · simp [allNamed, asNamed, hn]

theorem property?_congr (group name : String) :
    property? group name xs = property? group name ys := by
  have hinner : ∀ as zs ws, (as, zs) ∈ allNamed group xs → Inserted (some (mathName group)) zs ws →
      ((allNamed name zs).map fun q => valueOf? q.1).head?.join =
        ((allNamed name ws).map fun q => valueOf? q.1).head?.join := fun as zs ws _ inner => by
    rw [map_allNamed_congr inner (fun q => valueOf? q.1) fun _ _ _ _ _ => rfl]
  rw [property?_eq, property?_eq, map_allNamed_congr h _ hinner]

theorem propertyOr_congr (group name fallback : String) :
    propertyOr group name fallback xs = propertyOr group name fallback ys := by
  rw [propertyOr, propertyOr, property?_congr h]

theorem isSwitchedOn_congr (group name : String) :
    isSwitchedOn group name xs = isSwitchedOn group name ys := by
  rw [isSwitchedOn, isSwitchedOn, property?_congr h]

theorem readRun_congr : readRun xs = readRun ys := by
  have htexts : ∀ as zs ws, (as, zs) ∈ allNamed "t" xs → Inserted (some (mathName "t")) zs ws →
      Xml.leadingText zs = Xml.leadingText ws :=
    fun _ _ _ _ inner => leadingText_congr inner rfl rfl
  rw [readRun_eq, readRun_eq, map_allNamed_congr h _ htexts, innerTexts_congr h]

theorem matrixProperties_congr : matrixProperties xs = matrixProperties ys := by
  have hproperties : ∀ as zs ws, (as, zs) ∈ allNamed "mPr" xs →
      Inserted (some (mathName "mPr")) zs ws →
        readProperty (.element (mathName "mPr") as zs) = readProperty (.element (mathName "mPr") as ws) :=
    fun as zs ws _ inner => by
      rw [readProperty, readProperty, readProperties_congr inner, propertyText?_congr inner]
  rw [matrixProperties_eq, matrixProperties_eq, map_allNamed_congr h _ hproperties]

end Congr

/-! What is read of an element. -/

section Deep

variable {outer : Option Xml.Name} {xs ys : List Xml.Node} (h : Inserted outer xs ys)
  (hdeep : ∀ zs ws around, depthAll zs ≤ depthAll xs → Inserted around zs ws →
    readNodes zs = readNodes ws)

include h hdeep

theorem partsOf_congr (name : String) : partsOf name xs = partsOf name ys := by
  have hparts : ∀ as zs ws, (as, zs) ∈ allNamed name xs → Inserted (some (mathName name)) zs ws →
      readNodes zs = readNodes ws := fun _ zs ws hmem inner =>
    hdeep zs ws _ (Nat.le_of_lt (Xml.depthAll_lt (mem_allNamed.1 hmem))) inner
  rw [partsOf_eq, partsOf_eq, map_allNamed_congr h _ hparts]

theorem partOf_congr (name : String) : partOf name xs = partOf name ys := by
  rw [partOf_eq_head, partOf_eq_head, partsOf_congr h hdeep]

theorem cellsOf_congr : cellsOf xs = cellsOf ys := by
  rw [cellsOf_eq_map, cellsOf_eq_map, partsOf_congr h hdeep]

theorem rowsOf_congr : rowsOf xs = rowsOf ys := by
  have hrows : ∀ as zs ws, (as, zs) ∈ allNamed "mr" xs → Inserted (some (mathName "mr")) zs ws →
      cellsOf zs = cellsOf ws := fun _ zs ws hmem inner =>
    cellsOf_congr inner fun vs us around hle => hdeep vs us around
      (Nat.le_trans hle (Nat.le_of_lt (Xml.depthAll_lt (mem_allNamed.1 hmem))))
  rw [rowsOf_eq, rowsOf_eq, map_allNamed_congr h _ hrows]

end Deep

theorem hasChildren_inside (before after : List Xml.Node) (name : Xml.Name)
    (as : List Xml.Attribute) (xs : List Xml.Node) :
    Xml.hasChildren (before ++ .element name as xs :: after) = true := by
  induction before with
  | nil => rfl
  | cons z rest ih =>
    cases z with
    | text s => exact ih
    | element | comment | instruction => rfl

/-- An element with an item inside is read as it is without. -/
theorem readNode_congr {name : Xml.Name} {as : List Xml.Attribute} {xs ys : List Xml.Node}
    (h : Inserted (some name) xs ys)
    (hdeep : ∀ zs ws around, depthAll zs ≤ depthAll xs → Inserted around zs ws →
      readNodes zs = readNodes ws) :
    readNode (.element name as xs) = readNode (.element name as ys) := by
  rw [readNode, readNode]
  cases hrole : roleOf name with
  | text =>
    dsimp only
    rw [leadingText_congr h rfl (roleOf_eq_text_iff.1 hrole)]
  | run => exact readRun_congr h
  | fraction | superscript | subscript | subSuperscript =>
    simp only [partOf_congr h hdeep]
  | radical => simp only [partOf_congr h hdeep, isSwitchedOn_congr h]
  | delimited => simp only [partsOf_congr h hdeep, propertyOr_congr h]
  | nary => simp only [partOf_congr h hdeep, propertyOr_congr h, isSwitchedOn_congr h]
  | accent => simp only [partOf_congr h hdeep, propertyOr_congr h]
  | matrix => simp only [rowsOf_congr h hdeep, matrixProperties_congr h]
  | wrapper =>
    have hnodes := hdeep xs ys _ (Nat.le_refl _) h
    cases h with
    | here item parted _ blank =>
      dsimp only
      rw [readWrapper_of_blank blank, readWrapper_of_blank (directText_here parted item ▸ blank),
        hnodes]
    | inside before after =>
      simp only [hasChildren_inside, if_true]
      exact hnodes

theorem readNodes_congr {outer : Option Xml.Name} {xs ys : List Xml.Node}
    (h : Inserted outer xs ys) : readNodes xs = readNodes ys := by
  induction xs using Xml.depth_induction generalizing outer ys with
  | step xs ih =>
    cases h with
    | here item parted => exact readNodes_here parted item
    | inside before after inner =>
      rename_i name as zs ws
      have hdepth : depthAll zs < depthAll (before ++ .element name as zs :: after) :=
        Xml.depthAll_lt (List.mem_append_right _ List.mem_cons_self)
      have helement : readNode (.element name as zs) = readNode (.element name as ws) :=
        readNode_congr inner fun vs us around hle hvs => ih vs (Nat.lt_of_le_of_lt hle hdepth) hvs
      simp [readNodes_eq, helement]

/-! Equations. -/

theorem firstEquationIn_congr {outer : Option Xml.Name} {xs ys : List Xml.Node}
    (h : Inserted outer xs ys) :
    (firstEquationIn xs).map readNodes = (firstEquationIn ys).map readNodes := by
  induction h with
  | here item parted => rw [firstEquationIn_here parted item]
  | inside before after inner ih =>
    rename_i name as zs ws
    have helement : (firstEquation (.element name as zs)).map readNodes =
        (firstEquation (.element name as ws)).map readNodes := by
      rw [firstEquation, firstEquation]
      split
      · exact congrArg some (readNodes_congr inner)
      · exact ih
    rw [firstEquationIn_append, firstEquationIn_append]
    cases firstEquationIn before with
    | some content => rfl
    | none =>
      simp only [Option.orElse, firstEquationIn]
      cases hz : firstEquation (.element name as zs) <;>
        cases hw : firstEquation (.element name as ws) <;> simp_all

theorem equationNodes_congr {outer : Option Xml.Name} {xs ys : List Xml.Node}
    (h : Inserted outer xs ys) : equationNodes xs = equationNodes ys := by
  have hfirst := firstEquationIn_congr h
  unfold equationNodes
  cases hx : firstEquationIn xs <;> cases hy : firstEquationIn ys <;>
    simp_all [readNodes_congr h]

/-- Any number of insertions leaves the equation of a fragment as it is. -/
theorem readEquation_inserted (x y : String) (xs ys : List Xml.Node)
    (hx : Xml.readFragment (dropDeclaration x.toList) = some xs)
    (hy : Xml.readFragment (dropDeclaration y.toList) = some ys)
    (h : Relation.ReflTransGen (Inserted none) xs ys) :
    ∃ ns, readEquation x = some ns ∧ readEquation y = some ns := by
  have hnodes : equationNodes xs = equationNodes ys := by
    clear hy
    induction h with
    | refl => rfl
    | tail _ hstep ih => exact ih.trans (equationNodes_congr hstep)
  refine ⟨equationNodes xs, ?_, ?_⟩
  · rw [readEquation, hx]
    rfl
  · rw [readEquation, hy, hnodes]
    rfl

def plainMarkup : String := "<m:oMath><m:r><m:t>a</m:t></m:r>  </m:oMath>"

/-- The same with the run's formatting, and with a comment in the white space after the run. -/
def formattedMarkup : String :=
  "<m:oMath><m:r><w:rPr><w:i/></w:rPr><m:t>a</m:t></m:r> <!--b--> </m:oMath>"

def italics : Xml.Node := .element ⟨.word, "rPr"⟩ [] [.element ⟨.word, "i"⟩ [] []]

def letter : Xml.Node := .element (mathName "t") [] [.text "a"]

/-- An equation of one run, what is in the run, and what stands after it. -/
def runFragment (inside after : List Xml.Node) : List Xml.Node :=
  [.element (mathName "oMath") [] (.element (mathName "r") [] inside :: after)]

theorem readEquation_inserted_formatted :
    ∃ xs ys, Xml.readFragment (dropDeclaration plainMarkup.toList) = some xs ∧
      Xml.readFragment (dropDeclaration formattedMarkup.toList) = some ys ∧
      Relation.ReflTransGen (Inserted none) xs ys ∧
      ∃ ns, readEquation plainMarkup = some ns ∧ readEquation formattedMarkup = some ns := by
  have hx : Xml.readFragment (dropDeclaration plainMarkup.toList) =
      some (runFragment [letter] [.text (" " ++ " ")]) := by rfl
  have hy : Xml.readFragment (dropDeclaration formattedMarkup.toList) =
      some (runFragment [italics, letter] [.text " ", .comment "b", .text " "]) := by rfl
  have hcomment : Inserted none (runFragment [letter] [.text (" " ++ " ")])
      (runFragment [letter] [.text " ", .comment "b", .text " "]) :=
    .inside [] [] (.here (show Passive (.comment "b") from trivial) (.amid [_] " " " " [])
      (by decide) (by decide))
  have hitalics : Passive italics := ⟨rfl, by decide, ⟨rfl, by decide, trivial⟩, trivial⟩
  have hrun : Inserted (some (mathName "r")) [letter] ([] ++ italics :: [letter]) :=
    .here hitalics (.between [] [letter]) (by decide) (by decide)
  have hformat : Inserted none (runFragment [letter] [.text " ", .comment "b", .text " "])
      (runFragment [italics, letter] [.text " ", .comment "b", .text " "]) :=
    .inside [] [] (.inside [] _ hrun)
  have h := (Relation.ReflTransGen.single hcomment).tail hformat
  exact ⟨_, _, hx, hy, h, readEquation_inserted _ _ _ _ hx hy h⟩

end MarkdownDocx.Math

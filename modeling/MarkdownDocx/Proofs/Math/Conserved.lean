import MarkdownDocx.Proofs.Math.Gathered
import MarkdownDocx.Proofs.Math.Reread

/-!
The reader of formulas loses no text. Main statement: if texts stand in runs and runs in the parts of
their elements, then every text that is not blank is in the plain text of what is read, and all else
in there is separators, operators and accents.
-/

set_option autoImplicit false

namespace MarkdownDocx.Math

open MarkdownDocx.Xml (mathName elementsIn depthAll directText)

/-! Texts and ornaments of the elements. -/

/-- The text of a text element, unless it is blank. -/
def spoken (name : Xml.Name) (children : List Xml.Node) : List String :=
  if name = mathName "t" ∧ isBlankString (directText children) = false then [directText children]
  else []

/-- What an element may add to the texts in it: separators, an operator, an accent by itself or as a
combining mark. An element of another namespace that is named `t` adds what it begins with. -/
def ornaments (name : Xml.Name) (children : List Xml.Node) : List String :=
  match roleOf name with
  | .text => if name = mathName "t" then [] else [Xml.leadingText children]
  | .delimited =>
    List.replicate ((allNamed "e" children).length - 1) (propertyOr "dPr" "sepChr" "|" children)
  | .nary => [propertyOr "naryPr" "chr" sumSign children]
  | .accent =>
    let mark := propertyOr "accPr" "chr" "^" children
    mark :: ((combiningMark? mark).map String.singleton).toList
  | _ => []

def characters (s : String) : Multiset Char := s.toList

theorem characters_empty : characters "" = 0 := rfl

theorem characters_append (s t : String) : characters (s ++ t) = characters s + characters t := by
  rw [characters, String.toList_append, ← Multiset.coe_add]
  rfl

/-- Characters that make up given texts and some of the ornaments. -/
def Gains (texts ornaments : Multiset String) (cs : Multiset Char) : Prop :=
  ∃ extras ≤ ornaments, cs = (texts + extras).bind characters

theorem gains_zero (ornaments : Multiset String) : Gains 0 ornaments 0 :=
  ⟨0, Multiset.zero_le _, by simp⟩

theorem gains_extras {es os : Multiset String} (h : es ≤ os) : Gains 0 os (es.bind characters) :=
  ⟨es, h, by rw [zero_add]⟩

theorem Gains.add {ts us os ps : Multiset String} {cs ds : Multiset Char} (h : Gains ts os cs)
    (h' : Gains us ps ds) : Gains (ts + us) (os + ps) (cs + ds) := by
  obtain ⟨es, hes, rfl⟩ := h
  obtain ⟨fs, hfs, rfl⟩ := h'
  refine ⟨es + fs, add_le_add hes hfs, ?_⟩
  rw [← Multiset.add_bind]
  congr 1
  abel

theorem Gains.mono {ts os ps : Multiset String} {cs : Multiset Char} (h : Gains ts os cs)
    (hle : os ≤ ps) : Gains ts ps cs := by
  obtain ⟨es, hes, rfl⟩ := h
  exact ⟨es, le_trans hes hle, rfl⟩

theorem gains_sum {α : Type} {ts os : α → Multiset String} {cs : α → Multiset Char} {as : List α}
    (h : ∀ a ∈ as, Gains (ts a) (os a) (cs a)) :
    Gains (as.map ts).sum (as.map os).sum (as.map cs).sum := by
  induction as with
  | nil => exact gains_zero 0
  | cons a rest ih =>
    obtain ⟨ha, hrest⟩ := List.forall_mem_cons.1 h
    simpa using ha.add (ih hrest)

/-! The plain text of nodes. -/

theorem plainTexts_append (ns ms : List Node) :
    plainTexts (ns ++ ms) = plainTexts ns ++ plainTexts ms := by
  induction ns with
  | nil => simp [plainTexts]
  | cons n rest ih => rw [List.cons_append, plainTexts, plainTexts, ih, String.append_assoc]

@[simp] theorem plainTexts_slot (ns : List Node) : plainTexts (slot ns) = plainTexts ns := by
  cases ns with
  | nil => rfl
  | cons n rest => rfl

@[simp] theorem plainTexts_singleton (n : Node) : plainTexts [n] = n.plainText := by
  simp [plainTexts]

/-- The text of a part that may be missing. -/
def plainLimit : Option (List Node) → String
  | none => ""
  | some ns => plainTexts ns

theorem plainText_radical (base : List Node) (degree : Option (List Node)) :
    (Node.radical base degree).plainText = plainTexts base ++ plainLimit degree := by
  cases degree <;> simp [Node.plainText, plainLimit]

theorem plainText_nary (symbol : String) (operand : List Node) (sub sup : Option (List Node)) :
    (Node.nary symbol operand sub sup).plainText =
      plainTexts operand ++ plainLimit sub ++ plainLimit sup := by
  cases sub <;> cases sup <;> simp [Node.plainText, plainLimit]

theorem plainText_scripted (n : Node) (sub sup : Option (List Node)) :
    (scripted n sub sup).plainText = n.plainText ++ plainLimit sub ++ plainLimit sup := by
  cases sub <;> cases sup <;> simp [scripted, Node.plainText, plainLimit]

theorem plainTexts_joinItems (separator : String) (items : List (List Node)) :
    characters (plainTexts (joinItems separator items)) =
      (items.map fun item => characters (plainTexts item)).sum +
        (List.replicate (items.length - 1) separator : Multiset String).bind characters := by
  induction items with
  | nil => simp [joinItems, plainTexts, characters_empty]
  | cons item rest ih =>
    cases rest with
    | nil => simp [joinItems]
    | cons next rest =>
      rw [joinItems, plainTexts_append, plainTexts, characters_append, characters_append, ih]
      · simp only [List.map_cons, List.sum_cons, List.length_cons, Nat.add_sub_cancel,
          List.replicate_succ, ← Multiset.cons_coe, Multiset.cons_bind, Node.plainText]
        abel
      · exact List.cons_ne_nil next rest

/-! What is heard of a content. -/

/-- The characters of the plain text that is read of a content. -/
def heard (xs : List Xml.Node) : Multiset Char := characters (plainTexts (readNodes xs))

theorem heard_shownPart (group flag name : String) (xs : List Xml.Node) :
    characters (plainLimit (if isSwitchedOn group flag xs = true then none
      else optionalSlot (readNodes (part name xs)))) =
      ((shownPart group flag name xs).map heard).sum := by
  unfold shownPart
  split
  · rfl
  · cases hpart : readNodes (part name xs) with
    | nil => simp [heard, hpart, optionalSlot, plainLimit, plainTexts]
    | cons n rest => simp [heard, hpart, optionalSlot, plainLimit]

theorem heard_cells (cells : List (List Xml.Attribute × List Xml.Node)) :
    characters (plainCells (cells.map fun p => slot (readNodes p.2))) =
      (cells.map fun p => heard p.2).sum := by
  induction cells with
  | nil => rfl
  | cons c rest ih =>
    rw [List.map_cons, plainCells, characters_append, ih, plainTexts_slot]
    rfl

theorem heard_rows (rows : List (List Xml.Attribute × List Xml.Node)) :
    characters (plainRows (rows.map fun row => cellsOf row.2)) =
      ((rows.flatMap fun row => (allNamed "e" row.2).map Prod.snd).map heard).sum := by
  induction rows with
  | nil => rfl
  | cons row rest ih =>
    rw [List.map_cons, plainRows, characters_append, ih, cellsOf_eq, heard_cells, List.flatMap_cons,
      List.map_append, List.sum_append, List.map_map]
    rfl

/-- An operator other than sums and integrals is heard with its operand and limits. -/
theorem heard_readNary (operator : String) (sub sup : Option (List Node)) (operand : List Node) :
    ∃ extras ≤ ({operator} : Multiset String),
      characters (plainTexts (readNary operator sub sup operand)) =
        characters (plainTexts operand) + characters (plainLimit sub) +
          characters (plainLimit sup) + extras.bind characters := by
  rw [← operation_eq]
  unfold operation
  split
  · refine ⟨0, Multiset.zero_le _, ?_⟩
    simp [plainText_nary, characters_append]
  · refine ⟨{operator}, le_refl _, ?_⟩
    simp only [plainTexts, plainText_scripted, characters_append, Node.plainText,
      Multiset.singleton_bind]
    abel

theorem characters_push (s : String) (c : Char) :
    characters (s.push c) = characters s + characters (String.singleton c) := by
  rw [← characters_append]
  simp [characters]

theorem heard_readAccent (accent : String) (base : List Node) :
    ∃ extras ≤ (↑(accent :: ((combiningMark? accent).map String.singleton).toList) :
        Multiset String),
      characters (plainTexts (readAccent accent base)) =
        characters (plainTexts base) + extras.bind characters := by
  have hscript : characters (plainTexts [.superscript base [.run accent]]) =
      characters (plainTexts base) + ({accent} : Multiset String).bind characters := by
    simp [Node.plainText, characters_append]
  unfold readAccent
  split
  · rename_i c text hmark
    split
    · refine ⟨{String.singleton c}, Multiset.singleton_le.2 (by simp [hmark]), ?_⟩
      simp [Node.plainText, characters_push]
    · exact ⟨{accent}, Multiset.singleton_le.2 (by simp), hscript⟩
  · exact ⟨{accent}, Multiset.singleton_le.2 (by simp), hscript⟩

/-- What is read of an element is what is read of its parts, and its ornaments. -/
theorem heard_readNode {name : Xml.Name} (as : List Xml.Attribute) {children : List Xml.Node}
    (htext : roleOf name ≠ .text) (hrun : roleOf name ≠ .run)
    (hblank : isBlankString (directText children) = true) :
    ∃ extras ≤ (ornaments name children : Multiset String),
      characters (plainTexts (readNode (.element name as children))) =
        ((readParts (roleOf name) children).map heard).sum + extras.bind characters := by
  have hplain : ∀ {cs : Multiset Char}, cs = ((readParts (roleOf name) children).map heard).sum →
      ∃ extras ≤ (ornaments name children : Multiset String),
        cs = ((readParts (roleOf name) children).map heard).sum + extras.bind characters :=
    fun heq => ⟨0, Multiset.zero_le _, by simpa using heq⟩
  rw [readNode]
  simp only [partOf_eq, partsOf_eq, rowsOf_eq]
  cases hrole : roleOf name with
  | text => exact absurd hrole htext
  | run => exact absurd hrole hrun
  | fraction | superscript | subscript | subSuperscript =>
    rw [hrole] at hplain
    refine hplain ?_
    simp [readParts, heard, Node.plainText, characters_append, add_assoc]
  | radical =>
    rw [hrole] at hplain
    refine hplain ?_
    simp [readParts, plainText_radical, characters_append, heard_shownPart, heard]
  | delimited =>
    refine ⟨↑(ornaments name children), le_refl _, ?_⟩
    simp only [ornaments, hrole, plainTexts_singleton, Node.plainText, plainTexts_slot,
      plainTexts_joinItems, readParts, List.map_map, List.length_map]
    rfl
  | nary =>
    obtain ⟨extras, hextras, hnary⟩ := heard_readNary (propertyOr "naryPr" "chr" sumSign children)
      (if isSwitchedOn "naryPr" "subHide" children = true then none
        else optionalSlot (readNodes (part "sub" children)))
      (if isSwitchedOn "naryPr" "supHide" children = true then none
        else optionalSlot (readNodes (part "sup" children)))
      (slot (readNodes (part "e" children)))
    refine ⟨extras, by simpa [ornaments, hrole] using hextras, ?_⟩
    rw [hnary, heard_shownPart, heard_shownPart, plainTexts_slot]
    simp [readParts, heard, add_assoc]
  | accent =>
    obtain ⟨extras, hextras, haccent⟩ := heard_readAccent (propertyOr "accPr" "chr" "^" children)
      (slot (readNodes (part "e" children)))
    refine ⟨extras, by simpa only [ornaments, hrole] using hextras, ?_⟩
    rw [haccent, plainTexts_slot]
    simp [readParts, heard]
  | matrix =>
    rw [hrole] at hplain
    refine hplain ?_
    rw [plainTexts_singleton, Node.plainText, heard_rows]
    rfl
  | wrapper =>
    rw [hrole] at hplain
    refine hplain ?_
    dsimp only
    rw [readWrapper_of_blank hblank]
    simp [readParts, heard]

/-! Markup whose texts are all heard. -/

/-- Blank but for the texts of runs: each run holds one text at most and no other run, and what other
elements hold is in their parts, none of which is hidden. -/
structure Orderly (es : List Xml.Element) : Prop where
  blank : ∀ e ∈ es, e.name ≠ mathName "t" → isBlankString (directText e.children) = true
  texts : ∀ e ∈ es, e.name = mathName "t" →
    e.outer = some (mathName "r") ∧ Xml.hasChildren e.children = false
  runs : ∀ e ∈ es, e.name = mathName "r" → (allNamed "t" e.children).length ≤ 1 ∧
    ∀ i ∈ elementsIn (some e.name) e.children, i.name ≠ mathName "r"
  parts : ∀ e ∈ es, OnlyInParts spoken (roleOf e.name) e.children
  shown : ∀ e ∈ es, AllShown (roleOf e.name) e.children

instance (es : List Xml.Element) : Decidable (Orderly es) :=
  decidable_of_iff
    ((∀ e ∈ es, e.name ≠ mathName "t" → isBlankString (directText e.children) = true) ∧
      (∀ e ∈ es, e.name = mathName "t" →
        e.outer = some (mathName "r") ∧ Xml.hasChildren e.children = false) ∧
      (∀ e ∈ es, e.name = mathName "r" → (allNamed "t" e.children).length ≤ 1 ∧
        ∀ i ∈ elementsIn (some e.name) e.children, i.name ≠ mathName "r") ∧
      (∀ e ∈ es, OnlyInParts spoken (roleOf e.name) e.children) ∧
      ∀ e ∈ es, AllShown (roleOf e.name) e.children)
    ⟨fun ⟨hb, ht, hr, hp, hs⟩ => ⟨hb, ht, hr, hp, hs⟩,
      fun h => ⟨h.blank, h.texts, h.runs, h.parts, h.shown⟩⟩

/-- No text is in an element of another namespace that is named `t`. -/
def NoneAstray (es : List Xml.Element) : Prop :=
  ∀ e ∈ es, e.name.base = "t" → e.name ≠ mathName "t" → gathered spoken e.children = []

instance (es : List Xml.Element) : Decidable (NoneAstray es) :=
  inferInstanceAs (Decidable (∀ e ∈ es, e.name.base = "t" → e.name ≠ mathName "t" →
    gathered spoken e.children = []))

theorem Orderly.sublist {es fs : List Xml.Element} (h : Orderly es) (hsub : fs.Sublist es) :
    Orderly fs where
  blank := fun e he => h.blank e (hsub.subset he)
  texts := fun e he => h.texts e (hsub.subset he)
  runs := fun e he => h.runs e (hsub.subset he)
  parts := fun e he => h.parts e (hsub.subset he)
  shown := fun e he => h.shown e (hsub.subset he)

theorem NoneAstray.sublist {es fs : List Xml.Element} (h : NoneAstray es) (hsub : fs.Sublist es) :
    NoneAstray fs := fun e he => h e (hsub.subset he)

theorem spoken_mathName (name : String) (hname : name ≠ "t") (ys : List Xml.Node) :
    spoken (mathName name) ys = [] := by
  simp [spoken, mathName_inj, hname]

theorem spoken_of_ne {name : Xml.Name} (hname : name ≠ mathName "t") (ys : List Xml.Node) :
    spoken name ys = [] := by
  simp [spoken, hname]

/-! Runs. -/

/-- Texts stand in runs, so none is where no run is. -/
theorem ne_text_of_no_run {outer : Option Xml.Name} {xs : List Xml.Node}
    (h : Orderly (elementsIn outer xs)) (houter : outer ≠ some (mathName "r"))
    (hruns : ∀ e ∈ elementsIn outer xs, e.name ≠ mathName "r") :
    ∀ e ∈ elementsIn outer xs, e.name ≠ mathName "t" := by
  intro e he hname
  have hplace := (h.texts e he hname).1
  rcases Xml.outer_of_mem_elementsIn outer xs e he with hout | ⟨i, hi, hout⟩
  · exact houter (hout.symm.trans hplace)
  · exact hruns i hi (Option.some.inj (hout.symm.trans hplace))

theorem isBlankString_append (s t : String) :
    isBlankString (s ++ t) = (isBlankString s && isBlankString t) := by
  simp [isBlankString, Text.isBlankText]

mutual
theorem isBlankString_innerText (outer : Option Xml.Name) (x : Xml.Node)
    (hx : isBlankString (directText [x]) = true)
    (h : ∀ e ∈ x.elements outer, isBlankString (directText e.children) = true) :
    isBlankString x.innerText = true :=
  match x with
  | .element name as children => by
    obtain ⟨hhead, hrest⟩ := List.forall_mem_cons.1 h
    exact isBlankString_innerTexts (some name) children hhead hrest
  | .text s => by
    rw [directText, directText, String.append_empty] at hx
    exact hx
  | .comment _ | .instruction _ _ => rfl

theorem isBlankString_innerTexts (outer : Option Xml.Name) (xs : List Xml.Node)
    (hxs : isBlankString (directText xs) = true)
    (h : ∀ e ∈ elementsIn outer xs, isBlankString (directText e.children) = true) :
    isBlankString (Xml.innerTexts xs) = true :=
  match xs with
  | [] => rfl
  | x :: rest => by
    have happend : directText (x :: rest) = directText [x] ++ directText rest :=
      Xml.directText_append [x] rest
    rw [happend, isBlankString_append, Bool.and_eq_true] at hxs
    obtain ⟨hx, hrest⟩ := List.forall_mem_append.1 h
    rw [Xml.innerTexts, isBlankString_append, isBlankString_innerText outer x hxs.1 hx,
      isBlankString_innerTexts outer rest hxs.2 hrest]
    rfl
end

theorem leadingText_eq_directText {xs : List Xml.Node} (h : Xml.hasChildren xs = false) :
    Xml.leadingText xs = directText xs := by
  induction xs with
  | nil => rfl
  | cons x rest ih =>
    cases x with
    | text s => rw [Xml.leadingText, directText, ih h]
    | element | comment | instruction => cases h

/-- What is said in a text element, which holds nothing but its text. -/
theorem bag_spoken_text {as : List Xml.Attribute} {children : List Xml.Node}
    (h : Xml.hasChildren children = false) : bag spoken [.element (mathName "t") as children] =
      if isBlankString (directText children) = true then 0 else {directText children} := by
  have hnone : gathered spoken children = [] := by
    rw [gathered, Xml.elementsIn_eq_nil h]
    rfl
  rw [bag, gathered_element, hnone, List.append_nil]
  by_cases hblank : isBlankString (directText children) = true <;> simp [spoken, hblank]

section Run

variable {as : List Xml.Attribute} {children : List Xml.Node} {outer : Option Xml.Name}
  (h : Orderly (Xml.Node.elements outer (.element (mathName "r") as children)))

include h

/-- Only text elements that are children of a run say something in it. -/
theorem ne_text_in_run {x : Xml.Node} (hx : x ∈ children) (hname : asNamed "t" x = none) :
    ∀ e ∈ x.elements (some (mathName "r")), e.name ≠ mathName "t" := by
  have hruns := (h.runs _ List.mem_cons_self rfl).2
  have hchildren : Orderly (elementsIn (some (mathName "r")) children) :=
    h.sublist (List.sublist_cons_self _ _)
  cases x with
  | element name as' inside =>
    have hsub := Xml.sublist_elementsIn_children (some (mathName "r")) hx
    refine List.forall_mem_cons.2 ⟨?_, ?_⟩
    · rintro rfl
      simp [asNamed] at hname
    · refine ne_text_of_no_run (hchildren.sublist hsub) ?_ fun e he => hruns e (hsub.subset he)
      have hne := hruns _ (Xml.mem_elementsIn hx)
      simpa using hne
  | text | comment | instruction => simp [Xml.Node.elements]

theorem bag_spoken_run : bag spoken children = namedBag spoken "t" children := by
  have honly : OnlyIn spoken ["t"] children := by
    intro x hx hname
    have hnone : asNamed "t" x = none := by simpa [isUnnamed] using hname
    refine gathered_eq_nil spoken (some (mathName "r")) fun e he => ?_
    rw [elementsIn, elementsIn, List.append_nil] at he
    exact spoken_of_ne (ne_text_in_run h hx hnone e he) _
  simpa using (sum_namedBag spoken (List.nodup_singleton "t") honly).symm

/-- A run says its one text. -/
theorem heard_readRun :
    characters (plainTexts (readRun children)) = (bag spoken children).bind characters := by
  have hchildren : Orderly (elementsIn (some (mathName "r")) children) :=
    h.sublist (List.sublist_cons_self _ _)
  have honce := (h.runs _ List.mem_cons_self rfl).1
  rw [bag_spoken_run h, readRun_eq, namedBag]
  cases hall : allNamed "t" children with
  | nil =>
    have hblank : isBlankString (Xml.innerTexts children) = true := by
      refine isBlankString_innerTexts (some (mathName "r")) children
        (h.blank _ List.mem_cons_self (by simp)) fun e he => hchildren.blank e he ?_
      rw [Xml.elementsIn_eq] at he
      obtain ⟨x, hx, hex⟩ := List.mem_flatMap.1 he
      exact ne_text_in_run h hx (List.filterMap_eq_nil_iff.1 hall x hx) e hex
    simp [hblank, plainTexts, characters_empty]
  | cons p rest =>
    obtain rfl : rest = [] := by simpa [hall] using honce
    have hmem : .element (mathName "t") p.1 p.2 ∈ children :=
      mem_allNamed.1 (by rw [hall]; exact List.mem_cons_self)
    have hleaf : Xml.hasChildren p.2 = false := (hchildren.texts _ (Xml.mem_elementsIn hmem) rfl).2
    simp only [List.map_cons, List.map_nil, List.head?_cons, Option.getD_some, List.sum_cons,
      List.sum_nil, add_zero, leadingText_eq_directText hleaf, bag_spoken_text hleaf]
    split
    · rfl
    · simp [Node.plainText]

end Run

/-! Whole trees. -/

theorem heard_eq_sum (xs : List Xml.Node) :
    heard xs = (xs.map fun x => characters (plainTexts (readNode x))).sum := by
  unfold heard
  induction xs with
  | nil => rfl
  | cons x rest ih =>
    rw [readNodes, plainTexts_append, characters_append, ih, List.map_cons, List.sum_cons]

/-- By depth: the parts of an element are nested less deeply than it is. -/
theorem gains_readNodes (xs : List Xml.Node) :
    ∀ outer, outer ≠ some (mathName "r") → Orderly (elementsIn outer xs) →
      NoneAstray (elementsIn outer xs) → Gains (bag spoken xs) (bag ornaments xs) (heard xs) := by
  induction xs using Xml.depth_induction with
  | step xs ih =>
    intro outer houter horderly hastray
    rw [bag_eq_sum spoken, bag_eq_sum ornaments, heard_eq_sum]
    refine gains_sum fun x hx => ?_
    cases x with
    | element name as children =>
      have hmem : ⟨outer, name, as, children⟩ ∈ elementsIn outer xs := Xml.mem_elementsIn hx
      rw [bag_element, bag_element]
      by_cases htext : roleOf name = .text
      · have hbase := roleOf_eq_text_iff.1 htext
        have hname : name ≠ mathName "t" := fun hname => houter (horderly.texts _ hmem hname).1
        have hsilent : bag spoken children = 0 := by
          rw [bag, hastray _ hmem hbase hname]
          rfl
        rw [readNode, htext, spoken_of_ne hname, hsilent]
        have hextra : ({Xml.leadingText children} : Multiset String) ≤
            ↑(ornaments name children) + bag ornaments children :=
          le_trans (by simp [ornaments, htext, hname]) (Multiset.le_add_right _ _)
        simpa [Node.plainText] using gains_extras hextra
      have hname : name ≠ mathName "t" := by
        rintro rfl
        exact htext (roleOf_eq_text_iff.2 rfl)
      rw [spoken_of_ne hname, Multiset.coe_nil, zero_add]
      by_cases hrun : roleOf name = .run
      · obtain rfl := roleOf_eq_run_iff.1 hrun
        have hself : Orderly (Xml.Node.elements outer (.element (mathName "r") as children)) :=
          horderly.sublist (Xml.sublist_elementsIn hx)
        rw [readNode, hrun]
        exact ⟨0, Multiset.zero_le _, by rw [add_zero, heard_readRun hself]⟩
      · obtain ⟨extras, hextras, hheard⟩ :=
          heard_readNode as htext hrun (horderly.blank _ hmem hname)
        have hsub := Xml.sublist_elementsIn_children outer hx
        have hparts : Gains ((readParts (roleOf name) children).map (bag spoken)).sum
            ((readParts (roleOf name) children).map (bag ornaments)).sum
            ((readParts (roleOf name) children).map heard).sum := by
          refine gains_sum fun ys hys => ?_
          have hwithin := within_readParts hys
          obtain ⟨around, haround, hinner⟩ := hwithin.elements
          exact ih ys (Nat.lt_of_le_of_lt hwithin.depth (Xml.depthAll_lt hx)) around haround
            (horderly.sublist (hinner.trans hsub)) (hastray.sublist (hinner.trans hsub))
        rw [sum_readParts spoken spoken_mathName htext hrun (horderly.parts _ hmem)
          (horderly.shown _ hmem)] at hparts
        have hall := (hparts.mono (sum_readParts_le ornaments _ children)).add (gains_extras hextras)
        rw [hheard]
        rwa [add_zero, add_comm (bag ornaments children)] at hall
    | text | comment | instruction => exact gains_zero _

/-! Equations. -/

/-- No text is outside of the first equation, if there is one. -/
def AllInEquation (content : List Xml.Node) : Prop :=
  gathered spoken (equationContent content) = gathered spoken content

instance (content : List Xml.Node) : Decidable (AllInEquation content) :=
  inferInstanceAs (Decidable (_ = _))

/-- Each text that is not blank reaches the plain text of the equation, and what is there besides are
separators, operators and accents. -/
theorem readEquation_conserved (markup : String) (content : List Xml.Node)
    (hcontent : Xml.readFragment (dropDeclaration markup.toList) = some content)
    (horderly : Orderly (elementsIn none content)) (hastray : NoneAstray (elementsIn none content))
    (hequation : AllInEquation content) :
    ∃ ns, readEquation markup = some ns ∧
      Gains (bag spoken content) (bag ornaments content) (characters (plainTexts ns)) := by
  refine ⟨equationNodes content, ?_, ?_⟩
  · rw [readEquation, hcontent]
    rfl
  · obtain ⟨around, haround, hsub⟩ := sublist_equationContent content
    have hgains := gains_readNodes (equationContent content) around haround
      (horderly.sublist hsub) (hastray.sublist hsub)
    rw [bag, show gathered spoken _ = _ from hequation] at hgains
    exact hgains.mono (Multiset.coe_le.2 (gathered_sublist ornaments hsub).subperm)

/-- Two items between brackets, the first with a hat, and a product over nothing. -/
def hattedMarkup : String :=
  "<m:oMath><m:d><m:e><m:acc><m:e><m:r><m:t>x</m:t></m:r></m:e></m:acc></m:e>" ++
    "<m:e><m:box><m:r><m:t>yz</m:t></m:r></m:box></m:e></m:d>" ++
      "<m:nary><m:naryPr><m:chr m:val=\"\u220f\"/></m:naryPr><m:e/></m:nary></m:oMath>"

theorem readEquation_conserved_hatted :
    ∃ content, (Xml.readFragment (dropDeclaration hattedMarkup.toList) = some content ∧
      Orderly (elementsIn none content) ∧ NoneAstray (elementsIn none content) ∧
      AllInEquation content) ∧
      gathered spoken content = ["x", "yz"] ∧
      gathered ornaments content = ["|", "^", "\u0302", "\u220f"] ∧
      ∃ ns, readEquation hattedMarkup = some ns ∧
        Gains (bag spoken content) (bag ornaments content) (characters (plainTexts ns)) := by
  obtain ⟨content, hcontent, -, ⟨horderly, hastray, hequation⟩, hgathered⟩ :
      ∃ content, Xml.readFragment (dropDeclaration hattedMarkup.toList) = some content ∧
        readEquation hattedMarkup = some (equationNodes content) ∧
        (Orderly (elementsIn none content) ∧ NoneAstray (elementsIn none content) ∧
          AllInEquation content) ∧
        gathered spoken content = ["x", "yz"] ∧
        gathered ornaments content = ["|", "^", "\u0302", "\u220f"] :=
    exists_fragment (by decide +kernel)
  exact ⟨content, ⟨hcontent, horderly, hastray, hequation⟩, hgathered.1, hgathered.2,
    readEquation_conserved _ _ hcontent horderly hastray hequation⟩

/-- A run inside an element of no namespace that is named `t`. -/
def astrayMarkup : String := "<m:oMath><t><m:r><m:t>x</m:t></m:r></t></m:oMath>"

/-- Such an element is read as its own text, and what is in it is lost. -/
theorem readEquation_not_conserved :
    ∃ content ns, (Xml.readFragment (dropDeclaration astrayMarkup.toList) = some content ∧
      Orderly (elementsIn none content) ∧ AllInEquation content) ∧
      readEquation astrayMarkup = some ns ∧
      ¬(bag spoken content).bind characters ≤ characters (plainTexts ns) := by
  obtain ⟨content, hcontent, hread, horderly, hequation, hspoken, hplain⟩ :
      ∃ content, Xml.readFragment (dropDeclaration astrayMarkup.toList) = some content ∧
        readEquation astrayMarkup = some (equationNodes content) ∧
        Orderly (elementsIn none content) ∧ AllInEquation content ∧
        gathered spoken content = ["x"] ∧ plainTexts (equationNodes content) = "" :=
    exists_fragment (by decide +kernel)
  refine ⟨content, _, ⟨hcontent, horderly, hequation⟩, hread, ?_⟩
  rw [hplain, bag, hspoken, characters_empty]
  decide

end MarkdownDocx.Math

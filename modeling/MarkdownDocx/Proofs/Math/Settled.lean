import MarkdownDocx.Proofs.Math.Lookup
import MarkdownDocx.Proofs.Math.Shape

/-!
Which equations are read again as they were read. Main statement: writing what has been read and
reading it once more changes nothing, if the reader has met no operator without an operand other
than sums and integrals, and only then.
-/

set_option autoImplicit false

namespace MarkdownDocx.Math

open MarkdownDocx.Xml (mathName elementsIn depthAll LegalAll)

/-! Nodes that are their own normal form. -/

def Settled (ns : List Node) : Prop := ∀ n ∈ ns, n.normal = [n]

theorem settled_nil : Settled [] := by simp [Settled]

theorem settled_cons {n : Node} {ns : List Node} :
    Settled (n :: ns) ↔ n.normal = [n] ∧ Settled ns := by simp [Settled]

theorem settled_singleton {n : Node} : Settled [n] ↔ n.normal = [n] := by simp [Settled]

theorem settled_append {ns ms : List Node} : Settled (ns ++ ms) ↔ Settled ns ∧ Settled ms :=
  List.forall_mem_append

theorem settled_flatMap {α : Type} {f : α → List Node} {as : List α} :
    Settled (as.flatMap f) ↔ ∀ a ∈ as, Settled (f a) := by
  simp only [Settled, List.mem_flatMap]
  exact ⟨fun h a ha n hn => h n ⟨a, ha, hn⟩, fun h n ⟨a, ha, hn⟩ => h a ha n hn⟩

theorem normal_run_iff {text : String} :
    (Node.run text).normal = [.run text] ↔ isBlankString text = false := by
  unfold Node.normal
  change (if isBlankString text = true then [] else [Node.run text]) = [.run text] ↔ _
  split <;> simp_all

/-- What has been read has no node with several nodes as its normal form. -/
theorem length_normal_le {n : Node} (h : n.Shaped) : n.normal.length ≤ 1 := by
  cases n with
  | run text =>
    unfold Node.normal
    split <;> simp
  | nary symbol operand sub sup =>
    have hne : symbol ≠ "" := by
      rintro rfl
      exact absurd h.1 (by decide)
    simp [Node.normal, operation, named, hne, h.1]
  | accent => exact h.elim
  | fraction | superscript | subscript | subSuperscript | radical | delimited | matrix | property =>
    simp [Node.normal]

theorem length_normals_le {ns : List Node} (h : Shapeds ns) : (normals ns).length ≤ ns.length := by
  induction ns with
  | nil => exact Nat.le_refl _
  | cons n rest ih =>
    have hn := length_normal_le h.1
    have hrest := ih h.2
    simp only [normals, List.length_append, List.length_cons]
    omega

/-- Nothing can make up for a node that vanishes: each node has to be left by itself. -/
theorem normals_eq_self_iff {ns : List Node} (h : Shapeds ns) : normals ns = ns ↔ Settled ns := by
  induction ns with
  | nil => exact ⟨fun _ => settled_nil, fun _ => rfl⟩
  | cons n rest ih =>
    rw [normals, settled_cons, ← ih h.2]
    constructor
    · intro heq
      have hlength := length_normals_le h.2
      have hn := length_normal_le h.1
      cases hnormal : n.normal with
      | nil =>
        rw [hnormal, List.nil_append] at heq
        rw [heq, List.length_cons] at hlength
        omega
      | cons m ms =>
        rw [hnormal, List.length_cons] at hn
        obtain rfl : ms = [] := List.eq_nil_of_length_eq_zero (by omega)
        rw [hnormal, List.cons_append, List.nil_append, List.cons.injEq] at heq
        exact ⟨by rw [heq.1], heq.2⟩
    · rintro ⟨hn, hrest⟩
      rw [hn, hrest, List.singleton_append]

/-! The parts of a node. -/

/-- A list that a blank run does not begin. An empty run then is what an empty slot holds. -/
def Proper (ns : List Node) : Prop := ∀ text, ns.head? = some (.run text) → isBlankString text = false

theorem proper_nil : Proper [] := by simp [Proper]

theorem proper_run {text : String} {ns : List Node} :
    Proper (.run text :: ns) ↔ isBlankString text = false := by simp [Proper]

theorem proper_cons {n : Node} {ns : List Node} (h : ∀ text, n ≠ .run text) : Proper (n :: ns) := by
  simp [Proper, h]

theorem proper_append {ns ms : List Node} (hn : Proper ns) (hm : Proper ms) : Proper (ns ++ ms) := by
  cases ns with
  | nil => exact hm
  | cons n rest => simpa [Proper] using hn

theorem proper_flatMap {α : Type} {f : α → List Node} {as : List α} (h : ∀ a ∈ as, Proper (f a)) :
    Proper (as.flatMap f) := by
  induction as with
  | nil => exact proper_nil
  | cons a rest ih =>
    obtain ⟨ha, hrest⟩ := List.forall_mem_cons.1 h
    exact proper_append ha (ih hrest)

theorem slot_of_ne_nil {ns : List Node} (h : ns ≠ []) : slot ns = ns := by simp [slot, h]

theorem slot_normals_slot {ns : List Node} (hs : Shapeds ns) (hp : Proper ns) :
    slot (normals (slot ns)) = slot ns ↔ Settled ns := by
  cases ns with
  | nil => exact ⟨fun _ => settled_nil, fun _ => rfl⟩
  | cons n rest =>
    rw [slot_of_ne_nil (List.cons_ne_nil n rest), ← normals_eq_self_iff hs]
    constructor
    · intro h
      cases hnormals : normals (n :: rest) with
      | nil =>
        rw [hnormals] at h
        obtain ⟨rfl, rfl⟩ := List.cons.inj h
        exact absurd (proper_run.1 hp) (by decide)
      | cons m ms => rwa [hnormals] at h
    · intro h
      rw [h, slot_of_ne_nil (List.cons_ne_nil n rest)]

theorem normalLimit_optionalSlot {ns : List Node} (hs : Shapeds ns) :
    normalLimit (optionalSlot ns) = optionalSlot ns ↔ Settled ns := by
  cases ns with
  | nil => exact ⟨fun _ => settled_nil, fun _ => rfl⟩
  | cons n rest =>
    rw [← normals_eq_self_iff hs]
    change present (normals (n :: rest)) = some (n :: rest) ↔ _
    cases normals (n :: rest) <;> simp [present]

/-- A part that is shown is written, and one that is hidden is not there in the first place. -/
theorem normalLimit_shownPart (group flag : String) {name : String} {xs : List Xml.Node}
    (hs : Shapeds (readNodes (part name xs))) :
    normalLimit (if isSwitchedOn group flag xs = true then none
        else optionalSlot (readNodes (part name xs))) =
      (if isSwitchedOn group flag xs = true then none
        else optionalSlot (readNodes (part name xs))) ↔
      ∀ ys ∈ shownPart group flag name xs, Settled (readNodes ys) := by
  unfold shownPart
  split
  · simp [normalLimit]
  · rw [normalLimit_optionalSlot hs]
    simp

theorem settled_joinItems {separator : String} (hseparator : isBlankString separator = false)
    {items : List (List Node)} :
    Settled (joinItems separator items) ↔ ∀ item ∈ items, Settled item := by
  induction items with
  | nil => simp [joinItems, settled_nil]
  | cons item rest ih =>
    cases rest with
    | nil => simp [joinItems]
    | cons next rest =>
      rw [joinItems, settled_append, settled_cons, ih, normal_run_iff,
        List.forall_mem_cons (l := next :: rest)]
      · simp only [hseparator, true_and]
      · exact List.cons_ne_nil next rest

theorem proper_joinItems {separator : String} (hseparator : isBlankString separator = false)
    {items : List (List Node)} (h : ∀ item ∈ items, Proper item) :
    Proper (joinItems separator items) := by
  match items with
  | [] => exact proper_nil
  | [item] => exact h item List.mem_cons_self
  | item :: next :: rest =>
    exact proper_append (h item List.mem_cons_self) (proper_run.2 hseparator)

theorem normalCells_eq_self {cells : List (List Xml.Attribute × List Xml.Node)}
    (hs : ∀ p ∈ cells, Shapeds (readNodes p.2)) (hp : ∀ p ∈ cells, Proper (readNodes p.2)) :
    normalCells (cells.map fun p => slot (readNodes p.2)) =
      (cells.map fun p => slot (readNodes p.2)) ↔ ∀ p ∈ cells, Settled (readNodes p.2) := by
  induction cells with
  | nil => simp [normalCells]
  | cons c rest ih =>
    obtain ⟨hsc, hsrest⟩ := List.forall_mem_cons.1 hs
    obtain ⟨hpc, hprest⟩ := List.forall_mem_cons.1 hp
    rw [List.map_cons, normalCells, List.cons.injEq, slot_normals_slot hsc hpc, ih hsrest hprest,
      List.forall_mem_cons]

theorem normalRows_eq_self {rows : List (List Xml.Attribute × List Xml.Node)}
    (hs : ∀ row ∈ rows, ∀ p ∈ allNamed "e" row.2, Shapeds (readNodes p.2))
    (hp : ∀ row ∈ rows, ∀ p ∈ allNamed "e" row.2, Proper (readNodes p.2)) :
    normalRows (rows.map fun row => cellsOf row.2) = (rows.map fun row => cellsOf row.2) ↔
      ∀ row ∈ rows, ∀ p ∈ allNamed "e" row.2, Settled (readNodes p.2) := by
  induction rows with
  | nil => simp [normalRows]
  | cons row rest ih =>
    obtain ⟨hsr, hsrest⟩ := List.forall_mem_cons.1 hs
    obtain ⟨hpr, hprest⟩ := List.forall_mem_cons.1 hp
    rw [List.map_cons, normalRows, List.cons.injEq, ih hsrest hprest, List.forall_mem_cons,
      cellsOf_eq, normalCells_eq_self hsr hpr]

/-- A limit that is not there, or that holds something. -/
def ProperLimit : Option (List Node) → Prop
  | none => True
  | some ns => ns ≠ [] ∧ Proper ns

theorem properLimit_shownPart {group flag name : String} {xs : List Xml.Node}
    (h : ∀ ys ∈ shownPart group flag name xs, Proper (readNodes ys)) :
    ProperLimit (if isSwitchedOn group flag xs = true then none
      else optionalSlot (readNodes (part name xs))) := by
  unfold shownPart at h
  split
  · trivial
  · rename_i hshown
    rw [if_neg hshown] at h
    have hpart := h _ (List.mem_singleton.2 rfl)
    cases hnodes : readNodes (part name xs) with
    | nil => trivial
    | cons n rest =>
      rw [hnodes] at hpart
      exact ⟨List.cons_ne_nil n rest, hpart⟩

theorem slot_normals_limit {ns : List Node} (h : ProperLimit (some ns)) :
    slot (normals ns) = ns ↔ normalLimit (some ns) = some ns := by
  change _ ↔ present (normals ns) = some ns
  cases hnormals : normals ns with
  | nil =>
    refine ⟨fun heq => ?_, fun heq => by cases heq⟩
    have hproper := h.2
    rw [← heq] at hproper
    exact absurd (proper_run.1 hproper) (by decide)
  | cons m ms => exact ⟨congrArg some, Option.some.inj⟩

/-- A glyph stays, and so do its scripts if they stay as limits. -/
theorem normal_scripted {operator : String} (hoperator : isBlankString operator = false)
    {sub sup : Option (List Node)} (hsub : ProperLimit sub) (hsup : ProperLimit sup) :
    (scripted (.run operator) sub sup).normal = [scripted (.run operator) sub sup] ↔
      normalLimit sub = sub ∧ normalLimit sup = sup := by
  have hglyph : slot (normals [.run operator]) = [.run operator] := by
    rw [normals, normal_run_iff.2 hoperator]
    rfl
  cases sub with
  | none =>
    cases sup with
    | none => simp [scripted, normal_run_iff.2 hoperator, normalLimit]
    | some sup =>
      rw [← slot_normals_limit hsup]
      simp [scripted, Node.normal, hglyph, normalLimit]
  | some sub =>
    cases sup with
    | none =>
      rw [← slot_normals_limit hsub]
      simp [scripted, Node.normal, hglyph, normalLimit]
    | some sup =>
      rw [← slot_normals_limit hsub, ← slot_normals_limit hsup]
      simp [scripted, Node.normal, hglyph]

/-- Over nothing an operator without a form of its own stands before the empty run of the slot, and
that run is lost. -/
theorem settled_readNary {operator : String} (hoperator : isBlankString operator = false)
    {sub sup : Option (List Node)} (hsub : ProperLimit sub) (hsup : ProperLimit sup)
    {operand : List Node} (hs : Shapeds operand) (hp : Proper operand) :
    Settled (readNary operator sub sup (slot operand)) ↔
      Settled operand ∧ normalLimit sub = sub ∧ normalLimit sup = sup ∧
        (operator = sumSign ∨ operator = integralSign ∨ operand ≠ []) := by
  have hne : operator ≠ "" := by
    rintro rfl
    exact absurd hoperator (by decide)
  rw [← operation_eq]
  unfold operation
  split
  · rename_i h
    rw [settled_singleton, Node.normal]
    simp only [operation, named, hne, if_false, if_pos h, List.cons.injEq, and_true,
      Node.nary.injEq, true_and, slot_normals_slot hs hp]
    rcases h with h | h <;> simp [h]
  · rename_i h
    rw [not_or] at h
    rw [settled_cons, normal_scripted hoperator hsub hsup]
    cases operand with
    | nil =>
      have hempty : ¬Settled (slot []) := fun hsettled =>
        absurd (normal_run_iff.1 (settled_singleton.1 hsettled)) (by decide)
      simp [hempty, h]
    | cons n rest =>
      rw [slot_of_ne_nil (List.cons_ne_nil n rest)]
      simp
      tauto

theorem proper_readNary {operator : String} (hoperator : isBlankString operator = false)
    (sub sup : Option (List Node)) (operand : List Node) :
    Proper (readNary operator sub sup operand) := by
  rw [← operation_eq]
  unfold operation
  split
  · exact proper_cons (by simp)
  · cases sub <;> cases sup
    · exact proper_run.2 hoperator
    · exact proper_cons (by simp [scripted])
    · exact proper_cons (by simp [scripted])
    · exact proper_cons (by simp [scripted])

theorem combiningMark?_not_blank {accent : String} {c : Char} (h : combiningMark? accent = some c) :
    Text.isBlank c = false := by
  have hall : ∀ p ∈ combiningMarks, Text.isBlank p.2 = false := by decide
  obtain ⟨p, hp, rfl⟩ := Option.map_eq_some_iff.1 h
  exact hall p (List.mem_of_find?_eq_some hp)

theorem isBlankString_push {text : String} {c : Char} (h : Text.isBlank c = false) :
    isBlankString (text.push c) = false := by
  simp [isBlankString, Text.isBlankText, h]

theorem settled_readAccent {accent : String} (haccent : isBlankString accent = false)
    {base : List Node} (hs : Shapeds base) (hp : Proper base) :
    Settled (readAccent accent (slot base)) ↔ Settled base := by
  have hscript : Settled [.superscript (slot base) [.run accent]] ↔ Settled base := by
    have hmark : slot (normals [.run accent]) = [.run accent] := by
      rw [normals, normal_run_iff.2 haccent]
      rfl
    rw [settled_singleton, Node.normal, hmark]
    simp [slot_normals_slot hs hp]
  unfold readAccent
  split
  · rename_i c text hmark hbase
    split
    · rename_i hlength
      obtain rfl : base = [.run text] := by
        cases base with
        | nil =>
          obtain rfl : "" = text := by simpa [slot] using hbase
          exact absurd hlength (by decide)
        | cons n rest => rwa [slot_of_ne_nil (List.cons_ne_nil n rest)] at hbase
      rw [settled_singleton, settled_singleton, normal_run_iff, normal_run_iff]
      exact iff_of_true (isBlankString_push (combiningMark?_not_blank hmark)) (proper_run.1 hp)
    · exact hscript
  · exact hscript

theorem proper_readAccent (accent : String) (base : List Node) :
    Proper (readAccent accent base) := by
  unfold readAccent
  split
  · rename_i hmark
    split
    · exact proper_run.2 (isBlankString_push (combiningMark?_not_blank hmark))
    · exact proper_cons (by simp)
  · exact proper_cons (by simp)

/-! Whole elements. -/

/-- Texts stand in runs only, and neither an operator nor an accent nor a separator is blank. -/
structure WellMarked (es : List Xml.Element) : Prop where
  texts : ∀ e ∈ es, e.name.base = "t" → e.name = mathName "t" ∧ e.outer = some (mathName "r")
  glyphs : ∀ e ∈ es, e.name = mathName "chr" ∨ e.name = mathName "sepChr" →
    ∀ v ∈ valueOf? e.attributes, isBlankString v = false

instance (es : List Xml.Element) : Decidable (WellMarked es) :=
  decidable_of_iff
    ((∀ e ∈ es, e.name.base = "t" → e.name = mathName "t" ∧ e.outer = some (mathName "r")) ∧
      ∀ e ∈ es, e.name = mathName "chr" ∨ e.name = mathName "sepChr" →
        ∀ v ∈ valueOf? e.attributes, isBlankString v = false)
    ⟨fun h => ⟨h.1, h.2⟩, fun h => ⟨h.texts, h.glyphs⟩⟩

theorem WellMarked.sublist {es fs : List Xml.Element} (h : WellMarked es) (hsub : fs.Sublist es) :
    WellMarked fs :=
  ⟨fun e he => h.texts e (hsub.subset he), fun e he => h.glyphs e (hsub.subset he)⟩

theorem exists_of_property? {group name v : String} {outer : Option Xml.Name} {xs : List Xml.Node}
    (h : property? group name xs = some v) :
    ∃ e ∈ elementsIn outer xs, e.name = mathName name ∧ valueOf? e.attributes = some v := by
  unfold property? at h
  split at h
  · rename_i properties hgroup
    split at h
    · rename_i as inside hname
      rw [child?_eq] at hgroup hname
      have hmem := mem_allNamed.1 (List.mem_of_head? hgroup)
      have hinner := mem_allNamed.1 (List.mem_of_head? hname)
      exact ⟨_, (Xml.sublist_elementsIn_children _ hmem).subset (Xml.mem_elementsIn hinner), rfl, h⟩
    · cases h
  · cases h

theorem WellMarked.propertyOr {outer : Option Xml.Name} {xs : List Xml.Node}
    (h : WellMarked (elementsIn outer xs)) (group : String) {name fallback : String}
    (hname : name = "chr" ∨ name = "sepChr") (hfallback : isBlankString fallback = false) :
    isBlankString (propertyOr group name fallback xs) = false := by
  unfold Math.propertyOr
  split
  · rename_i v hv
    split
    · exact hfallback
    · obtain ⟨e, he, hen, hev⟩ := exists_of_property? hv
      exact h.glyphs e he (by rw [hen, mathName_inj, mathName_inj]; exact hname) v hev
  · exact hfallback

/-- An operator that is neither a sum nor an integral, over nothing. -/
def Bare : Xml.Node → Prop
  | .element name _ children =>
    roleOf name = .nary ∧
      ¬(propertyOr "naryPr" "chr" sumSign children = sumSign ∨
        propertyOr "naryPr" "chr" sumSign children = integralSign) ∧
      readNodes (part "e" children) = []
  | _ => False

theorem readRun_settled (xs : List Xml.Node) : Settled (readRun xs) ∧ Proper (readRun xs) := by
  have hrun : ∀ text : String, Settled (if isBlankString text = true then [] else [.run text]) ∧
      Proper (if isBlankString text = true then [] else [.run text]) := by
    intro text
    split
    · exact ⟨settled_nil, proper_nil⟩
    · rename_i h
      have hblank := Bool.eq_false_iff.2 h
      exact ⟨settled_singleton.2 (normal_run_iff.2 hblank), proper_run.2 hblank⟩
  exact hrun _

theorem trimmed_not_blank {s : String} (h : Text.trimmed s ≠ "") :
    isBlankString (Text.trimmed s) = false := isBlankString_eq_false h (by simp [Text.trimmed])

section Element

variable {name : Xml.Name} {as : List Xml.Attribute} {children : List Xml.Node}

/-- No element begins with a blank run if its parts do not. -/
theorem proper_readNode (hmarks : WellMarked (elementsIn (some name) children))
    (htext : roleOf name ≠ .text)
    (hparts : ∀ ys ∈ readParts (roleOf name) children, Proper (readNodes ys)) :
    Proper (readNode (.element name as children)) := by
  rw [readNode]
  cases hrole : roleOf name with
  | text => exact absurd hrole htext
  | run => exact (readRun_settled children).2
  | fraction | superscript | subscript | subSuperscript | radical | delimited | matrix =>
    exact proper_cons (by simp)
  | nary => exact proper_readNary (hmarks.propertyOr "naryPr" (.inl rfl) (by decide)) _ _ _
  | accent => exact proper_readAccent _ _
  | wrapper =>
    rw [hrole] at hparts
    dsimp only
    split
    · exact hparts children (List.mem_singleton.2 rfl)
    · split
      · exact proper_nil
      · rename_i h
        exact proper_run.2 (trimmed_not_blank h)

/-- An element is settled if its parts are and it is not bare, and only then. -/
theorem settled_readNode (hlegal : LegalAll children)
    (hmarks : WellMarked (elementsIn (some name) children)) (htext : roleOf name ≠ .text)
    (hparts : ∀ ys ∈ readParts (roleOf name) children, Proper (readNodes ys)) :
    Settled (readNode (.element name as children)) ↔
      (∀ ys ∈ readParts (roleOf name) children, Settled (readNodes ys)) ∧
        ¬Bare (.element name as children) := by
  have hshape : ∀ part, Shapeds (readNodes (Math.part part children)) := fun part => by
    rw [← partOf_eq]
    exact shapeds_partOf part children hlegal
  rw [readNode]
  simp only [partOf_eq, partsOf_eq, rowsOf_eq]
  cases hrole : roleOf name with
  | text => exact absurd hrole htext
  | run =>
    simp [(readRun_settled children).1, readParts, Bare, hrole]
  | fraction | superscript | subscript | subSuperscript =>
    simp only [hrole, readParts, List.forall_mem_cons] at hparts
    simp [settled_singleton, Node.normal, readParts, Bare, hrole, slot_normals_slot, hshape, hparts]
  | radical =>
    simp only [hrole, readParts, List.forall_mem_cons] at hparts
    simp only [settled_singleton, Node.normal, List.cons.injEq, Node.radical.injEq, and_true,
      slot_normals_slot (hshape "e") hparts.1, normalLimit_shownPart "radPr" "degHide" (hshape "deg"),
      readParts, List.forall_mem_cons]
    simp [Bare, hrole]
  | delimited =>
    have hseparator : isBlankString (propertyOr "dPr" "sepChr" "|" children) = false :=
      hmarks.propertyOr "dPr" (.inr rfl) (by decide)
    have hlegalSeparator : Legal (propertyOr "dPr" "sepChr" "|" children) :=
      legal_propertyOr hlegal (by decide)
    have hs : ∀ item ∈ (allNamed "e" children).map fun p => readNodes p.2, Shapeds item := by
      rw [← partsOf_eq]
      exact shapeds_partsOf "e" children hlegal
    have hp : ∀ item ∈ (allNamed "e" children).map fun p => readNodes p.2, Proper item := by
      rw [hrole, readParts, List.forall_mem_map] at hparts
      exact List.forall_mem_map.2 hparts
    rw [settled_singleton, Node.normal, List.cons.injEq, Node.delimited.injEq,
      slot_normals_slot (shapeds_joinItems hlegalSeparator hs) (proper_joinItems hseparator hp),
      settled_joinItems hseparator, List.forall_mem_map]
    have hkind : (delimiterOf (propertyOr "dPr" "begChr" "(" children)
        (propertyOr "dPr" "endChr" ")" children)).known = delimiterOf
          (propertyOr "dPr" "begChr" "(" children) (propertyOr "dPr" "endChr" ")" children) := by
      rcases delimiterOf_named (propertyOr "dPr" "begChr" "(" children)
        (propertyOr "dPr" "endChr" ")" children) with h | h | h <;> rw [h] <;> rfl
    rw [readParts, List.forall_mem_map]
    simp [hkind, Bare, hrole]
  | nary =>
    simp only [hrole, readParts, List.forall_mem_cons, List.forall_mem_append] at hparts
    obtain ⟨hoperand, hsub, hsup⟩ := hparts
    rw [settled_readNary (hmarks.propertyOr "naryPr" (.inl rfl) (by decide))
      (properLimit_shownPart hsub) (properLimit_shownPart hsup) (hshape "e") hoperand,
      normalLimit_shownPart "naryPr" "subHide" (hshape "sub"),
      normalLimit_shownPart "naryPr" "supHide" (hshape "sup")]
    simp only [readParts, List.forall_mem_cons, List.forall_mem_append, Bare, hrole, true_and]
    tauto
  | accent =>
    simp only [hrole, readParts, List.forall_mem_cons] at hparts
    rw [settled_readAccent (hmarks.propertyOr "accPr" (.inl rfl) (by decide)) (hshape "e") hparts.1]
    simp [readParts, Bare, hrole]
  | matrix =>
    have hs : ∀ row ∈ allNamed "mr" children, ∀ p ∈ allNamed "e" row.2, Shapeds (readNodes p.2) :=
      fun row hrow p hp => shapeds_readNodes p.2 (legalAll_of_mem hp (legalAll_of_mem hrow hlegal))
    have hp : ∀ row ∈ allNamed "mr" children, ∀ p ∈ allNamed "e" row.2, Proper (readNodes p.2) :=
      fun row hrow p hp => hparts p.2 (by
        rw [hrole]
        exact List.mem_flatMap.2 ⟨row, hrow, List.mem_map_of_mem hp⟩)
    rw [settled_singleton, Node.normal, List.cons.injEq, Node.matrix.injEq, normalRows_eq_self hs hp,
      readParts, List.forall_mem_flatMap]
    simp only [List.forall_mem_map]
    simp [Bare, hrole]
  | wrapper =>
    simp only [readParts, List.mem_singleton, forall_eq, Bare, hrole]
    split
    · simp
    · rename_i h
      rw [readNodes_eq_nil (Bool.eq_false_iff.2 h)]
      split
      · simp [settled_nil]
      · rename_i htext
        simp [settled_nil, settled_singleton, normal_run_iff, trimmed_not_blank htext]

end Element

/-! Whole trees. -/

/-- The reader, on its way through `xs`, comes to read `ys`. -/
inductive Reached : List Xml.Node → List Xml.Node → Prop where
  | here (xs : List Xml.Node) : Reached xs xs
  | inner {xs ys zs : List Xml.Node} {name : Xml.Name} {as : List Xml.Attribute}
    {children : List Xml.Node} (mem : .element name as children ∈ xs)
    (part : ys ∈ readParts (roleOf name) children) (rest : Reached ys zs) : Reached xs zs

/-- Nothing that the reader meets on its way through `xs` is bare. -/
def NoneBare (xs : List Xml.Node) : Prop := ∀ ys, Reached xs ys → ∀ x ∈ ys, ¬Bare x

theorem noneBare_iff {xs : List Xml.Node} :
    NoneBare xs ↔ ∀ x ∈ xs, ¬Bare x ∧ ∀ name as children, x = .element name as children →
      ∀ ys ∈ readParts (roleOf name) children, NoneBare ys := by
  constructor
  · rintro h x hx
    refine ⟨h xs (.here xs) x hx, ?_⟩
    rintro name as children rfl ys hys zs hzs
    exact h zs (.inner hx hys hzs)
  · rintro h ys (_ | ⟨hmem, hpart, hrest⟩)
    · exact fun x hx => (h x hx).1
    · exact (h _ hmem).2 _ _ _ rfl _ hpart ys hrest

/-- By depth: what an element is read through is nested less deeply than the element. -/
theorem settled_readNodes (xs : List Xml.Node) :
    LegalAll xs → ∀ outer, outer ≠ some (mathName "r") → WellMarked (elementsIn outer xs) →
      Proper (readNodes xs) ∧ (Settled (readNodes xs) ↔ NoneBare xs) := by
  induction xs using Xml.depth_induction with
  | step xs ih =>
    intro hlegal outer houter hmarks
    have hsub : ∀ {name as children}, .element name as children ∈ xs →
        (elementsIn (some name) children).Sublist (elementsIn outer xs) :=
      Xml.sublist_elementsIn_children outer
    have hlegalIn : ∀ {name as children}, .element name as children ∈ xs → LegalAll children :=
      fun hmem => (Xml.legalAll_iff.1 hlegal _ hmem).2.2
    have htext : ∀ {name as children}, .element name as children ∈ xs → roleOf name ≠ .text := by
      intro name as children hmem hrole
      exact houter (hmarks.texts _ (Xml.mem_elementsIn hmem) (roleOf_eq_text_iff.1 hrole)).2
    have hparts : ∀ {name as children}, .element name as children ∈ xs →
        ∀ ys ∈ readParts (roleOf name) children,
          Proper (readNodes ys) ∧ (Settled (readNodes ys) ↔ NoneBare ys) := by
      intro name as children hmem ys hys
      have hwithin := within_readParts hys
      obtain ⟨around, haround, hinner⟩ := hwithin.elements
      exact ih ys (Nat.lt_of_le_of_lt hwithin.depth (Xml.depthAll_lt hmem))
        (hwithin.legal (hlegalIn hmem)) around haround (hmarks.sublist (hinner.trans (hsub hmem)))
    rw [readNodes_eq]
    constructor
    · refine proper_flatMap fun x hx => ?_
      cases x with
      | element name as children =>
        exact proper_readNode (hmarks.sublist (hsub hx)) (htext hx) fun ys hys =>
          (hparts hx ys hys).1
      | text | comment | instruction => exact proper_nil
    · rw [settled_flatMap, noneBare_iff]
      refine forall₂_congr fun x hx => ?_
      cases x with
      | element name as children =>
        rw [settled_readNode (hlegalIn hx) (hmarks.sublist (hsub hx)) (htext hx) fun ys hys =>
          (hparts hx ys hys).1, and_comm]
        refine and_congr_right fun _ => ?_
        constructor
        · rintro h _ _ _ ⟨⟩ ys hys
          exact (hparts hx ys hys).2.1 (h ys hys)
        · exact fun h ys hys => (hparts hx ys hys).2.2 (h name as children rfl ys hys)
      | text | comment | instruction => simp [readNode, settled_nil, Bare]

/-! Equations. -/

theorem legal_equationContent {content : List Xml.Node} (h : LegalAll content) :
    LegalAll (equationContent content) := by
  unfold equationContent
  cases heq : firstEquationIn content with
  | none => exact h
  | some inside => exact legal_firstEquationIn content h heq

/-- What has been read can be written, and the written tree reads as the same nodes if the reader
met nothing bare, and only then. Its text reads as its tree does, unless it is nested too deeply. -/
theorem readEquation_again (markup : String) (content : List Xml.Node) (display : Bool)
    (hcontent : Xml.readFragment (dropDeclaration markup.toList) = some content)
    (hmarks : WellMarked (elementsIn none content)) :
    ∃ ns x, readEquation markup = some ns ∧ writeEquation ns display = .ok x ∧
      (equationNodes [x] = ns ↔ NoneBare (equationContent content)) ∧
      readEquation (String.ofList x.document) =
        if x.depth < Xml.greatestDepth then some (equationNodes [x]) else none := by
  have hlegal := Xml.readFragment_legal hcontent
  have hshaped := shapeds_equationNodes hlegal
  have hregular := regulars_of_shaped _ hshaped
  have hnodes := equationNodes_equationMarkup hregular display
  refine ⟨equationNodes content, equationMarkup (equationNodes content) display, ?_,
    writeEquation_eq hregular display, ?_, ?_⟩
  · rw [readEquation, hcontent]
    rfl
  · rw [hnodes, normals_eq_self_iff hshaped]
    obtain ⟨around, haround, hsub⟩ := sublist_equationContent content
    exact (settled_readNodes _ (legal_equationContent hlegal) around haround (hmarks.sublist hsub)).2
  · rw [hnodes]
    exact readEquation_document hregular display

/-- A product over an operand. -/
def productMarkup (operand : String) : String :=
  "<m:oMath><m:nary><m:naryPr><m:chr m:val=\"\u220f\"/></m:naryPr><m:e>" ++ operand ++
    "</m:e></m:nary></m:oMath>"

theorem readEquation_again_product :
    ∃ content, (Xml.readFragment
        (dropDeclaration (productMarkup "<m:r><m:t>x</m:t></m:r>").toList) = some content ∧
      WellMarked (elementsIn none content)) ∧
      ∃ ns x, readEquation (productMarkup "<m:r><m:t>x</m:t></m:r>") = some ns ∧
        writeEquation ns true = .ok x ∧
        (equationNodes [x] = ns ↔ NoneBare (equationContent content)) ∧
        readEquation (String.ofList x.document) =
          if x.depth < Xml.greatestDepth then some (equationNodes [x]) else none := by
  obtain ⟨content, hcontent, -, hmarks⟩ :
      ∃ content, Xml.readFragment
          (dropDeclaration (productMarkup "<m:r><m:t>x</m:t></m:r>").toList) = some content ∧
        readEquation (productMarkup "<m:r><m:t>x</m:t></m:r>") = some (equationNodes content) ∧
        WellMarked (elementsIn none content) := exists_fragment (by decide +kernel)
  exact ⟨content, ⟨hcontent, hmarks⟩, readEquation_again _ content true hcontent hmarks⟩

/-- The product over nothing is read as a glyph and an empty run, and the empty run is lost when the
two are read again. -/
theorem readEquation_again_bare :
    ∃ content ns x, Xml.readFragment (dropDeclaration (productMarkup "").toList) = some content ∧
      WellMarked (elementsIn none content) ∧ readEquation (productMarkup "") = some ns ∧
      writeEquation ns false = .ok x ∧
      readEquation (String.ofList x.document) = some (equationNodes [x]) ∧
      ns.map Node.plainText = ["\u220f", ""] ∧
      (equationNodes [x]).map Node.plainText = ["\u220f"] := by
  obtain ⟨content, hcontent, hread, hmarks, htext, hnormal, hdepth⟩ :
      ∃ content, Xml.readFragment (dropDeclaration (productMarkup "").toList) = some content ∧
        readEquation (productMarkup "") = some (equationNodes content) ∧
        WellMarked (elementsIn none content) ∧
        (equationNodes content).map Node.plainText = ["\u220f", ""] ∧
        (normals (equationNodes content)).map Node.plainText = ["\u220f"] ∧
        (equationMarkup (equationNodes content) false).depth = 3 :=
    exists_fragment (by decide +kernel)
  have hregular := regulars_of_shaped _ (shapeds_equationNodes (Xml.readFragment_legal hcontent))
  refine ⟨content, _, _, hcontent, hmarks, hread, writeEquation_eq hregular false, ?_, htext, ?_⟩
  · rw [readEquation_document hregular, hdepth, equationNodes_equationMarkup hregular]
    rfl
  · rwa [equationNodes_equationMarkup hregular]

end MarkdownDocx.Math

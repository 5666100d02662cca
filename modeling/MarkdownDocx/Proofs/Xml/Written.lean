import MarkdownDocx.Xml.Reader
import MarkdownDocx.Xml.Writer

/-!
Written XML cut into tokens. The tokens of a tree are read off it directly; what a tree writes is
cut into exactly these, whatever characters its texts and values hold.
-/

set_option autoImplicit false

namespace MarkdownDocx.Xml

open MarkdownDocx.Text

/-- The mark of a namespace before the colon of a name. -/
def Namespace.mark : Namespace → String
  | .math => "m"
  | .word => "w"
  | .xml => "xml"
  | .none => ""
  | .other address => "\x7b" ++ address ++ "\x7d"

/-- A name as its tag spells it. -/
def Name.spelled (n : Name) : QName := ⟨n.space.mark, n.base⟩

/-- A name of one of the namespaces that have a mark. -/
structure Name.Marked (n : Name) : Prop where
  space : n.space = .math ∨ n.space = .word ∨ n.space = .xml
  base : isLocalName n.base.toList = true

def QName.text (q : QName) : List Char := q.qualifier.toList ++ ':' :: q.base.toList

structure QName.Qualified (q : QName) : Prop where
  qualifier : isLocalName q.qualifier.toList = true
  base : isLocalName q.base.toList = true

theorem Name.Marked.spelled_qualified {n : Name} (h : n.Marked) : n.spelled.Qualified := by
  refine ⟨?_, h.base⟩
  rcases h.space with hs | hs | hs <;> simp only [Name.spelled, hs] <;> decide

theorem Name.Marked.marked_toList {n : Name} (h : n.Marked) :
    n.marked.toList = n.spelled.text := by
  rcases h.space with hs | hs | hs <;>
    simp [Name.marked, Name.spelled, Namespace.mark, QName.text, hs]

theorem Name.Marked.eq_of_spelled {n m : Name} (hn : n.Marked) (hm : m.Marked)
    (h : n.spelled = m.spelled) : n = m := by
  obtain ⟨s, b⟩ := n
  obtain ⟨s', b'⟩ := m
  simp only [Name.spelled, QName.mk.injEq] at h
  obtain ⟨hmark, rfl⟩ := h
  have hs := hn.space
  have hs' := hm.space
  simp only at hs hs'
  rcases hs with rfl | rfl | rfl <;> rcases hs' with rfl | rfl | rfl <;>
    simp [Namespace.mark] at hmark ⊢

/-! Characters of names and of documents. -/

/-- A character that a document holds as it is, whichever line ends its reader unifies. -/
def isPlain (c : Char) : Bool := isXmlChar c && c != '\r'

theorem isPlain_of_isNameChar {c : Char} (h : isNameChar c = true) : isPlain c = true := by
  have hn : c ≠ '\r' := by
    rintro rfl
    revert h
    decide
  simp only [isNameChar, isNameStart, within, nameStartRanges, nameFurtherRanges, List.any_cons,
    List.any_nil, Bool.or_false, Bool.or_eq_true, Bool.and_eq_true, decide_eq_true_eq] at h
  simp only [isPlain, isXmlChar, bne_iff_ne, Bool.and_eq_true, Bool.or_eq_true, beq_iff_eq,
    decide_eq_true_eq, ne_eq]
  refine ⟨?_, hn⟩
  omega

theorem isNameStart_not_markup {c : Char} (h : isNameStart c = true) :
    isXmlSpace c = false ∧ c ≠ '>' ∧ c ≠ '/' ∧ c ≠ '!' ∧ c ≠ '?' := by
  refine ⟨?_, ?_, ?_, ?_, ?_⟩
  · cases hs : isXmlSpace c with
    | false => rfl
    | true =>
      simp only [isXmlSpace, Bool.or_eq_true, beq_iff_eq] at hs
      rcases hs with ((rfl | rfl) | rfl) | rfl <;> exact absurd h (by decide)
  all_goals rintro rfl; exact absurd h (by decide)

theorem isNameStart_head {cs : List Char} (h : isLocalName cs = true) :
    ∃ c r, cs = c :: r ∧ isNameStart c = true ∧ ∀ d ∈ r, isNameChar d = true := by
  cases cs with
  | nil => simp [isLocalName] at h
  | cons c r => exact ⟨c, r, rfl, by simpa [isLocalName] using h⟩

theorem plain_of_isLocalName {cs : List Char} (h : isLocalName cs = true) :
    ∀ c ∈ cs, isPlain c = true := by
  obtain ⟨c, r, rfl, hc, hr⟩ := isNameStart_head h
  intro d hd
  rcases List.mem_cons.1 hd with rfl | hd
  · exact isPlain_of_isNameChar (by simp [isNameChar, hc])
  · exact isPlain_of_isNameChar (hr d hd)

/-! Names. -/

/-- What follows a name ends it. -/
def EndsName (r : List Char) : Prop := ∀ c ∈ r.head?, isNameChar c = false ∧ c ≠ ':'

theorem endsName_cons {c : Char} {r : List Char} (h : isNameChar c = false) (hc : c ≠ ':') :
    EndsName (c :: r) := by
  simp [EndsName, h, hc]

theorem readLocalName_append {cs r : List Char} (h : isLocalName cs = true)
    (hr : ∀ c ∈ r.head?, isNameChar c = false) :
    readLocalName (cs ++ r) = some (String.ofList cs, r) := by
  obtain ⟨c, cs, rfl, hc, hcs⟩ := isNameStart_head h
  have hstop : r.takeWhile isNameChar = [] ∧ r.dropWhile isNameChar = r := by
    cases r with
    | nil => simp
    | cons d r => simp [hr d (by simp)]
  simp [readLocalName, hc, List.takeWhile_append_of_pos hcs, List.dropWhile_append_of_pos hcs,
    hstop]

theorem readQName_text {q : QName} {r : List Char} (hq : q.Qualified) (hr : EndsName r) :
    readQName (q.text ++ r) = some (q, r) := by
  have hfirst : readLocalName (q.text ++ r) =
      some (q.qualifier, ':' :: (q.base.toList ++ r)) := by
    have h := readLocalName_append (r := ':' :: (q.base.toList ++ r)) hq.qualifier
      (by intro c hc; simp at hc; subst hc; decide)
    simpa [QName.text] using h
  have hsecond := readLocalName_append hq.base fun c hc => (hr c hc).1
  have hcolon : r.head? ≠ some ':' := fun h => (hr ':' h).2 rfl
  simp [readQName, hfirst, hsecond, hcolon]

/-! Texts and values. -/

theorem decodeFrom_escapedTextChar (c : Char) (r : List Char) :
    decodeFrom none (escapedTextChar c ++ r) = (decodeFrom none r).map (c :: ·) := by
  unfold escapedTextChar
  split
  · subst_vars
    simp [decodeFrom, reference?]
  split
  · subst_vars
    simp [decodeFrom, reference?]
  split
  · subst_vars
    simp [decodeFrom, reference?]
  split
  · subst_vars
    have h : reference? ['#', '1', '3'] = some '\r' := by decide
    simp [decodeFrom, h]
  · simp_all [decodeFrom]

theorem decodeFrom_escapedValueChar (c : Char) (r : List Char) :
    decodeFrom none (escapedValueChar c ++ r) = (decodeFrom none r).map (c :: ·) := by
  unfold escapedValueChar
  split
  · subst_vars
    simp [decodeFrom, reference?]
  split
  · subst_vars
    have h : reference? ['#', '1', '0'] = some '\n' := by decide
    simp [decodeFrom, h]
  split
  · subst_vars
    have h : reference? ['#', '9'] = some '\t' := by decide
    simp [decodeFrom, h]
  · exact decodeFrom_escapedTextChar c r

/-- Characters that are written so that each is read back are read back together. -/
theorem decode_flatMap {f : Char → List Char}
    (hf : ∀ c r, decodeFrom none (f c ++ r) = (decodeFrom none r).map (c :: ·))
    (cs : List Char) : decode (cs.flatMap f) = some cs := by
  unfold decode
  induction cs with
  | nil => rfl
  | cons c cs ih => simp [hf, ih]

theorem decode_escapedText (s : String) : decode (escapedText s) = some s.toList :=
  decode_flatMap decodeFrom_escapedTextChar s.toList

theorem decode_escapedValue (s : String) : decode (escapedValue s) = some s.toList :=
  decode_flatMap decodeFrom_escapedValueChar s.toList

theorem mem_escapedTextChar {c d : Char} (h : d ∈ escapedTextChar c) :
    d ≠ '<' ∧ d ≠ '>' ∧ (isXmlChar c = true → isPlain d = true) := by
  revert h
  unfold escapedTextChar
  repeat' split
  all_goals
    intro h
    simp only [List.mem_cons, List.not_mem_nil, or_false] at h
  case' isFalse.isFalse.isFalse.isFalse =>
    subst h
    rename_i hlt hgt hcr
    exact ⟨hlt, hgt, fun hx => by simp [isPlain, hx, hcr]⟩
  all_goals
    refine ⟨?_, ?_, fun _ => ?_⟩ <;> rcases h with rfl | rfl | rfl | rfl | rfl <;> decide

/-- A value holds neither its quotes nor markup, and no white space but plain spaces. -/
theorem mem_escapedValueChar {c d : Char} (h : d ∈ escapedValueChar c) :
    d ≠ '<' ∧ d ≠ '"' ∧ (isXmlSpace d = true → d = ' ') ∧
      (isXmlChar c = true → isPlain d = true) := by
  by_cases hq : c = '"' ∨ c = '\n' ∨ c = '\t' ∨ c = '&' ∨ c = '<' ∨ c = '>' ∨ c = '\r'
  · have hall : (escapedValueChar c).all (fun d =>
        d != '<' && d != '"' && (!isXmlSpace d || d == ' ') && isPlain d) = true := by
      rcases hq with rfl | rfl | rfl | rfl | rfl | rfl | rfl <;> decide
    have hd := List.all_eq_true.1 hall d h
    simp only [Bool.and_eq_true, bne_iff_ne, Bool.or_eq_true, Bool.not_eq_true', beq_iff_eq] at hd
    obtain ⟨⟨⟨hlt, hquote⟩, hspace⟩, hplain⟩ := hd
    refine ⟨hlt, hquote, fun hs => ?_, fun _ => hplain⟩
    rcases hspace with hno | hspace
    · exact absurd hs (by simp [hno])
    · exact hspace
  · simp only [not_or] at hq
    obtain ⟨hquote, hfeed, htab, hamp, hlt, hgt, hcr⟩ := hq
    simp only [escapedValueChar, escapedTextChar, hquote, hfeed, htab, hamp, hlt, hgt, hcr,
      if_false, List.mem_singleton] at h
    subst h
    refine ⟨hlt, hquote, fun hs => ?_, fun hx => by simp [isPlain, hx, hcr]⟩
    simpa [isXmlSpace, hfeed, htab, hcr] using hs

theorem mem_escapedText {s : String} {d : Char} (h : d ∈ escapedText s) :
    d ≠ '<' ∧ d ≠ '>' ∧ (s.toList.all isXmlChar = true → isPlain d = true) := by
  obtain ⟨c, hc, hd⟩ := List.mem_flatMap.1 h
  obtain ⟨hlt, hgt, hplain⟩ := mem_escapedTextChar hd
  exact ⟨hlt, hgt, fun hs => hplain (List.all_eq_true.1 hs c hc)⟩

theorem mem_escapedValue {s : String} {d : Char} (h : d ∈ escapedValue s) :
    d ≠ '<' ∧ d ≠ '"' ∧ (isXmlSpace d = true → d = ' ') ∧
      (s.toList.all isXmlChar = true → isPlain d = true) := by
  obtain ⟨c, hc, hd⟩ := List.mem_flatMap.1 h
  obtain ⟨hlt, hquote, hspace, hplain⟩ := mem_escapedValueChar hd
  exact ⟨hlt, hquote, hspace, fun hs => hplain (List.all_eq_true.1 hs c hc)⟩

theorem escapedTextChar_ne_nil (c : Char) : escapedTextChar c ≠ [] := by
  unfold escapedTextChar
  repeat' split
  all_goals simp

theorem escapedText_ne_nil {s : String} (h : s ≠ "") : escapedText s ≠ [] := by
  cases hs : s.toList with
  | nil => exact absurd (String.toList_eq_nil_iff.1 hs) h
  | cons c cs => simp [escapedText, hs, escapedTextChar_ne_nil]

theorem occursIn_cdataEnd_escapedText (s : String) :
    occursIn cdataEnd (escapedText s) = false := by
  cases h : occursIn cdataEnd (escapedText s) with
  | false => rfl
  | true =>
    obtain ⟨a, b, hab⟩ := occursIn_iff.1 h
    have hmem : '>' ∈ escapedText s := by simp [hab, cdataEnd]
    exact absurd rfl (mem_escapedText hmem).2.1

theorem readText_escapedText (s : String) (r : List Char) :
    readText (escapedText s ++ '<' :: r) = some (.text s, '<' :: r) := by
  have hlt : ∀ c ∈ escapedText s, (c != '<') = true := fun c hc => by
    simpa using (mem_escapedText hc).1
  simp [readText, List.takeWhile_append_of_pos hlt, List.dropWhile_append_of_pos hlt,
    occursIn_cdataEnd_escapedText, decode_escapedText]

theorem readToken_escapedText {s : String} (hs : s ≠ "") (r : List Char) :
    readToken (escapedText s ++ '<' :: r) = some (.text s, '<' :: r) := by
  cases h : escapedText s with
  | nil => exact absurd h (escapedText_ne_nil hs)
  | cons c cs =>
    have hc : c ≠ '<' := (mem_escapedText (h ▸ List.mem_cons_self)).1
    have ht : readToken (c :: (cs ++ '<' :: r)) = readText (c :: (cs ++ '<' :: r)) := by
      simp [readToken, hc]
    rw [List.cons_append, ht, ← List.cons_append, ← h, readText_escapedText]

theorem readValue_escapedValue (s : String) (r : List Char) :
    readValue ('"' :: (escapedValue s ++ '"' :: r)) = some (s, r) := by
  have hquote : ∀ c ∈ escapedValue s, (c != '"') = true := fun c hc => by
    simpa using (mem_escapedValue hc).2.1
  have hlt : '<' ∉ escapedValue s := fun h => (mem_escapedValue h).1 rfl
  have hspaces : ∀ c ∈ escapedValue s, (if isXmlSpace c then ' ' else c) = id c := by
    intro c hc
    split
    · rename_i hsp
      exact ((mem_escapedValue hc).2.2.1 hsp).symm
    · rfl
  simp [readValue, List.takeWhile_append_of_pos hquote, List.dropWhile_append_of_pos hquote, hlt,
    List.map_congr_left hspaces, decode_escapedValue]

/-! Tags. -/

/-- An attribute as its tag spells it. -/
def writtenPair (a : QName × String) : List Char :=
  ' ' :: (a.1.text ++ '=' :: '"' :: (escapedValue a.2 ++ ['"']))

theorem QName.Qualified.text_head {q : QName} (hq : q.Qualified) :
    ∃ c r, q.text = c :: r ∧ isNameStart c = true := by
  obtain ⟨c, r, hcr, hc, _⟩ := isNameStart_head hq.qualifier
  exact ⟨c, r ++ ':' :: q.base.toList, by simp [QName.text, hcr], hc⟩

theorem skipSpace_text {q : QName} (hq : q.Qualified) (r : List Char) :
    skipSpace (q.text ++ r) = q.text ++ r := by
  obtain ⟨c, t, ht, hc⟩ := hq.text_head
  simp [skipSpace, ht, (isNameStart_not_markup hc).1]

theorem readTagEnd_text {q : QName} (hq : q.Qualified) (r : List Char) :
    readTagEnd (q.text ++ r) = none := by
  obtain ⟨c, t, ht, hc⟩ := hq.text_head
  obtain ⟨_, hgt, hslash, _⟩ := isNameStart_not_markup hc
  rw [ht, List.cons_append]
  unfold readTagEnd
  split <;> simp_all

theorem readAttribute_text {q : QName} (hq : q.Qualified) (v : String) (r : List Char) :
    readAttribute (q.text ++ '=' :: '"' :: (escapedValue v ++ '"' :: r)) = some ((q, v), r) := by
  have hname : EndsName ('=' :: '"' :: (escapedValue v ++ '"' :: r)) :=
    endsName_cons (by decide) (by decide)
  have hequals : isXmlSpace '=' = false := by decide
  have hquote : isXmlSpace '"' = false := by decide
  simp [readAttribute, readQName_text hq hname, skipSpace, hequals, hquote,
    readValue_escapedValue]

theorem readAttributes_pairs (as : List (QName × String)) (hq : ∀ a ∈ as, a.1.Qualified)
    (r : List Char) (fuel : Nat) (hf : as.length < fuel) :
    readAttributes fuel (as.flatMap writtenPair ++ '>' :: r) = some (as, false, r) := by
  induction as generalizing fuel with
  | nil =>
    cases fuel with
    | zero => simp at hf
    | succ fuel =>
      have hgt : isXmlSpace '>' = false := by decide
      simp [readAttributes, skipSpace, hgt, readTagEnd]
  | cons a as ih =>
    cases fuel with
    | zero => simp at hf
    | succ fuel =>
      have ha := hq a List.mem_cons_self
      have hrest := ih (fun b hb => hq b (List.mem_cons_of_mem a hb)) fuel
        (by simpa using hf)
      have hspace : isXmlSpace ' ' = true := by decide
      have hskip (t : List Char) : skipSpace (' ' :: (a.1.text ++ t)) = a.1.text ++ t := by
        rw [skipSpace, List.dropWhile_cons_of_pos hspace]
        exact skipSpace_text ha t
      simp [readAttributes, writtenPair, hskip, readTagEnd_text ha, hspace,
        readAttribute_text ha, hrest]

theorem length_le_pairs (as : List (QName × String)) :
    as.length ≤ (as.flatMap writtenPair).length := by
  induction as with
  | nil => simp
  | cons a as ih =>
    simp only [List.flatMap_cons, List.length_append, List.length_cons, writtenPair]
    omega

theorem endsName_pairs (as : List (QName × String)) (r : List Char) :
    EndsName (as.flatMap writtenPair ++ '>' :: r) := by
  cases as with
  | nil => exact endsName_cons (by decide) (by decide)
  | cons a as => exact endsName_cons (by decide) (by decide)

theorem readToken_opening {q : QName} (hq : q.Qualified) (as : List (QName × String))
    (has : ∀ a ∈ as, a.1.Qualified) (r : List Char) :
    readToken ('<' :: (q.text ++ (as.flatMap writtenPair ++ '>' :: r))) =
      some (.opening q as false, r) := by
  have hopen : readToken ('<' :: (q.text ++ (as.flatMap writtenPair ++ '>' :: r))) =
      readOpening (q.text ++ (as.flatMap writtenPair ++ '>' :: r)) := by
    obtain ⟨c, t, ht, hc⟩ := hq.text_head
    obtain ⟨_, _, hslash, hbang, hquestion⟩ := isNameStart_not_markup hc
    rw [ht, List.cons_append]
    unfold readToken
    split <;> simp_all
  have hfuel : as.length < (as.flatMap writtenPair ++ '>' :: r).length + 1 := by
    have hlen := length_le_pairs as
    simp only [List.length_append]
    omega
  rw [hopen, readOpening, readQName_text hq (endsName_pairs as r)]
  simp only [readAttributes_pairs as has r _ hfuel, Option.map_some]

theorem readToken_closing {q : QName} (hq : q.Qualified) (r : List Char) :
    readToken ('<' :: '/' :: (q.text ++ '>' :: r)) = some (.closing q, r) := by
  have hname : EndsName ('>' :: r) := endsName_cons (by decide) (by decide)
  have hgt : isXmlSpace '>' = false := by decide
  simp [readToken, readClosing, readQName_text hq hname, skipSpace, hgt]

end MarkdownDocx.Xml

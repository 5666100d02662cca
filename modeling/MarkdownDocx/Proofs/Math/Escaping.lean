import MarkdownDocx.Math.Repair
import MarkdownDocx.Proofs.Xml.Written

/-!
The escaped content of text elements. References are described by their form, and escaping leaves
every one of them alone; the characters of markup that stand outside of them are replaced by
references, from which they can be told again.
-/

set_option autoImplicit false

namespace MarkdownDocx.Math

open MarkdownDocx.Text

/-! Words with a first character of their own. -/

/-- A word that has its first character at no other place. -/
def Headed (m : Char) (word : List Char) : Prop := ∃ tail, word = m :: tail ∧ m ∉ tail

theorem Headed.ne_nil {m : Char} {word : List Char} (h : Headed m word) : word ≠ [] := by
  obtain ⟨tail, rfl, _⟩ := h
  simp

theorem Headed.head? {m : Char} {word : List Char} (h : Headed m word) (r : List Char) :
    ∀ c ∈ (word ++ r).head?, c = m := by
  obtain ⟨tail, rfl, _⟩ := h
  simp [eq_comm]

/-- Such a word ends where its first character comes again: it does not reach past a text into what
follows. -/
theorem Headed.within {m : Char} {word rest u r : List Char} (h : Headed m word) (hu : u ≠ [])
    (hr : ∀ c ∈ r.head?, c = m) (he : word ++ rest = u ++ r) : ∃ z, u = word ++ z := by
  obtain ⟨tail, rfl, hm⟩ := h
  rcases List.append_eq_append_iff.1 he with ⟨z, hz, _⟩ | ⟨z, hz, hrest⟩
  · exact ⟨z, hz⟩
  · cases z with
    | nil => exact ⟨[], by simpa using hz.symm⟩
    | cons d z =>
      obtain rfl : d = m := hr d (by simp [hrest])
      cases u with
      | nil => exact absurd rfl hu
      | cons x u =>
        simp only [List.cons_append, List.cons.injEq] at hz
        exact absurd (hz.2 ▸ List.mem_append_right u List.mem_cons_self) hm

/-- The first character of such a word is found again only behind the word. -/
theorem Headed.suffix {m : Char} {word r rest : List Char} (h : Headed m word)
    (hr : m :: r <:+ word ++ rest) : m :: r = word ++ rest ∨ m :: r <:+ rest := by
  obtain ⟨tail, rfl, hm⟩ := h
  rcases List.suffix_cons_iff.1 hr with he | hr
  · exact .inl he
  · right
    induction tail with
    | nil => exact hr
    | cons d tail ih =>
      simp only [List.mem_cons, not_or] at hm
      rcases List.suffix_cons_iff.1 hr with he | hr
      · exact absurd (List.cons.inj he).1 hm.1
      · exact ih hm.2 (hr.trans (List.suffix_cons m _)) hr

/-- No word of this kind stands anywhere in a text. -/
def Lacks (P : List Char → Prop) (cs : List Char) : Prop := ∀ word, P word → ¬word <:+: cs

theorem Lacks.of_suffix {P : List Char → Prop} {s cs : List Char} (h : Lacks P cs)
    (hs : s <:+ cs) : Lacks P s := fun word hword hin => h word hword (hin.trans hs.isInfix)

theorem Lacks.tail {P : List Char → Prop} {c : Char} {cs : List Char} (h : Lacks P (c :: cs)) :
    Lacks P cs := h.of_suffix (List.suffix_cons c cs)

/-- Nor does one begin there and end in what follows, if that begins as such words do. -/
theorem Lacks.not_begins {P : List Char → Prop} {m : Char} (hP : ∀ word, P word → Headed m word)
    {cs r : List Char} (h : Lacks P cs) (hcs : cs ≠ []) (hr : ∀ c ∈ r.head?, c = m)
    {word rest : List Char} (hword : P word) : cs ++ r ≠ word ++ rest := by
  intro he
  obtain ⟨z, hz⟩ := (hP word hword).within hcs hr he.symm
  exact h word hword ⟨[], z, by simpa using hz.symm⟩

/-! References. -/

/-- A reference to a character by its number, or to an entity by its name. -/
inductive IsReference : List Char → Prop
  | decimal {digits : List Char} (h : digits ≠ []) (hd : ∀ c ∈ digits, isDigit c = true) :
      IsReference ('&' :: '#' :: (digits ++ [';']))
  | hexadecimal {digits : List Char} (h : digits ≠ []) (hd : ∀ c ∈ digits, isHexDigit c = true) :
      IsReference ('&' :: '#' :: 'x' :: (digits ++ [';']))
  | named {first : Char} {name : List Char} (h : isAsciiLetter first = true)
      (hd : ∀ c ∈ name, (isAsciiLetter c || isAsciiDigit c) = true) :
      IsReference ('&' :: first :: (name ++ [';']))

/-- The characters that markup is made of. -/
def isMarkup (c : Char) : Bool := c == '<' || c == '>' || c == '&'

theorem notMarkup_of_class {p : Char → Bool} (hlt : p '<' = false) (hgt : p '>' = false)
    (hamp : p '&' = false) {c : Char} (h : p c = true) : isMarkup c = false := by
  have hne : ∀ d, p d = false → c ≠ d := by
    rintro d hd rfl
    exact absurd h (by simp [hd])
  simp [isMarkup, hne '<' hlt, hne '>' hgt, hne '&' hamp]

/-- Behind its ampersand, a reference has no markup. -/
theorem IsReference.tail {ref : List Char} (h : IsReference ref) :
    ∃ tail, ref = '&' :: tail ∧ ∀ c ∈ tail, isMarkup c = false := by
  have hends : ∀ {p : Char → Bool} {cs : List Char}, p '<' = false → p '>' = false →
      p '&' = false → (∀ c ∈ cs, p c = true) → ∀ c ∈ cs ++ [';'], isMarkup c = false := by
    intro p cs hlt hgt hamp hcs c hc
    rcases List.mem_append.1 hc with hc | hc
    · exact notMarkup_of_class hlt hgt hamp (hcs c hc)
    · rw [List.mem_singleton.1 hc]
      decide
  cases h with
  | decimal _ hd =>
    refine ⟨_, rfl, List.forall_mem_cons.2 ⟨by decide, ?_⟩⟩
    exact hends (by decide) (by decide) (by decide) hd
  | hexadecimal _ hd =>
    refine ⟨_, rfl, List.forall_mem_cons.2 ⟨by decide, List.forall_mem_cons.2 ⟨by decide, ?_⟩⟩⟩
    exact hends (by decide) (by decide) (by decide) hd
  | named h hd =>
    refine ⟨_, rfl, List.forall_mem_cons.2 ⟨?_, ?_⟩⟩
    · exact notMarkup_of_class (by decide) (by decide) (by decide) h
    · exact hends (by decide) (by decide) (by decide) hd

theorem IsReference.headed {ref : List Char} (h : IsReference ref) : Headed '&' ref := by
  obtain ⟨tail, rfl, htail⟩ := h.tail
  exact ⟨tail, rfl, fun hm => absurd (htail '&' hm) (by decide)⟩

theorem head?_dropWhile {p : Char → Bool} {m : Char} (hm : p m = false) {cs : List Char} :
    (cs.dropWhile p).head? = some m ↔ ∃ ds b, (∀ c ∈ ds, p c = true) ∧ cs = ds ++ m :: b := by
  constructor
  · intro h
    obtain ⟨b, hb⟩ := List.head?_eq_some_iff.1 h
    refine ⟨cs.takeWhile p, b, fun c hc => List.all_eq_true.1 List.all_takeWhile c hc, ?_⟩
    rw [← hb, List.takeWhile_append_dropWhile]
  · rintro ⟨ds, b, hds, rfl⟩
    simp [List.dropWhile_append_of_pos hds, hm]

theorem beginsEntry_iff {p : Char → Bool} (hp : p ';' = false) {cs : List Char} :
    beginsEntry p cs = true ↔
      ∃ ds b, ds ≠ [] ∧ (∀ c ∈ ds, p c = true) ∧ cs = ds ++ ';' :: b := by
  simp only [beginsEntry, Bool.and_eq_true, beq_iff_eq, head?_dropWhile hp]
  constructor
  · rintro ⟨hany, ds, b, hds, rfl⟩
    refine ⟨ds, b, ?_, hds, rfl⟩
    rintro rfl
    simp [hp] at hany
  · rintro ⟨ds, b, hne, hds, rfl⟩
    refine ⟨?_, ds, b, hds, rfl⟩
    cases ds with
    | nil => exact absurd rfl hne
    | cons d ds => simp [hds d]

theorem beginsReference_iff {cs : List Char} :
    beginsReference cs = true ↔ ∃ ref b, IsReference ref ∧ '&' :: cs = ref ++ b := by
  constructor
  · intro h
    unfold beginsReference at h
    split at h
    · obtain ⟨ds, b, hne, hds, rfl⟩ := (beginsEntry_iff (by decide)).1 h
      exact ⟨_, b, .hexadecimal hne hds, by simp⟩
    · obtain ⟨ds, b, hne, hds, rfl⟩ := (beginsEntry_iff (by decide)).1 h
      exact ⟨_, b, .decimal hne hds, by simp⟩
    · simp only [Bool.and_eq_true, beq_iff_eq] at h
      obtain ⟨ds, b, hds, rfl⟩ := (head?_dropWhile (by decide)).1 h.2
      exact ⟨_, b, .named h.1 hds, by simp⟩
    · simp at h
  · rintro ⟨ref, b, href, he⟩
    cases href with
    | @decimal digits hne hd =>
      obtain rfl : cs = '#' :: (digits ++ ';' :: b) := by simpa using he
      cases digits with
      | nil => exact absurd rfl hne
      | cons d ds =>
        have hx : d ≠ 'x' := by
          rintro rfl
          exact absurd (hd 'x' List.mem_cons_self) (by decide)
        have hentry := (beginsEntry_iff (by decide)).2 ⟨d :: ds, b, hne, hd, rfl⟩
        simpa [beginsReference, hx] using hentry
    | @hexadecimal digits hne hd =>
      obtain rfl : cs = '#' :: 'x' :: (digits ++ ';' :: b) := by simpa using he
      exact (beginsEntry_iff (by decide)).2 ⟨digits, b, hne, hd, rfl⟩
    | @named first name h hd =>
      obtain rfl : cs = first :: (name ++ ';' :: b) := by simpa using he
      have hsharp : first ≠ '#' := by
        rintro rfl
        exact absurd h (by decide)
      have hsemicolon : (fun d => isAsciiLetter d || isAsciiDigit d) ';' = false := by decide
      have hend := (head?_dropWhile hsemicolon).2 ⟨name, b, hd, rfl⟩
      simp [beginsReference, hsharp, h, hend]

/-! Escaping. -/

@[simp] theorem escapeContent_nil : escapeContent [] = [] := rfl

theorem escapeContent_plain {c : Char} (h : isMarkup c = false) (r : List Char) :
    escapeContent (c :: r) = c :: escapeContent r := by
  simp only [isMarkup, Bool.or_eq_false_iff, beq_eq_false_iff_ne] at h
  simp [escapeContent, h.1.1, h.1.2, h.2]

theorem escapeContent_append_plain {cs : List Char} (h : ∀ c ∈ cs, isMarkup c = false)
    (r : List Char) : escapeContent (cs ++ r) = cs ++ escapeContent r := by
  induction cs with
  | nil => rfl
  | cons c cs ih =>
    rw [List.cons_append, escapeContent_plain (h c List.mem_cons_self),
      ih fun d hd => h d (List.mem_cons_of_mem c hd), List.cons_append]

theorem escapeContent_reference {ref : List Char} (h : IsReference ref) (r : List Char) :
    escapeContent (ref ++ r) = ref ++ escapeContent r := by
  obtain ⟨tail, rfl, htail⟩ := h.tail
  have hbegins : beginsReference (tail ++ r) = true := beginsReference_iff.2 ⟨_, r, h, rfl⟩
  simp [escapeContent, hbegins, escapeContent_append_plain htail]

/-- Whether a reference begins does not depend on what follows from a further ampersand on. -/
theorem beginsReference_append (a r : List Char) :
    beginsReference (a ++ '&' :: r) = beginsReference a := by
  rw [Bool.eq_iff_iff, beginsReference_iff, beginsReference_iff]
  constructor
  · rintro ⟨ref, b, href, he⟩
    obtain ⟨z, hz⟩ := href.headed.within (u := '&' :: a) (r := '&' :: r) (by simp) (by simp) he.symm
    exact ⟨ref, z, href, hz⟩
  · rintro ⟨ref, b, href, he⟩
    refine ⟨ref, b ++ '&' :: r, href, ?_⟩
    rw [← List.cons_append, he, List.append_assoc]

theorem escapeContent_append (a r : List Char) :
    escapeContent (a ++ '&' :: r) = escapeContent a ++ escapeContent ('&' :: r) := by
  induction a with
  | nil => rfl
  | cons c a ih =>
    rw [List.cons_append, escapeContent, escapeContent, beginsReference_append, ih]
    repeat' split
    all_goals simp

/-- The references of a content stay where they are, and what stands between them is escaped by
itself. -/
theorem escapeContent_around {ref : List Char} (h : IsReference ref) (a b : List Char) :
    escapeContent (a ++ ref ++ b) = escapeContent a ++ ref ++ escapeContent b := by
  have href := escapeContent_reference h b
  obtain ⟨tail, rfl, _⟩ := h.tail
  rw [List.cons_append] at href
  rw [List.append_assoc, List.cons_append, escapeContent_append, href, List.append_assoc,
    List.cons_append]

theorem not_mem_escapeContent (cs : List Char) :
    '<' ∉ escapeContent cs ∧ '>' ∉ escapeContent cs := by
  induction cs with
  | nil => simp
  | cons c cs ih =>
    rw [escapeContent]
    split
    · simpa using ih
    split
    · simpa using ih
    rename_i hlt hgt
    split
    · simpa using ih
    · simpa [Ne.symm hlt, Ne.symm hgt] using ih

/-! How each character is spelled. -/

/-- A character of a content, as itself or as the reference that escaping puts in its place. -/
inductive Spelling where
  | itself (c : Char)
  | amp
  | lt
  | gt
  deriving DecidableEq, Repr

def Spelling.char : Spelling → Char
  | .itself c => c
  | .amp => '&'
  | .lt => '<'
  | .gt => '>'

def Spelling.text : Spelling → List Char
  | .itself c => [c]
  | .amp => ['&', 'a', 'm', 'p', ';']
  | .lt => ['&', 'l', 't', ';']
  | .gt => ['&', 'g', 't', ';']

/-- What a reference puts in is what a reader of references gets out. -/
theorem Spelling.decode_text (s : Spelling) :
    s = .itself s.char ∨ IsReference s.text ∧ Xml.decode s.text = some [s.char] := by
  cases s with
  | itself c => exact .inl rfl
  | amp =>
    have href : IsReference ('&' :: 'a' :: (['m', 'p'] ++ [';'])) :=
      .named (by decide) (List.all_eq_true.1 (by decide))
    exact .inr ⟨href, by decide⟩
  | lt =>
    have href : IsReference ('&' :: 'l' :: (['t'] ++ [';'])) :=
      .named (by decide) (List.all_eq_true.1 (by decide))
    exact .inr ⟨href, by decide⟩
  | gt =>
    have href : IsReference ('&' :: 'g' :: (['t'] ++ [';'])) :=
      .named (by decide) (List.all_eq_true.1 (by decide))
    exact .inr ⟨href, by decide⟩

/-- How a character is spelled in front of the rest of a content. -/
def spelling (c : Char) (r : List Char) : Spelling :=
  if c = '<' then .lt
  else if c = '>' then .gt
  else if c = '&' && !beginsReference r then .amp
  else .itself c

theorem spelling_char (c : Char) (r : List Char) : (spelling c r).char = c := by
  unfold spelling
  repeat' split
  all_goals simp_all [Spelling.char]

theorem escapeContent_cons (c : Char) (r : List Char) :
    escapeContent (c :: r) = (spelling c r).text ++ escapeContent r := by
  rw [escapeContent, spelling]
  repeat' split
  all_goals simp [Spelling.text]

theorem escapeContent_spellings (cs : List Char) :
    ∃ ss : List Spelling,
      ss.map Spelling.char = cs ∧ ss.flatMap Spelling.text = escapeContent cs := by
  induction cs with
  | nil => exact ⟨[], rfl, rfl⟩
  | cons c cs ih =>
    obtain ⟨ss, hchars, htext⟩ := ih
    refine ⟨spelling c cs :: ss, ?_, ?_⟩
    · rw [List.map_cons, spelling_char, hchars]
    · rw [List.flatMap_cons, htext, escapeContent_cons]

/-- Every ampersand that is left begins a reference, be it an old one or a new one. -/
theorem reference_of_ampersand {cs r : List Char} (h : '&' :: r <:+ escapeContent cs) :
    ∃ ref b, IsReference ref ∧ '&' :: r = ref ++ b := by
  induction cs with
  | nil => simp at h
  | cons c cs ih =>
    have hcons := escapeContent_cons c cs
    rw [hcons] at h
    rcases (spelling c cs).decode_text with hitself | ⟨href, _⟩
    · rw [hitself, spelling_char] at h hcons
      rcases List.suffix_cons_iff.1 h with he | h
      · -- an ampersand that is kept: what begins a reference before does so after
        obtain ⟨rfl, rfl⟩ := List.cons.inj he
        have hbegins : beginsReference cs = true := by
          cases hb : beginsReference cs with
          | true => rfl
          | false => simp [spelling, hb] at hitself
        obtain ⟨ref, b, href, hb⟩ := beginsReference_iff.1 hbegins
        refine ⟨ref, escapeContent b, href, ?_⟩
        rw [← escapeContent_reference href, ← hb, hcons]
        rfl
      · exact ih h
    · rcases href.headed.suffix h with he | h
      · exact ⟨_, _, href, he⟩
      · exact ih h

/-- A content is lost nothing of by escaping: its markup characters alone are replaced, those of its
references excepted, and the references put in for them tell which they were. -/
structure Restorable (content : List Char) : Prop where
  noBrackets : '<' ∉ escapeContent content ∧ '>' ∉ escapeContent content
  ampersands : ∀ r, '&' :: r <:+ escapeContent content →
    ∃ ref b, IsReference ref ∧ '&' :: r = ref ++ b
  spelled : ∃ ss : List Spelling,
    ss.map Spelling.char = content ∧ ss.flatMap Spelling.text = escapeContent content ∧
      ∀ s ∈ ss, s = .itself s.char ∨ IsReference s.text ∧ Xml.decode s.text = some [s.char]
  references : ∀ a ref b, IsReference ref → content = a ++ ref ++ b →
    escapeContent content = escapeContent a ++ ref ++ escapeContent b

theorem restorable (content : List Char) : Restorable content where
  noBrackets := not_mem_escapeContent content
  ampersands := fun _ h => reference_of_ampersand h
  spelled := by
    obtain ⟨ss, hchars, htext⟩ := escapeContent_spellings content
    exact ⟨ss, hchars, htext, fun s _ => s.decode_text⟩
  references := by
    rintro a ref b h rfl
    exact escapeContent_around h a b

/-! Contents without references. -/

theorem Lacks.beginsReference {cs : List Char} (h : Lacks IsReference ('&' :: cs)) :
    beginsReference cs = false := by
  cases hb : Math.beginsReference cs with
  | false => rfl
  | true =>
    obtain ⟨ref, b, href, he⟩ := beginsReference_iff.1 hb
    exact absurd (he ▸ List.prefix_append ref b).isInfix (h ref href)

theorem lacks_reference {cs : List Char} (h : '&' ∉ cs) : Lacks IsReference cs := by
  intro ref href hin
  obtain ⟨tail, rfl, _⟩ := href.tail
  exact h (hin.subset List.mem_cons_self)

/-- Where there are no references, escaping writes a text as XML is to be written. -/
theorem escapeContent_eq_flatMap {cs : List Char} (h : Lacks IsReference cs) (hcr : '\r' ∉ cs) :
    escapeContent cs = cs.flatMap Xml.escapedTextChar := by
  induction cs with
  | nil => rfl
  | cons c cs ih =>
    simp only [List.mem_cons, not_or] at hcr
    rw [List.flatMap_cons, ← ih h.tail hcr.2, escapeContent_cons]
    congr 1
    by_cases hamp : c = '&'
    · subst hamp
      simp [spelling, h.beginsReference, Spelling.text, Xml.escapedTextChar]
    · unfold spelling Xml.escapedTextChar
      repeat' split
      all_goals simp_all [Spelling.text]

end MarkdownDocx.Math

import MarkdownDocx.Proofs.Latex.Accepted

/-!
How the environments of an accepted formula are matched. The check counts names wherever a mark
stands, so it counts the environments that the tokens begin and end and, as well, the letters after a
double backslash that look like one. Of the environments of an accepted formula it is certain that they
begin as often as they end, if nothing looks like one: where each end closes the environment that was
begun last, none is left open. Whether the ends come in that order is not checked.
-/

set_option autoImplicit false

namespace MarkdownDocx.Latex

open MarkdownDocx.Text

/-! ## Environments of a reading -/

/-- The characters that a token takes. -/
def Token.text : Token → List Char
  | .command name => '\\' :: name
  | .symbol c => ['\\', c]
  | .char c => [c]
  | .danglingBackslash => ['\\']

/-- The letters that begin or end an environment, as a control word. -/
def keyword (begins : Bool) : List Char :=
  if begins then ['b', 'e', 'g', 'i', 'n'] else ['e', 'n', 'd']

/-- The mark that a control word is if a name in braces follows it. -/
def Token.mark? : Token → List Char → Option Mark
  | .command name, rest =>
    if name = keyword true then (readBraced rest).map fun p => ⟨true, p.1⟩
    else if name = keyword false then (readBraced rest).map fun p => ⟨false, p.1⟩
    else none
  | _, _ => none

/-- What looks like a mark from the second character of a control symbol on, which is a backslash
then. -/
def Token.lookAlike? : Token → List Char → Option Mark
  | .symbol c, rest => (readMark (c :: rest)).map Prod.fst
  | _, _ => none

/-- The marks that are seen at some tokens, each with the text after it. -/
def marksBy (see : Token → List Char → Option Mark) : List Token → List Mark
  | [] => []
  | t :: rest => (see t (rest.flatMap Token.text)).toList ++ marksBy see rest

/-- Where environments begin and end, read token by token. -/
def environments (ts : List Token) : List Mark := marksBy Token.mark? ts

/-- What the check takes for a beginning or an end though no control word stands there. -/
def lookAlikes (ts : List Token) : List Mark := marksBy Token.lookAlike? ts

theorem Reading.text {cs : List Char} {ts : List Token} (h : Reading cs ts) :
    ts.flatMap Token.text = cs := by
  induction h with
  | nil => rfl
  | dangling => rfl
  | command _ _ _ _ ih => simp [Token.text, ih]
  | symbol _ _ ih => simp [Token.text, ih]
  | char _ _ ih => simp [Token.text, ih]

/-! ## Where marks stand -/

theorem Mark.word_eq (m : Mark) : m.word = '\\' :: keyword m.begins := by
  unfold Mark.word keyword
  split <;> rfl

theorem keyword_letters (begins : Bool) : ∀ c ∈ keyword begins, isAsciiLetter c = true := by
  have hall : (keyword begins).all isAsciiLetter = true := by cases begins <;> rfl
  exact List.all_eq_true.1 hall

theorem not_blank_of_letter {c : Char} (h : isAsciiLetter c = true) : isBlank c = false := by
  have hcode : 65 ≤ c.toNat ∧ c.toNat ≤ 90 ∨ 97 ≤ c.toNat ∧ c.toNat ≤ 122 := by
    rcases Bool.or_eq_true_iff.1 h with hupper | hlower
    · exact .inl (of_decide_eq_true hupper)
    · obtain ⟨hlow, hhigh⟩ := Bool.and_eq_true_iff.1 hlower
      exact .inr ⟨of_decide_eq_true hlow, of_decide_eq_true hhigh⟩
  rw [Bool.eq_false_iff]
  intro hblank
  simp only [isBlank, Bool.or_eq_true, Bool.and_eq_true, decide_eq_true_eq, beq_iff_eq] at hblank
  omega

theorem Braced.head {name cs rest : List Char} (h : Braced name cs rest) :
    ∀ c ∈ cs.head?, isAsciiLetter c = false := by
  obtain ⟨blanks, hblanks, -, rfl⟩ := h
  intro c hc
  rw [Bool.eq_false_iff]
  intro hletter
  cases blanks with
  | nil =>
    obtain rfl : '\x7b' = c := by simpa using hc
    exact absurd hletter (by decide)
  | cons b blanks =>
    obtain rfl : b = c := by simpa using hc
    have hblank := hblanks b (by simp)
    simp [not_blank_of_letter hletter] at hblank

/-- There is one way to cut a text after the letters that it begins with. -/
theorem letters_inj {a b x y : List Char} (ha : ∀ c ∈ a, isAsciiLetter c = true)
    (hb : ∀ c ∈ b, isAsciiLetter c = true) (hx : ∀ c ∈ x.head?, isAsciiLetter c = false)
    (hy : ∀ c ∈ y.head?, isAsciiLetter c = false) (h : a ++ x = b ++ y) : a = b ∧ x = y := by
  have hcut {a x : List Char} (ha : ∀ c ∈ a, isAsciiLetter c = true)
      (hx : ∀ c ∈ x.head?, isAsciiLetter c = false) : (a ++ x).takeWhile isAsciiLetter = a := by
    rw [List.takeWhile_append_of_pos ha]
    cases x with
    | nil => simp
    | cons c x => simp [hx c (by simp)]
  have hab : a = b := by rw [← hcut ha hx, h, hcut hb hy]
  subst hab
  exact ⟨rfl, List.append_cancel_left h⟩

theorem mark?_command_iff {name rest : List Char} {m : Mark} :
    (Token.command name).mark? rest = some m ↔
      name = keyword m.begins ∧ ∃ after, Braced m.name rest after := by
  obtain ⟨begins, n⟩ := m
  simp only [← readBraced_iff]
  have hdistinct : keyword false ≠ keyword true := by decide
  rw [Token.mark?]
  by_cases hbegin : name = keyword true
  · subst hbegin
    cases begins <;> simp [hdistinct.symm]
  by_cases hend : name = keyword false
  · subst hend
    cases begins <;> simp [hdistinct]
  cases begins <;> simp [hbegin, hend]

/-- A control word is a mark just where one stands in the text. -/
theorem mark?_command {m : Mark} {name rest : List Char}
    (hletters : ∀ c ∈ name, isAsciiLetter c = true)
    (hrest : ∀ c ∈ rest.head?, isAsciiLetter c = false) :
    (Token.command name).mark? rest = some m ↔ m.Heads ('\\' :: (name ++ rest)) := by
  rw [mark?_command_iff, Mark.Heads]
  constructor
  · rintro ⟨rfl, after, hbraced⟩
    exact ⟨rest, after, by rw [Mark.word_eq, List.cons_append], hbraced⟩
  · rintro ⟨r, after, heq, hbraced⟩
    rw [Mark.word_eq, List.cons_append] at heq
    obtain ⟨rfl, rfl⟩ := letters_inj hletters (keyword_letters m.begins) hrest hbraced.head
      (List.cons.inj heq).2
    exact ⟨rfl, after, hbraced⟩

/-- A control symbol is no mark. -/
theorem Mark.not_heads_symbol (m : Mark) {c : Char} (hc : isAsciiLetter c = false)
    (rest : List Char) : ¬ m.Heads ('\\' :: c :: rest) := by
  rintro ⟨r, after, heq, -⟩
  rw [m.word_eq, List.cons_append] at heq
  have hrest := (List.cons.inj heq).2
  cases hkeyword : keyword m.begins with
  | nil => cases hbegins : m.begins <;> simp [hbegins, keyword] at hkeyword
  | cons d letters =>
    have hd := keyword_letters m.begins d (by simp [hkeyword])
    rw [hkeyword, List.cons_append] at hrest
    obtain ⟨rfl, -⟩ := List.cons.inj hrest
    simp [hc] at hd

theorem count_marksBy (see : Token → List Char → Option Mark) (m : Mark) (t : Token)
    (rest : List Token) : (marksBy see (t :: rest)).count m =
      (if see t (rest.flatMap Token.text) = some m then 1 else 0) + (marksBy see rest).count m := by
  rw [marksBy, List.count_append]
  cases see t (rest.flatMap Token.text) <;> simp [List.count_cons]

/-- A mark stands where the tokens begin or end an environment, and where something looks like it. -/
theorem count_environments {cs : List Char} {ts : List Token} (h : Reading cs ts) (m : Mark) :
    (environments ts).count m + (lookAlikes ts).count m = occurrences m cs := by
  unfold environments lookAlikes
  induction h with
  | nil => exact (occurrences_nil m).symm
  | dangling =>
    have hnone : ¬ m.Heads ['\\'] := by
      rintro ⟨r, after, heq, -⟩
      rw [m.word_eq] at heq
      cases hbegins : m.begins <;> simp [hbegins, keyword] at heq
    rw [occurrences_skip hnone, occurrences_nil]
    rfl
  | @command name rest ts _ hletters hrest hread ih =>
    have hplain : ∀ c ∈ name, c ≠ '\\' := by
      rintro c hc rfl
      exact absurd (hletters _ hc) (by decide)
    rw [count_marksBy, count_marksBy, hread.text, occurrences_cons, occurrences_plain m hplain, ← ih]
    simp only [mark?_command hletters hrest, Token.lookAlike?, reduceCtorEq, if_false]
    omega
  | @symbol c rest ts hc hread ih =>
    rw [count_marksBy, count_marksBy, hread.text, occurrences_skip (m.not_heads_symbol hc rest),
      occurrences_cons, ← ih]
    simp only [Token.mark?, Token.lookAlike?, ← Mark.heads_iff, reduceCtorEq, if_false]
    omega
  | @char c rest ts hc hread ih =>
    rw [count_marksBy, count_marksBy, occurrences_skip (m.not_heads_cons hc rest), ← ih]
    simp only [Token.mark?, Token.lookAlike?, reduceCtorEq, if_false]
    omega

/-! ## Environments in one another -/

/-- The environments that are open after some marks, the last one first. An end that does not close
the last one is not allowed. -/
def stillOpen (opened : List (List Char)) : List Mark → Option (List (List Char))
  | [] => some opened
  | ⟨true, name⟩ :: rest => stillOpen (name :: opened) rest
  | ⟨false, name⟩ :: rest =>
    match opened with
    | [] => none
    | last :: outer => if last = name then stillOpen outer rest else none

/-- Each end closes the environment that was begun last and is still open. -/
def InOrder (ms : List Mark) : Prop := ∃ names, stillOpen [] ms = some names

/-- Each end closes the environment that was begun last, and none is left open. -/
def Nested (ms : List Mark) : Prop := stillOpen [] ms = some []

instance (ms : List Mark) : Decidable (Nested ms) := inferInstanceAs (Decidable (_ = _))

/-- What has been begun has been ended or is still open. -/
theorem count_stillOpen {opened names : List (List Char)} {ms : List Mark}
    (h : stillOpen opened ms = some names) (name : List Char) :
    opened.count name + ms.count ⟨true, name⟩ = names.count name + ms.count ⟨false, name⟩ := by
  fun_induction stillOpen opened ms with
  | case1 opened =>
    obtain rfl := Option.some.inj h
    simp
  | case2 opened begun rest ih =>
    have hrest := ih h
    by_cases hname : begun = name
    · simp [hname] at hrest ⊢
      omega
    · simpa [List.count_cons, hname] using hrest
  | case3 => cases h
  | case4 rest last outer ih =>
    have hrest := ih h
    by_cases hname : last = name
    · simp [hname] at hrest ⊢
      omega
    · simpa [List.count_cons, hname] using hrest
  | case5 => cases h

/-- Marks in order are nested just where each name is begun as often as it is ended. -/
theorem nested_iff {ms : List Mark} : Nested ms ↔
    InOrder ms ∧ ∀ name, ms.count ⟨true, name⟩ = ms.count ⟨false, name⟩ := by
  constructor
  · intro h
    exact ⟨⟨[], h⟩, fun name => by simpa using count_stillOpen h name⟩
  · rintro ⟨⟨names, h⟩, hbalanced⟩
    have hnone : names = [] := by
      refine List.eq_nil_iff_forall_not_mem.2 fun name hname => ?_
      have hpos := List.count_pos_iff.2 hname
      have hcount := count_stillOpen h name
      rw [List.count_nil, hbalanced name] at hcount
      omega
    rwa [hnone] at h

/-! ## The check -/

/-- Only a double backslash makes something look like a mark. -/
theorem lookAlike?_eq_none {t : Token} (h : t ≠ .symbol '\\') (rest : List Char) :
    t.lookAlike? rest = none := by
  cases t with
  | symbol c =>
    have hc : c ≠ '\\' := fun heq => h (by rw [heq])
    refine Option.eq_none_iff_forall_ne_some.2 fun m hm => ?_
    exact m.not_heads_cons hc rest (Mark.heads_iff.2 hm)
  | _ => rfl

theorem lookAlikes_eq_nil {ts : List Token} (h : Token.symbol '\\' ∉ ts) : lookAlikes ts = [] := by
  unfold lookAlikes
  induction ts with
  | nil => rfl
  | cons t rest ih =>
    obtain ⟨ht, hrest⟩ := not_or.1 (mt List.mem_cons.2 h)
    rw [marksBy, lookAlike?_eq_none (Ne.symm ht), ih hrest]
    rfl

/-- The check accepts a formula for its tokens and for all the marks in its text. -/
theorem checkWith_ok_iff_count (known : String → Bool) {formula : List Char} {ts : List Token}
    (h : Reading formula ts) : checkWith known formula = .ok () ↔
      Visible formula ∧ Sound known ts ∧ ∀ name,
        (environments ts).count ⟨true, name⟩ + (lookAlikes ts).count ⟨true, name⟩ =
          (environments ts).count ⟨false, name⟩ + (lookAlikes ts).count ⟨false, name⟩ := by
  simp only [checkWith_ok_iff, count_environments h]
  constructor
  · rintro ⟨hvisible, ⟨us, hus, hsound⟩, hmarks⟩
    obtain rfl : us = ts := (tokens_of_reading hus).symm.trans (tokens_of_reading h)
    exact ⟨hvisible, hsound, hmarks⟩
  · rintro ⟨hvisible, hsound, hmarks⟩
    exact ⟨hvisible, ⟨ts, h, hsound⟩, hmarks⟩

theorem isKnownCommand_of_row {name row : String} (i : Nat) (hrow : knownNameRows[i]? = some row)
    (hname : name.toList ∈ row.toList.splitOn ' ') :
    isKnownCommand (commandOf name.toList) = true := by
  have hmem : name ∈ knownNames := by
    refine List.mem_flatMap.2 ⟨row, List.mem_of_getElem? hrow, ?_⟩
    exact List.mem_map.2 ⟨name.toList, hname, String.ofList_toList⟩
  simpa [isKnownCommand, commandOf] using hmem

theorem isKnownCommand_keyword (begins : Bool) :
    isKnownCommand (commandOf (keyword begins)) = true := by
  cases begins with
  | true => exact @isKnownCommand_of_row "begin" _ 39 rfl (by decide +kernel)
  | false => exact @isKnownCommand_of_row "end" _ 84 rfl (by decide +kernel)

/-- The letters of a control word. -/
def Token.letters? : Token → Option (List Char)
  | .command name => some name
  | _ => none

/-- The tokens are sound if their groups are and their control words only begin and end
environments. -/
theorem sound_of_keywords {ts : List Token} (hfinished : Token.danglingBackslash ∉ ts)
    (hkeywords : ∀ name ∈ ts.filterMap Token.letters?, ∃ begins, name = keyword begins)
    (hclosed : ∀ p ∈ ts.inits, closings p ≤ openings p) (hbalanced : openings ts = closings ts) :
    Sound isKnownCommand ts := by
  refine ⟨hfinished, fun name hname => ?_, fun p hp => hclosed p ((List.mem_inits p ts).2 hp),
    hbalanced⟩
  obtain ⟨begins, rfl⟩ := hkeywords name (List.mem_filterMap.2 ⟨_, hname, rfl⟩)
  exact isKnownCommand_keyword begins

/-- A formula is accepted for its tokens and for the marks in its text, so look-alikes are counted with
the environments. Where there are none, as in a formula without a double backslash, the environments of
an accepted formula are nested just if their ends come in order; and a sound formula whose environments
are nested is accepted. -/
theorem checkWith_environments (known : String → Bool) {formula : List Char} {ts : List Token}
    (h : Reading formula ts) :
    (checkWith known formula = .ok () ↔ Visible formula ∧ Sound known ts ∧ ∀ name,
      (environments ts).count ⟨true, name⟩ + (lookAlikes ts).count ⟨true, name⟩ =
        (environments ts).count ⟨false, name⟩ + (lookAlikes ts).count ⟨false, name⟩) ∧
    (Token.symbol '\\' ∉ ts → lookAlikes ts = []) ∧
    (lookAlikes ts = [] →
      (checkWith known formula = .ok () →
        (Nested (environments ts) ↔ InOrder (environments ts))) ∧
      (Visible formula → Sound known ts → Nested (environments ts) →
        checkWith known formula = .ok ())) := by
  have hok := checkWith_ok_iff_count known h
  refine ⟨hok, lookAlikes_eq_nil, fun hnone => ⟨fun haccepted => ?_, ?_⟩⟩
  · obtain ⟨-, -, hmarks⟩ := hok.1 haccepted
    rw [nested_iff]
    exact and_iff_left fun name => by simpa [hnone] using hmarks name
  · intro hvisible hsound hnested
    refine hok.2 ⟨hvisible, hsound, fun name => ?_⟩
    simpa [hnone] using (nested_iff.1 hnested).2 name

/-- One environment in another one is accepted. -/
theorem checkWith_environments_inner :
    let formula := "\\begin{a}\\begin{b}x\\end{b}\\end{a}"
    Reading formula.toList (tokens formula.toList) ∧ Token.symbol '\\' ∉ tokens formula.toList ∧
      Visible formula.toList ∧ Sound isKnownCommand (tokens formula.toList) ∧
      Nested (environments (tokens formula.toList)) ∧ check formula = .ok () := by
  intro formula
  have hread := reading_tokens formula.toList
  have hplain : Token.symbol '\\' ∉ tokens formula.toList := by decide +kernel
  have hvisible : Visible formula.toList := visible_iff.2 (by decide +kernel)
  have hsound : Sound isKnownCommand (tokens formula.toList) :=
    sound_of_keywords (by decide +kernel) (by decide +kernel) (by decide +kernel)
      (by decide +kernel)
  have hnested : Nested (environments (tokens formula.toList)) := by decide +kernel
  obtain ⟨-, hnone, hwithout⟩ := checkWith_environments isKnownCommand hread
  exact ⟨hread, hplain, hvisible, hsound, hnested,
    (hwithout (hnone hplain)).2 hvisible hsound hnested⟩

/-- The order of beginnings and ends is not checked: an environment that is ended before it is begun is
accepted. Nor are the tokens asked for: the letters after a double backslash begin an environment that
no control word begins. -/
theorem check_misplaced :
    (check "\\end{matrix}\\begin{matrix}" = .ok () ∧
      ¬ Nested (environments (tokens "\\end{matrix}\\begin{matrix}".toList))) ∧
    (check "\\\\begin{matrix}\\end{matrix}" = .ok () ∧
      ¬ Nested (environments (tokens "\\\\begin{matrix}\\end{matrix}".toList))) := by
  have haccepted {formula : String} (hvisible : isBlankText formula.toList = false)
      (hsound : Sound isKnownCommand (tokens formula.toList))
      (hnames : unmatchedNames (marks formula.toList) = []) : check formula = .ok () := by
    refine (checkWith_ok_iff isKnownCommand _).2
      ⟨visible_iff.2 hvisible, ⟨_, reading_tokens _, hsound⟩, fun name => ?_⟩
    rw [← count_marks, ← count_marks]
    exact unmatchedNames_eq_nil_iff.1 hnames name
  refine ⟨⟨haccepted (by decide +kernel) ?_ (by decide +kernel), by decide +kernel⟩,
    ⟨haccepted (by decide +kernel) ?_ (by decide +kernel), by decide +kernel⟩⟩
  all_goals
    exact sound_of_keywords (by decide +kernel) (by decide +kernel) (by decide +kernel)
      (by decide +kernel)

end MarkdownDocx.Latex

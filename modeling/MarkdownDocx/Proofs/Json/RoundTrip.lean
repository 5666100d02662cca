import MarkdownDocx.Proofs.Json.Numerals

/-!
JSON that is read again. What is written for a value without surrogates is read as that value
wherever it stands, and so is a whole text, by a reader that lets as much be nested: by induction on
the value, with the text as the bound on what a reader may use.
-/

set_option autoImplicit false

namespace MarkdownDocx.Json

open MarkdownDocx.Number (Binary64 greatestNumeralLength)

variable {depth : ℕ}

/-! ## Strings -/

theorem hexValue?_hexDigit {k : ℕ} (hk : k < 16) : hexValue? (Text.hexDigit k) = some k := by
  have hall : ∀ k < 16, hexValue? (Text.hexDigit k) = some k := by decide
  exact hall k hk

theorem readHex4_hexDigits {n : ℕ} (hn : n < 0x10000) (r : List Char) :
    readHex4 (Text.hexDigits 4 n ++ r) = some (n, r) := by
  have h₁ := hexValue?_hexDigit (k := n / 16 / 16 / 16 % 16) (by omega)
  have h₂ := hexValue?_hexDigit (k := n / 16 / 16 % 16) (by omega)
  have h₃ := hexValue?_hexDigit (k := n / 16 % 16) (by omega)
  have h₄ := hexValue?_hexDigit (k := n % 16) (by omega)
  simp only [Text.hexDigits, List.nil_append, List.cons_append, readHex4, h₁, h₂, h₃, h₄,
    Option.bind_eq_bind, Option.bind_some, Option.pure_def, Option.some.injEq, Prod.mk.injEq,
    and_true]
  omega

/-- A control character is no surrogate. -/
theorem readUnicodeEscape_control {c : Char} (hc : c.toNat < 32) (r : List Char) :
    readUnicodeEscape (Text.hexDigits 4 c.toNat ++ r) = some (.char c, r) := by
  have hhigh : ¬ (0xD800 ≤ c.toNat ∧ c.toNat ≤ 0xDBFF) := by omega
  have hunit : ¬ (0xD800 ≤ c.toNat ∧ c.toNat ≤ 0xDFFF) := by omega
  unfold readUnicodeEscape
  have hpoint : unitPoint c.toNat = .char c := by rw [unitPoint, if_neg hunit, Char.ofNat_toNat]
  simp [readHex4_hexDigits (show c.toNat < 0x10000 by omega), hhigh, hpoint]

/-- A character that has an escape of its own. -/
theorem readPoints_simpleEscape (fuel : ℕ) {c e : Char} (h : simpleEscape? e = some c)
    (r : List Char) : readPoints (fuel + 1) ('\\' :: e :: r) =
      (readPoints fuel r).map fun s => (.char c :: s.1, s.2) := by
  have he : e ≠ 'u' := by
    rintro rfl
    simp [simpleEscape?] at h
  simp only [readPoints, h, Option.bind_eq_bind, Option.bind_some]
  cases readPoints fuel r <;> rfl

theorem readPoints_escapedChar (fuel : ℕ) (c : Char) (r : List Char) :
    readPoints (fuel + 1) (escapedChar c ++ r) =
      (readPoints fuel r).map fun s => (.char c :: s.1, s.2) := by
  unfold escapedChar
  split_ifs with hquote hbackslash hfeed hreturn htab hback hform hcontrol
  · exact readPoints_simpleEscape fuel (by rw [hquote]; rfl) r
  · exact readPoints_simpleEscape fuel (by rw [hbackslash]; rfl) r
  · exact readPoints_simpleEscape fuel (by rw [hfeed]; rfl) r
  · exact readPoints_simpleEscape fuel (by rw [hreturn]; rfl) r
  · exact readPoints_simpleEscape fuel (by rw [htab]; rfl) r
  · exact readPoints_simpleEscape fuel (by rw [hback]; rfl) r
  · exact readPoints_simpleEscape fuel (by rw [hform]; rfl) r
  · simp only [List.cons_append, readPoints, readUnicodeEscape_control hcontrol,
      Option.bind_eq_bind, Option.bind_some]
    cases readPoints fuel r <;> rfl
  · have hplain : (decide (c.toNat < 32) || decide (c = '\\')) = false := by
      simp [hcontrol, hbackslash]
    rw [List.singleton_append, readPoints, hplain]
    · cases readPoints fuel r <;> rfl
    · exact hquote
    · exact fun r h _ => hbackslash h
    · exact fun e r h _ => hbackslash h

theorem readPoints_text (s r : List Char) {fuel : ℕ} (hfuel : s.length < fuel) :
    readPoints fuel (s.flatMap escapedChar ++ '"' :: r) = some (s.map .char, r) := by
  induction s generalizing fuel with
  | nil =>
    obtain ⟨k, rfl⟩ := Nat.exists_eq_succ_of_ne_zero (show fuel ≠ 0 by omega)
    rfl
  | cons c s ih =>
    obtain ⟨k, rfl⟩ := Nat.exists_eq_succ_of_ne_zero (show fuel ≠ 0 by omega)
    simp only [List.length_cons] at hfuel
    rw [List.flatMap_cons, List.append_assoc, Nat.succ_eq_add_one, readPoints_escapedChar,
      ih (by omega)]
    rfl

theorem length_le_escaped (s : List Char) : s.length ≤ (s.flatMap escapedChar).length := by
  have hone : ∀ c, 1 ≤ (escapedChar c).length := fun c => by
    unfold escapedChar
    split_ifs <;> simp
  induction s with
  | nil => simp
  | cons c s ih =>
    have := hone c
    simp only [List.flatMap_cons, List.length_cons, List.length_append]
    omega

/-- A string without surrogates. -/
def IsText (s : WideString) : Prop := ∃ t : String, s = t

theorem isText_ofString (s : String) : IsText s := ⟨s, rfl⟩

theorem readString_text (s : String) (r : List Char) :
    readString (s.toList.flatMap escapedChar ++ '"' :: r) = some ((s : WideString), r) := by
  have hlength := length_le_escaped s.toList
  unfold readString
  rw [readPoints_text s.toList r (by simp only [List.length_append]; omega)]
  rfl

/-! ## Texts of values -/

/-- A text that is read as a value wherever it stands, by a reader that lets so much be nested. It
begins with no white space and closes no array, and a line in it ends with a line feed. -/
structure Legible (depth : ℕ) (cs : List Char) (v : Json) : Prop where
  head : ∃ c ∈ cs.head?, isSpace c = false ∧ c ≠ ']'
  noReturn : '\r' ∉ cs
  reads : ∀ (fuel : ℕ) (r : List Char), cs.length < fuel → EndsNumber r →
    readValue depth fuel (cs ++ r) = .ok (v, r)

theorem readWord_eq_none {c : Char} (h : c ∉ ['n', 't', 'f', 'N', 'I', '-']) (r : List Char) :
    readWord (c :: r) = none := by
  simp only [List.mem_cons, List.not_mem_nil, or_false, not_or] at h
  obtain ⟨hn, ht, hf, hN, hI, hminus⟩ := h
  simp [readWord, words, Text.afterWord, Ne.symm hn, Ne.symm ht, Ne.symm hf, Ne.symm hN,
    Ne.symm hI, Ne.symm hminus]

/-- A minus begins a word only before a capital letter. -/
theorem readWord_minus {c : Char} (h : c ≠ 'I') (r : List Char) :
    readWord ('-' :: c :: r) = none := by
  simp [readWord, words, Text.afterWord, Ne.symm h]

theorem readValue_word {cs r : List Char} {v : Json} (h : readWord cs = some (v, r)) (fuel : ℕ) :
    readValue depth (fuel + 1) cs = .ok (v, r) := by
  unfold readValue
  simp only [h]

theorem legible_word {w : String} {v : Json} (h : (w, v) ∈ words) :
    Legible depth w.toList v := by
  have hhead : ∀ p ∈ words, ∃ c ∈ p.1.toList.head?, isSpace c = false ∧ c ≠ ']' := by
    simp [words, isSpace]
  have hreturn : ∀ p ∈ words, '\r' ∉ p.1.toList := by simp [words]
  have hread : ∀ r, ∀ p ∈ words, readWord (p.1.toList ++ r) = some (p.2, r) := by
    intro r p hp
    simp only [words, List.mem_cons, List.not_mem_nil, or_false] at hp
    rcases hp with rfl | rfl | rfl | rfl | rfl | rfl <;> rfl
  refine ⟨hhead _ h, hreturn _ h, fun fuel r hfuel _ => ?_⟩
  obtain ⟨k, rfl⟩ := Nat.exists_eq_succ_of_ne_zero (show fuel ≠ 0 by omega)
  exact readValue_word (hread r _ h) k

/-! ### Numbers -/

theorem not_return_of_digits {cs : List Char} (h : AllDigits cs) : '\r' ∉ cs := fun hmem =>
  absurd (h _ hmem) (by decide)

theorem Numeral.Valid.noReturn {p : Numeral} (hp : p.Valid) : '\r' ∉ p.text := by
  have hfraction : '\r' ∉ fractionText p.fraction := by
    cases hf : p.fraction with
    | none => simp [fractionText]
    | some fs => simpa [fractionText] using not_return_of_digits (hp.fraction fs hf).2
  have hexponent : '\r' ∉ exponentText p.exponent := by
    cases he : p.exponent with
    | none => simp [exponentText]
    | some e =>
      have hes := not_return_of_digits (hp.exponent e he).2
      cases hsign : e.1 <;> simp [exponentText, hes, hsign]
  simp [text, not_return_of_digits hp.whole, hfraction, hexponent]

theorem exists_digit {p : Numeral} (hp : p.Valid) :
    ∃ c rest, p.text = c :: rest ∧ Text.isAsciiDigit c = true := by
  obtain ⟨c, ds, hwhole⟩ := List.exists_cons_of_ne_nil hp.nonempty
  exact ⟨c, _, by rw [Numeral.text, hwhole]; rfl, hp.whole c (by simp [hwhole])⟩

/-- The characters that a number does not begin with. -/
theorem not_mem_of_isAsciiDigit {c : Char} (h : Text.isAsciiDigit c = true) :
    c ∉ ['n', 't', 'f', 'N', 'I', '-', '"', '[', '\x7b', ']', ' ', '\t', '\n', '\r'] := by
  have hall : ∀ c ∈ ['n', 't', 'f', 'N', 'I', '-', '"', '[', '\x7b', ']', ' ', '\t', '\n', '\r'],
      Text.isAsciiDigit c = false := by simp [Text.isAsciiDigit]
  intro hmem
  rw [hall c hmem] at h
  cases h

theorem readValue_numeral {p : Numeral} (hp : p.Valid) (negative : Bool) (fuel : ℕ)
    (r : List Char) :
    readValue depth (fuel + 1) (signed negative p.text ++ r) =
      readNumber negative (p.text ++ r) := by
  obtain ⟨c, rest, htext, hdigit⟩ := exists_digit hp
  have hnot := not_mem_of_isAsciiDigit hdigit
  simp only [List.mem_cons, List.not_mem_nil, or_false, not_or] at hnot
  obtain ⟨hn, ht, hf, hN, hI, hminus, hquote, hbracket, hbrace, -⟩ := hnot
  rw [htext]
  unfold readValue
  cases negative with
  | true => simp [signed, readWord_minus hI]
  | false =>
    have hword : readWord (c :: (rest ++ r)) = none := readWord_eq_none (by simp [*]) _
    have hbody : signed false (c :: rest) ++ r = c :: (rest ++ r) := rfl
    rw [hbody, hword]
    simp only
    -- A digit opens no string, array or object, so only the last case is left.
    split
    · next heq => exact absurd (List.cons.inj heq).1 hquote
    · next heq => exact absurd (List.cons.inj heq).1 hbracket
    · next heq => exact absurd (List.cons.inj heq).1 hbrace
    · next heq => exact absurd (List.cons.inj heq).1 hminus
    · rfl

theorem legible_of_spells {cs : List Char} {v : Json} (h : Spells cs v) :
    Legible depth cs v := by
  obtain ⟨negative, p, hp, rfl, hread⟩ := h
  have hreturn := hp.noReturn
  obtain ⟨c, rest, htext, hdigit⟩ := exists_digit hp
  have hnot := not_mem_of_isAsciiDigit hdigit
  refine ⟨?_, ?_, fun fuel r hfuel hr => ?_⟩
  · cases negative with
    | true => exact ⟨'-', rfl, by decide⟩
    | false =>
      simp only [List.mem_cons, List.not_mem_nil, or_false, not_or] at hnot
      exact ⟨c, by simp [signed, htext], by simp [isSpace, hnot], by simp [hnot]⟩
  · cases negative <;> simp [signed, hreturn]
  · obtain ⟨k, rfl⟩ := Nat.exists_eq_succ_of_ne_zero (show fuel ≠ 0 by omega)
    rw [Nat.succ_eq_add_one, readValue_numeral hp, readNumber_text hp hr, hread]
    rfl

/-! ### Strings -/

theorem toList_writeString (s : String) :
    (writeString s).toList = '"' :: (s.toList.flatMap escapedChar ++ ['"']) := by
  have hchars : (s.toList.map CodePoint.char).flatMap escapedPoint =
      (s.toList.flatMap escapedChar).map .char := by
    rw [List.flatMap_map, List.map_flatMap]
    rfl
  have hquoted : quotedString s =
      WideString.ofString (String.ofList ('"' :: (s.toList.flatMap escapedChar ++ ['"']))) := by
    simp [quotedString, WideString.ofString, hchars]
  rw [writeString, hquoted, WideString.shown_ofString, String.toList_ofList]

theorem writeString_append (s : String) (r : List Char) :
    (writeString s).toList ++ r = '"' :: (s.toList.flatMap escapedChar ++ '"' :: r) := by
  simp [toList_writeString]

theorem hexDigit_ne_return {k : ℕ} (hk : k < 16) : Text.hexDigit k ≠ '\r' := by
  have hall : ∀ k < 16, Text.hexDigit k ≠ '\r' := by decide
  exact hall k hk

theorem return_not_mem_escapedChar (c : Char) : '\r' ∉ escapedChar c := by
  have hhex : '\r' ∉ Text.hexDigits 4 c.toNat := by
    simp [Text.hexDigits, Ne.symm (hexDigit_ne_return (Nat.mod_lt _ (show 0 < 16 by decide)))]
  by_cases hreturn : c = '\r'
  · subst hreturn
    decide
  · unfold escapedChar
    split_ifs <;> simp [hhex, Ne.symm hreturn]

theorem return_not_mem_writeString (s : String) : '\r' ∉ (writeString s).toList := by
  rw [toList_writeString]
  simp [return_not_mem_escapedChar]

theorem legible_string (s : String) : Legible depth (writeString s).toList (.str s) := by
  refine ⟨by rw [toList_writeString]; exact ⟨'"', rfl, by decide⟩, return_not_mem_writeString s,
    fun fuel r hfuel _ => ?_⟩
  obtain ⟨k, rfl⟩ := Nat.exists_eq_succ_of_ne_zero (show fuel ≠ 0 by omega)
  rw [writeString_append]
  unfold readValue
  simp [readWord_eq_none, readString_text]

/-! ### Arrays -/

def Blank (gap : List Char) : Prop := ∀ c ∈ gap, isSpace c = true

theorem skipSpace_append {gap : List Char} (h : Blank gap) (r : List Char) :
    skipSpace (gap ++ r) = skipSpace r :=
  List.dropWhile_append_of_pos h

theorem skipSpace_cons {c : Char} (h : isSpace c = false) (r : List Char) :
    skipSpace (c :: r) = c :: r := by
  simp [skipSpace, List.dropWhile, h]

theorem Legible.skipSpace {cs : List Char} {v : Json} (h : Legible depth cs v) (r : List Char) :
    Json.skipSpace (cs ++ r) = cs ++ r := by
  obtain ⟨c, hc, hspace, -⟩ := h.head
  obtain ⟨rest, rfl⟩ := List.head?_eq_some_iff.1 hc
  exact skipSpace_cons hspace (rest ++ r)

theorem endsNumber_cons {c : Char} (h : isSpace c = true ∨ c ∈ [',', ']', '\x7d'])
    (r : List Char) : EndsNumber (c :: r) := by
  have hall : ∀ c ∈ [' ', '\t', '\n', '\r', ',', ']', '\x7d'],
      Text.isAsciiDigit c = false ∧ c ≠ '.' ∧ c ≠ 'e' ∧ c ≠ 'E' := by simp [Text.isAsciiDigit]
  rintro d ⟨⟩
  refine hall c ?_
  rcases h with h | h
  · simp only [isSpace, Bool.or_eq_true, beq_iff_eq] at h
    rcases h with ((rfl | rfl) | rfl) | rfl <;> simp
  · simp only [List.mem_cons, List.not_mem_nil, or_false] at h
    rcases h with rfl | rfl | rfl <;> simp

theorem endsNumber_append {gap : List Char} (h : Blank gap) {c : Char}
    (hc : c ∈ [',', ']', '\x7d']) (r : List Char) : EndsNumber (gap ++ c :: r) := by
  cases gap with
  | nil => exact endsNumber_cons (.inr hc) r
  | cons b gap => exact endsNumber_cons (.inl (h b (by simp))) _

theorem readItems_last {fuel : ℕ} {cs r r' : List Char} {v : Json}
    (hv : readValue depth fuel cs = .ok (v, r')) (hr : skipSpace r' = ']' :: r) :
    readItems depth (fuel + 1) cs = .ok ([v], r) := by
  unfold readItems
  simp only [hv, bind, Except.bind, hr]
  rfl

theorem readItems_next {fuel : ℕ} {cs r r' r'' : List Char} {v : Json} {vs : List Json}
    (hv : readValue depth fuel cs = .ok (v, r')) (hr : skipSpace r' = ',' :: r)
    (hvs : readItems depth fuel (skipSpace r) = .ok (vs, r'')) :
    readItems depth (fuel + 1) cs = .ok (v :: vs, r'') := by
  unfold readItems
  simp only [hv, bind, Except.bind, hr, hvs]
  rfl

/-- Items are read up to the bracket after them. Every step leaves less of their text, which is why
its length bounds the fuel. -/
theorem readItems_text (text : Json → List Char) {gap last : List Char} (hgap : Blank gap)
    (hlast : Blank last) (v : Json) (vs : List Json) (h : ∀ w ∈ v :: vs, Legible depth (text w) w)
    (fuel : ℕ) (r : List Char)
    (hfuel : (text v ++ (vs.flatMap fun w => ',' :: (gap ++ text w)) ++ last).length < fuel) :
    readItems depth (fuel + 1)
      (text v ++ ((vs.flatMap fun w => ',' :: (gap ++ text w)) ++ (last ++ ']' :: r))) =
      .ok (v :: vs, r) := by
  induction vs generalizing v fuel with
  | nil =>
    simp only [List.flatMap_nil, List.append_nil, List.length_append, List.nil_append] at hfuel ⊢
    refine readItems_last ((h v (by simp)).reads _ _ (by omega)
      (endsNumber_append hlast (by decide) r)) ?_
    rw [skipSpace_append hlast, skipSpace_cons rfl]
  | cons w vs ih =>
    obtain ⟨k, rfl⟩ := Nat.exists_eq_succ_of_ne_zero (show fuel ≠ 0 by omega)
    simp only [List.flatMap_cons, List.cons_append, List.append_assoc, List.length_append,
      List.length_cons] at ih hfuel ⊢
    refine readItems_next ((h v (by simp)).reads _ _ (by omega) (endsNumber_cons (by decide) _))
      (skipSpace_cons rfl _) ?_
    rw [skipSpace_append hgap, (h w (by simp)).skipSpace]
    exact ih w (fun u hu => h u (.tail _ hu)) k (by omega)

/-- The text of an object or of an array with something in it. -/
theorem toList_block (level : ℕ) (opening closing entry : String) (entries : List String) :
    (block level opening closing (entry :: entries)).toList =
      opening.toList ++ ((newline (level + 1)).toList ++ (entry.toList ++
        ((entries.flatMap fun e => ',' :: ((newline (level + 1)).toList ++ e.toList)) ++
          ((newline level).toList ++ closing.toList)))) := by
  have hjoin : ∀ (sep e : String) (es : List String), (sep.intercalate (e :: es)).toList =
      e.toList ++ es.flatMap fun e => sep.toList ++ e.toList := by
    intro sep e es
    induction es generalizing e with
    | nil => simp
    | cons e' es ih => simp [String.intercalate_cons_cons, ih]
  simp [block, hjoin]

theorem blank_newline (level : ℕ) : Blank (newline level).toList := by
  intro c hc
  simp only [newline, String.toList_append, String.toList_ofList, List.mem_append] at hc
  rcases hc with hc | hc
  · obtain rfl : c = '\n' := by simpa using hc
    rfl
  · rw [List.eq_of_mem_replicate hc]
    rfl

theorem return_not_mem_newline (level : ℕ) : '\r' ∉ (newline level).toList := by
  simp [newline]

theorem readValue_items {fuel : ℕ} {r r' : List Char} {vs : List Json}
    (hhead : ∀ c ∈ (skipSpace r).head?, c ≠ ']')
    (hvs : readItems depth fuel (skipSpace r) = .ok (vs, r')) :
    readValue (depth + 1) (fuel + 1) ('[' :: r) = .ok (.arr vs, r') := by
  unfold readValue
  rw [readWord_eq_none (by decide)]
  simp only
  split
  · next heq =>
    rw [heq] at hhead
    exact absurd rfl (hhead ']' rfl)
  · simp only [hvs, bind, Except.bind]
    rfl

theorem writeItems_eq (level : ℕ) (vs : List Json) :
    writeItems level vs = vs.map (writeAt level) := by
  induction vs with
  | nil => rfl
  | cons v vs ih => rw [writeItems, ih, List.map_cons]

/-- The text of an array with something in it. -/
theorem toList_writeAt_array (level : ℕ) (v : Json) (vs : List Json) :
    (writeAt level (.arr (v :: vs))).toList =
      '[' :: ((newline (level + 1)).toList ++ ((writeAt (level + 1) v).toList ++
        ((vs.flatMap fun w => ',' :: ((newline (level + 1)).toList ++
          (writeAt (level + 1) w).toList)) ++ ((newline level).toList ++ [']'])))) := by
  rw [writeAt, writeItems_eq, List.map_cons, toList_block, List.flatMap_map]
  rfl

theorem legible_array (level : ℕ) {items : List Json}
    (h : ∀ v ∈ items, Legible depth (writeAt (level + 1) v).toList v) :
    Legible (depth + 1) (writeAt level (.arr items)).toList (.arr items) := by
  cases items with
  | nil =>
    rw [show (writeAt level (.arr [])).toList = ['[', ']'] by simp [writeAt, writeItems, block]]
    refine ⟨⟨'[', rfl, by decide⟩, by decide, fun fuel r hfuel _ => ?_⟩
    obtain ⟨k, rfl⟩ := Nat.exists_eq_succ_of_ne_zero (show fuel ≠ 0 by omega)
    rfl
  | cons v vs =>
    rw [toList_writeAt_array]
    refine ⟨⟨'[', rfl, by decide⟩, ?_, fun fuel r hfuel _ => ?_⟩
    · have hv := (h v (by simp)).noReturn
      have hvs : ∀ w ∈ vs, '\r' ∉ (writeAt (level + 1) w).toList := fun w hw =>
        (h w (.tail _ hw)).noReturn
      simpa [return_not_mem_newline, hv] using hvs
    · simp only [List.length_cons, List.length_append, List.length_nil] at hfuel
      obtain ⟨k, rfl⟩ : ∃ k, fuel = k + 2 := ⟨fuel - 2, by omega⟩
      have hitems := readItems_text (fun v => (writeAt (level + 1) v).toList)
        (blank_newline (level + 1)) (blank_newline level) v vs h k r (by
          simp only [List.length_append]
          omega)
      simp only [List.cons_append, List.append_assoc, List.nil_append]
      have hskip := (h v (by simp)).skipSpace
      refine readValue_items ?_ ?_
      · rw [skipSpace_append (blank_newline _), hskip]
        obtain ⟨c, hc, -, hne⟩ := (h v (by simp)).head
        obtain ⟨rest, hrest⟩ := List.head?_eq_some_iff.1 hc
        rw [hrest]
        rintro d ⟨⟩
        exact hne
      · rw [skipSpace_append (blank_newline _), hskip]
        exact hitems

/-! ### Objects -/

theorem put_of_not_mem {key : WideString} {members : Members} (h : key ∉ members.map Prod.fst)
    (v : Json) : put key v members = members ++ [(key, v)] := by
  induction members with
  | nil => rfl
  | cons m rest ih =>
    obtain ⟨k, w⟩ := m
    simp only [List.map_cons, List.mem_cons, not_or] at h
    simp [put, Ne.symm h.1, ih h.2]

/-- A key that comes once is new. -/
theorem key_not_mem {before ms : Members} {m : WideString × Json}
    (h : ((before ++ m :: ms).map Prod.fst).Nodup) : m.1 ∉ before.map Prod.fst := by
  rw [List.map_append, List.map_cons, List.nodup_append] at h
  exact fun hmem => h.2.2 _ hmem _ (by simp) rfl

/-- The text of a member, where `text` writes its value. -/
def memberText (text : Json → List Char) (m : WideString × Json) : List Char :=
  (writeString m.1).toList ++ ':' :: ' ' :: text m.2

theorem memberText_eq_cons (text : Json → List Char) (m : WideString × Json) :
    ∃ cs, memberText text m = '"' :: cs := by
  unfold memberText writeString WideString.shown
  rw [String.toList_ofList]
  exact ⟨_, rfl⟩

theorem skipSpace_memberText (text : Json → List Char) (m : WideString × Json) (r : List Char) :
    skipSpace (memberText text m ++ r) = memberText text m ++ r := by
  obtain ⟨cs, hcs⟩ := memberText_eq_cons text m
  rw [hcs]
  exact skipSpace_cons rfl _

theorem readMembers_last {fuel : ℕ} {before : Members} {key : String} {cs r r' : List Char}
    {v : Json} (hv : readValue depth fuel (skipSpace cs) = .ok (v, r))
    (hr : skipSpace r = '\x7d' :: r') :
    readMembers depth (fuel + 1) before ((writeString key).toList ++ ':' :: cs) =
      .ok (put key v before, r') := by
  rw [writeString_append]
  unfold readMembers
  simp only [readString_text, skipSpace_cons (show isSpace ':' = false from rfl), hv, bind,
    Except.bind, hr]
  rfl

theorem readMembers_next {fuel : ℕ} {before : Members} {key : String} {cs r r' : List Char}
    {v : Json} (hv : readValue depth fuel (skipSpace cs) = .ok (v, r))
    (hr : skipSpace r = ',' :: r') :
    readMembers depth (fuel + 1) before ((writeString key).toList ++ ':' :: cs) =
      readMembers depth fuel (put key v before) (skipSpace r') := by
  rw [writeString_append]
  conv_lhs => unfold readMembers
  simp only [readString_text, skipSpace_cons (show isSpace ':' = false from rfl), hv, bind,
    Except.bind, hr]

theorem Legible.skipSpace_blank {cs : List Char} {v : Json} (h : Legible depth cs v)
    (r : List Char) : Json.skipSpace (' ' :: (cs ++ r)) = cs ++ r :=
  (show Json.skipSpace (' ' :: (cs ++ r)) = Json.skipSpace (cs ++ r) from rfl).trans
    (h.skipSpace r)

/-- Members are read up to the brace after them, and stand after those read before. -/
theorem readMembers_text (text : Json → List Char) {gap last : List Char} (hgap : Blank gap)
    (hlast : Blank last) (m : WideString × Json) (ms : Members)
    (h : ∀ p ∈ m :: ms, IsText p.1 ∧ Legible depth (text p.2) p.2) (before : Members)
    (hkeys : ((before ++ m :: ms).map Prod.fst).Nodup) (fuel : ℕ) (r : List Char)
    (hfuel : (memberText text m ++ (ms.flatMap fun p => ',' :: (gap ++ memberText text p)) ++
      last).length < fuel) :
    readMembers depth (fuel + 1) before
      (memberText text m ++ ((ms.flatMap fun p => ',' :: (gap ++ memberText text p)) ++
        (last ++ '\x7d' :: r))) = .ok (before ++ m :: ms, r) := by
  -- What is read before grows by a member at each step, and its key is new there.
  induction ms generalizing m before fuel with
  | nil =>
    have hput := put_of_not_mem (key_not_mem hkeys) m.2
    obtain ⟨⟨key, hkey⟩, hm⟩ := h m (by simp)
    simp only [List.flatMap_nil, List.append_nil, List.length_append, List.nil_append, memberText,
      List.length_cons, List.cons_append, List.append_assoc, hkey] at hfuel hput ⊢
    rw [readMembers_last (by
      rw [hm.skipSpace_blank]
      exact hm.reads _ _ (by omega) (endsNumber_append hlast (by decide) r)) (by
      rw [skipSpace_append hlast, skipSpace_cons rfl]), hput, ← hkey]
  | cons p ms ih =>
    obtain ⟨k, rfl⟩ := Nat.exists_eq_succ_of_ne_zero (show fuel ≠ 0 by omega)
    have hput := put_of_not_mem (key_not_mem hkeys) m.2
    obtain ⟨⟨key, hkey⟩, hm⟩ := h m (by simp)
    have hkeys' : (((before ++ [m]) ++ p :: ms).map Prod.fst).Nodup := by simpa using hkeys
    have hrest := ih p (fun q hq => h q (.tail _ hq)) (before ++ [m]) hkeys' k (by
      simp only [List.flatMap_cons, List.length_append, List.length_cons, memberText] at hfuel ⊢
      omega)
    simp only [List.flatMap_cons, List.cons_append, List.append_assoc, List.length_append,
      List.length_cons, List.nil_append] at hfuel hrest ⊢
    rw [memberText, List.append_assoc, List.cons_append, List.cons_append, hkey, readMembers_next (by
      rw [hm.skipSpace_blank]
      refine hm.reads _ _ ?_ (endsNumber_cons (by decide) _)
      simp only [memberText, List.length_append, List.length_cons] at hfuel
      omega) (skipSpace_cons rfl _), ← hkey, hput, skipSpace_append hgap, skipSpace_memberText,
      hrest]

theorem readValue_members {fuel : ℕ} {r r' : List Char} {ms : Members}
    (hhead : ∀ c ∈ (skipSpace r).head?, c ≠ '\x7d')
    (hms : readMembers depth fuel [] (skipSpace r) = .ok (ms, r')) :
    readValue (depth + 1) (fuel + 1) ('\x7b' :: r) = .ok (.obj ms, r') := by
  unfold readValue
  rw [readWord_eq_none (by decide)]
  simp only
  split
  · next heq =>
    rw [heq] at hhead
    exact absurd rfl (hhead '\x7d' rfl)
  · simp only [hms, bind, Except.bind]
    rfl

theorem writeMembers_eq (level : ℕ) (ms : Members) : writeMembers level ms =
    ms.map fun m => writeString m.1 ++ ": " ++ writeAt level m.2 := by
  induction ms with
  | nil => rfl
  | cons m ms ih => rw [writeMembers, ih, List.map_cons]

theorem toList_writeAt_object (level : ℕ) (m : WideString × Json) (ms : Members) :
    (writeAt level (.obj (m :: ms))).toList =
      '\x7b' :: ((newline (level + 1)).toList ++
        (memberText (fun v => (writeAt (level + 1) v).toList) m ++
          ((ms.flatMap fun p => ',' :: ((newline (level + 1)).toList ++
            memberText (fun v => (writeAt (level + 1) v).toList) p)) ++
              ((newline level).toList ++ ['\x7d'])))) := by
  have hmember : ∀ p : WideString × Json,
      (writeString p.1 ++ ": " ++ writeAt (level + 1) p.2).toList =
        memberText (fun v => (writeAt (level + 1) v).toList) p := fun p => by
    simp [memberText]
  rw [writeAt, writeMembers_eq, List.map_cons, toList_block, List.flatMap_map]
  simp only [hmember]
  rfl

theorem legible_object (level : ℕ) {members : Members} (hkeys : (members.map Prod.fst).Nodup)
    (h : ∀ m ∈ members, IsText m.1 ∧ Legible depth (writeAt (level + 1) m.2).toList m.2) :
    Legible (depth + 1) (writeAt level (.obj members)).toList (.obj members) := by
  cases members with
  | nil =>
    rw [show (writeAt level (.obj [])).toList = ['\x7b', '\x7d'] by
      simp [writeAt, writeMembers, block]]
    refine ⟨⟨'\x7b', rfl, by decide⟩, by decide, fun fuel r hfuel _ => ?_⟩
    obtain ⟨k, rfl⟩ := Nat.exists_eq_succ_of_ne_zero (show fuel ≠ 0 by omega)
    rfl
  | cons m ms =>
    rw [toList_writeAt_object]
    refine ⟨⟨'\x7b', rfl, by decide⟩, ?_, fun fuel r hfuel _ => ?_⟩
    · have hmember : ∀ p ∈ m :: ms,
          '\r' ∉ memberText (fun v => (writeAt (level + 1) v).toList) p := fun p hp => by
        obtain ⟨⟨key, hkey⟩, hvalue⟩ := h p hp
        simp [memberText, hkey, return_not_mem_writeString, hvalue.noReturn]
      have hms : ∀ p ∈ ms, '\r' ∉ memberText (fun v => (writeAt (level + 1) v).toList) p :=
        fun p hp => hmember p (.tail _ hp)
      simpa [return_not_mem_newline, hmember m (by simp)] using fun a b => hms (a, b)
    · simp only [List.length_cons, List.length_append, List.length_nil] at hfuel
      obtain ⟨k, rfl⟩ : ∃ k, fuel = k + 2 := ⟨fuel - 2, by omega⟩
      have hmembers := readMembers_text (fun v => (writeAt (level + 1) v).toList)
        (blank_newline (level + 1)) (blank_newline level) m ms h [] hkeys k r (by
          simp only [List.length_append]
          omega)
      simp only [List.cons_append, List.append_assoc, List.nil_append]
      have hskip : ∀ r', skipSpace ((newline (level + 1)).toList ++
          (memberText (fun v => (writeAt (level + 1) v).toList) m ++ r')) =
          memberText (fun v => (writeAt (level + 1) v).toList) m ++ r' := fun r' => by
        rw [skipSpace_append (blank_newline _), skipSpace_memberText]
      refine readValue_members ?_ ?_
      · obtain ⟨cs, hcs⟩ := memberText_eq_cons (fun v => (writeAt (level + 1) v).toList) m
        rw [hskip, hcs]
        rintro d ⟨⟩
        decide
      · rw [hskip]
        exact hmembers

/-! ## Values -/

/-- A value that comes back from its text to a reader that lets so much be nested: integers are not
longer than those that are read, floating-point numbers are such, strings have no surrogates, and no
object has a key twice. -/
inductive Restorable : ℕ → Json → Prop
  | null {depth : ℕ} : Restorable depth .null
  | bool {depth : ℕ} (b : Bool) : Restorable depth (.bool b)
  | int {depth : ℕ} {n : ℤ} (h : (Nat.toDigits 10 n.natAbs).length ≤ greatestNumeralLength) :
      Restorable depth (.int n)
  | real {depth : ℕ} {x : Binary64} (h : x.IsRegular) : Restorable depth (.real x)
  | str {depth : ℕ} {s : WideString} (h : IsText s) : Restorable depth (.str s)
  | arr {depth : ℕ} {items : List Json} (h : ∀ v ∈ items, Restorable depth v) :
      Restorable (depth + 1) (.arr items)
  | obj {depth : ℕ} {members : Members} (hkeys : (members.map Prod.fst).Nodup)
      (htexts : ∀ m ∈ members, IsText m.1) (h : ∀ m ∈ members, Restorable depth m.2) :
      Restorable (depth + 1) (.obj members)

theorem Restorable.singleton {depth : ℕ} {v : Json} (key : String) (h : Restorable depth v) :
    Restorable (depth + 1) (.obj [(key, v)]) :=
  .obj (by simp) (by simp [isText_ofString]) (by simpa using h)

theorem legible_real {x : Binary64} (h : x.IsRegular) :
    Legible depth (writeReal x).toList (.real x) := by
  cases x with
  | finite s m e => simpa [writeReal, Binary64.text] using legible_of_spells (spells_real h s)
  | infinite s =>
    cases s with
    | false => exact legible_word (w := "Infinity") (by simp [words])
    | true => exact legible_word (w := "-Infinity") (by simp [words])
  | nan => exact legible_word (w := "NaN") (by simp [words])

theorem legible_writeAt {v : Json} (h : Restorable depth v) (level : ℕ) :
    Legible depth (writeAt level v).toList v := by
  induction h generalizing level with
  | null => exact legible_word (w := "null") (by simp [words])
  | bool b =>
    cases b with
    | false => exact legible_word (w := "false") (by simp [words])
    | true => exact legible_word (w := "true") (by simp [words])
  | int h => exact legible_of_spells (spells_int h)
  | real h => exact legible_real h
  | str h =>
    obtain ⟨t, rfl⟩ := h
    exact legible_string t
  | arr h ih => exact legible_array level fun v hv => ih v hv (level + 1)
  | obj hkeys htexts h ih =>
    exact legible_object level hkeys fun m hm => ⟨htexts m hm, ih m hm (level + 1)⟩

/-- Reading restores what was written. -/
theorem read_write {v : Json} (h : Restorable depth v) : read depth (write v) = .ok v := by
  have hlegible := legible_writeAt h 0
  have hskip := hlegible.skipSpace []
  have hread := hlegible.reads ((writeAt 0 v).toList.length + 1) []
    (Nat.lt_succ_self _) (by simp [EndsNumber])
  rw [List.append_nil] at hskip hread
  unfold read write
  simp only [hskip, hread, bind, Except.bind]
  rfl

theorem return_not_mem_write {v : Json} (h : Restorable depth v) : '\r' ∉ (write v).toList :=
  (legible_writeAt h 0).noReturn

end MarkdownDocx.Json

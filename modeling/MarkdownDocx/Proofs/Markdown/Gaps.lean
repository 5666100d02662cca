import Mathlib.Data.List.Forall2
import MarkdownDocx.Markdown.BareFormula
import MarkdownDocx.Markdown.EmphasisGap
import MarkdownDocx.Proofs.Text.Trim

/-!
Texts with zero-width spaces in their gaps. A gap is a place between an asterisk and a glyph that
it collides with. What a text says, read line by line, is the same with its gaps filled: its line
ends, the white space around it, the commands and scripts in it, and whether it is a fence.
-/

set_option autoImplicit false

namespace MarkdownDocx.Markdown

open MarkdownDocx.Text

/-- Neighbours that a zero-width space goes between. -/
def collide (c d : Char) : Bool := isStar c && isOpeningGlyph d || isClosingGlyph c && isStar d

/-- The characters beside a gap. -/
def emphatic : List Char := '*' :: openingGlyphs ++ closingGlyphs

theorem mem_emphatic_of_collide {c d : Char} (h : collide c d = true) :
    c ∈ emphatic ∧ d ∈ emphatic := by
  simp only [collide, isStar, isOpeningGlyph, isClosingGlyph, Bool.or_eq_true, Bool.and_eq_true,
    beq_iff_eq, List.contains_iff_mem] at h
  simp only [emphatic, List.cons_append, List.mem_cons, List.mem_append]
  rcases h with ⟨hc, hd⟩ | ⟨hc, hd⟩
  · exact ⟨.inl hc, .inr (.inl hd)⟩
  · exact ⟨.inr (.inr hc), .inl hd⟩

theorem eq_star_of_collide {c d : Char} (h : collide c d = true) : c = '*' ∨ d = '*' := by
  simp only [collide, isStar, Bool.or_eq_true, Bool.and_eq_true, beq_iff_eq] at h
  exact h.imp And.left And.right

theorem collide_left_false {c : Char} (h : c ∉ emphatic) (d : Char) : collide c d = false := by
  by_contra hne
  exact h (mem_emphatic_of_collide (Bool.not_eq_false _ ▸ hne)).1

theorem collide_right_false {d : Char} (h : d ∉ emphatic) (c : Char) : collide c d = false := by
  by_contra hne
  exact h (mem_emphatic_of_collide (Bool.not_eq_false _ ▸ hne)).2

theorem not_blank_of_mem_emphatic {c : Char} (h : c ∈ emphatic) : isBlank c = false := by
  have hall : emphatic.all (fun c => !isBlank c) = true := by decide
  simpa using List.all_eq_true.1 hall c h

/-- Both passes over plain text at once. -/
def spread : List Char → List Char
  | c :: d :: r =>
    if collide c d then c :: zeroWidthSpace :: spread (d :: r) else c :: spread (d :: r)
  | cs => cs

theorem separate_cons (left right : Char → Bool) (c : Char) (r : List Char) :
    ∃ x, separate left right (c :: r) = c :: x := by
  cases r with
  | nil => exact ⟨[], rfl⟩
  | cons d r =>
    unfold separate
    split
    · exact ⟨_, rfl⟩
    · exact ⟨_, rfl⟩

theorem spread_cons (c : Char) (r : List Char) : ∃ x, spread (c :: r) = c :: x := by
  cases r with
  | nil => exact ⟨[], rfl⟩
  | cons d r =>
    unfold spread
    split
    · exact ⟨_, rfl⟩
    · exact ⟨_, rfl⟩

theorem separatePlain_eq_spread (cs : List Char) : separatePlain cs = spread cs := by
  have hclosing : isClosingGlyph zeroWidthSpace = false := by decide
  have hstar : isStar zeroWidthSpace = false := by decide
  induction cs with
  | nil => rfl
  | cons c r ih =>
    cases r with
    | nil => rfl
    | cons d r =>
      obtain ⟨x, hx⟩ := separate_cons isStar isOpeningGlyph d r
      simp only [separatePlain] at ih ⊢
      rw [separate, spread, ← ih]
      cases hopen : isStar c && isOpeningGlyph d with
      | true => simp [collide, hopen, hx, separate, hclosing, hstar]
      | false =>
        cases hclose : isClosingGlyph c && isStar d with
        | true => simp [collide, hopen, hclose, hx, separate]
        | false => simp [collide, hopen, hclose, hx, separate]

theorem spread_spread (cs : List Char) : spread (spread cs) = spread cs := by
  induction cs with
  | nil => rfl
  | cons c r ih =>
    cases r with
    | nil => rfl
    | cons d r =>
      obtain ⟨x, hx⟩ := spread_cons d r
      rw [hx] at ih
      rw [spread, hx]
      split
      · have hleft : collide zeroWidthSpace d = false := collide_left_false (by decide) d
        have hright : collide c zeroWidthSpace = false := collide_right_false (by decide) c
        simp [spread, hleft, hright, ih]
      · rename_i hgap
        simp [spread, hgap, ih]

/-- A text, and the text with zero-width spaces in some of its gaps. -/
inductive Gapped : List Char → List Char → Prop
  | nil : Gapped [] []
  | cons (c : Char) {l m : List Char} : Gapped l m → Gapped (c :: l) (c :: m)
  | gap {c d : Char} {l m : List Char} : collide c d = true → Gapped (d :: l) (d :: m) →
    Gapped (c :: d :: l) (c :: zeroWidthSpace :: d :: m)

namespace Gapped

variable {l m : List Char}

@[refl] theorem refl (l : List Char) : Gapped l l := by
  induction l with
  | nil => exact .nil
  | cons c l ih => exact .cons c ih

theorem head?_eq (h : Gapped l m) : l.head? = m.head? := by
  cases h <;> rfl

theorem eq_nil_iff (h : Gapped l m) : l = [] ↔ m = [] := by
  cases h <;> simp

theorem getLast?_eq (h : Gapped l m) : l.getLast? = m.getLast? := by
  induction h with
  | nil => rfl
  | cons c _ ih => rw [List.getLast?_cons, List.getLast?_cons, ih]
  | gap _ _ ih => simpa [List.getLast?_cons] using ih

theorem length_le (h : Gapped l m) : l.length ≤ m.length := by
  induction h with
  | nil => exact Nat.le_refl 0
  | cons c _ ih => simpa using ih
  | gap _ _ ih => simp only [List.length_cons] at ih ⊢; omega

/-- What only looks at other characters than the zero-width space counts the same. -/
theorem countP_eq {p : Char → Bool} (hp : p zeroWidthSpace = false) (h : Gapped l m) :
    l.countP p = m.countP p := by
  induction h with
  | nil => rfl
  | cons c _ ih => rw [List.countP_cons, List.countP_cons, ih]
  | gap _ _ ih => simp only [List.countP_cons, hp] at ih ⊢; simp [ih]

theorem mem_iff {c : Char} (hc : c ≠ zeroWidthSpace) (h : Gapped l m) : c ∈ l ↔ c ∈ m := by
  have hcount := h.countP_eq (p := (· == c)) (by simpa using hc.symm)
  rw [← List.count_pos_iff, ← List.count_pos_iff, List.count_eq_countP, List.count_eq_countP,
    hcount]

/-- Without zero-width spaces there is no difference. -/
theorem filter_eq (h : Gapped l m) :
    l.filter (· != zeroWidthSpace) = m.filter (· != zeroWidthSpace) := by
  have hcons (c : Char) (x : List Char) : (c :: x).filter (· != zeroWidthSpace) =
      [c].filter (· != zeroWidthSpace) ++ x.filter (· != zeroWidthSpace) :=
    List.filter_append [c] x
  induction h with
  | nil => rfl
  | @cons c l m _ ih => rw [hcons c l, hcons c m, ih]
  | @gap c d l m _ _ ih =>
    have hskip : [zeroWidthSpace].filter (· != zeroWidthSpace) = [] := by decide
    rw [hcons c (d :: l), hcons c (zeroWidthSpace :: d :: m), hcons zeroWidthSpace (d :: m), hskip,
      List.nil_append, ih]

/-- Text before a gap that is not beside it stays as it is. -/
theorem append_left {a : List Char} (ha : Gapped l m) : Gapped (a ++ l) (a ++ m) := by
  induction a with
  | nil => exact ha
  | cons c a ih => exact .cons c ih

/-- A text without asterisks has no gaps. -/
theorem eq_of_noStar (hl : '*' ∉ l) (h : Gapped l m) : m = l := by
  induction h with
  | nil => rfl
  | cons c _ ih => rw [ih fun hmem => hl (.tail _ hmem)]
  | gap hgap _ _ =>
    rcases eq_star_of_collide hgap with rfl | rfl
    · exact absurd (by simp) hl
    · exact absurd (by simp) hl

/-- A gapped text, at any point of the text: the point may be a gap itself. -/
theorem append_inv {a b : List Char} (h : Gapped (a ++ b) m) :
    ∃ a' b', Gapped a a' ∧ Gapped b b' ∧
      (m = a' ++ b' ∨ m = a' ++ zeroWidthSpace :: b' ∧
        ∃ c ∈ a.getLast?, ∃ d ∈ b.head?, collide c d = true) := by
  induction a generalizing m with
  | nil => exact ⟨[], m, .nil, h, .inl rfl⟩
  | cons c a ih =>
    have hlast {e : Char} (he : e ∈ a.getLast?) : e ∈ (c :: a).getLast? := by
      rw [Option.mem_def] at he ⊢
      rw [List.getLast?_cons, he, Option.getD_some]
    generalize hl : c :: a ++ b = l at h
    cases h with
    | nil => simp at hl
    | cons _ h =>
      obtain ⟨rfl, rfl⟩ := List.cons.inj hl
      obtain ⟨a', b', ha, hb, rfl | ⟨rfl, e, he, d, hd, hgap⟩⟩ := ih h
      · exact ⟨c :: a', b', .cons c ha, hb, .inl rfl⟩
      · exact ⟨c :: a', b', .cons c ha, hb, .inr ⟨rfl, e, hlast he, d, hd, hgap⟩⟩
    | @gap _ d _ m' hgap h =>
      obtain ⟨rfl, hab⟩ := List.cons.inj hl
      cases a with
      | nil =>
        obtain rfl : b = d :: _ := hab
        exact ⟨[c], d :: m', .cons c .nil, h, .inr ⟨rfl, c, rfl, d, rfl, hgap⟩⟩
      | cons e a =>
        obtain ⟨rfl, _⟩ := List.cons.inj hab
        obtain ⟨a', b', ha, hb, hm⟩ := ih (hab ▸ h)
        obtain ⟨x, rfl⟩ : ∃ x, a' = e :: x := by
          have hhead := ha.head?_eq
          cases a' with
          | nil => simp at hhead
          | cons f x => exact ⟨x, by simpa using hhead.symm⟩
        refine ⟨c :: zeroWidthSpace :: e :: x, b', .gap hgap ha, hb, ?_⟩
        rcases hm with hm | ⟨hm, f, hf, d, hd, hgap'⟩
        · exact .inl (by rw [hm]; rfl)
        · exact .inr ⟨by rw [hm]; rfl, f, hlast hf, d, hd, hgap'⟩

theorem of_append {a b : List Char} (h : Gapped (a ++ b) m) :
    ∃ a' b', m = a' ++ b' ∧ Gapped b b' := by
  obtain ⟨a', b', _, hb, rfl | ⟨rfl, _⟩⟩ := h.append_inv
  · exact ⟨a', b', rfl, hb⟩
  · exact ⟨a' ++ [zeroWidthSpace], b', by simp, hb⟩

/-- A word without asterisks holds no gap. -/
theorem of_word_append {w b : List Char} (hw : '*' ∉ w) (h : Gapped (w ++ b) m) :
    ∃ b', m = w ++ b' := by
  obtain ⟨w', b', hw', _, hm⟩ := h.append_inv
  obtain rfl := hw'.eq_of_noStar hw
  rcases hm with rfl | ⟨rfl, _⟩
  · exact ⟨b', rfl⟩
  · exact ⟨zeroWidthSpace :: b', rfl⟩

theorem noStar_of_blanks {a : List Char} (ha : ∀ c ∈ a, isBlank c = true) : '*' ∉ a :=
  fun hmem => absurd (ha _ hmem) (by decide)

/-- White space is not beside a gap. -/
theorem of_blanks_append {a b : List Char} (ha : ∀ c ∈ a, isBlank c = true)
    (h : Gapped (a ++ b) m) : ∃ b', m = a ++ b' ∧ Gapped b b' := by
  obtain ⟨a', b', ha', hb, hm⟩ := h.append_inv
  obtain rfl := ha'.eq_of_noStar (noStar_of_blanks ha)
  rcases hm with rfl | ⟨_, c, hc, _, _, hgap⟩
  · exact ⟨b', rfl, hb⟩
  · have hblank := not_blank_of_mem_emphatic (mem_emphatic_of_collide hgap).1
    simp [ha c (List.mem_of_getLast? hc)] at hblank

theorem of_append_blanks {a b : List Char} (hb : ∀ c ∈ b, isBlank c = true)
    (h : Gapped (a ++ b) m) : ∃ a', m = a' ++ b ∧ Gapped a a' := by
  obtain ⟨a', b', ha, hb', hm⟩ := h.append_inv
  obtain rfl := hb'.eq_of_noStar (noStar_of_blanks hb)
  rcases hm with rfl | ⟨_, _, _, d, hd, hgap⟩
  · exact ⟨a', rfl, ha⟩
  · have hblank := not_blank_of_mem_emphatic (mem_emphatic_of_collide hgap).2
    simp [hb d (List.mem_of_mem_head? hd)] at hblank

/-- The other way round, at any point that is not just before a zero-width space. -/
theorem append_of {a b : List Char} (h : Gapped l (a ++ b))
    (hb : b.head? ≠ some zeroWidthSpace) : ∃ a' b', l = a' ++ b' ∧ Gapped b' b := by
  generalize hm : a ++ b = m at h
  induction h generalizing a with
  | nil =>
    obtain ⟨rfl, rfl⟩ := List.append_eq_nil_iff.1 hm
    exact ⟨[], [], rfl, .nil⟩
  | @cons c l m h ih =>
    cases a with
    | nil =>
      obtain rfl : b = c :: m := hm
      exact ⟨[], c :: l, rfl, .cons c h⟩
    | cons e a =>
      obtain ⟨rfl, hrest⟩ := List.cons.inj hm
      obtain ⟨a', b', rfl, hb'⟩ := ih hrest
      exact ⟨e :: a', b', rfl, hb'⟩
  | @gap c d l m hgap h ih =>
    cases a with
    | nil =>
      obtain rfl : b = c :: zeroWidthSpace :: d :: m := hm
      exact ⟨[], c :: d :: l, rfl, .gap hgap h⟩
    | cons e a =>
      obtain ⟨rfl, hrest⟩ := List.cons.inj hm
      cases a with
      | nil =>
        obtain rfl : b = zeroWidthSpace :: d :: m := hrest
        simp at hb
      | cons z a =>
        obtain ⟨rfl, hrest'⟩ := List.cons.inj hrest
        obtain ⟨a', b', hl, hb'⟩ := ih hrest'
        exact ⟨e :: a', b', by rw [hl]; rfl, hb'⟩

theorem word_append_of {w b : List Char} (hw : zeroWidthSpace ∉ w) (h : Gapped l (w ++ b)) :
    ∃ b', l = w ++ b' := by
  induction w generalizing l with
  | nil => exact ⟨l, rfl⟩
  | cons c w ih =>
    generalize hm : c :: w ++ b = m at h
    cases h with
    | nil => simp at hm
    | cons _ h =>
      obtain ⟨rfl, rfl⟩ := List.cons.inj hm
      obtain ⟨b', rfl⟩ := ih (fun hmem => hw (.tail _ hmem)) h
      exact ⟨b', rfl⟩
    | gap hgap h =>
      obtain ⟨rfl, hwb⟩ := List.cons.inj hm
      cases w with
      | nil => exact ⟨_, rfl⟩
      | cons e w =>
        obtain ⟨rfl, _⟩ := List.cons.inj hwb
        exact absurd (by simp) hw

/-- Words stand in a text with filled gaps where they stand in the text. -/
theorem prefix_iff {w : List Char} (hw : '*' ∉ w ∧ zeroWidthSpace ∉ w) (h : Gapped l m) :
    w <+: l ↔ w <+: m := by
  constructor
  · rintro ⟨b, rfl⟩
    obtain ⟨b', rfl⟩ := h.of_word_append hw.1
    exact ⟨b', rfl⟩
  · rintro ⟨b, rfl⟩
    obtain ⟨b', rfl⟩ := h.word_append_of hw.2
    exact ⟨b', rfl⟩

theorem head?_ne_zeroWidthSpace {w b : List Char} (hw : zeroWidthSpace ∉ w) (hne : w ≠ []) :
    (w ++ b).head? ≠ some zeroWidthSpace := by
  cases w with
  | nil => exact absurd rfl hne
  | cons c w =>
    rintro heq
    obtain rfl : c = zeroWidthSpace := by simpa using heq
    exact hw (by simp)

theorem infix_iff {w : List Char} (hw : '*' ∉ w ∧ zeroWidthSpace ∉ w) (h : Gapped l m) :
    w <:+: l ↔ w <:+: m := by
  by_cases hne : w = []
  · simp [hne]
  constructor
  · rintro ⟨a, b, rfl⟩
    rw [List.append_assoc] at h
    obtain ⟨a', x, rfl, hx⟩ := h.of_append
    obtain ⟨b', rfl⟩ := hx.of_word_append hw.1
    exact ⟨a', b', by rw [List.append_assoc]⟩
  · rintro ⟨a, b, rfl⟩
    rw [List.append_assoc] at h
    obtain ⟨a', x, rfl, hx⟩ := h.append_of (head?_ne_zeroWidthSpace hw.2 hne)
    obtain ⟨b', rfl⟩ := hx.word_append_of hw.2
    exact ⟨a', b', by rw [List.append_assoc]⟩

theorem suffix_iff {w : List Char} (hw : '*' ∉ w ∧ zeroWidthSpace ∉ w) (h : Gapped l m) :
    w <:+ l ↔ w <:+ m := by
  by_cases hne : w = []
  · simp [hne]
  constructor
  · rintro ⟨a, rfl⟩
    obtain ⟨a', x, rfl, hx⟩ := h.of_append
    rw [hx.eq_of_noStar hw.1]
    exact ⟨a', rfl⟩
  · rintro ⟨a, rfl⟩
    have hhead : w.head? ≠ some zeroWidthSpace := by
      simpa using head?_ne_zeroWidthSpace (b := []) hw.2 hne
    obtain ⟨a', x, rfl, hx⟩ := h.append_of hhead
    have hstar : '*' ∉ x := fun hmem => hw.1 ((hx.mem_iff (by decide)).1 hmem)
    rw [hx.eq_of_noStar hstar]
    exact ⟨a', rfl⟩

/-- The same white space stands around both. -/
theorem exists_trim (h : Gapped l m) : ∃ a b, l = a ++ Text.trim l ++ b ∧
    m = a ++ Text.trim m ++ b ∧ Gapped (Text.trim l) (Text.trim m) := by
  obtain ⟨a, b, hl, ha, hb⟩ := Text.exists_trim l
  have hrest := h
  rw [hl, List.append_assoc] at hrest
  obtain ⟨x, rfl, hx⟩ := hrest.of_blanks_append ha
  obtain ⟨core, rfl, hcore⟩ := hx.of_append_blanks hb
  have htrimmed : Trimmed core := by
    constructor
    · rw [← hcore.head?_eq]
      exact (trimmed_trim l).first
    · rw [← hcore.getLast?_eq]
      exact (trimmed_trim l).last
  have htrim : Text.trim (a ++ (core ++ b)) = core := by
    rw [← List.append_assoc, trim_around ha htrimmed hb]
  refine ⟨a, b, hl, ?_, ?_⟩
  · rw [htrim, List.append_assoc]
  · rw [htrim]
    exact hcore

theorem trim (h : Gapped l m) : Gapped (trim l) (trim m) := by
  obtain ⟨_, _, _, _, htrim⟩ := h.exists_trim
  exact htrim

theorem trim_eq_trim_iff (h : Gapped l m) : Text.trim m = Text.trim l ↔ m = l := by
  constructor
  · intro heq
    obtain ⟨a, b, hl, hm, _⟩ := h.exists_trim
    rw [hl, hm, heq]
  · rintro rfl
    rfl

end Gapped

end MarkdownDocx.Markdown

import Mathlib.Data.List.DropRight
import MarkdownDocx.Text.Blank

/-!
Trimming. A text is its trimmed text between white space, and a trimmed text is one whose first and
last characters are not white space.
-/

set_option autoImplicit false

namespace MarkdownDocx.Text

/-- Neither end is white space. -/
structure Trimmed (cs : List Char) : Prop where
  first : ∀ c ∈ cs.head?, isBlank c = false
  last : ∀ c ∈ cs.getLast?, isBlank c = false

theorem trimmed_nil : Trimmed [] := ⟨by simp, by simp⟩

theorem trimLeft_append {a : List Char} (ha : ∀ c ∈ a, isBlank c = true) (cs : List Char) :
    trimLeft (a ++ cs) = trimLeft cs :=
  List.dropWhile_append_of_pos ha

theorem trimRight_append (cs : List Char) {b : List Char} (hb : ∀ c ∈ b, isBlank c = true) :
    trimRight (cs ++ b) = trimRight cs := by
  have hdrop : ∀ c ∈ b.reverse, isBlank c = true := fun c hc => hb c (List.mem_reverse.1 hc)
  rw [trimRight, List.reverse_append, List.dropWhile_append_of_pos hdrop, trimRight]

theorem trimLeft_eq_self {cs : List Char} (h : ∀ c ∈ cs.head?, isBlank c = false) :
    trimLeft cs = cs := by
  cases cs with
  | nil => rfl
  | cons c r =>
    have hc := h c (by simp)
    simp [trimLeft, hc]

theorem trimRight_eq_self {cs : List Char} (h : ∀ c ∈ cs.getLast?, isBlank c = false) :
    trimRight cs = cs := by
  have hreverse : trimLeft cs.reverse = cs.reverse := trimLeft_eq_self (by simpa using h)
  simp only [trimLeft] at hreverse
  simp [trimRight, hreverse]

theorem exists_trimLeft (cs : List Char) :
    ∃ a, cs = a ++ trimLeft cs ∧ ∀ c ∈ a, isBlank c = true :=
  ⟨cs.takeWhile isBlank, by simp [trimLeft], fun _ hc => List.mem_takeWhile_imp hc⟩

theorem exists_trimRight (cs : List Char) :
    ∃ b, cs = trimRight cs ++ b ∧ ∀ c ∈ b, isBlank c = true := by
  refine ⟨cs.rtakeWhile isBlank, ?_, fun _ hc => List.mem_rtakeWhile_imp hc⟩
  exact List.rdropWhile_append_rtakeWhile.symm

theorem trimLeft_head {cs : List Char} : ∀ c ∈ (trimLeft cs).head?, isBlank c = false := by
  intro c hc
  have hhead := List.head?_dropWhile_not isBlank cs
  rw [trimLeft, Option.mem_def] at hc
  simpa [hc] using hhead

theorem trimRight_last {cs : List Char} : ∀ c ∈ (trimRight cs).getLast?, isBlank c = false := by
  intro c hc
  rw [trimRight, List.getLast?_reverse] at hc
  exact trimLeft_head c hc

theorem trimmed_trim (cs : List Char) : Trimmed (trim cs) := by
  refine ⟨?_, trimRight_last⟩
  obtain ⟨b, hb, _⟩ := exists_trimRight (trimLeft cs)
  intro c hc
  refine @trimLeft_head cs c ?_
  rw [hb]
  cases hr : trimRight (trimLeft cs) with
  | nil => simp [trim, hr] at hc
  | cons d r => simpa [trim, hr] using hc

/-- White space around a trimmed text is what trimming removes. -/
theorem trim_around {a core b : List Char} (ha : ∀ c ∈ a, isBlank c = true)
    (hcore : Trimmed core) (hb : ∀ c ∈ b, isBlank c = true) : trim (a ++ core ++ b) = core := by
  rw [trim, List.append_assoc, trimLeft_append ha]
  cases core with
  | nil =>
    have hnil : trimLeft (b ++ []) = trimLeft [] := trimLeft_append hb []
    rw [List.append_nil] at hnil
    rw [List.nil_append, hnil]
    rfl
  | cons c r =>
    have hhead : trimLeft (c :: r ++ b) = c :: r ++ b :=
      trimLeft_eq_self (by simpa using hcore.first)
    rw [hhead, trimRight_append _ hb, trimRight_eq_self hcore.last]

/-- A text is its trimmed text between white space. -/
theorem exists_trim (cs : List Char) :
    ∃ a b, cs = a ++ trim cs ++ b ∧ (∀ c ∈ a, isBlank c = true) ∧ ∀ c ∈ b, isBlank c = true := by
  obtain ⟨a, ha, hblank⟩ := exists_trimLeft cs
  obtain ⟨b, hb, hblank'⟩ := exists_trimRight (trimLeft cs)
  refine ⟨a, b, ?_, hblank, hblank'⟩
  rw [trim, List.append_assoc, ← hb, ← ha]

theorem trim_within (cs : List Char) : trim cs <:+: cs := by
  obtain ⟨a, b, hcs, -, -⟩ := exists_trim cs
  exact ⟨a, b, hcs.symm⟩

theorem trim_eq_self {cs : List Char} (h : Trimmed cs) : trim cs = cs := by
  rw [trim, trimLeft_eq_self h.first, trimRight_eq_self h.last]

@[simp] theorem trim_trim (cs : List Char) : trim (trim cs) = trim cs :=
  trim_eq_self (trimmed_trim cs)

theorem mem_of_mem_trim {cs : List Char} {c : Char} (h : c ∈ trim cs) : c ∈ cs :=
  (trim_within cs).subset h

theorem infix_blanks_append {w a : List Char} (hw : ∀ c ∈ w, isBlank c = false) (hne : w ≠ [])
    (ha : ∀ c ∈ a, isBlank c = true) (cs : List Char) : w <:+: a ++ cs ↔ w <:+: cs := by
  induction a with
  | nil => rfl
  | cons c a ih =>
    obtain ⟨hc, ha⟩ := List.forall_mem_cons.1 ha
    have hbegins : ¬ w <+: c :: (a ++ cs) := by
      intro h
      cases w with
      | nil => exact hne rfl
      | cons d w =>
        obtain ⟨rfl, -⟩ := List.cons_prefix_cons.1 h
        exact absurd (hw d (by simp)) (by simp [hc])
    rw [List.cons_append, List.infix_cons_iff, ih ha, or_iff_right hbegins]

/-- A word without white space stands in a trimmed text if it stands in the text. -/
theorem infix_trim_iff {w cs : List Char} (hw : ∀ c ∈ w, isBlank c = false) (hne : w ≠ []) :
    w <:+: trim cs ↔ w <:+: cs := by
  obtain ⟨a, b, hcs, ha, hb⟩ := exists_trim cs
  have hafter : w <:+: trim cs ++ b ↔ w <:+: trim cs := by
    rw [← List.reverse_infix, List.reverse_append,
      infix_blanks_append (by simpa using hw) (by simpa using hne) (by simpa using hb),
      List.reverse_infix]
  conv_rhs => rw [hcs, List.append_assoc, infix_blanks_append hw hne ha, hafter]

/-- Only white space is trimmed away altogether. -/
theorem trim_eq_nil_iff {cs : List Char} : trim cs = [] ↔ isBlankText cs = true := by
  rw [isBlankText, List.all_eq_true]
  constructor
  · intro h
    obtain ⟨a, b, hcs, ha, hb⟩ := exists_trim cs
    rw [h, List.append_nil] at hcs
    intro c hc
    rw [hcs, List.mem_append] at hc
    exact hc.elim (ha c) (hb c)
  · intro h
    have htrim := trim_around h trimmed_nil (b := []) (by simp)
    simpa using htrim

end MarkdownDocx.Text

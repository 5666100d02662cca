/-!
Fixed words inside a text.
-/

set_option autoImplicit false

namespace MarkdownDocx.Text

/-- The rest after a word, if the text begins with it. -/
def afterWord : List Char → List Char → Option (List Char)
  | [], cs => some cs
  | w :: ws, c :: cs => if w = c then afterWord ws cs else none
  | _ :: _, [] => none

/-- What stands before the first place where a word begins, and what follows the word. -/
def readUntil (word : List Char) : List Char → Option (List Char × List Char)
  | [] => none
  | c :: r =>
    match afterWord word (c :: r) with
    | some rest => some ([], rest)
    | none => (readUntil word r).map fun p => (c :: p.1, p.2)

/-- Whether a word stands somewhere in a text. -/
def occursIn (word : List Char) : List Char → Bool
  | [] => word.isEmpty
  | c :: r => (afterWord word (c :: r)).isSome || occursIn word r

theorem afterWord_eq_some_iff {word cs rest : List Char} :
    afterWord word cs = some rest ↔ cs = word ++ rest := by
  fun_induction afterWord word cs with
  | case1 cs => simp [eq_comm]
  | case2 ws c cs ih => simp [ih]
  | case3 w ws c cs h => simp [Ne.symm h]
  | case4 => simp

theorem readUntil_eq {word cs a b : List Char} (h : readUntil word cs = some (a, b)) :
    cs = a ++ word ++ b := by
  fun_induction readUntil word cs generalizing a b with
  | case1 => simp at h
  | case2 c r rest hr =>
    simp at h
    simp [h.1.symm, h.2.symm, afterWord_eq_some_iff.1 hr]
  | case3 c r _ ih =>
    obtain ⟨⟨x, y⟩, hxy, he⟩ := Option.map_eq_some_iff.1 h
    simp at he
    simp [← he.1, ← he.2, ih hxy]

/-- A word occurs exactly in the texts that it splits in two. -/
theorem occursIn_iff {word cs : List Char} : occursIn word cs = true ↔ ∃ a b, cs = a ++ word ++ b := by
  induction cs with
  | nil =>
    simp only [occursIn, List.isEmpty_iff]
    constructor
    · rintro rfl; exact ⟨[], [], rfl⟩
    · rintro ⟨a, b, h⟩
      simp at h
      exact h.2.1
  | cons c r ih =>
    simp only [occursIn, Bool.or_eq_true, ih]
    constructor
    · rintro (h | ⟨a, b, rfl⟩)
      · obtain ⟨rest, hr⟩ := Option.isSome_iff_exists.1 h
        exact ⟨[], rest, afterWord_eq_some_iff.1 hr⟩
      · exact ⟨c :: a, b, rfl⟩
    · rintro ⟨a, b, h⟩
      cases a with
      | nil =>
        left
        rw [Option.isSome_iff_exists]
        exact ⟨b, afterWord_eq_some_iff.2 h⟩
      | cons x a =>
        right
        simp at h
        exact ⟨a, b, by simpa using h.2⟩

end MarkdownDocx.Text

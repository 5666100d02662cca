import Mathlib.Data.List.Infix
import Mathlib.Data.List.TakeWhile
import MarkdownDocx.Latex.Check

/-!
Where environments begin and end in a formula. A mark is described by its characters; the marks that
are found from left to right are all that stand somewhere, because no two of them overlap.
-/

set_option autoImplicit false

namespace MarkdownDocx.Latex

open MarkdownDocx.Text

/-- The word that begins or ends an environment. -/
def Mark.word (m : Mark) : List Char :=
  if m.begins then ['\\', 'b', 'e', 'g', 'i', 'n'] else ['\\', 'e', 'n', 'd']

/-- A name between braces, which may stand after white space. -/
def Braced (name cs rest : List Char) : Prop :=
  ∃ blanks, (∀ c ∈ blanks, isBlank c = true) ∧ (∀ c ∈ name, c ≠ '\x7b' ∧ c ≠ '\x7d') ∧
    cs = blanks ++ '\x7b' :: (name ++ '\x7d' :: rest)

/-- A mark stands at the beginning of a text. -/
def Mark.Heads (m : Mark) (cs : List Char) : Prop :=
  ∃ r rest, cs = m.word ++ r ∧ Braced m.name r rest

theorem dropWhile_stop {p : Char → Bool} {a r : List Char} {c : Char} (ha : ∀ d ∈ a, p d = true)
    (hc : p c = false) :
    (a ++ c :: r).takeWhile p = a ∧ (a ++ c :: r).dropWhile p = c :: r := by
  simp [List.takeWhile_append_of_pos ha, List.dropWhile_append_of_pos ha, hc]

theorem readBraced_iff {cs name rest : List Char} :
    readBraced cs = some (name, rest) ↔ Braced name cs rest := by
  constructor
  · intro h
    unfold readBraced at h
    split at h
    · rename_i r hr
      split at h
      · rename_i rest' hrest
        simp only [Option.some.injEq, Prod.mk.injEq] at h
        obtain ⟨rfl, rfl⟩ := h
        refine ⟨cs.takeWhile isBlank, fun c hc => List.mem_takeWhile_imp hc, ?_, ?_⟩
        · intro c hc
          simpa using List.mem_takeWhile_imp hc
        · rw [← hrest, List.takeWhile_append_dropWhile, ← hr, List.takeWhile_append_dropWhile]
      · cases h
    · cases h
  · rintro ⟨blanks, hblanks, hname, rfl⟩
    have hinside : ∀ c ∈ name, (c != '\x7b' && c != '\x7d') = true := by simpa using hname
    have hopen := dropWhile_stop (c := '\x7b') (r := name ++ '\x7d' :: rest) hblanks (by decide)
    have hclose := dropWhile_stop (p := fun c => c != '\x7b' && c != '\x7d') (c := '\x7d')
      (r := rest) hinside (by decide)
    simp [readBraced, hopen, hclose]

theorem readMark_iff {cs rest : List Char} {m : Mark} :
    readMark cs = some (m, rest) ↔ ∃ r, cs = m.word ++ r ∧ Braced m.name r rest := by
  obtain ⟨begins, name⟩ := m
  constructor
  · intro h
    unfold readMark at h
    split at h
    · rename_i r hr
      obtain ⟨⟨n, b⟩, hbraced, heq⟩ := Option.map_eq_some_iff.1 h
      cases heq
      exact ⟨r, afterWord_eq_some_iff.1 hr, readBraced_iff.1 hbraced⟩
    · split at h
      · rename_i r hr
        obtain ⟨⟨n, b⟩, hbraced, heq⟩ := Option.map_eq_some_iff.1 h
        cases heq
        exact ⟨r, afterWord_eq_some_iff.1 hr, readBraced_iff.1 hbraced⟩
      · cases h
  · rintro ⟨r, rfl, hbraced⟩
    cases begins with
    | true => simp [readMark, Mark.word, afterWord, readBraced_iff.2 hbraced]
    | false => simp [readMark, Mark.word, afterWord, readBraced_iff.2 hbraced]

theorem Mark.heads_iff {m : Mark} {cs : List Char} :
    m.Heads cs ↔ (readMark cs).map Prod.fst = some m := by
  simp only [Mark.Heads, Option.map_eq_some_iff, Prod.exists, exists_and_right, exists_eq_right,
    readMark_iff]
  exact exists_comm

instance (m : Mark) (cs : List Char) : Decidable (m.Heads cs) :=
  decidable_of_iff _ Mark.heads_iff.symm

/-- In how many places of a text a mark stands. -/
def occurrences (m : Mark) (cs : List Char) : Nat := cs.tails.countP fun s => m.Heads s

theorem occurrences_nil (m : Mark) : occurrences m [] = 0 := by
  simp [occurrences, Mark.heads_iff, readMark, afterWord]

theorem occurrences_cons (m : Mark) (c : Char) (r : List Char) :
    occurrences m (c :: r) = occurrences m r + if m.Heads (c :: r) then 1 else 0 := by
  simp [occurrences, List.countP_cons]

theorem occurrences_skip {m : Mark} {c : Char} {r : List Char} (h : ¬m.Heads (c :: r)) :
    occurrences m (c :: r) = occurrences m r := by
  rw [occurrences_cons, if_neg h, Nat.add_zero]

/-! No mark stands inside another one. -/

theorem Mark.not_heads_cons (m : Mark) {c : Char} (hc : c ≠ '\\') (r : List Char) :
    ¬m.Heads (c :: r) := by
  rintro ⟨s, rest, heq, _⟩
  cases hm : m.begins <;> simp [Mark.word, hm, hc] at heq

/-- The first brace of a mark opens, so no mark stands where the first brace closes. -/
theorem Mark.not_heads_name (m : Mark) {name : List Char} (hname : ∀ c ∈ name, c ≠ '\x7b')
    (rest : List Char) : ¬m.Heads (name ++ '\x7d' :: rest) := by
  rintro ⟨s, t, heq, blanks, hblanks, -, rfl⟩
  have hword : ∀ c ∈ m.word ++ blanks, c ≠ '\x7d' := by
    intro c hc
    rw [List.mem_append] at hc
    rcases hc with hc | hc
    · rintro rfl
      revert hc
      unfold Mark.word
      split <;> decide
    · rintro rfl
      exact absurd (hblanks _ hc) (by decide)
  rw [← List.append_assoc] at heq
  rcases List.append_eq_append_iff.1 heq with ⟨a, ha, hb⟩ | ⟨a, ha, hb⟩
  · cases a with
    | nil => simp at hb
    | cons d a =>
      obtain ⟨rfl, -⟩ := List.cons.inj hb
      exact hword '\x7d' (by rw [ha]; simp) rfl
  · cases a with
    | nil => simp at hb
    | cons d a =>
      obtain ⟨rfl, -⟩ := List.cons.inj hb
      exact hname '\x7b' (by rw [ha]; simp) rfl

theorem occurrences_plain (m : Mark) {a : List Char} (ha : ∀ c ∈ a, c ≠ '\\') (r : List Char) :
    occurrences m (a ++ r) = occurrences m r := by
  induction a with
  | nil => rfl
  | cons c a ih =>
    obtain ⟨hc, ha⟩ := List.forall_mem_cons.1 ha
    rw [List.cons_append, occurrences_skip (m.not_heads_cons hc _), ih ha]

theorem occurrences_name (m : Mark) {name : List Char} (hname : ∀ c ∈ name, c ≠ '\x7b')
    (rest : List Char) : occurrences m (name ++ '\x7d' :: rest) = occurrences m rest := by
  induction name with
  | nil => exact occurrences_skip (m.not_heads_cons (by decide) rest)
  | cons c name ih =>
    have hskip := occurrences_skip (m.not_heads_name hname rest)
    exact hskip.trans (ih (List.forall_mem_cons.1 hname).2)

/-- After the backslash of a mark, the next place where a mark can stand is after its name. -/
theorem occurrences_tail (m : Mark) {found : Mark} {c : Char} {r rest : List Char}
    (h : readMark (c :: r) = some (found, rest)) : occurrences m r = occurrences m rest := by
  obtain ⟨s, hs, blanks, hblanks, hname, rfl⟩ := readMark_iff.1 h
  obtain ⟨letters, hletters, hr⟩ :
      ∃ letters, (∀ d ∈ letters, d ≠ '\\') ∧
        r = letters ++ (blanks ++ '\x7b' :: (found.name ++ '\x7d' :: rest)) := by
    unfold Mark.word at hs
    split at hs
    · exact ⟨['b', 'e', 'g', 'i', 'n'], by simp, (List.cons.inj hs).2⟩
    · exact ⟨['e', 'n', 'd'], by simp, (List.cons.inj hs).2⟩
  have hblanks' : ∀ d ∈ blanks, d ≠ '\\' := by
    rintro d hd rfl
    exact absurd (hblanks _ hd) (by decide)
  rw [hr, occurrences_plain m hletters, occurrences_plain m hblanks',
    occurrences_skip (m.not_heads_cons (by decide) _),
    occurrences_name m fun d hd => (hname d hd).1]

/-- Reading from left to right finds a mark as often as it stands in the text. -/
theorem count_marks (m : Mark) (cs : List Char) : (marks cs).count m = occurrences m cs := by
  fun_induction marks cs with
  | case1 => exact (occurrences_nil m).symm
  | case2 c r found rest h ih =>
    have hheads : m.Heads (c :: r) ↔ found = m := by simp [Mark.heads_iff, h]
    rw [occurrences_cons, occurrences_tail m h, ← ih, List.count_cons]
    simp [hheads]
  | case3 c r h ih =>
    have hheads : ¬m.Heads (c :: r) := by simp [Mark.heads_iff, h]
    rw [occurrences_skip hheads, ih]

/-- No name is reported just when each stands as often at a beginning as at an end. -/
theorem unmatchedNames_eq_nil_iff {ms : List Mark} :
    unmatchedNames ms = [] ↔ ∀ name, ms.count ⟨true, name⟩ = ms.count ⟨false, name⟩ := by
  have hsort : unmatchedNames ms = [] ↔
      ∀ m ∈ ms, ms.count ⟨true, m.name⟩ = ms.count ⟨false, m.name⟩ := by
    rw [unmatchedNames, ← List.length_eq_zero_iff, List.length_mergeSort]
    simp [List.filter_eq_nil_iff]
  rw [hsort]
  constructor
  · intro h name
    by_cases hname : ∃ m ∈ ms, m.name = name
    · obtain ⟨m, hm, rfl⟩ := hname
      exact h m hm
    · have hnone : ∀ begins, ms.count ⟨begins, name⟩ = 0 := by
        intro begins
        rw [List.count_eq_zero]
        exact fun hmem => hname ⟨_, hmem, rfl⟩
      rw [hnone, hnone]
  · exact fun h m _ => h m.name

end MarkdownDocx.Latex

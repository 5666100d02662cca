import Mathlib.Data.List.Infix
import MarkdownDocx.Text.Span

/-!
Where spans end. A span is read off its own characters, whatever follows it; `$$` opens one if
there is a second `$$` anywhere later, the other marks if theirs comes again on the same line.
-/

set_option autoImplicit false

namespace MarkdownDocx.Text

def dollars : List Char := ['$', '$']

/-! ## Up to the next `$$` -/

theorem readToDouble_cons {c : Char} {r : List Char} (h : ¬ dollars <+: c :: r) :
    readToDouble (c :: r) = (readToDouble r).map fun p => (c :: p.1, p.2) := by
  refine readToDouble.eq_3 c r fun x hc hr => h ?_
  rw [hc, hr]
  exact ⟨x, rfl⟩

theorem dollars_prefix_iff {c : Char} {r : List Char} :
    dollars <+: c :: r ↔ c = '$' ∧ r.head? = some '$' := by
  cases r with
  | nil => simp [dollars]
  | cons d r => simp [dollars, List.cons_prefix_cons, eq_comm]

theorem readToDouble_append {a : List Char} (h : ¬ dollars <:+: a ++ ['$']) (x : List Char) :
    readToDouble (a ++ '$' :: '$' :: x) = some (a, x) := by
  induction a with
  | nil => rfl
  | cons c a ih =>
    rw [List.cons_append, List.infix_cons_iff, not_or] at h
    have hne : ¬ dollars <+: c :: (a ++ '$' :: '$' :: x) := by
      have hhead : (a ++ '$' :: '$' :: x).head? = (a ++ ['$']).head? := by cases a <;> rfl
      rw [dollars_prefix_iff, hhead, ← dollars_prefix_iff]
      exact h.1
    rw [List.cons_append, readToDouble_cons hne, ih h.2]
    rfl

theorem readToDouble_plain {x : List Char} (hx : '$' ∉ x) (y : List Char) :
    readToDouble (x ++ y) = (readToDouble y).map fun p => (x ++ p.1, p.2) := by
  induction x with
  | nil => simp
  | cons c x ih =>
    rw [List.mem_cons, not_or] at hx
    have hpair : ¬ dollars <+: c :: (x ++ y) := fun hpre =>
      hx.1 (dollars_prefix_iff.1 hpre).1.symm
    rw [List.cons_append, readToDouble_cons hpair, ih hx.2, Option.map_map]
    rfl

theorem readToDouble_eq_none_iff {cs : List Char} :
    readToDouble cs = none ↔ ¬ dollars <:+: cs := by
  induction cs with
  | nil => simp [readToDouble, dollars]
  | cons c r ih =>
    rw [List.infix_cons_iff]
    by_cases h : dollars <+: c :: r
    · obtain ⟨x, hx⟩ := h
      have hread : readToDouble (dollars ++ x) = some ([], x) := rfl
      rw [← hx, hread]
      simp
    · rw [readToDouble_cons h, Option.map_eq_none_iff, ih]
      simp [h]

/-- It is the first `$$`. -/
theorem noDollars_of_readToDouble {cs a b : List Char} (h : readToDouble cs = some (a, b)) :
    ¬ dollars <:+: a ++ ['$'] := by
  fun_induction readToDouble cs generalizing a b with
  | case1 => simp at h
  | case2 r =>
    obtain ⟨rfl, -⟩ : [] = a ∧ r = b := by simpa using h
    simp [dollars, List.infix_cons_iff]
  | case3 c r hne ih =>
    obtain ⟨⟨x, y⟩, hxy, he⟩ := Option.map_eq_some_iff.1 h
    obtain ⟨rfl, rfl⟩ : c :: x = a ∧ y = b := by simpa using he
    have hr := readToDouble_eq hxy
    rw [List.cons_append, List.infix_cons_iff, not_or]
    refine ⟨?_, ih hxy⟩
    rw [dollars_prefix_iff]
    rintro ⟨rfl, hhead⟩
    cases x with
    | nil => exact hne _ rfl hr
    | cons d x =>
      obtain rfl : d = '$' := by simpa using hhead
      exact hne _ rfl hr

theorem noDollars_append {x y : List Char} (hx : ¬ dollars <:+: x) (hy : ¬ dollars <:+: y)
    (hborder : x.getLast? ≠ some '$' ∨ y.head? ≠ some '$') : ¬ dollars <:+: x ++ y := by
  induction x with
  | nil => exact hy
  | cons c x ih =>
    rw [List.infix_cons_iff, not_or] at hx
    rw [List.cons_append, List.infix_cons_iff, not_or]
    cases x with
    | nil =>
      refine ⟨?_, hy⟩
      rw [dollars_prefix_iff]
      rintro ⟨rfl, hhead⟩
      exact hborder.elim (· rfl) (· hhead)
    | cons d x =>
      refine ⟨?_, ih hx.2 (by simpa using hborder)⟩
      rw [dollars_prefix_iff] at hx ⊢
      exact hx.1

theorem noDollars_of_append {x y : List Char} (h : ¬ dollars <:+: x ++ y) : ¬ dollars <:+: y :=
  fun hwithin => h (hwithin.trans (List.suffix_append x y).isInfix)

theorem noDollars_of_not_mem {x : List Char} (h : '$' ∉ x) : ¬ dollars <:+: x :=
  fun hwithin => h (hwithin.subset (by simp [dollars]))

/-! ## Up to a mark on the same line -/

theorem readToClose_cons {close c : Char} (hclose : c ≠ close) (hfeed : c ≠ '\n') (r : List Char) :
    readToClose close (c :: r) = (readToClose close r).map fun p => (c :: p.1, p.2) := by
  rw [readToClose, if_neg hclose, if_neg hfeed]

theorem readToClose_append {close : Char} {a : List Char} (ha : ∀ c ∈ a, c ≠ close ∧ c ≠ '\n')
    (x : List Char) : readToClose close (a ++ close :: x) = some (a, x) := by
  induction a with
  | nil => simp [readToClose]
  | cons c a ih =>
    obtain ⟨hclose, hfeed⟩ := ha c (by simp)
    rw [List.cons_append, readToClose_cons hclose hfeed, ih fun d hd => ha d (.tail _ hd)]
    rfl

theorem readToClose_plain {close : Char} {x : List Char} (hx : close ∉ x) (hfeed : '\n' ∉ x)
    (y : List Char) :
    readToClose close (x ++ y) = (readToClose close y).map fun p => (x ++ p.1, p.2) := by
  induction x with
  | nil => simp
  | cons c x ih =>
    rw [List.mem_cons, not_or] at hx hfeed
    rw [List.cons_append, readToClose_cons (Ne.symm hx.1) (Ne.symm hfeed.1), ih hx.2 hfeed.2,
      Option.map_map]
    rfl

theorem head?_ne_of_readToClose {close : Char} {r : List Char} (h : readToClose close r = none) :
    r.head? ≠ some close := by
  intro hhead
  cases r with
  | nil => cases hhead
  | cons c r =>
    obtain rfl : c = close := Option.some.inj hhead
    simp [readToClose] at h

theorem not_mem_of_readToClose {close : Char} {cs a b : List Char}
    (h : readToClose close cs = some (a, b)) : ∀ c ∈ a, c ≠ close ∧ c ≠ '\n' := by
  fun_induction readToClose close cs generalizing a b with
  | case1 => simp at h
  | case2 r =>
    obtain ⟨rfl, -⟩ : [] = a ∧ r = b := by simpa using h
    simp
  | case3 => simp at h
  | case4 c r hclose hfeed ih =>
    obtain ⟨⟨x, y⟩, hxy, he⟩ := Option.map_eq_some_iff.1 h
    obtain ⟨rfl, -⟩ : c :: x = a ∧ y = b := by simpa using he
    intro d hd
    rcases List.mem_cons.1 hd with rfl | hd
    · exact ⟨hclose, hfeed⟩
    · exact ih hxy d hd

/-- What stands on later lines does not close a span. -/
theorem readToClose_feed {close : Char} (hclose : close ≠ '\n') (cs x : List Char) :
    readToClose close (cs ++ '\n' :: x) =
      (readToClose close cs).map fun p => (p.1, p.2 ++ '\n' :: x) := by
  fun_induction readToClose close cs with
  | case1 => simp [readToClose, hclose.symm]
  | case2 r => simp [readToClose]
  | case3 r hne => simp [readToClose, hne]
  | case4 c r hne hfeed ih =>
    rw [List.cons_append, readToClose_cons hne hfeed, ih, Option.map_map, Option.map_map]
    rfl

theorem readLineSpan_eq_some_iff {mark : Char} {r s b : List Char} :
    readLineSpan mark r = some (s, b) ↔
      ∃ a, a ≠ [] ∧ readToClose mark r = some (a, b) ∧ s = mark :: (a ++ [mark]) := by
  unfold readLineSpan
  split
  · rename_i c a b' h
    constructor
    · intro heq
      obtain ⟨rfl, rfl⟩ : mark :: c :: (a ++ [mark]) = s ∧ b' = b := by simpa using heq
      exact ⟨c :: a, by simp, h, rfl⟩
    · rintro ⟨a', -, ha', rfl⟩
      obtain ⟨rfl, rfl⟩ : c :: a = a' ∧ b' = b := by simpa [h] using ha'
      rfl
  · rename_i hne
    constructor
    · simp
    · rintro ⟨a, ha, hread, -⟩
      cases a with
      | nil => exact absurd rfl ha
      | cons c a => exact absurd hread (hne c a b)

theorem readLineSpan_append {mark : Char} {r s b : List Char}
    (h : readLineSpan mark r = some (s, b)) (x : List Char) :
    ∃ t, s = mark :: t ∧ readLineSpan mark (t ++ x) = some (s, x) := by
  obtain ⟨a, ha, hread, rfl⟩ := readLineSpan_eq_some_iff.1 h
  have hagain := readToClose_append (not_mem_of_readToClose hread) x
  refine ⟨a ++ [mark], rfl, readLineSpan_eq_some_iff.2 ⟨a, ha, ?_, rfl⟩⟩
  simpa using hagain

theorem isSome_readLineSpan (mark : Char) (r : List Char) :
    (readLineSpan mark r).isSome = ((readToClose mark r).isSome && r.head? != some mark) := by
  cases r with
  | nil => rfl
  | cons c r =>
    by_cases hc : c = mark
    · simp [readLineSpan, readToClose, hc]
    · by_cases hfeed : c = '\n'
      · simp [readLineSpan, readToClose, hfeed]
      · cases hread : readToClose mark r with
        | none => simp [readLineSpan, readToClose, hc, hfeed, hread]
        | some p => simp [readLineSpan, readToClose, hc, hfeed, hread]

theorem isSome_readLineSpan_feed {mark : Char} (hmark : mark ≠ '\n') (r x : List Char) :
    (readLineSpan mark (r ++ '\n' :: x)).isSome = (readLineSpan mark r).isSome := by
  rw [isSome_readLineSpan, isSome_readLineSpan, readToClose_feed hmark, Option.isSome_map]
  cases r with
  | nil => simp [readToClose]
  | cons d r => rfl

/-! ## Spans -/

theorem readSpan_dollars (code : Bool) (r : List Char) :
    readSpan code ('$' :: '$' :: r) =
      (readToDouble r).map fun p => ('$' :: '$' :: (p.1 ++ ['$', '$']), p.2) := rfl

theorem readSpan_dollar (code : Bool) {r : List Char} (h : r.head? ≠ some '$') :
    readSpan code ('$' :: r) = readLineSpan '$' r :=
  readSpan.eq_2 code r fun x hr => h (by rw [hr]; rfl)

theorem readSpan_tick (code : Bool) (r : List Char) :
    readSpan code ('\x60' :: r) = if code then readLineSpan '\x60' r else none := rfl

theorem readSpan_other (code : Bool) {c : Char} (hdollar : c ≠ '$') (htick : c ≠ '\x60')
    (r : List Char) : readSpan code (c :: r) = none :=
  readSpan.eq_4 code (c :: r) (fun _ h => hdollar (List.cons.inj h).1)
    (fun _ h => hdollar (List.cons.inj h).1) (fun _ h => htick (List.cons.inj h).1)

/-- Only a dollar sign opens a formula. -/
theorem readSpan_of_ne_dollar {c : Char} (h : c ≠ '$') (r : List Char) :
    readSpan false (c :: r) = none := by
  by_cases htick : c = '\x60'
  · subst htick
    rfl
  · exact readSpan_other false h htick r

theorem exists_of_readSpan {cs a b : List Char} (h : readSpan false cs = some (a, b)) :
    ∃ x, a = '$' :: x ∧ cs = '$' :: (x ++ b) := by
  obtain ⟨c, x, rfl⟩ := List.exists_cons_of_ne_nil (readSpan_ne_nil h)
  have htext := readSpan_eq h
  by_cases hc : c = '$'
  · subst hc
    exact ⟨x, rfl, htext⟩
  · rw [htext, List.cons_append, readSpan_of_ne_dollar hc] at h
    cases h

/-- A dollar sign that opens nothing has none after it on its line. -/
theorem readToClose_of_plain {r : List Char} (h : readSpan false ('$' :: r) = none)
    (hnext : r.head? ≠ some '$') : readToClose '$' r = none := by
  rw [readSpan_dollar false hnext] at h
  have hsome := isSome_readLineSpan '$' r
  rw [h, Option.isSome_none, eq_comm, Bool.and_eq_false_iff] at hsome
  rcases hsome with hnone | hhead
  · simpa using hnone
  · exact absurd (by simpa using hhead) hnext

/-- What follows a span does not change where it ends. -/
theorem readSpan_append {code : Bool} {cs a b : List Char} (h : readSpan code cs = some (a, b))
    (x : List Char) : readSpan code (a ++ x) = some (a, x) := by
  unfold readSpan at h
  split at h
  · obtain ⟨⟨y, z⟩, hyz, he⟩ := Option.map_eq_some_iff.1 h
    obtain ⟨rfl, -⟩ : '$' :: '$' :: (y ++ ['$', '$']) = a ∧ z = b := by simpa using he
    have hagain := readToDouble_append (noDollars_of_readToDouble hyz) x
    simp [readSpan_dollars, hagain]
  · rename_i r hne
    obtain ⟨t, rfl, hread⟩ := readLineSpan_append h x
    have hhead : (t ++ x).head? ≠ some '$' := by
      have hsome := isSome_readLineSpan '$' (t ++ x)
      rw [hread] at hsome
      intro heq
      simp [heq] at hsome
    rw [List.cons_append, readSpan_dollar code hhead, hread]
  · split at h
    · obtain ⟨t, rfl, hread⟩ := readLineSpan_append h x
      rw [List.cons_append, readSpan_tick, if_pos ‹_›, hread]
    · simp at h
  · simp at h

theorem splitSpans_span {code : Bool} {cs a b : List Char} (h : readSpan code cs = some (a, b)) :
    splitSpans code cs = .span a :: splitSpans code b := by
  cases cs with
  | nil => simp [readSpan] at h
  | cons c r =>
    rw [splitSpans]
    split
    · rename_i a' b' h'
      obtain ⟨rfl, rfl⟩ : a' = a ∧ b' = b := by simpa [h] using h'.symm
      rfl
    · rename_i h'
      simp [h] at h'

theorem splitSpans_plain {code : Bool} {c : Char} {r : List Char}
    (h : readSpan code (c :: r) = none) :
    splitSpans code (c :: r) = consPlain c (splitSpans code r) := by
  rw [splitSpans]
  split
  · rename_i h'
    simp [h] at h'
  · rfl

/-- The first piece of a text begins with the text's first character. -/
theorem exists_splitSpans (code : Bool) (c : Char) (r : List Char) :
    (∃ x ps, splitSpans code (c :: r) = .plain (c :: x) :: ps) ∨
      (c = '$' ∨ c = '\x60') ∧ ∃ x ps, splitSpans code (c :: r) = .span (c :: x) :: ps := by
  cases h : readSpan code (c :: r) with
  | none =>
    left
    rw [splitSpans_plain h]
    unfold consPlain
    split
    · exact ⟨_, _, rfl⟩
    · exact ⟨[], _, rfl⟩
  | some p =>
    obtain ⟨a, b⟩ := p
    right
    have hmark : c = '$' ∨ c = '\x60' := by
      by_contra hne
      rw [not_or] at hne
      simp [readSpan_other code hne.1 hne.2] at h
    obtain ⟨d, x, rfl⟩ := List.exists_cons_of_ne_nil (readSpan_ne_nil h)
    obtain ⟨rfl, -⟩ := List.cons.inj (readSpan_eq h)
    exact ⟨hmark, x, splitSpans code b, splitSpans_span h⟩

end MarkdownDocx.Text

import Mathlib.Data.List.SplitBy
import Mathlib.Data.List.TakeWhile
import MarkdownDocx.Text.Cleanup

/-!
Gaps between Chinese characters. The passes close them kind by kind, and those between two Chinese
characters round after round, since a round does not use a character for two gaps. Together they
close what can be seen in the text at once: each longest run of spaces between two characters that
belong together.
-/

set_option autoImplicit false

namespace MarkdownDocx.Text

/-! ## The gaps of a text -/

/-- Two characters that belong together. -/
def joined (c d : Char) : Bool :=
  isHan c && isHan d || isHan c && isChinesePunctuation d || isChinesePunctuation c && isHan d

/-- The first character of a text that is no space. -/
def afterGap (cs : List Char) : Option Char := cs.find? fun c => !isGap c

/-- The last character before a point that is no space, one character further. -/
def beforeGap (before : Option Char) (c : Char) : Option Char := if isGap c then before else some c

/-- Whether spaces between these two go. Where a text begins or ends there is no character. -/
def closes (p : Char → Char → Bool) (before after : Option Char) : Bool :=
  before.any fun c => after.any (p c)

/-- Closes every gap between two characters that `p` relates. A gap counts where it ends. -/
def closeEvery (p : Char → Char → Bool) (before : Option Char) : List Char → Counted
  | [] => ⟨[], 0⟩
  | c :: r =>
    if isGap c && closes p before (afterGap r) then
      if r.head?.any isGap then closeEvery p before r else (closeEvery p before r).change []
    else (closeEvery p (beforeGap before c) r).keep c

/-- No gap is left between two characters that `p` relates. -/
def Tight (p : Char → Char → Bool) (before : Option Char) : List Char → Prop
  | [] => True
  | c :: r =>
    (isGap c = true → closes p before (afterGap r) = false) ∧ Tight p (beforeGap before c) r

/-- `p` relates no spaces. -/
def OffGaps (p : Char → Char → Bool) : Prop :=
  ∀ c d, p c d = true → isGap c = false ∧ isGap d = false

theorem afterGap_space {c : Char} (h : isGap c = true) (r : List Char) :
    afterGap (c :: r) = afterGap r :=
  List.find?_cons_of_neg (by simp [h])

theorem afterGap_word {c : Char} (h : isGap c = false) (r : List Char) :
    afterGap (c :: r) = some c :=
  List.find?_cons_of_pos (by simp [h])

theorem afterGap_eq (cs : List Char) : afterGap cs = (cs.dropWhile isGap).head? := by
  rw [afterGap, List.find?_eq_head?_dropWhile_not]
  simp

theorem afterGap_append {g : List Char} (hg : ∀ x ∈ g, isGap x = true) (cs : List Char) :
    afterGap (g ++ cs) = afterGap cs := by
  induction g with
  | nil => rfl
  | cons x g ih =>
    obtain ⟨hx, hg⟩ := List.forall_mem_cons.1 hg
    rw [List.cons_append, afterGap_space hx, ih hg]

@[simp] theorem closes_some (p : Char → Char → Bool) (c d : Char) :
    closes p (some c) (some d) = p c d := rfl

@[simp] theorem closes_none (p : Char → Char → Bool) (before : Option Char) :
    closes p before none = false := by
  cases before <;> rfl

theorem closeEvery_word {p : Char → Char → Bool} {before : Option Char} {c : Char} (r : List Char)
    (h : isGap c = false) : closeEvery p before (c :: r) = (closeEvery p (some c) r).keep c := by
  simp [closeEvery, beforeGap, h]

theorem tight_word_iff {p : Char → Char → Bool} {before : Option Char} {c : Char} {r : List Char}
    (h : isGap c = false) : Tight p before (c :: r) ↔ Tight p (some c) r := by
  simp [Tight, beforeGap, h]

theorem tight_space_iff {p : Char → Char → Bool} {before : Option Char} {c : Char} {r : List Char}
    (h : isGap c = true) :
    Tight p before (c :: r) ↔ closes p before (afterGap r) = false ∧ Tight p before r := by
  simp [Tight, beforeGap, h]

/-- A text without gaps stays as it is. -/
theorem Tight.closeEvery {p : Char → Char → Bool} {before : Option Char} {cs : List Char}
    (h : Tight p before cs) : closeEvery p before cs = ⟨cs, 0⟩ := by
  induction cs generalizing before with
  | nil => rfl
  | cons c r ih =>
    have hopen : (isGap c && closes p before (afterGap r)) = false := by
      cases hc : isGap c with
      | false => rfl
      | true => exact h.1 hc
    rw [Text.closeEvery, hopen, ih h.2]
    rfl

/-- A run of spaces that goes. -/
theorem closeEvery_closed {p : Char → Char → Bool} {before : Option Char} {g cs : List Char}
    (hne : g ≠ []) (hg : ∀ x ∈ g, isGap x = true) (hcs : ∀ c ∈ cs.head?, isGap c = false)
    (h : closes p before (afterGap cs) = true) :
    closeEvery p before (g ++ cs) = (closeEvery p before cs).change [] := by
  induction g with
  | nil => exact absurd rfl hne
  | cons x g ih =>
    obtain ⟨hx, hg⟩ := List.forall_mem_cons.1 hg
    rw [List.cons_append, closeEvery, hx, afterGap_append hg, h]
    cases g with
    | nil =>
      have hhead : cs.head?.any isGap = false := by
        cases cs with
        | nil => rfl
        | cons c cs => exact hcs c rfl
      simp [hhead]
    | cons y g =>
      have hy := hg y (by simp)
      simp only [Bool.and_self, if_true, List.cons_append, List.head?_cons, Option.any_some, hy]
      exact ih (by simp) hg

/-- A run of spaces that stays. -/
theorem closeEvery_open {p : Char → Char → Bool} {before : Option Char} {g cs : List Char}
    (hg : ∀ x ∈ g, isGap x = true) (h : closes p before (afterGap cs) = false) :
    closeEvery p before (g ++ cs) =
      ⟨g ++ (closeEvery p before cs).text, (closeEvery p before cs).count⟩ := by
  induction g with
  | nil => rfl
  | cons x g ih =>
    obtain ⟨hx, hg⟩ := List.forall_mem_cons.1 hg
    rw [List.cons_append, closeEvery, afterGap_append hg, h, Bool.and_false, beforeGap, if_pos hx,
      ih hg]
    rfl

theorem Tight.of_spaces {p : Char → Char → Bool} {before : Option Char} {g cs : List Char}
    (hg : ∀ x ∈ g, isGap x = true) (h : Tight p before (g ++ cs)) : Tight p before cs := by
  induction g with
  | nil => exact h
  | cons x g ih =>
    obtain ⟨hx, hg⟩ := List.forall_mem_cons.1 hg
    exact ih hg ((tight_space_iff hx).1 h).2

theorem tight_or_iff {p q : Char → Char → Bool} {before : Option Char} {cs : List Char} :
    Tight (fun c d => p c d || q c d) before cs ↔ Tight p before cs ∧ Tight q before cs := by
  have hcloses (before after : Option Char) : closes (fun c d => p c d || q c d) before after =
      (closes p before after || closes q before after) := by
    cases before with
    | none => rfl
    | some c => cases after <;> rfl
  induction cs generalizing before with
  | nil => simp [Tight]
  | cons c r ih =>
    simp only [Tight, ih, hcloses, Bool.or_eq_false_iff]
    tauto

/-! ## Closing some gaps -/

/-- Some of the gaps between characters that `p` relates are closed, each counted once. -/
inductive Closing (p : Char → Char → Bool) : List Char → Counted → Prop
  | nil : Closing p [] ⟨[], 0⟩
  | keep (c : Char) {cs : List Char} {t : Counted} : Closing p cs t → Closing p (c :: cs) (t.keep c)
  | close {c d : Char} {g cs : List Char} {t : Counted} : p c d = true → g ≠ [] →
    (∀ x ∈ g, isGap x = true) → Closing p (d :: cs) t →
    Closing p (c :: (g ++ d :: cs)) (t.change [c])

namespace Closing

variable {p : Char → Char → Bool} {cs : List Char} {t : Counted}

theorem head?_eq (h : Closing p cs t) : t.text.head? = cs.head? := by
  cases h <;> rfl

theorem afterGap_eq (hp : OffGaps p) (h : Closing p cs t) : afterGap t.text = afterGap cs := by
  induction h with
  | nil => rfl
  | keep c _ ih =>
    cases hc : isGap c with
    | true => rw [Counted.keep, afterGap_space hc, afterGap_space hc, ih]
    | false => rw [Counted.keep, afterGap_word hc, afterGap_word hc]
  | close hcd =>
    have hc := (hp _ _ hcd).1
    rw [Counted.change, List.singleton_append, afterGap_word hc, afterGap_word hc]

/-- Closing gaps opens none. -/
theorem tight {q : Char → Char → Bool} {before : Option Char} (hp : OffGaps p)
    (h : Closing p cs t) (htight : Tight q before cs) : Tight q before t.text := by
  induction h generalizing before with
  | nil => trivial
  | keep c h ih =>
    refine ⟨fun hc => ?_, ih htight.2⟩
    rw [h.afterGap_eq hp]
    exact htight.1 hc
  | @close c d g cs t hcd _ hg h ih =>
    obtain ⟨hc, -⟩ := hp c d hcd
    exact (tight_word_iff hc).2 (ih (((tight_word_iff hc).1 htight).of_spaces hg))

/-- Whatever gaps are closed first, closing every gap comes to the same. -/
theorem closeEvery_eq {before : Option Char} (hp : OffGaps p) (h : Closing p cs t) :
    closeEvery p before cs =
      ⟨(closeEvery p before t.text).text, (closeEvery p before t.text).count + t.count⟩ := by
  induction h generalizing before with
  | nil => rfl
  | @keep c cs t h ih =>
    simp only [Counted.keep, closeEvery, h.afterGap_eq hp, h.head?_eq]
    split
    · split
      · exact ih
      · simp only [ih, Counted.change, List.nil_append, Nat.add_right_comm]
    · simp only [ih]
  | @close c d g cs t hcd hne hg h ih =>
    obtain ⟨hc, hd⟩ := hp c d hcd
    have hnext : ∀ x ∈ (d :: cs).head?, isGap x = false := by simpa using hd
    have hcloses : closes p (some c) (afterGap (d :: cs)) = true := by rwa [afterGap_word hd]
    simp only [closeEvery_word _ hc, Counted.change, Counted.keep, List.singleton_append]
    rw [closeEvery_closed hne hg hnext hcloses, ih]
    simp only [Counted.change, List.nil_append, Nat.add_assoc]

end Closing

/-! ## One pass -/

/-- The characters whose gaps a pass closes. -/
def between (left right : Char → Bool) (c d : Char) : Bool := left c && right d

/-- Whether a gap that `p` closes stands between a character and what follows. -/
def opens (p : Char → Char → Bool) (c : Char) (r : List Char) : Bool :=
  r.head?.any isGap && closes p (some c) (afterGap r)

/-- No character stands between two gaps that `p` closes. -/
def Sparse (p : Char → Char → Bool) : List Char → Prop
  | [] => True
  | c :: r =>
    (opens p c r = true → ∀ d rest, r.dropWhile isGap = d :: rest → opens p d rest = false) ∧
      Sparse p r

theorem opens_word {p : Char → Char → Bool} {c d : Char} (hd : isGap d = false) (r : List Char) :
    opens p c (d :: r) = false := by
  simp [opens, hd]

theorem opens_next {left right : Char → Bool} {c d : Char} {r rest : List Char}
    (h : r.dropWhile isGap = d :: rest) :
    opens (between left right) c r = (left c && right d && r.head?.any isGap) := by
  rw [opens, afterGap_eq, h, List.head?_cons, closes_some, between, Bool.and_comm]

theorem opens_end {p : Char → Char → Bool} {c : Char} {r : List Char}
    (h : r.dropWhile isGap = []) : opens p c r = false := by
  rw [opens, afterGap_eq, h, List.head?_nil, closes_none, Bool.and_false]

theorem Tight.opens_eq {p : Char → Char → Bool} {c : Char} {r : List Char}
    (h : Tight p (some c) r) : opens p c r = false := by
  cases r with
  | nil => rfl
  | cons x r =>
    cases hx : isGap x with
    | false => exact opens_word hx r
    | true => rw [opens, afterGap_space hx, ((tight_space_iff hx).1 h).1, Bool.and_false]

theorem exists_gap {d : Char} {r rest : List Char} (h : r.dropWhile isGap = d :: rest)
    (hgap : r.head?.any isGap = true) :
    ∃ g, g ≠ [] ∧ (∀ x ∈ g, isGap x = true) ∧ r = g ++ d :: rest := by
  refine ⟨r.takeWhile isGap, ?_, fun x hx => List.mem_takeWhile_imp hx, ?_⟩
  · cases r with
    | nil => simp at hgap
    | cons x r => simp_all
  · rw [← h, List.takeWhile_append_dropWhile]

theorem Sparse.of_append {p : Char → Char → Bool} {a b : List Char} (h : Sparse p (a ++ b)) :
    Sparse p b := by
  induction a with
  | nil => exact h
  | cons c a ih => exact ih h.2

section Pass

variable {left right : Char → Bool}

theorem closing_closeGaps {p : Char → Char → Bool}
    (hp : ∀ c d, between left right c d = true → p c d = true) (cs : List Char) :
    Closing p cs (closeGaps left right cs) := by
  fun_induction closeGaps left right cs with
  | case1 => exact .nil
  | case2 c r d rest hdrop hgap ih =>
    simp only [Bool.and_eq_true] at hgap
    obtain ⟨g, hne, hg, rfl⟩ := exists_gap hdrop hgap.2
    have hcd : p c d = true := hp c d (by simp [between, hgap.1])
    exact .close hcd hne hg (.keep d ih)
  | case3 c r d rest hdrop hgap ih => exact .keep c ih
  | case4 c r hdrop ih => exact .keep c ih

/-- A pass does not see whether it closed a gap further on. -/
theorem opens_closeGaps (hp : OffGaps (between left right)) (c : Char) (cs : List Char) :
    opens (between left right) c (closeGaps left right cs).text =
      opens (between left right) c cs := by
  have hclosing : Closing (between left right) cs (closeGaps left right cs) :=
    closing_closeGaps (fun _ _ h => h) cs
  rw [opens, opens, hclosing.head?_eq, hclosing.afterGap_eq hp]

/-- The first character that is no space is not before a gap any more. -/
theorem opens_first (hp : OffGaps (between left right)) {d : Char} {cs rest : List Char}
    (h : (closeGaps left right cs).text.dropWhile isGap = d :: rest) :
    opens (between left right) d rest = false := by
  have hkept {c : Char} {r : List Char} (hopen : opens (between left right) c r = false)
      (ih : (closeGaps left right r).text.dropWhile isGap = d :: rest →
        opens (between left right) d rest = false)
      (h : (c :: (closeGaps left right r).text).dropWhile isGap = d :: rest) :
      opens (between left right) d rest = false := by
    cases hc : isGap c with
    | true => exact ih (by rwa [List.dropWhile_cons_of_pos hc] at h)
    | false =>
      rw [List.dropWhile_cons_of_neg (by simp [hc])] at h
      obtain ⟨rfl, rfl⟩ := List.cons.inj h
      rwa [opens_closeGaps hp]
  fun_induction closeGaps left right cs with
  | case1 => cases h
  | case2 c r e rest' hdrop hgap ih =>
    simp only [Bool.and_eq_true] at hgap
    obtain ⟨hc, he⟩ := hp c e (by simp [between, hgap.1])
    rw [Counted.change, List.cons_append, List.dropWhile_cons_of_neg (by simp [hc])] at h
    obtain ⟨rfl, rfl⟩ := List.cons.inj h
    exact opens_word he _
  | case3 c r e rest' hdrop hgap ih =>
    exact hkept (by rw [opens_next hdrop]; simpa using hgap) ih h
  | case4 c r hdrop ih => exact hkept (opens_end hdrop) ih h

theorem sparse_closeGaps (hp : OffGaps (between left right)) (cs : List Char) :
    Sparse (between left right) (closeGaps left right cs).text := by
  fun_induction closeGaps left right cs with
  | case1 => trivial
  | case2 c r d rest hdrop hgap ih =>
    simp only [Bool.and_eq_true] at hgap
    obtain ⟨-, hd⟩ := hp c d (by simp [between, hgap.1])
    refine ⟨fun hopen => ?_, fun _ e after hafter => opens_first hp hafter, ih⟩
    simp [opens_word hd] at hopen
  | case3 c r d rest hdrop hgap ih =>
    refine ⟨fun hopen => ?_, ih⟩
    rw [opens_closeGaps hp, opens_next hdrop] at hopen
    exact absurd hopen hgap
  | case4 c r hdrop ih =>
    refine ⟨fun hopen => ?_, ih⟩
    rw [opens_closeGaps hp, opens_end hdrop] at hopen
    cases hopen

/-- A pass closes all its gaps if none of their characters stands between two. -/
theorem Sparse.tight_after (hp : OffGaps (between left right)) {before : Option Char}
    {cs : List Char} (hsparse : Sparse (between left right) cs)
    (hbefore : ∀ b ∈ before, opens (between left right) b cs = false) :
    Tight (between left right) before (closeGaps left right cs).text := by
  have hkept {before : Option Char} {c : Char} {r : List Char}
      (hopen : opens (between left right) c r = false)
      (hbefore : ∀ b ∈ before, opens (between left right) b (c :: r) = false)
      (ih : ∀ {before : Option Char}, (∀ b ∈ before, opens (between left right) b r = false) →
        Tight (between left right) before (closeGaps left right r).text) :
      Tight (between left right) before (c :: (closeGaps left right r).text) := by
    cases hc : isGap c with
    | false =>
      rw [tight_word_iff hc]
      exact ih fun b hb => by rwa [← Option.some.inj hb]
    | true =>
      have hclosed : closes (between left right) before (afterGap r) = false := by
        cases before with
        | none => rfl
        | some b => simpa [opens, hc, afterGap_space hc] using hbefore b rfl
      rw [tight_space_iff hc, (closing_closeGaps (fun _ _ h => h) r).afterGap_eq hp]
      refine ⟨hclosed, ih fun b hb => ?_⟩
      rw [Option.mem_def.1 hb] at hclosed
      rw [opens, hclosed, Bool.and_false]
  fun_induction closeGaps left right cs generalizing before with
  | case1 => trivial
  | case2 c r d rest hdrop hgap ih =>
    have hopen : opens (between left right) c r = true := by rw [opens_next hdrop, hgap]
    have hnext := hsparse.1 hopen d rest hdrop
    simp only [Bool.and_eq_true] at hgap
    obtain ⟨hc, hd⟩ := hp c d (by simp [between, hgap.1])
    obtain ⟨g, -, -, rfl⟩ := exists_gap hdrop hgap.2
    have hrest : Sparse (between left right) rest :=
      Sparse.of_append (a := c :: (g ++ [d])) (by simpa using hsparse)
    refine (tight_word_iff hc).2 ((tight_word_iff hd).2 (ih hrest fun b hb => ?_))
    rwa [← Option.some.inj hb]
  | case3 c r d rest hdrop hgap ih =>
    exact hkept (by rw [opens_next hdrop]; simpa using hgap) hbefore (ih hsparse.2)
  | case4 c r hdrop ih => exact hkept (opens_end hdrop) hbefore (ih hsparse.2)

theorem Sparse.tight (hp : OffGaps (between left right)) {cs : List Char}
    (hsparse : Sparse (between left right) cs) :
    Tight (between left right) none (closeGaps left right cs).text :=
  hsparse.tight_after hp (by simp)

/-- Where no character can stand between two gaps, one pass closes them all. -/
theorem sparse_of_disjoint (hdisjoint : ∀ d, right d = true → left d = false) (cs : List Char) :
    Sparse (between left right) cs := by
  induction cs with
  | nil => trivial
  | cons c r ih =>
    refine ⟨fun hopen d rest hdrop => ?_, ih⟩
    rw [opens_next hdrop] at hopen
    simp only [Bool.and_eq_true] at hopen
    cases hrest : rest.dropWhile isGap with
    | nil => exact opens_end hrest
    | cons e after => rw [opens_next hrest, hdisjoint d hopen.1.2, Bool.false_and, Bool.false_and]

/-- A pass over a text without gaps. -/
theorem Tight.closeGaps (hp : OffGaps (between left right)) {before : Option Char} {cs : List Char}
    (h : Tight (between left right) before cs) : closeGaps left right cs = ⟨cs, 0⟩ := by
  fun_induction Text.closeGaps left right cs generalizing before with
  | case1 => rfl
  | case2 c r d rest hdrop hgap ih =>
    have hopen : opens (between left right) c r = true := by rw [opens_next hdrop, hgap]
    simp only [Bool.and_eq_true] at hgap
    obtain ⟨hc, -⟩ := hp c d (by simp [between, hgap.1])
    rw [((tight_word_iff hc).1 h).opens_eq] at hopen
    cases hopen
  | case3 c r d rest hdrop hgap ih => rw [ih h.2]; rfl
  | case4 c r hdrop ih => rw [ih h.2]; rfl

theorem closeGaps_eq_of_count {cs : List Char} (h : (closeGaps left right cs).count = 0) :
    (closeGaps left right cs).text = cs := by
  fun_induction closeGaps left right cs with
  | case1 => rfl
  | case2 => cases h
  | case3 c r d rest hdrop hgap ih => rw [Counted.keep, ih h]
  | case4 c r hdrop ih => rw [Counted.keep, ih h]

end Pass

/-! ## All passes -/

theorem not_gap_of_isHan {c : Char} (h : isHan c = true) : isGap c = false := by
  have hspaces : ([' ', '\t', '\u3000', '\u00a0'].all fun x => !isHan x) = true := by decide
  rw [Bool.eq_false_iff]
  intro hgap
  have hmem : c ∈ [' ', '\t', '\u3000', '\u00a0'] := by simpa [isGap, or_assoc] using hgap
  have hnot := List.all_eq_true.1 hspaces c hmem
  simp [h] at hnot

theorem not_of_isChinesePunctuation {c : Char} (h : isChinesePunctuation c = true) :
    isGap c = false ∧ isHan c = false := by
  have hmarks : (chinesePunctuation.all fun x => !isGap x && !isHan x) = true := by decide
  simpa using List.all_eq_true.1 hmarks c (List.contains_iff_mem.1 h)

theorem joined_iff {c d : Char} : joined c d = true ↔ between isHan isHan c d = true ∨
    between isHan isChinesePunctuation c d = true ∨
    between isChinesePunctuation isHan c d = true := by
  rw [joined, Bool.or_eq_true, Bool.or_eq_true, or_assoc]
  rfl

theorem offGaps_joined : OffGaps joined := by
  intro c d h
  simp only [joined_iff, between, Bool.and_eq_true] at h
  rcases h with ⟨hc, hd⟩ | ⟨hc, hd⟩ | ⟨hc, hd⟩
  · exact ⟨not_gap_of_isHan hc, not_gap_of_isHan hd⟩
  · exact ⟨not_gap_of_isHan hc, (not_of_isChinesePunctuation hd).1⟩
  · exact ⟨(not_of_isChinesePunctuation hc).1, not_gap_of_isHan hd⟩

/-- What a pass relates is joined. -/
def Joins (left right : Char → Bool) : Prop :=
  ∀ c d, between left right c d = true → joined c d = true

theorem joins_han : Joins isHan isHan := fun _ _ h => joined_iff.2 (.inl h)

theorem joins_hanPunctuation : Joins isHan isChinesePunctuation :=
  fun _ _ h => joined_iff.2 (.inr (.inl h))

theorem joins_punctuationHan : Joins isChinesePunctuation isHan :=
  fun _ _ h => joined_iff.2 (.inr (.inr h))

theorem Joins.offGaps {left right : Char → Bool} (h : Joins left right) :
    OffGaps (between left right) :=
  fun c d hcd => offGaps_joined c d (h c d hcd)

theorem tight_joined_iff {before : Option Char} {cs : List Char} : Tight joined before cs ↔
    Tight (between isHan isHan) before cs ∧ Tight (between isHan isChinesePunctuation) before cs ∧
      Tight (between isChinesePunctuation isHan) before cs := by
  rw [← and_assoc, ← tight_or_iff, ← tight_or_iff]
  rfl

theorem closeEvery_closeGaps {left right : Char → Bool} (h : Joins left right)
    (before : Option Char) (cs : List Char) :
    closeEvery joined before cs =
      ⟨(closeEvery joined before (closeGaps left right cs).text).text,
        (closeEvery joined before (closeGaps left right cs).text).count +
          (closeGaps left right cs).count⟩ :=
  (closing_closeGaps h cs).closeEvery_eq offGaps_joined

/-- The rounds over gaps between Chinese characters. -/
theorem closeEvery_closeHanGaps (before : Option Char) (cs : List Char) :
    closeEvery joined before cs =
      ⟨(closeEvery joined before (closeHanGaps cs).text).text,
        (closeEvery joined before (closeHanGaps cs).text).count + (closeHanGaps cs).count⟩ := by
  fun_induction closeHanGaps cs with
  | case1 cs a ha => exact closeEvery_closeGaps joins_han before cs
  | case2 cs a ha ih =>
    rw [closeEvery_closeGaps joins_han before cs, ih]
    simp only [a, Nat.add_assoc, Nat.add_comm]

theorem tight_closeHanGaps (cs : List Char) :
    Tight (between isHan isHan) none (closeHanGaps cs).text := by
  fun_induction closeHanGaps cs with
  | case1 cs a ha =>
    have hsparse := sparse_closeGaps joins_han.offGaps cs
    rw [closeGaps_eq_of_count ha] at hsparse
    exact hsparse.tight joins_han.offGaps
  | case2 cs a ha ih => exact ih

/-- No gap is left. -/
theorem tight_closeChineseGaps (cs : List Char) : Tight joined none (closeChineseGaps cs).text := by
  have hmark (d : Char) (hd : isChinesePunctuation d = true) : isHan d = false :=
    (not_of_isChinesePunctuation hd).2
  have hhan (d : Char) (hd : isHan d = true) : isChinesePunctuation d = false := by
    rw [Bool.eq_false_iff]
    intro h
    simp [hmark d h] at hd
  have hlater {left right : Char → Bool} {q : Char → Char → Bool} (h : Joins left right)
      {ds : List Char} (htight : Tight q none ds) : Tight q none (closeGaps left right ds).text :=
    (closing_closeGaps h ds).tight offGaps_joined htight
  have hsecond := (sparse_of_disjoint hmark (closeHanGaps cs).text).tight
    joins_hanPunctuation.offGaps
  have hthird := (sparse_of_disjoint hhan
    (closeGaps isHan isChinesePunctuation (closeHanGaps cs).text).text).tight
    joins_punctuationHan.offGaps
  rw [tight_joined_iff]
  exact ⟨hlater joins_punctuationHan (hlater joins_hanPunctuation (tight_closeHanGaps cs)),
    hlater joins_punctuationHan hsecond, hthird⟩

/-- The passes together close every gap at once. -/
theorem closeChineseGaps_eq (cs : List Char) :
    closeChineseGaps cs = closeEvery joined none cs := by
  have htext := (tight_closeChineseGaps cs).closeEvery
  rw [closeEvery_closeHanGaps none cs, closeEvery_closeGaps joins_hanPunctuation,
    closeEvery_closeGaps joins_punctuationHan]
  simp only [closeChineseGaps] at htext ⊢
  simp only [htext, Counted.mk.injEq, true_and]
  omega

theorem closeChineseGaps_closeChineseGaps (cs : List Char) :
    closeChineseGaps (closeChineseGaps cs).text = ⟨(closeChineseGaps cs).text, 0⟩ := by
  rw [closeChineseGaps_eq (closeChineseGaps cs).text]
  exact (tight_closeChineseGaps cs).closeEvery

/-- A third round over gaps between Chinese characters finds none. -/
theorem count_thirdRound (cs : List Char) :
    (closeGaps isHan isHan (closeGaps isHan isHan (closeGaps isHan isHan cs).text).text).count =
      0 := by
  have hp := joins_han.offGaps
  have htight := (sparse_closeGaps hp cs).tight hp
  rw [htight.closeGaps hp]

/-! ## Runs of spaces -/

/-- A text cut into its longest runs of spaces and of other characters, by turns. -/
def spaceRuns (cs : List Char) : List (List Char) := cs.splitBy fun c d => isGap c == isGap d

/-- The runs but for spaces between characters that belong together. -/
def keptRuns (before : Option Char) : List (List Char) → List (List Char)
  | [] => []
  | run :: rest =>
    if run.all isGap && closes joined before rest.flatten.head? then keptRuns run.getLast? rest
    else run :: keptRuns run.getLast? rest

/-- Induction over the runs of a text. -/
@[elab_as_elim]
theorem runs_induction {motive : List Char → Prop} (nil : motive [])
    (run : ∀ spaces run rest, run ≠ [] → (∀ c ∈ run, isGap c = spaces) →
      (∀ c ∈ rest.head?, isGap c = !spaces) → motive rest → motive (run ++ rest))
    (cs : List Char) : motive cs := by
  induction hn : cs.length using Nat.strong_induction_on generalizing cs with
  | _ n ih =>
    cases cs with
    | nil => exact nil
    | cons c r =>
      have hrun := run (isGap c) ((c :: r).takeWhile fun d => isGap d == isGap c)
        ((c :: r).dropWhile fun d => isGap d == isGap c) (by simp)
        (fun d hd => by simpa using List.mem_takeWhile_imp hd) ?_ (ih _ ?_ _ rfl)
      · rwa [List.takeWhile_append_dropWhile] at hrun
      · intro d hd
        have hhead := List.head?_dropWhile_not (fun d => isGap d == isGap c) (c :: r)
        rw [Option.mem_def.1 hd] at hhead
        simpa [Bool.eq_not] using hhead
      · rw [← hn, List.dropWhile_cons_of_pos (by simp), List.length_cons]
        exact Nat.lt_succ_of_le (List.dropWhile_suffix _).length_le

theorem spaceRuns_append {spaces : Bool} {run rest : List Char} (hne : run ≠ [])
    (hrun : ∀ c ∈ run, isGap c = spaces) (hrest : ∀ c ∈ rest.head?, isGap c = !spaces) :
    spaceRuns (run ++ rest) = run :: spaceRuns rest := by
  have hchain : run.IsChain fun c d => (isGap c == isGap d) = true := by
    refine (List.pairwise_of_forall_mem_list fun c hc d hd => ?_).isChain
    rw [hrun c hc, hrun d hd, beq_self_eq_true]
  rw [spaceRuns, List.splitBy_append, List.splitBy_of_isChain hne hchain, List.singleton_append,
    spaceRuns]
  intro x hx y hy
  simp [hrun x (List.mem_of_mem_getLast? hx), hrest y hy]

theorem flatten_spaceRuns (cs : List Char) : (spaceRuns cs).flatten = cs :=
  List.flatten_splitBy _ cs

/-- What stands before a character that is no space does not matter. -/
theorem closeEvery_before {p : Char → Char → Bool} {cs : List Char}
    (h : ∀ c ∈ cs.head?, isGap c = false) (a b : Option Char) :
    closeEvery p a cs = closeEvery p b cs := by
  cases cs with
  | nil => rfl
  | cons c r => rw [closeEvery_word r (h c rfl), closeEvery_word r (h c rfl)]

theorem closeEvery_words {p : Char → Char → Bool} {before : Option Char} {w cs : List Char}
    (hne : w ≠ []) (hw : ∀ c ∈ w, isGap c = false) : closeEvery p before (w ++ cs) =
      ⟨w ++ (closeEvery p w.getLast? cs).text, (closeEvery p w.getLast? cs).count⟩ := by
  induction w generalizing before with
  | nil => exact absurd rfl hne
  | cons c w ih =>
    obtain ⟨hc, hw⟩ := List.forall_mem_cons.1 hw
    rw [List.cons_append, closeEvery_word _ hc]
    cases w with
    | nil => rfl
    | cons d w =>
      rw [ih (by simp) hw, List.getLast?_cons_cons]
      rfl

/-- Closing every gap keeps the other runs. -/
theorem closeEvery_runs (before : Option Char) (cs : List Char) :
    (closeEvery joined before cs).text = (keptRuns before (spaceRuns cs)).flatten ∧
      (closeEvery joined before cs).count + (keptRuns before (spaceRuns cs)).length =
        (spaceRuns cs).length := by
  induction cs using runs_induction generalizing before with
  | nil => exact ⟨rfl, rfl⟩
  | run spaces run rest hne hrun hrest ih =>
    obtain ⟨htext, hcount⟩ := @ih run.getLast?
    rw [spaceRuns_append hne hrun hrest, keptRuns, flatten_spaceRuns]
    cases spaces with
    | false =>
      have hword : run.all isGap = false := by
        obtain ⟨c, r, rfl⟩ := List.exists_cons_of_ne_nil hne
        simp [hrun c (by simp)]
      simp only [closeEvery_words hne hrun, hword, Bool.false_and, Bool.false_eq_true, if_false,
        List.flatten_cons, List.length_cons, htext]
      exact ⟨trivial, by omega⟩
    | true =>
      have hafter : afterGap rest = rest.head? := by
        cases rest with
        | nil => rfl
        | cons d rest => exact afterGap_word (hrest d rfl) rest
      have hspaces : run.all isGap = true := List.all_eq_true.2 hrun
      rw [hspaces, Bool.true_and, ← hafter]
      cases hcloses : closes joined before (afterGap rest) with
      | true =>
        rw [closeEvery_closed hne hrun hrest hcloses, closeEvery_before hrest before run.getLast?]
        simp only [Counted.change, List.nil_append, if_true, htext, List.length_cons]
        exact ⟨trivial, by omega⟩
      | false =>
        rw [closeEvery_open hrun hcloses, closeEvery_before hrest before run.getLast?]
        simp only [Bool.false_eq_true, if_false, htext, List.flatten_cons, List.length_cons]
        exact ⟨trivial, by omega⟩

/-- Of the longest runs of spaces just those go that stand between two characters that belong
together, and each is counted. -/
theorem closeChineseGaps_runs (cs : List Char) :
    (closeChineseGaps cs).text = (keptRuns none (spaceRuns cs)).flatten ∧
      (closeChineseGaps cs).count + (keptRuns none (spaceRuns cs)).length = (spaceRuns cs).length ∧
      closeChineseGaps (closeChineseGaps cs).text = ⟨(closeChineseGaps cs).text, 0⟩ ∧
      (closeGaps isHan isHan (closeGaps isHan isHan (closeGaps isHan isHan cs).text).text).count =
        0 := by
  rw [closeChineseGaps_closeChineseGaps, closeChineseGaps_eq]
  obtain ⟨htext, hcount⟩ := closeEvery_runs none cs
  exact ⟨htext, hcount, rfl, count_thirdRound cs⟩

example : closeChineseGaps "中 国  人 ， 民 a 的".toList = ⟨"中国人，民 a 的".toList, 4⟩ := by
  decide +kernel

end MarkdownDocx.Text

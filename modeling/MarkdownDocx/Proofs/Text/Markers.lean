import Mathlib.Algebra.Ring.Nat
import Mathlib.Data.List.Forall2
import Mathlib.Data.List.TakeWhile
import MarkdownDocx.Text.Cleanup

/-!
Emphasis markers. What the reader takes for a pair of markers, what the passes over them take away,
and when they find nothing: asterisks go in pairs of markers and nothing else goes, so that a text
is left as it is just if its plain pieces hold no pair.
-/

set_option autoImplicit false

namespace MarkdownDocx.Text

/-! ## Texts that lose characters -/

/-- The second text is the first without some of the characters that `p` holds of. -/
def Loses (p : Char → Bool) (xs ys : List Char) : Prop :=
  ys.Sublist xs ∧ ys.filter (fun c => !p c) = xs.filter fun c => !p c

namespace Loses

variable {p : Char → Bool} {xs ys zs : List Char}

@[refl] theorem refl (xs : List Char) : Loses p xs xs := ⟨.refl xs, rfl⟩

theorem trans (h : Loses p xs ys) (h' : Loses p ys zs) : Loses p xs zs :=
  ⟨h'.1.trans h.1, h'.2.trans h.2⟩

theorem append {us vs : List Char} (h : Loses p xs ys) (h' : Loses p us vs) :
    Loses p (xs ++ us) (ys ++ vs) :=
  ⟨h.1.append h'.1, by rw [List.filter_append, List.filter_append, h.2, h'.2]⟩

theorem cons (c : Char) (h : Loses p xs ys) : Loses p (c :: xs) (c :: ys) :=
  (Loses.refl [c]).append h

theorem all (h : ∀ c ∈ xs, p c = true) : Loses p xs [] := by
  refine ⟨List.nil_sublist xs, ?_⟩
  rw [List.filter_nil, eq_comm, List.filter_eq_nil_iff]
  intro c hc
  simp [h c hc]

/-- What `p` does not hold of is still there. -/
theorem filter_eq {q : Char → Bool} (hq : ∀ c, q c = true → p c = false) (h : Loses p xs ys) :
    ys.filter q = xs.filter q := by
  have hfilter (zs : List Char) : (zs.filter fun c => !p c).filter q = zs.filter q := by
    rw [List.filter_filter]
    refine List.filter_congr fun c _ => ?_
    cases hc : q c with
    | false => rfl
    | true => simp [hq c hc]
  rw [← hfilter ys, h.2, hfilter xs]

theorem count_eq {c : Char} (hc : p c = false) (h : Loses p xs ys) : ys.count c = xs.count c := by
  have hfilter := h.filter_eq (q := (· == c)) fun d hd => by rwa [eq_of_beq hd]
  rw [List.count, List.countP_eq_length_filter, hfilter, ← List.countP_eq_length_filter]

end Loses

/-! ## A pair of markers -/

def stars (n : Nat) : List Char := List.replicate n '*'

/-- Text without asterisks between two markers, and what follows. A marker that stands alone has no
asterisk before it, as `afterStar` tells, and none after it. -/
structure Marker.Reads (m : Marker) (afterStar : Bool) (cs inner rest : List Char) : Prop where
  text : cs = stars m.width ++ inner ++ stars m.width ++ rest
  filled : inner ≠ []
  plain : '*' ∉ inner
  alone : m.alone = true → afterStar = false ∧ rest.head? ≠ some '*'

theorem afterStars_stars (n : Nat) (r : List Char) : afterStars n (stars n ++ r) = some r := by
  induction n with
  | zero => rfl
  | succ n ih => exact ih

theorem takeWhile_noStar {x : List Char} (hx : '*' ∉ x) (r : List Char) :
    (x ++ '*' :: r).takeWhile (· ≠ '*') = x ∧ (x ++ '*' :: r).dropWhile (· ≠ '*') = '*' :: r := by
  have hpos : ∀ c ∈ x, decide (c ≠ '*') = true := fun c hc =>
    decide_eq_true fun heq => hx (heq ▸ hc)
  rw [List.takeWhile_append_of_pos hpos, List.dropWhile_append_of_pos hpos]
  simp

namespace Marker

variable {m : Marker}

theorem read_eq_some_iff (hm : 0 < m.width) {afterStar : Bool} {cs inner rest : List Char} :
    m.read afterStar cs = some (inner, rest) ↔ m.Reads afterStar cs inner rest := by
  constructor
  · intro h
    have htext := read_eq h
    unfold read at h
    split at h
    · cases h
    · rename_i r _
      simp only at h
      split at h
      · cases h
      · split at h
        · cases h
        · rename_i hfits
          obtain ⟨rfl, rfl⟩ := Prod.mk.inj (Option.some.inj h)
          simp only [Bool.or_eq_true, Bool.and_eq_true, not_or, not_and, List.isEmpty_iff] at hfits
          refine ⟨htext, hfits.1, fun hmem => ?_, fun halone => ?_⟩
          · simpa using List.mem_takeWhile_imp hmem
          · simpa using hfits.2 halone
  · rintro ⟨rfl, hfilled, hplain, halone⟩
    obtain ⟨n, hn⟩ : ∃ n, m.width = n + 1 := ⟨m.width - 1, by omega⟩
    have hstars : stars m.width = '*' :: stars n := by rw [hn]; rfl
    have hwhile := takeWhile_noStar hplain (stars n ++ rest)
    have hfits : (inner.isEmpty || m.alone && (afterStar || rest.head? == some '*')) = false := by
      cases ha : m.alone with
      | false => simpa using hfilled
      | true => simpa [(halone ha).1, hfilled] using (halone ha).2
    have hafter : afterStars m.width ('*' :: (stars n ++ rest)) = some rest := by
      rw [← List.cons_append, ← hstars, afterStars_stars]
    simp only [read, List.append_assoc, afterStars_stars]
    rw [hstars, List.cons_append, hwhile.1, hwhile.2, hafter]
    simp only [hfits, Bool.false_eq_true, if_false]

theorem Reads.starred (hm : 0 < m.width) {afterStar : Bool} {cs inner rest : List Char}
    (h : m.Reads afterStar cs inner rest) : cs.head? = some '*' := by
  obtain ⟨n, hn⟩ : ∃ n, m.width = n + 1 := ⟨m.width - 1, by omega⟩
  rw [h.text, hn]
  rfl

end Marker

/-! ## One pass -/

section Pass

variable {m : Marker} {afterStar : Bool}

theorem dropMarkers_pair {cs inner rest : List Char}
    (h : m.read afterStar cs = some (inner, rest)) :
    dropMarkers m afterStar cs = (dropMarkers m true rest).change inner := by
  cases cs with
  | nil => cases hm : m.width <;> simp [Marker.read, afterStars, hm] at h
  | cons c r =>
    rw [dropMarkers]
    split
    · rename_i heq
      obtain ⟨rfl, rfl⟩ := Prod.mk.inj (Option.some.inj (h.symm.trans heq))
      rfl
    · rename_i heq
      rw [h] at heq
      cases heq

theorem dropMarkers_keep {c : Char} {r : List Char} (h : m.read afterStar (c :: r) = none) :
    dropMarkers m afterStar (c :: r) = (dropMarkers m (c == '*') r).keep c := by
  rw [dropMarkers]
  split
  · rename_i heq
    rw [h] at heq
    cases heq
  · rfl

theorem loses_dropMarkers (m : Marker) (afterStar : Bool) (cs : List Char) :
    Loses (· == '*') cs (dropMarkers m afterStar cs).text := by
  have hstars : Loses (· == '*') (stars m.width) [] :=
    .all fun c hc => beq_iff_eq.2 (List.eq_of_mem_replicate hc)
  fun_induction dropMarkers m afterStar cs with
  | case1 => rfl
  | case2 afterStar c r inner rest h ih =>
    rw [Marker.read_eq h]
    have hpair := ((hstars.append (.refl inner)).append hstars).append ih
    rwa [List.nil_append, List.append_nil] at hpair
  | case3 afterStar c r h ih => exact .cons c ih

/-- As many asterisks go as the markers of the counted pairs have. -/
theorem count_dropMarkers (hm : 0 < m.width) (cs : List Char) :
    cs.count '*' =
      (dropMarkers m afterStar cs).text.count '*' +
        2 * m.width * (dropMarkers m afterStar cs).count := by
  fun_induction dropMarkers m afterStar cs with
  | case1 => rfl
  | case2 afterStar c r inner rest h ih =>
    obtain ⟨htext, -, hplain, -⟩ := (Marker.read_eq_some_iff hm).1 h
    rw [htext]
    simp only [stars, List.count_append, List.count_replicate_self, ih, Counted.change,
      List.count_eq_zero_of_not_mem hplain, Nat.mul_add]
    omega
  | case3 afterStar c r h ih =>
    simp only [List.count_cons, ih, Counted.keep]
    omega

theorem dropMarkers_eq_of_count {cs : List Char} (h : (dropMarkers m afterStar cs).count = 0) :
    dropMarkers m afterStar cs = ⟨cs, 0⟩ := by
  fun_induction dropMarkers m afterStar cs with
  | case1 => rfl
  | case2 => cases h
  | case3 afterStar c r hread ih => rw [ih h]; rfl

end Pass

/-- Somewhere in the text stands a pair of these markers; `afterStar` tells whether an asterisk
stands before the text. -/
def Marker.PairsAfter (m : Marker) (afterStar : Bool) (cs : List Char) : Prop :=
  ∃ before here inner rest, cs = before ++ here ∧
    m.Reads (before.getLast?.elim afterStar (· == '*')) here inner rest

theorem pairsAfter_cons_iff {m : Marker} {afterStar : Bool} {c : Char} {r : List Char} :
    m.PairsAfter afterStar (c :: r) ↔
      (∃ inner rest, m.Reads afterStar (c :: r) inner rest) ∨ m.PairsAfter (c == '*') r := by
  have hlast (before : List Char) : (c :: before).getLast?.elim afterStar (· == '*') =
      before.getLast?.elim (c == '*') (· == '*') := by
    rw [List.getLast?_cons]
    cases before.getLast? <;> rfl
  constructor
  · rintro ⟨before, here, inner, rest, htext, hreads⟩
    cases before with
    | nil =>
      obtain rfl : c :: r = here := htext
      exact .inl ⟨inner, rest, hreads⟩
    | cons d before =>
      obtain ⟨rfl, rfl⟩ := List.cons.inj htext
      exact .inr ⟨before, here, inner, rest, rfl, by rwa [hlast] at hreads⟩
  · rintro (⟨inner, rest, hreads⟩ | ⟨before, here, inner, rest, rfl, hreads⟩)
    · exact ⟨[], c :: r, inner, rest, rfl, hreads⟩
    · exact ⟨c :: before, here, inner, rest, rfl, by rwa [hlast]⟩

/-- A pass counts a pair if there is one. -/
theorem count_dropMarkers_eq_zero_iff {m : Marker} (hm : 0 < m.width) {afterStar : Bool}
    {cs : List Char} : (dropMarkers m afterStar cs).count = 0 ↔ ¬ m.PairsAfter afterStar cs := by
  fun_induction dropMarkers m afterStar cs with
  | case1 =>
    refine iff_of_true rfl ?_
    rintro ⟨before, here, inner, rest, htext, hreads⟩
    obtain ⟨-, rfl⟩ := List.append_eq_nil_iff.1 htext.symm
    cases hreads.starred hm
  | case2 afterStar c r inner rest h ih =>
    have hreads := (Marker.read_eq_some_iff hm).1 h
    simp only [Counted.change, Nat.add_eq_zero_iff, Nat.one_ne_zero, and_false, false_iff, not_not]
    exact pairsAfter_cons_iff.2 (.inl ⟨inner, rest, hreads⟩)
  | case3 afterStar c r h ih =>
    have hnone : ¬ ∃ inner rest, m.Reads afterStar (c :: r) inner rest := by
      rintro ⟨inner, rest, hreads⟩
      rw [(Marker.read_eq_some_iff hm).2 hreads] at h
      cases h
    rw [pairsAfter_cons_iff, or_iff_right hnone, ← ih]
    rfl

/-! ## Plain text -/

/-- The markers of the three passes, the widest first. -/
def markers : List Marker := [boldItalic, bold, italic]

theorem width_pos {m : Marker} (h : m ∈ markers) : 0 < m.width := by
  have hall : ∀ m ∈ markers, 0 < m.width := by decide
  exact hall m h

/-- A pair of markers stands in the text. -/
def Paired (cs : List Char) : Prop := ∃ m ∈ markers, m.PairsAfter false cs

theorem loses_dropEmphasisPlain (cs : List Char) :
    Loses (· == '*') cs (dropEmphasisPlain cs).text :=
  ((loses_dropMarkers boldItalic false cs).trans (loses_dropMarkers bold false _)).trans
    (loses_dropMarkers italic false _)

/-- Each pair is two asterisks, or four, or six. -/
theorem count_dropEmphasisPlain (cs : List Char) :
    ∃ k, cs.count '*' = (dropEmphasisPlain cs).text.count '*' + 2 * k ∧
      (dropEmphasisPlain cs).count ≤ k ∧ k ≤ 3 * (dropEmphasisPlain cs).count := by
  let a := dropMarkers boldItalic false cs
  let b := dropMarkers bold false a.text
  let c := dropMarkers italic false b.text
  have ha : cs.count '*' = a.text.count '*' + 2 * 3 * a.count :=
    count_dropMarkers (m := boldItalic) (by decide) cs
  have hb : a.text.count '*' = b.text.count '*' + 2 * 2 * b.count :=
    count_dropMarkers (m := bold) (by decide) a.text
  have hc : b.text.count '*' = c.text.count '*' + 2 * 1 * c.count :=
    count_dropMarkers (m := italic) (by decide) b.text
  have hcount : (dropEmphasisPlain cs).count = a.count + b.count + c.count := rfl
  have htext : (dropEmphasisPlain cs).text = c.text := rfl
  refine ⟨3 * a.count + 2 * b.count + c.count, ?_, ?_, ?_⟩
  · rw [htext]
    omega
  · omega
  · omega

theorem dropEmphasisPlain_eq {cs : List Char}
    (h : ∀ m ∈ markers, (dropMarkers m false cs).count = 0) : dropEmphasisPlain cs = ⟨cs, 0⟩ := by
  have hpass (m : Marker) (hm : m ∈ markers) : dropMarkers m false cs = ⟨cs, 0⟩ :=
    dropMarkers_eq_of_count (h m hm)
  have hwide := hpass boldItalic (by simp [markers])
  have hmiddle := hpass bold (by simp [markers])
  have hnarrow := hpass italic (by simp [markers])
  simp [dropEmphasisPlain, hwide, hmiddle, hnarrow]

/-- The first pass that finds a pair finds it in the text as it was. -/
theorem count_dropEmphasisPlain_eq_zero_iff {cs : List Char} :
    (dropEmphasisPlain cs).count = 0 ↔ ∀ m ∈ markers, (dropMarkers m false cs).count = 0 := by
  constructor
  · intro h
    simp only [dropEmphasisPlain, Nat.add_eq_zero_iff] at h
    obtain ⟨⟨hwide, hmiddle⟩, hnarrow⟩ := h
    rw [dropMarkers_eq_of_count hwide] at hmiddle hnarrow
    rw [dropMarkers_eq_of_count hmiddle] at hnarrow
    simp [markers, hwide, hmiddle, hnarrow]
  · intro h
    rw [dropEmphasisPlain_eq h]

theorem dropEmphasisPlain_eq_of_count {cs : List Char} (h : (dropEmphasisPlain cs).count = 0) :
    dropEmphasisPlain cs = ⟨cs, 0⟩ :=
  dropEmphasisPlain_eq (count_dropEmphasisPlain_eq_zero_iff.1 h)

theorem count_eq_zero_iff_not_paired {cs : List Char} :
    (dropEmphasisPlain cs).count = 0 ↔ ¬ Paired cs := by
  rw [count_dropEmphasisPlain_eq_zero_iff, Paired, not_exists]
  refine forall_congr' fun m => ?_
  rw [not_and]
  exact forall_congr' fun hm => count_dropMarkers_eq_zero_iff (width_pos hm)

/-! ## Between spans -/

/-- A piece after the passes. -/
def clearedPiece : Piece → Piece
  | .plain cs => .plain (dropEmphasisPlain cs).text
  | .span cs => .span cs

/-- How many pairs the passes find in a piece. -/
def pairsFound : Piece → Nat
  | .plain cs => (dropEmphasisPlain cs).count
  | .span _ => 0

/-- A piece, and the piece without some of its asterisks if it is plain. -/
inductive Unstarred : Piece → Piece → Prop
  | plain {x y : List Char} : Loses (· == '*') x y → Unstarred (.plain x) (.plain y)
  | span (x : List Char) : Unstarred (.span x) (.span x)

theorem dropEmphasisPieces_eq (ps : List Piece) :
    dropEmphasisPieces ps = ⟨joinPieces (ps.map clearedPiece), (ps.map pairsFound).sum⟩ := by
  induction ps with
  | nil => rfl
  | cons p ps ih =>
    cases p with
    | plain cs => rw [dropEmphasisPieces, ih]; rfl
    | span cs =>
      rw [dropEmphasisPieces, ih]
      simp [pairsFound, clearedPiece, joinPieces, Piece.chars]

theorem dropEmphasis_eq (cs : List Char) :
    dropEmphasis cs = ⟨joinPieces ((splitSpans false cs).map clearedPiece),
      ((splitSpans false cs).map pairsFound).sum⟩ :=
  dropEmphasisPieces_eq _

theorem forall₂_unstarred (ps : List Piece) :
    List.Forall₂ Unstarred ps (ps.map clearedPiece) := by
  rw [List.forall₂_map_right_iff, List.forall₂_same]
  intro p _
  cases p with
  | plain x => exact .plain (loses_dropEmphasisPlain x)
  | span x => exact .span x

theorem loses_joinPieces {ps qs : List Piece} (h : List.Forall₂ Unstarred ps qs) :
    Loses (· == '*') (joinPieces ps) (joinPieces qs) := by
  induction h with
  | nil => rfl
  | cons hp _ ih =>
    refine Loses.append ?_ ih
    cases hp with
    | plain hloses => exact hloses
    | span x => exact .refl x

theorem loses_dropEmphasis (cs : List Char) : Loses (· == '*') cs (dropEmphasis cs).text := by
  have hloses := loses_joinPieces (forall₂_unstarred (splitSpans false cs))
  rw [joinPieces_splitSpans] at hloses
  rwa [dropEmphasis_eq]

/-- Each pair is two asterisks, or four, or six. -/
theorem count_dropEmphasis (cs : List Char) :
    ∃ k, cs.count '*' = (dropEmphasis cs).text.count '*' + 2 * k ∧
      (dropEmphasis cs).count ≤ k ∧ k ≤ 3 * (dropEmphasis cs).count := by
  have hpieces (ps : List Piece) : ∃ k,
      (joinPieces ps).count '*' = (dropEmphasisPieces ps).text.count '*' + 2 * k ∧
        (dropEmphasisPieces ps).count ≤ k ∧ k ≤ 3 * (dropEmphasisPieces ps).count := by
    induction ps with
    | nil => exact ⟨0, rfl, Nat.le_refl 0, Nat.le_refl 0⟩
    | cons p ps ih =>
      obtain ⟨k, hstars, hlow, hhigh⟩ := ih
      cases p with
      | span cs =>
        refine ⟨k, ?_, hlow, hhigh⟩
        simp only [joinPieces, List.flatMap_cons, Piece.chars, List.count_append,
          dropEmphasisPieces] at hstars ⊢
        omega
      | plain cs =>
        obtain ⟨j, hstars', hlow', hhigh'⟩ := count_dropEmphasisPlain cs
        refine ⟨j + k, ?_, ?_, ?_⟩
        · simp only [joinPieces, List.flatMap_cons, Piece.chars, List.count_append,
            dropEmphasisPieces] at hstars ⊢
          omega
        · exact Nat.add_le_add hlow' hlow
        · simp only [dropEmphasisPieces]
          omega
  simpa [dropEmphasis] using hpieces (splitSpans false cs)

theorem dropEmphasis_eq_of_count {cs : List Char} (h : (dropEmphasis cs).count = 0) :
    dropEmphasis cs = ⟨cs, 0⟩ := by
  rw [dropEmphasis_eq] at h ⊢
  have hpieces : (splitSpans false cs).map clearedPiece = (splitSpans false cs).map id := by
    refine List.map_congr_left fun p hp => ?_
    have hp := List.sum_eq_zero_iff_forall_eq_nat.1 h _ (List.mem_map_of_mem hp)
    cases p with
    | plain x => rw [clearedPiece, dropEmphasisPlain_eq_of_count hp, id]
    | span x => rfl
  rw [Counted.mk.injEq, hpieces, List.map_id, joinPieces_splitSpans]
  exact ⟨rfl, h⟩

/-- The passes find nothing just if no plain piece holds a pair. -/
theorem count_dropEmphasis_eq_zero_iff {cs : List Char} :
    (dropEmphasis cs).count = 0 ↔ ∀ x, .plain x ∈ splitSpans false cs → ¬ Paired x := by
  simp only [dropEmphasis_eq, List.sum_eq_zero_iff_forall_eq_nat, List.forall_mem_map]
  constructor
  · intro h x hx
    exact count_eq_zero_iff_not_paired.1 (h _ hx)
  · intro h p hp
    cases p with
    | plain x => exact count_eq_zero_iff_not_paired.2 (h x hp)
    | span x => rfl

end MarkdownDocx.Text

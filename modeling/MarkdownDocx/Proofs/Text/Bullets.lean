import MarkdownDocx.Proofs.Text.Markers
import MarkdownDocx.Text.Blank

/-!
List bullets. An asterisk that begins a line looks to the passes like one that opens emphasis, and
a pair may lie on two lines. So between two formulas bullets go two by two, and a text keeps its
bullets just if there is at most one between any two of them.
-/

set_option autoImplicit false

namespace MarkdownDocx.Text

/-! ## Asterisks that stand apart -/

/-- No asterisk has another one beside it. -/
def Apart (x : List Char) : Prop := ∀ a b, x = a ++ '*' :: b → b.head? ≠ some '*'

theorem Apart.of_append {a b : List Char} (h : Apart (a ++ b)) : Apart b :=
  fun c d hb => h (a ++ c) d (by rw [hb, List.append_assoc])

/-- A text without its first asterisks, so many of them. -/
def withoutStars (n : Nat) (x : List Char) : List Char := x.diff (stars n)

theorem withoutStars_succ (n : Nat) (x : List Char) :
    withoutStars (n + 1) x = withoutStars n (x.erase '*') := by
  rw [withoutStars, stars, List.replicate_succ, List.diff_cons]
  rfl

theorem withoutStars_append {a : List Char} (ha : '*' ∉ a) (n : Nat) (x : List Char) :
    withoutStars n (a ++ x) = a ++ withoutStars n x := by
  induction n generalizing x with
  | zero => rfl
  | succ n ih => rw [withoutStars_succ, List.erase_append_right _ ha, ih, withoutStars_succ]

theorem withoutStars_pair {inner : List Char} (hinner : '*' ∉ inner) (n : Nat) (rest : List Char) :
    withoutStars (n + 2) ('*' :: (inner ++ '*' :: rest)) = inner ++ withoutStars n rest := by
  rw [withoutStars_succ, List.erase_cons_head, withoutStars_append hinner, withoutStars_succ,
    List.erase_cons_head]

/-- Markers of more than one asterisk are not found. -/
theorem Apart.dropMarkers_wide {m : Marker} (hm : 2 ≤ m.width) {afterStar : Bool} {x : List Char}
    (h : Apart x) : dropMarkers m afterStar x = ⟨x, 0⟩ := by
  refine dropMarkers_eq_of_count ((count_dropMarkers_eq_zero_iff (by omega)).2 ?_)
  rintro ⟨before, here, inner, rest, rfl, hreads⟩
  obtain ⟨n, hn⟩ : ∃ n, m.width = n + 2 := ⟨m.width - 2, by omega⟩
  have htext := hreads.text
  rw [hn] at htext
  exact h before _ (by rw [htext]; rfl) rfl

/-- Single asterisks go two by two, from the left. -/
theorem Apart.dropMarkers_italic {afterStar : Bool} {x : List Char} (h : Apart x)
    (hfirst : afterStar = true → x.head? ≠ some '*') : dropMarkers italic afterStar x =
      ⟨withoutStars (2 * (x.count '*' / 2)) x, x.count '*' / 2⟩ := by
  fun_induction dropMarkers italic afterStar x with
  | case1 => rfl
  | case2 afterStar c r inner rest hread ih =>
    obtain ⟨htext, -, hplain, halone⟩ := (Marker.read_eq_some_iff (by decide)).1 hread
    have htext : c :: r = '*' :: (inner ++ '*' :: rest) := by
      rw [htext]
      simp [italic, stars]
    have hrest : Apart rest := by
      rw [htext, ← List.cons_append] at h
      exact h.of_append.of_append (a := ['*'])
    have hcount : (c :: r).count '*' = rest.count '*' + 2 := by
      rw [htext, List.count_cons_self, List.count_append, List.count_cons_self,
        List.count_eq_zero_of_not_mem hplain]
      omega
    have hhalf : (rest.count '*' + 2) / 2 = rest.count '*' / 2 + 1 := by omega
    rw [ih hrest fun _ => (halone rfl).2, hcount, hhalf, htext, Nat.mul_add,
      withoutStars_pair hplain]
    rfl
  | case3 afterStar c r hread ih =>
    have hr : Apart r := h.of_append (a := [c])
    by_cases hc : c = '*'
    · subst hc
      have hnext : r.head? ≠ some '*' := h [] r rfl
      -- A second asterisk would close the pair that this one opens.
      have hlast : '*' ∉ r := by
        intro hmem
        obtain ⟨inner, rest, rfl, hplain⟩ := List.eq_append_cons_of_mem hmem
        have hfilled : inner ≠ [] := by
          rintro rfl
          exact hnext rfl
        have hreads : italic.Reads afterStar ('*' :: (inner ++ '*' :: rest)) inner rest := by
          refine ⟨by simp [italic, stars], hfilled, hplain, fun _ => ⟨?_, hr inner rest rfl⟩⟩
          rw [Bool.eq_false_iff]
          exact fun hstar => hfirst hstar rfl
        rw [(Marker.read_eq_some_iff (by decide)).2 hreads] at hread
        cases hread
      rw [ih hr fun _ => hnext, List.count_cons_self, List.count_eq_zero_of_not_mem hlast]
      rfl
    · have hbeside : (c == '*') = true → r.head? ≠ some '*' := fun heq => absurd (eq_of_beq heq) hc
      rw [ih hr hbeside, List.count_cons_of_ne hc,
        ← List.singleton_append (x := c), withoutStars_append (by simpa using Ne.symm hc)]
      rfl

theorem Apart.dropEmphasisPlain {x : List Char} (h : Apart x) : dropEmphasisPlain x =
    ⟨withoutStars (2 * (x.count '*' / 2)) x, x.count '*' / 2⟩ := by
  have hitalic : dropMarkers italic false x = _ := h.dropMarkers_italic (by simp)
  rw [Text.dropEmphasisPlain, h.dropMarkers_wide (m := boldItalic) (by decide)]
  simp only [h.dropMarkers_wide (m := bold) (by decide), hitalic, Nat.zero_add]

/-! ## Bullets -/

/-- Whether an asterisk between these texts begins its line, but for white space, and has a space
after it. -/
def isBullet (before after : List Char) : Bool :=
  (before.reverse.takeWhile (· ≠ '\n')).all isBlank && after.head? == some ' '

/-- Whether the asterisks of a text are bullets; `before` and `after` stand around it. -/
def areBullets (before after : List Char) : List Char → Bool
  | [] => true
  | c :: r => (c != '*' || isBullet before (r ++ after)) && areBullets (before ++ [c]) after r

def piecesBulleted (before : List Char) : List Piece → Bool
  | [] => true
  | .plain x :: ps => areBullets before (joinPieces ps) x && piecesBulleted (before ++ x) ps
  | .span x :: ps => piecesBulleted (before ++ x) ps

/-- Whether a text has no asterisks outside formulas but bullets. -/
def bulletsOnly (cs : List Char) : Bool := piecesBulleted [] (splitSpans false cs)

theorem apart_of_areBullets {before after x : List Char} (h : areBullets before after x = true) :
    Apart x := by
  induction x generalizing before with
  | nil => intro a b hx; simp at hx
  | cons c r ih =>
    simp only [areBullets, Bool.and_eq_true] at h
    intro a b hx
    cases a with
    | cons d a =>
      obtain ⟨-, rfl⟩ := List.cons.inj hx
      exact ih h.2 a b rfl
    | nil =>
      obtain ⟨rfl, rfl⟩ := List.cons.inj hx
      intro hnext
      obtain ⟨b, rfl⟩ : ∃ b, r = '*' :: b := by
        cases r with
        | nil => cases hnext
        | cons d b => exact ⟨b, by rw [Option.some.inj hnext]⟩
      simp [isBullet] at h

theorem apart_of_bulletsOnly {cs x : List Char} (h : bulletsOnly cs = true)
    (hx : .plain x ∈ splitSpans false cs) : Apart x := by
  have hpieces (before : List Char) (ps : List Piece) (h : piecesBulleted before ps = true)
      (hx : .plain x ∈ ps) : Apart x := by
    induction ps generalizing before with
    | nil => cases hx
    | cons p ps ih =>
      cases p with
      | plain y =>
        simp only [piecesBulleted, Bool.and_eq_true] at h
        rcases List.mem_cons.1 hx with heq | hx
        · rw [Piece.plain.inj heq]
          exact apart_of_areBullets h.1
        · exact ih _ h.2 hx
      | span y => exact ih _ h (by simpa using hx)
  exact hpieces [] _ h hx

/-- A piece without its bullets but the last of an odd number. -/
def unpairedPiece : Piece → Piece
  | .plain x => .plain (withoutStars (2 * (x.count '*' / 2)) x)
  | .span x => .span x

def bulletPairs : Piece → Nat
  | .plain x => x.count '*' / 2
  | .span _ => 0

/-- Between formulas bullets are taken for pairs of markers, the first with the second and so on,
and a text stays as it is just if no two of its bullets are between the same formulas. -/
theorem dropEmphasis_of_bulletsOnly {cs : List Char} (h : bulletsOnly cs = true) :
    dropEmphasis cs = ⟨joinPieces ((splitSpans false cs).map unpairedPiece),
      ((splitSpans false cs).map bulletPairs).sum⟩ ∧
    (dropEmphasis cs = ⟨cs, 0⟩ ↔ ∀ x, .plain x ∈ splitSpans false cs → x.count '*' ≤ 1) := by
  have hplain (x : List Char) (hx : .plain x ∈ splitSpans false cs) :
      dropEmphasisPlain x = ⟨withoutStars (2 * (x.count '*' / 2)) x, x.count '*' / 2⟩ :=
    (apart_of_bulletsOnly h hx).dropEmphasisPlain
  have hcleared : (splitSpans false cs).map clearedPiece =
      (splitSpans false cs).map unpairedPiece := by
    refine List.map_congr_left fun p hp => ?_
    cases p with
    | plain x => rw [clearedPiece, hplain x hp, unpairedPiece]
    | span x => rfl
  have hfound : (splitSpans false cs).map pairsFound = (splitSpans false cs).map bulletPairs := by
    refine List.map_congr_left fun p hp => ?_
    cases p with
    | plain x => rw [pairsFound, hplain x hp, bulletPairs]
    | span x => rfl
  have heq := dropEmphasis_eq cs
  rw [hcleared, hfound] at heq
  refine ⟨heq, fun hsame x hx => ?_, fun hone => dropEmphasis_eq_of_count ?_⟩
  · have hsum := congrArg Counted.count (heq.symm.trans hsame)
    rw [List.sum_eq_zero_iff_forall_eq_nat, List.forall_mem_map] at hsum
    have hhalf : x.count '*' / 2 = 0 := hsum _ hx
    omega
  · rw [heq, List.sum_eq_zero_iff_forall_eq_nat, List.forall_mem_map]
    intro p hp
    cases p with
    | plain x => exact Nat.div_eq_of_lt (Nat.lt_succ_of_le (hone x hp))
    | span x => rfl

/-- Five items, two of them after a formula. -/
theorem dropEmphasis_of_bulletsOnly_items :
    bulletsOnly "* a\n  * b\n\n* c $x*y$\n* d\n* e".toList = true ∧
      dropEmphasis "* a\n  * b\n\n* c $x*y$\n* d\n* e".toList =
        ⟨" a\n   b\n\n* c $x*y$\n d\n e".toList, 2⟩ := by
  have hbullets : bulletsOnly "* a\n  * b\n\n* c $x*y$\n* d\n* e".toList = true := by
    decide +kernel
  refine ⟨hbullets, (dropEmphasis_of_bulletsOnly hbullets).1.trans ?_⟩
  decide +kernel

/-- A list of two items loses its bullets. -/
theorem not_dropEmphasis_bullets : ¬ ∀ cs, bulletsOnly cs = true → dropEmphasis cs = ⟨cs, 0⟩ := by
  intro h
  have hlist := h "* a\n* b".toList (by decide +kernel)
  revert hlist
  decide +kernel

end MarkdownDocx.Text

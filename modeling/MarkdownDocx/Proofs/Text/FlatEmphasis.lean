import MarkdownDocx.Proofs.Text.Bare

/-!
Emphasis that is not nested. Between two equal markers stands text without asterisks, and each pass
takes the markers of its width and leaves narrower ones as they are. So all asterisks of the plain
pieces go, and the text without them has no other asterisks outside its formulas.
-/

set_option autoImplicit false

namespace MarkdownDocx.Text

/-- A text whose asterisks are markers of up to `w` asterisks around text without any; there is no
further asterisk after the second marker. -/
inductive Flat (w : Nat) : List Char → Prop
  | nil : Flat w []
  | char {c : Char} {r : List Char} : c ≠ '*' → Flat w r → Flat w (c :: r)
  | marked {n : Nat} {x r : List Char} : 0 < n → n ≤ w → x ≠ [] → '*' ∉ x → r.head? ≠ some '*' →
    Flat w r → Flat w (stars n ++ x ++ stars n ++ r)

theorem Flat.append {w : Nat} {x r : List Char} (hx : '*' ∉ x) (h : Flat w r) :
    Flat w (x ++ r) := by
  induction x with
  | nil => exact h
  | cons c x ih =>
    rw [List.mem_cons, not_or] at hx
    exact .char (Ne.symm hx.1) (ih hx.2)

theorem Flat.exists_ne {w : Nat} {x : List Char} (h : Flat w x) (hne : x ≠ []) :
    ∃ c ∈ x, c ≠ '*' := by
  cases h with
  | nil => exact absurd rfl hne
  | @char c r hc _ => exact ⟨c, .head r, hc⟩
  | marked _ _ hfilled hplain =>
    obtain ⟨c, hc⟩ := List.exists_mem_of_ne_nil _ hfilled
    refine ⟨c, by simp [hc], fun heq => hplain (heq ▸ hc)⟩

theorem Flat.not_mem {x : List Char} (h : Flat 0 x) : '*' ∉ x := by
  induction h with
  | nil => exact List.not_mem_nil
  | char hc _ ih => exact fun hmem => (List.mem_cons.1 hmem).elim (fun heq => hc heq.symm) ih
  | marked hpos hle => exact absurd hpos (Nat.not_lt.2 hle)

/-! ## What a pass leaves as it is -/

theorem stars_add (a b : Nat) : stars (a + b) = stars a ++ stars b := List.replicate_add a b '*'

section Pass

variable {m : Marker} (hm : 0 < m.width)

include hm

theorem read_eq_none {cs : List Char} (h : cs.head? ≠ some '*') (afterStar : Bool) :
    m.read afterStar cs = none := by
  cases hread : m.read afterStar cs with
  | none => rfl
  | some p => exact absurd (((Marker.read_eq_some_iff hm).1 hread).starred hm) h

theorem head?_dropMarkers {cs : List Char} (h : cs.head? ≠ some '*') (afterStar : Bool) :
    (dropMarkers m afterStar cs).text.head? = cs.head? := by
  cases cs with
  | nil => rw [dropMarkers]
  | cons c r =>
    rw [dropMarkers_keep (read_eq_none hm h afterStar)]
    rfl

/-- Text without asterisks. -/
theorem dropMarkers_plain {x : List Char} (hx : '*' ∉ x) (afterStar : Bool) (r : List Char) :
    ∃ later, (dropMarkers m afterStar (x ++ r)).text = x ++ (dropMarkers m later r).text := by
  induction x generalizing afterStar with
  | nil => exact ⟨afterStar, rfl⟩
  | cons c x ih =>
    rw [List.mem_cons, not_or] at hx
    have hhead : (c :: (x ++ r)).head? ≠ some '*' := fun heq => hx.1 (Option.some.inj heq).symm
    obtain ⟨later, hrest⟩ := ih hx.2 (c == '*')
    refine ⟨later, ?_⟩
    rw [List.cons_append, dropMarkers_keep (read_eq_none hm hhead afterStar), Counted.keep, hrest]
    rfl

/-- Fewer asterisks than the marker has. -/
theorem dropMarkers_stars {n : Nat} (hn : n < m.width) {r : List Char} (hr : r.head? ≠ some '*')
    (afterStar : Bool) :
    ∃ later, (dropMarkers m afterStar (stars n ++ r)).text =
      stars n ++ (dropMarkers m later r).text := by
  induction n generalizing afterStar with
  | zero => exact ⟨afterStar, rfl⟩
  | succ n ih =>
    have hread : m.read afterStar ('*' :: (stars n ++ r)) = none := by
      cases hread : m.read afterStar ('*' :: (stars n ++ r)) with
      | none => rfl
      | some p =>
        obtain ⟨inner, rest⟩ := p
        obtain ⟨k, hk⟩ : ∃ k, m.width = n + 1 + (k + 1) := ⟨m.width - n - 2, by omega⟩
        have htext : stars (n + 1) ++ r = _ := ((Marker.read_eq_some_iff hm).1 hread).text
        rw [hk, stars_add (n + 1), List.append_assoc, List.append_assoc, List.append_assoc] at htext
        obtain rfl := List.append_cancel_left htext
        exact absurd rfl hr
    obtain ⟨later, hrest⟩ := ih (by omega) true
    refine ⟨later, ?_⟩
    exact (congrArg Counted.text (dropMarkers_keep hread)).trans (congrArg ('*' :: ·) hrest)

/-- A pass takes the markers of its width. -/
theorem Flat.dropMarkers {x : List Char} (h : Flat m.width x) {afterStar : Bool}
    (hfirst : afterStar = true → x.head? ≠ some '*') :
    Flat (m.width - 1) (dropMarkers m afterStar x).text := by
  induction h generalizing afterStar with
  | nil => rw [Text.dropMarkers]; exact .nil
  | @char c r hc _ ih =>
    have hhead : (c :: r).head? ≠ some '*' := fun heq => hc (Option.some.inj heq)
    rw [dropMarkers_keep (read_eq_none hm hhead afterStar)]
    exact .char hc (ih fun heq => absurd (eq_of_beq heq) hc)
  | @marked n x r hpos hle hfilled hplain hr _ ih =>
    rcases Nat.lt_or_eq_of_le hle with hless | rfl
    · have hinner : (x ++ (stars n ++ r)).head? ≠ some '*' := by
        obtain ⟨c, x, rfl⟩ := List.exists_cons_of_ne_nil hfilled
        exact fun heq => hplain (by simpa using Or.inl (Option.some.inj heq).symm)
      obtain ⟨_, hopening⟩ := dropMarkers_stars hm hless hinner afterStar
      obtain ⟨_, htext⟩ := dropMarkers_plain hm hplain _ (stars n ++ r)
      obtain ⟨later, hclosing⟩ := dropMarkers_stars hm hless hr _
      rw [List.append_assoc, List.append_assoc, hopening, htext, hclosing, ← List.append_assoc,
        ← List.append_assoc]
      refine .marked hpos (by omega) hfilled hplain ?_ (ih fun _ => hr)
      rwa [head?_dropMarkers hm hr]
    · have hafter : afterStar = false := by
        rw [Bool.eq_false_iff]
        intro heq
        obtain ⟨k, hk⟩ : ∃ k, m.width = k + 1 := ⟨m.width - 1, by omega⟩
        refine hfirst heq ?_
        rw [hk]
        rfl
      have hreads : m.Reads afterStar (stars m.width ++ x ++ stars m.width ++ r) x r :=
        ⟨rfl, hfilled, hplain, fun _ => ⟨hafter, hr⟩⟩
      rw [dropMarkers_pair ((Marker.read_eq_some_iff hm).2 hreads)]
      exact .append hplain (ih fun _ => hr)

end Pass

/-- The three passes take all asterisks. -/
theorem Flat.dropEmphasisPlain {x : List Char} (h : Flat 3 x) :
    (dropEmphasisPlain x).text = x.filter (· ≠ '*') := by
  have hwide : Flat 2 (Text.dropMarkers boldItalic false x).text :=
    h.dropMarkers (m := boldItalic) (by decide) (by simp)
  have hmiddle :
      Flat 1 (Text.dropMarkers bold false (Text.dropMarkers boldItalic false x).text).text :=
    hwide.dropMarkers (m := bold) (by decide) (by simp)
  have hnarrow : Flat 0 (Text.dropEmphasisPlain x).text :=
    hmiddle.dropMarkers (m := italic) (by decide) (by simp)
  have hsame := (loses_dropEmphasisPlain x).filter_eq (q := (· ≠ '*')) (by simp)
  rw [← hsame, eq_comm, List.filter_eq_self]
  exact fun c hc => decide_eq_true fun heq => hnarrow.not_mem (heq ▸ hc)

/-! ## Texts -/

/-- Outside formulas there is no emphasis inside another and no other asterisk. -/
def Unnested (cs : List Char) : Prop := ∀ x, .plain x ∈ splitSpans false cs → Flat 3 x

theorem Unnested.worded {cs : List Char} (h : Unnested cs) : Worded cs := by
  intro n hn
  obtain ⟨c, hc, hne⟩ := (h _ hn).exists_ne (by simp [stars])
  exact hne (List.eq_of_mem_replicate hc)

theorem Unnested.dropEmphasis {cs : List Char} (h : Unnested cs) :
    (dropEmphasis cs).text = bare cs := by
  rw [dropEmphasis_eq, bare]
  refine congrArg joinPieces (List.map_congr_left fun p hp => ?_)
  cases p with
  | plain x => rw [clearedPiece, (h x hp).dropEmphasisPlain, barePiece]
  | span x => rfl

/-- Afterwards there are asterisks in formulas only. -/
theorem Unnested.unmarked {cs : List Char} (h : Unnested cs) :
    Unmarked (Text.dropEmphasis cs).text := by
  rw [h.dropEmphasis]
  exact unmarked_bare h.worded.later

end MarkdownDocx.Text

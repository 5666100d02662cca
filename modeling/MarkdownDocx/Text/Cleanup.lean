import MarkdownDocx.Text.Span

/-!
Cleanup passes for text that comes out of chats: straight quotes become curly, emphasis markers
go, and so do spaces between Chinese characters. Each pass counts what it changed.
-/

set_option autoImplicit false

namespace MarkdownDocx.Text

/-- A text after a pass, and the number of replacements. -/
structure Counted where
  text : List Char
  count : Nat
  deriving DecidableEq, Repr

/-- A character before a text, not counted as a change. -/
def Counted.keep (c : Char) (t : Counted) : Counted := ⟨c :: t.text, t.count⟩

/-- What stands in place of something else, before a text. -/
def Counted.change (cs : List Char) (t : Counted) : Counted := ⟨cs ++ t.text, t.count + 1⟩

/-- Straight quotes pair up from the left; one that is left over stays. `opened` tells whether the
last one before this point opened a pair. -/
def curlQuotesFrom (opened : Bool) : List Char → Counted
  | [] => ⟨[], 0⟩
  | c :: r =>
    if c = '"' then
      if opened then (curlQuotesFrom false r).change ['\u201d']
      else if r.contains '"' then (curlQuotesFrom true r).keep '\u201c'
      else ⟨'"' :: r, 0⟩
    else (curlQuotesFrom opened r).keep c

def curlQuotes (cs : List Char) : Counted := curlQuotesFrom false cs

/-- An emphasis marker: that many asterisks. A marker that stands alone has no further asterisk
beside it. -/
structure Marker where
  width : Nat
  alone : Bool
  deriving DecidableEq, Repr

def boldItalic : Marker := ⟨3, false⟩

def bold : Marker := ⟨2, false⟩

def italic : Marker := ⟨1, true⟩

/-- The rest after that many asterisks. -/
def afterStars : Nat → List Char → Option (List Char)
  | 0, cs => some cs
  | n + 1, '*' :: r => afterStars n r
  | _ + 1, _ => none

/-- Text without asterisks between two markers, and what follows the second. `afterStar` tells
whether an asterisk stands before this point. -/
def Marker.read (m : Marker) (afterStar : Bool) (cs : List Char) :
    Option (List Char × List Char) :=
  match afterStars m.width cs with
  | none => none
  | some r =>
    let inner := r.takeWhile (· ≠ '*')
    match afterStars m.width (r.dropWhile (· ≠ '*')) with
    | none => none
    | some rest =>
      if inner.isEmpty || (m.alone && (afterStar || rest.head? == some '*')) then none
      else some (inner, rest)

theorem afterStars_eq {n : Nat} {cs r : List Char} (h : afterStars n cs = some r) :
    cs = List.replicate n '*' ++ r := by
  fun_induction afterStars n cs with
  | case1 => simpa using h
  | case2 n r' ih => simp [List.replicate_succ, ih h]
  | case3 => simp at h

theorem Marker.read_eq {m : Marker} {afterStar : Bool} {cs inner rest : List Char}
    (h : m.read afterStar cs = some (inner, rest)) :
    cs = List.replicate m.width '*' ++ inner ++ List.replicate m.width '*' ++ rest := by
  unfold Marker.read at h
  split at h
  · simp at h
  · rename_i r hr
    simp only at h
    split at h
    · simp at h
    · rename_i rest' hrest
      split at h
      · simp at h
      · simp at h
        rw [afterStars_eq hr, ← h.1, ← h.2]
        have := afterStars_eq hrest
        simp only [List.append_assoc]
        rw [← this]
        simp

theorem Marker.read_length {m : Marker} {afterStar : Bool} {cs inner rest : List Char}
    (h : m.read afterStar cs = some (inner, rest)) : rest.length < cs.length := by
  have he := Marker.read_eq h
  have hi : inner ≠ [] := by
    unfold Marker.read at h
    split at h
    · simp at h
    · simp only at h
      split at h
      · simp at h
      · split at h
        · simp at h
        · rename_i hc
          obtain ⟨hinner, -⟩ := Prod.mk.inj (Option.some.inj h)
          intro hnil
          rw [← hinner] at hnil
          exact hc (by rw [hnil]; rfl)
  have := List.length_pos_iff.2 hi
  rw [he]
  simp only [List.length_append, List.length_replicate]
  omega

/-- Drops pairs of markers and keeps what they enclose. -/
def dropMarkers (m : Marker) (afterStar : Bool) : List Char → Counted
  | [] => ⟨[], 0⟩
  | c :: r =>
    match _h : m.read afterStar (c :: r) with
    | some (inner, rest) => (dropMarkers m true rest).change inner
    | none => (dropMarkers m (c == '*') r).keep c
termination_by cs => cs.length
decreasing_by
  · exact Marker.read_length _h
  · simp

/-- The three kinds of emphasis, the widest marker first. -/
def dropEmphasisPlain (cs : List Char) : Counted :=
  let a := dropMarkers boldItalic false cs
  let b := dropMarkers bold false a.text
  let c := dropMarkers italic false b.text
  ⟨c.text, a.count + b.count + c.count⟩

def dropEmphasisPieces : List Piece → Counted
  | [] => ⟨[], 0⟩
  | .span cs :: ps =>
    ⟨cs ++ (dropEmphasisPieces ps).text, (dropEmphasisPieces ps).count⟩
  | .plain cs :: ps =>
    ⟨(dropEmphasisPlain cs).text ++ (dropEmphasisPieces ps).text,
      (dropEmphasisPlain cs).count + (dropEmphasisPieces ps).count⟩

/-- Emphasis markers go, except inside formulas. -/
def dropEmphasis (cs : List Char) : Counted := dropEmphasisPieces (splitSpans false cs)

/-- Chinese characters of the main block. -/
def isHan (c : Char) : Bool := 0x4E00 ≤ c.toNat && c.toNat ≤ 0x9FFF

def chinesePunctuation : List Char :=
  ['，', '。', '、', '；', '：', '？', '！', '\u201c', '\u201d', '\u2018', '\u2019', '（', '）', '【',
    '】', '《', '》']

def isChinesePunctuation (c : Char) : Bool := chinesePunctuation.contains c

/-- Spaces inside a line. -/
def isGap (c : Char) : Bool := c == ' ' || c == '\t' || c == '\u3000' || c == '\u00a0'

/-- Drops the spaces between two characters of the given classes, from left to right. The second
character of a pair does not begin another. -/
def closeGaps (left right : Char → Bool) : List Char → Counted
  | [] => ⟨[], 0⟩
  | c :: r =>
    match _h : r.dropWhile isGap with
    | d :: rest =>
      if left c && right d && r.head?.any isGap then (closeGaps left right rest).change [c, d]
      else (closeGaps left right r).keep c
    | [] => (closeGaps left right r).keep c
termination_by cs => cs.length
decreasing_by
  · have := (List.dropWhile_suffix isGap (l := r)).length_le
    rw [_h] at this
    simp at this ⊢
    omega
  · simp
  · simp

theorem closeGaps_length (left right : Char → Bool) (cs : List Char) :
    (closeGaps left right cs).text.length + (closeGaps left right cs).count ≤ cs.length := by
  fun_induction closeGaps left right cs with
  | case1 => simp
  | case2 c r d rest h hc ih =>
    have hg : rest.length + 2 ≤ r.length := by
      cases r with
      | nil => simp at h
      | cons x xs =>
        have hx : isGap x = true := by simp_all
        rw [List.dropWhile_cons_of_pos hx] at h
        have := (List.dropWhile_suffix isGap (l := xs)).length_le
        rw [h] at this
        simp at this ⊢
        omega
    simp only [Counted.change, List.length_cons, List.length_append, List.length_nil]
    omega
  | case3 c r d rest h hc ih => simp only [Counted.keep, List.length_cons]; omega
  | case4 c r h ih => simp only [Counted.keep, List.length_cons]; omega

/-- Gaps between Chinese characters, again and again until there is none. -/
def closeHanGaps (cs : List Char) : Counted :=
  let a := closeGaps isHan isHan cs
  if a.count = 0 then a
  else ⟨(closeHanGaps a.text).text, a.count + (closeHanGaps a.text).count⟩
termination_by cs.length
decreasing_by
  all_goals
    have := closeGaps_length isHan isHan cs
    simp only [a] at *
    omega

/-- Spaces go between two Chinese characters, and between one and Chinese punctuation. -/
def closeChineseGaps (cs : List Char) : Counted :=
  let a := closeHanGaps cs
  let b := closeGaps isHan isChinesePunctuation a.text
  let c := closeGaps isChinesePunctuation isHan b.text
  ⟨c.text, a.count + b.count + c.count⟩

/-- A text after all cleanup passes, with a count for each. -/
structure Cleaned where
  text : List Char
  quotes : Nat
  emphasis : Nat
  spaces : Nat
  deriving DecidableEq, Repr

/-- Quotes, then emphasis, then spaces. -/
def cleanUp (cs : List Char) : Cleaned :=
  let q := curlQuotes cs
  let e := dropEmphasis q.text
  let s := closeChineseGaps e.text
  ⟨s.text, q.count, e.count, s.count⟩

end MarkdownDocx.Text

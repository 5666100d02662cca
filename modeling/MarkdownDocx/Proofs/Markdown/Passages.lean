import MarkdownDocx.Proofs.Markdown.Lines

/-!
A text in passages. The formula pass reads a text line by line: fence lines open and close blocks,
and outside of them a line is a bare formula or it is not. Divided so, the pass is a function on
passages: it fences each bare formula and closes the block that is left open, and there is nothing
left for it to do on its own result, nor on that result with gaps filled.
-/

set_option autoImplicit false

namespace MarkdownDocx.Markdown

open MarkdownDocx.Text

abbrev Line := List Char

/-- A line that is fenced where it stands outside of blocks. -/
def isBare (l : Line) : Bool := looksLikeFormula l && !isDelimited (trim l)

/-- The lines of a text, in order. Only the last passage can be a block that nothing closes. -/
inductive Passages where
  | done
  | line (l : Line) (rest : Passages)
  | formula (l : Line) (rest : Passages)
  | block (opening : Line) (body : List Line) (closing : Line) (rest : Passages)
  | unclosed (opening : Line) (body : List Line)
  deriving DecidableEq, Repr

/-- Divides lines. `opened` is the fence line that is still open, with the lines after it. -/
def divide : Option (Line × List Line) → List Line → Passages
  | none, [] => .done
  | some (o, body), [] => .unclosed o body
  | none, l :: rest =>
    if trim l = fence then divide (some (l, [])) rest
    else if isBare l then .formula l (divide none rest)
    else .line l (divide none rest)
  | some (o, body), l :: rest =>
    if trim l = fence then .block o body l (divide none rest)
    else divide (some (o, body ++ [l])) rest

def passages (cs : List Char) : Passages := divide none (splitFeeds cs)

namespace Passages

def lines : Passages → List Line
  | done => []
  | line l rest => l :: rest.lines
  | formula l rest => l :: rest.lines
  | block o body c rest => o :: (body ++ c :: rest.lines)
  | unclosed o body => o :: body

def text (p : Passages) : List Char := joinFeeds p.lines

/-- With bare formulas between fences, and a fence after a block that nothing closes. -/
def fenced : Passages → Passages
  | done => done
  | line l rest => line l rest.fenced
  | formula l rest => block fence [trim l] fence rest.fenced
  | block o body c rest => block o body c rest.fenced
  | unclosed o body => block o body fence done

/-- Each line is what its passage takes it for. -/
def Valid : Passages → Prop
  | done => True
  | line l rest => trim l ≠ fence ∧ isBare l = false ∧ rest.Valid
  | formula l rest => trim l ≠ fence ∧ isBare l = true ∧ rest.Valid
  | block o body c rest =>
    trim o = fence ∧ (∀ l ∈ body, trim l ≠ fence) ∧ trim c = fence ∧ rest.Valid
  | unclosed o body => trim o = fence ∧ ∀ l ∈ body, trim l ≠ fence

end Passages

/-! ## Dividing and joining -/

/-- The lines that an open block has taken. -/
def openedLines : Option (Line × List Line) → List Line
  | none => []
  | some (o, body) => o :: body

theorem lines_divide (opened : Option (Line × List Line)) (ls : List Line) :
    (divide opened ls).lines = openedLines opened ++ ls := by
  fun_induction divide opened ls with
  | case1 => rfl
  | case2 o body => simp [Passages.lines, openedLines]
  | case3 l rest h ih => simpa [openedLines] using ih
  | case4 l rest h hbare ih => simpa [Passages.lines, openedLines] using ih
  | case5 l rest h hbare ih => simpa [Passages.lines, openedLines] using ih
  | case6 o body l rest h ih => simpa [Passages.lines, openedLines] using ih
  | case7 o body l rest h ih => simpa [openedLines] using ih

/-- Dividing loses nothing. -/
@[simp] theorem text_passages (cs : List Char) : (passages cs).text = cs := by
  rw [Passages.text, passages, lines_divide]
  exact joinFeeds_splitFeeds cs

theorem valid_divide (opened : Option (Line × List Line)) (ls : List Line)
    (h : ∀ b ∈ opened, trim b.1 = fence ∧ ∀ l ∈ b.2, trim l ≠ fence) :
    (divide opened ls).Valid := by
  fun_induction divide opened ls with
  | case1 => trivial
  | case2 o body => exact h (o, body) rfl
  | case3 l rest hl ih =>
    refine ih fun b hb => ?_
    obtain rfl : (l, []) = b := by simpa using hb
    exact ⟨hl, by simp⟩
  | case4 l rest hl hbare ih => exact ⟨hl, hbare, ih h⟩
  | case5 l rest hl hbare ih => exact ⟨hl, by simpa using hbare, ih h⟩
  | case6 o body l rest hl ih =>
    obtain ⟨ho, hbody⟩ := h (o, body) rfl
    exact ⟨ho, hbody, hl, ih (by simp)⟩
  | case7 o body l rest hl ih =>
    obtain ⟨ho, hbody⟩ := h (o, body) rfl
    refine ih fun b hb => ?_
    obtain rfl : (o, body ++ [l]) = b := by simpa using hb
    refine ⟨ho, fun k hk => ?_⟩
    rcases List.mem_append.1 hk with hk | hk
    · exact hbody k hk
    · obtain rfl : k = l := by simpa using hk
      exact hl

theorem valid_passages (cs : List Char) : (passages cs).Valid :=
  valid_divide none (splitFeeds cs) (by simp)

theorem divide_body {o : Line} {body ls : List Line} (more : List Line)
    (h : ∀ l ∈ more, trim l ≠ fence) :
    divide (some (o, body)) (more ++ ls) = divide (some (o, body ++ more)) ls := by
  induction more generalizing body with
  | nil => simp
  | cons l more ih =>
    have hl := h l (by simp)
    rw [List.cons_append, divide, if_neg hl, ih fun k hk => h k (.tail _ hk)]
    simp

/-- There is one way to divide lines. -/
theorem divide_lines {p : Passages} (h : p.Valid) : divide none p.lines = p := by
  induction p with
  | done => rfl
  | line l rest ih =>
    obtain ⟨hl, hbare, hrest⟩ := h
    simp [Passages.lines, divide, hl, hbare, ih hrest]
  | formula l rest ih =>
    obtain ⟨hl, hbare, hrest⟩ := h
    simp [Passages.lines, divide, hl, hbare, ih hrest]
  | block o body c rest ih =>
    obtain ⟨ho, hbody, hc, hrest⟩ := h
    rw [Passages.lines, divide, if_pos ho, divide_body body hbody, divide, if_pos hc, ih hrest]
    rfl
  | unclosed o body =>
    obtain ⟨ho, hbody⟩ := h
    have hlines : divide (some (o, [])) (body ++ []) = divide (some (o, body)) [] :=
      divide_body body hbody
    rw [List.append_nil] at hlines
    rw [Passages.lines, divide, if_pos ho, hlines]
    rfl

theorem passages_text {p : Passages} (h : p.Valid) (hne : p.lines ≠ [])
    (hfeed : ∀ l ∈ p.lines, '\n' ∉ l) : passages p.text = p := by
  rw [passages, Passages.text, splitFeeds_joinFeeds hne hfeed, divide_lines h]

theorem not_mem_of_mem_passages {cs : List Char} {l : Line} (h : l ∈ (passages cs).lines) :
    '\n' ∉ l := by
  rw [passages, lines_divide] at h
  exact not_mem_of_mem_splitFeeds h

theorem lines_passages_ne_nil (cs : List Char) : (passages cs).lines ≠ [] := by
  rw [passages, lines_divide]
  exact splitFeeds_ne_nil cs

/-! ## Fencing -/

/-- The pass, on lines, is fencing on passages. -/
theorem lines_fenced_divide (opened : Option (Line × List Line)) (ls : List Line) :
    (divide opened ls).fenced.lines = openedLines opened ++ fenceLines opened.isSome ls := by
  fun_induction divide opened ls with
  | case1 => rfl
  | case2 o body => simp [Passages.fenced, Passages.lines, openedLines, fenceLines]
  | case3 l rest h ih => simpa [fenceLines, h, openedLines] using ih
  | case4 l rest h hbare ih =>
    simp only [isBare, Bool.and_eq_true, Bool.not_eq_true'] at hbare
    simpa [Passages.fenced, Passages.lines, fenceLines, h, hbare, openedLines] using ih
  | case5 l rest h hbare ih =>
    have hline : fenceLines false (l :: rest) = l :: fenceLines false rest := by
      rw [fenceLines, if_neg h]
      by_cases hdelimited : isDelimited (trim l) = true
      · simp [hdelimited]
      · have hlooks : looksLikeFormula l = false := by
          simpa [isBare, hdelimited] using hbare
        simp [hdelimited, hlooks]
    simpa [Passages.fenced, Passages.lines, hline, openedLines] using ih
  | case6 o body l rest h ih =>
    simpa [Passages.fenced, Passages.lines, fenceLines, h, openedLines] using ih
  | case7 o body l rest h ih => simpa [fenceLines, h, openedLines] using ih

theorem fenceFormulas_eq (cs : List Char) : fenceFormulas cs = (passages cs).fenced.text := by
  have hlines := lines_fenced_divide none (splitFeeds cs)
  rw [Passages.text, passages, hlines]
  rfl

namespace Passages

@[simp] theorem trim_fence : trim fence = fence := by decide

theorem fenced_fenced (p : Passages) : p.fenced.fenced = p.fenced := by
  induction p with
  | done => rfl
  | line l rest ih => rw [fenced, fenced, ih]
  | formula l rest ih => rw [fenced, fenced, ih]
  | block o body c rest ih => rw [fenced, fenced, ih]
  | unclosed o body => rfl

theorem Valid.fenced {p : Passages} (h : p.Valid) : p.fenced.Valid := by
  induction p with
  | done => trivial
  | line l rest ih => exact ⟨h.1, h.2.1, ih h.2.2⟩
  | formula l rest ih =>
    refine ⟨trim_fence, fun k hk => ?_, trim_fence, ih h.2.2⟩
    obtain rfl : k = trim l := by simpa using hk
    rw [trim_trim]
    exact h.1
  | block o body c rest ih => exact ⟨h.1, h.2.1, h.2.2.1, ih h.2.2.2⟩
  | unclosed o body => exact ⟨h.1, h.2, trim_fence, trivial⟩

theorem lines_fenced_ne_nil {p : Passages} (h : p.lines ≠ []) : p.fenced.lines ≠ [] := by
  cases p with
  | done => exact absurd rfl h
  | line l rest => simp [fenced, lines]
  | formula l rest => simp [fenced, lines]
  | block o body c rest => simp [fenced, lines]
  | unclosed o body => simp [fenced, lines]

/-- Fenced lines are fences, the lines there were, and trimmed ones. -/
theorem forall_mem_fenced {P : Line → Prop} (hfence : P fence) (htrim : ∀ l, P l → P (trim l))
    {p : Passages} (h : ∀ l ∈ p.lines, P l) : ∀ l ∈ p.fenced.lines, P l := by
  induction p with
  | done => exact h
  | line l rest ih =>
    obtain ⟨hl, hrest⟩ := List.forall_mem_cons.1 h
    exact List.forall_mem_cons.2 ⟨hl, ih hrest⟩
  | formula l rest ih =>
    obtain ⟨hl, hrest⟩ := List.forall_mem_cons.1 h
    have hclosing := List.forall_mem_cons.2 ⟨hfence, ih hrest⟩
    exact List.forall_mem_cons.2 ⟨hfence, List.forall_mem_cons.2 ⟨htrim l hl, hclosing⟩⟩
  | block o body c rest ih =>
    obtain ⟨ho, hinside⟩ := List.forall_mem_cons.1 h
    obtain ⟨hbody, hclosing⟩ := List.forall_mem_append.1 hinside
    obtain ⟨hc, hrest⟩ := List.forall_mem_cons.1 hclosing
    have hclosing' := List.forall_mem_cons.2 ⟨hc, ih hrest⟩
    exact List.forall_mem_cons.2 ⟨ho, List.forall_mem_append.2 ⟨hbody, hclosing'⟩⟩
  | unclosed o body =>
    obtain ⟨ho, hbody⟩ := List.forall_mem_cons.1 h
    have hclosing : ∀ l ∈ [fence], P l := by simpa using hfence
    exact List.forall_mem_cons.2 ⟨ho, List.forall_mem_append.2 ⟨hbody, hclosing⟩⟩

theorem feedFree_fenced {p : Passages} (h : ∀ l ∈ p.lines, '\n' ∉ l) :
    ∀ l ∈ p.fenced.lines, '\n' ∉ l := by
  have htrim (l : Line) (hl : '\n' ∉ l) : '\n' ∉ trim l := fun hmem => hl (mem_of_mem_trim hmem)
  exact forall_mem_fenced (by decide) htrim h

end Passages

/-- What the pass makes of a text is divided as the fenced text is. -/
theorem passages_fenceFormulas (cs : List Char) :
    passages (fenceFormulas cs) = (passages cs).fenced := by
  rw [fenceFormulas_eq]
  exact passages_text (valid_passages cs).fenced
    (Passages.lines_fenced_ne_nil (lines_passages_ne_nil cs))
    (Passages.feedFree_fenced fun _ hl => not_mem_of_mem_passages hl)

/-! ## Passages with filled gaps -/

/-- The same passages, but for zero-width spaces in gaps. -/
inductive Passages.Alike : Passages → Passages → Prop
  | done : Alike .done .done
  | line {l m : Line} {p q : Passages} : Gapped l m → Alike p q → Alike (.line l p) (.line m q)
  | formula {l m : Line} {p q : Passages} : Gapped l m → Alike p q →
    Alike (.formula l p) (.formula m q)
  | block {o o' c c' : Line} {body body' : List Line} {p q : Passages} : Gapped o o' →
    List.Forall₂ Gapped body body' → Gapped c c' → Alike p q →
    Alike (.block o body c p) (.block o' body' c' q)
  | unclosed {o o' : Line} {body body' : List Line} : Gapped o o' →
    List.Forall₂ Gapped body body' → Alike (.unclosed o body) (.unclosed o' body')

theorem Gapped.isBare_eq {l m : Line} (h : Gapped l m) : isBare l = isBare m := by
  rw [isBare, isBare, h.looksLikeFormula_eq, h.trim.isDelimited_eq]

/-- Both a text outside of blocks and one that begins inside of a block are divided alike. -/
theorem divide_alike {ls ms : List Line} (h : List.Forall₂ Gapped ls ms) :
    (divide none ls).Alike (divide none ms) ∧
      ∀ {o o' : Line} {body body' : List Line}, Gapped o o' → List.Forall₂ Gapped body body' →
        (divide (some (o, body)) ls).Alike (divide (some (o', body')) ms) := by
  induction h with
  | nil => exact ⟨.done, fun ho hbody => .unclosed ho hbody⟩
  | @cons l m ls ms hline _ ih =>
    obtain ⟨ihOutside, ihInside⟩ := ih
    have hfence : trim l = fence ↔ trim m = fence := hline.trim.eq_fence_iff
    constructor
    · simp only [divide]
      by_cases hl : trim l = fence
      · rw [if_pos hl, if_pos (hfence.1 hl)]
        exact ihInside hline .nil
      · rw [if_neg hl, if_neg (mt hfence.2 hl), hline.isBare_eq]
        split
        · exact .formula hline ihOutside
        · exact .line hline ihOutside
    · intro o o' body body' ho hbody
      simp only [divide]
      by_cases hl : trim l = fence
      · rw [if_pos hl, if_pos (hfence.1 hl)]
        exact .block ho hbody hline ihOutside
      · rw [if_neg hl, if_neg (mt hfence.2 hl)]
        exact ihInside ho (List.rel_append hbody (.cons hline .nil))

theorem passages_alike {cs ds : List Char} (h : Gapped cs ds) :
    (passages cs).Alike (passages ds) :=
  (divide_alike h.splitFeeds).1

/-- Where nothing is to be fenced, nothing is when gaps are filled. -/
theorem Passages.Alike.fenced_eq_self {p q : Passages} (h : p.Alike q) (hp : p.fenced = p) :
    q.fenced = q := by
  induction h with
  | done => rfl
  | line _ _ ih =>
    obtain ⟨-, hrest⟩ := Passages.line.inj hp
    rw [fenced, ih hrest]
  | formula _ _ _ => exact absurd hp (by simp [fenced])
  | block _ _ _ _ ih =>
    obtain ⟨-, -, -, hrest⟩ := Passages.block.inj hp
    rw [fenced, ih hrest]
  | unclosed _ _ => exact absurd hp (by simp [fenced])

/-- The pass has nothing to do on its own result, whatever gaps are filled in between. -/
theorem fenceFormulas_of_gapped {cs ds : List Char} (h : Gapped (fenceFormulas cs) ds) :
    fenceFormulas ds = ds := by
  have halike := passages_alike h
  rw [passages_fenceFormulas] at halike
  rw [fenceFormulas_eq, halike.fenced_eq_self (Passages.fenced_fenced _), text_passages]

end MarkdownDocx.Markdown

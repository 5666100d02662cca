import MarkdownDocx.Markdown.Prepare
import MarkdownDocx.Proofs.Markdown.Passages
import MarkdownDocx.Proofs.Text.Feeds

/-!
Documents that are wrapped in a code block as a whole. The fences of a document pair up line by
line, and the block that its first line opens may be closed before the end. Unwrapping asks for the
two ends of the text only. So it is right about a block that goes on to the last line, but it also
cuts a document that is a block with more after it, if the last of that ends with a fence.
-/

set_option autoImplicit false

namespace MarkdownDocx.Text

theorem joinFeeds_cons_eq (l : List Char) (ls : List (List Char)) :
    joinFeeds (l :: ls) = l ++ feeds ls := by
  cases ls with
  | nil => simp [joinFeeds, feeds]
  | cons k ks => rw [joinFeeds_cons l (List.cons_ne_nil k ks), feeds_eq (List.cons_ne_nil k ks)]

/-- A word without line feeds ends a text if it ends the last line. -/
theorem suffix_append_feed_iff {w : List Char} (hw : '\n' ∉ w) (cs l : List Char) :
    w <:+ cs ++ '\n' :: l ↔ w <:+ l := by
  have hline : '\n' :: l <:+ cs ++ '\n' :: l := List.suffix_append cs _
  constructor
  · intro h
    rcases List.suffix_or_suffix_of_suffix h hline with hshort | hlong
    · rcases List.suffix_cons_iff.1 hshort with rfl | hsuffix
      · exact absurd List.mem_cons_self hw
      · exact hsuffix
    · exact absurd (hlong.subset List.mem_cons_self) hw
  · intro h
    exact h.trans ((List.suffix_cons '\n' l).trans hline)

end MarkdownDocx.Text

namespace MarkdownDocx.Markdown

open MarkdownDocx.Text

/-! ## Code blocks, line by line -/

section Blocks

variable (isInfo : List Char → Bool)

/-- A line that opens a code block: a fence with an info string behind it. Which strings are one is
left open. -/
def opensBlock (l : Line) : Bool :=
  wrapperClosing.isPrefixOf l && isInfo (l.drop wrapperClosing.length)

/-- The lines inside of a code block and those after it, from its first line on, if there is a line
that closes it. A bare fence closes the block that was opened last; `depth` counts the blocks that
have been opened inside of this one and not been closed. -/
def readBlock : Nat → List Line → Option (List Line × List Line)
  | _, [] => none
  | depth, l :: rest =>
    if l = wrapperClosing then
      match depth with
      | 0 => some ([], rest)
      | depth + 1 => (readBlock depth rest).map fun p => (l :: p.1, p.2)
    else
      (readBlock (if opensBlock isInfo l then depth + 1 else depth) rest).map
        fun p => (l :: p.1, p.2)

variable {isInfo}

/-- Between the lines inside and those after it stands the fence that closes the block. -/
theorem readBlock_eq_append {depth : Nat} {ls inside after : List Line}
    (h : readBlock isInfo depth ls = some (inside, after)) :
    ls = inside ++ wrapperClosing :: after := by
  fun_induction readBlock isInfo depth ls generalizing inside with
  | case1 depth => simp at h
  | case2 rest =>
    obtain ⟨rfl, rfl⟩ : [] = inside ∧ rest = after := by simpa using h
    rfl
  | case3 rest depth ih =>
    obtain ⟨p, hread, hp⟩ := Option.map_eq_some_iff.1 h
    obtain ⟨rfl, rfl⟩ := Prod.mk.inj hp
    rw [ih hread, List.cons_append]
  | case4 depth l rest hl ih =>
    obtain ⟨p, hread, hp⟩ := Option.map_eq_some_iff.1 h
    obtain ⟨rfl, rfl⟩ := Prod.mk.inj hp
    rw [ih hread, List.cons_append]

end Blocks

/-! ## The ends of a text -/

@[simp] theorem trimFeeds_feed (cs : List Char) : trimFeeds ('\n' :: cs) = trimFeeds cs := by
  simp [trimFeeds]

@[simp] theorem trimFeeds_append_feed (cs : List Char) :
    trimFeeds (cs ++ ['\n']) = trimFeeds cs := by
  unfold trimFeeds
  rw [List.dropWhile_append]
  split
  · next h => simp [List.isEmpty_iff.1 h]
  · next h => simp

theorem trimFeeds_feeds (ls : List Line) : trimFeeds (feeds ls) = trimFeeds (joinFeeds ls) := by
  cases ls with
  | nil => rfl
  | cons l ls => rw [feeds_eq (List.cons_ne_nil l ls), trimFeeds_feed]

theorem length_trimFeeds_le (cs : List Char) : (trimFeeds cs).length ≤ cs.length := by
  unfold trimFeeds
  rw [List.length_reverse]
  refine (List.length_dropWhile_le _ _).trans ?_
  rw [List.length_reverse]
  exact List.length_dropWhile_le _ _

section Ends

variable {cs : List Char}

theorem unwrapChars_of_ends {body : List Char}
    (h : trim cs = wrapperOpening ++ body ++ wrapperClosing) : unwrapChars cs = trimFeeds body := by
  have hopening : wrapperOpening.isPrefixOf (trim cs) = true :=
    List.isPrefixOf_iff_prefix.2 ⟨body ++ wrapperClosing, by rw [h, List.append_assoc]⟩
  have hclosing : wrapperClosing.isSuffixOf (trim cs) = true :=
    List.isSuffixOf_iff_suffix.2 ⟨wrapperOpening ++ body, h.symm⟩
  have hbody : ((trim cs).drop wrapperOpening.length).dropLast.dropLast.dropLast = body := by
    rw [h, List.append_assoc, List.drop_left]
    simp [wrapperClosing, List.dropLast_append_of_ne_nil]
  rw [unwrapChars, hopening, hclosing, Bool.and_self, if_pos rfl, hbody]

theorem unwrapChars_of_not_closed (h : ¬ wrapperClosing <:+ trim cs) : unwrapChars cs = cs := by
  have hclosing : wrapperClosing.isSuffixOf (trim cs) = false := by
    rwa [← Bool.not_eq_true, List.isSuffixOf_iff_suffix]
  rw [unwrapChars, hclosing, Bool.and_false, if_neg Bool.false_ne_true]

/-- A text never is what stands between its own ends. -/
theorem unwrapChars_ne_of_ends {body : List Char}
    (h : trim cs = wrapperOpening ++ body ++ wrapperClosing) : unwrapChars cs ≠ cs := by
  intro hself
  have hshorter := length_trimFeeds_le body
  have hwithin := (trim_within cs).length_le
  rw [← unwrapChars_of_ends h, hself] at hshorter
  have hopening : 0 < wrapperOpening.length := by decide
  rw [h, List.length_append, List.length_append] at hwithin
  omega

variable {kept : List Line} {last : Line}

theorem trim_of_lines {rest : List Line} (h : splitFeeds (trim cs) = wrapperOpening :: rest) :
    trim cs = wrapperOpening ++ feeds rest := by
  rw [← joinFeeds_splitFeeds (trim cs), h, joinFeeds_cons_eq]

/-- If the last line ends with a fence, all lines but the first one are kept up to that. -/
theorem unwrapChars_of_lines
    (h : splitFeeds (trim cs) = wrapperOpening :: (kept ++ [last ++ wrapperClosing])) :
    unwrapChars cs ≠ cs ∧ unwrapChars cs = trimFeeds (joinFeeds (kept ++ [last])) := by
  have hends : trim cs = wrapperOpening ++ feeds (kept ++ [last]) ++ wrapperClosing := by
    rw [trim_of_lines h]
    simp [feeds]
  exact ⟨unwrapChars_ne_of_ends hends, by rw [unwrapChars_of_ends hends, trimFeeds_feeds]⟩

theorem unwrapChars_of_lastLine (h : splitFeeds (trim cs) = wrapperOpening :: (kept ++ [last]))
    (hlast : ¬ wrapperClosing <:+ last) : unwrapChars cs = cs := by
  refine unwrapChars_of_not_closed ?_
  have htrim : trim cs = wrapperOpening ++ feeds kept ++ '\n' :: last := by
    rw [trim_of_lines h]
    simp [feeds]
  rwa [htrim, suffix_append_feed_iff (by decide)]

end Ends

/-! ## Unwrapping -/

/-- A text that begins with the line of a wrapper. If just the last line closes that block, the
lines between them are returned without the line feeds around them. If it is closed before, the text
stays as it is unless its last line ends with a fence, whatever that fence may close; then all lines
after the first are returned up to that fence, the one that closed the block among them. -/
theorem unwrap_wrapper (isInfo : List Char → Bool) {text : String} {rest : List Line}
    (h : splitFeeds (trim text.toList) = wrapperOpening :: rest) :
    (∀ inside, readBlock isInfo 0 rest = some (inside, []) →
      unwrap text = String.ofList (trimFeeds (joinFeeds inside))) ∧
    ∀ inside after last, readBlock isInfo 0 rest = some (inside, after ++ [last]) →
      (¬ wrapperClosing <:+ last → unwrap text = text) ∧
      ∀ shown, last = shown ++ wrapperClosing →
        unwrap text ≠ text ∧
        unwrap text = String.ofList
          (trimFeeds (joinFeeds (inside ++ wrapperClosing :: after ++ [shown]))) := by
  refine ⟨fun inside hread => ?_, fun inside after last hread => ?_⟩
  · rw [readBlock_eq_append hread] at h
    -- nothing stands before the last fence on its line
    have hends : splitFeeds (trim text.toList) =
        wrapperOpening :: (inside ++ [[] ++ wrapperClosing]) := h
    obtain ⟨-, hunwrap⟩ := unwrapChars_of_lines hends
    rw [unwrap, hunwrap]
    cases inside with
    | nil => rfl
    | cons l ls =>
      rw [← trimFeeds_feeds, feeds_append, ← trimFeeds_feeds (l :: ls)]
      exact congrArg String.ofList (trimFeeds_append_feed _)
  · have hrest : rest = inside ++ wrapperClosing :: after ++ [last] := by
      simpa using readBlock_eq_append hread
    rw [hrest] at h
    refine ⟨fun hlast => ?_, ?_⟩
    · rw [unwrap, unwrapChars_of_lastLine h hlast, String.ofList_toList]
    · rintro shown rfl
      obtain ⟨hne, hunwrap⟩ := unwrapChars_of_lines h
      refine ⟨fun hself => hne ?_, by rw [unwrap, hunwrap]⟩
      rw [← String.toList_ofList (l := unwrapChars text.toList)]
      exact congrArg String.toList hself

/-- Anything behind a fence is an info string. -/
def namesLanguage (info : List Char) : Bool := !info.isEmpty

/-- A wrapper around a block, with blank lines inside and white space outside. -/
def wrappedBlock : String :=
  "\n\x60\x60\x60markdown\n\n\x60\x60\x60lean\n#\n\x60\x60\x60\n\n\x60\x60\x60 "

/-- A wrapper that is closed before the last line. -/
def blockAndText : String := "\x60\x60\x60markdown\na\n\x60\x60\x60\nb"

/-- The same with a last line that ends as a block does. -/
def blockAndSpan : String := "\x60\x60\x60markdown\na\n\x60\x60\x60\nb \x60\x60\x60"

theorem unwrap_wrapper_blocks :
    unwrap wrappedBlock = "\x60\x60\x60lean\n#\n\x60\x60\x60" ∧
      unwrap blockAndText = blockAndText ∧
      unwrap blockAndSpan ≠ blockAndSpan ∧
      unwrap blockAndSpan = "a\n\x60\x60\x60\nb " := by
  have hwrapped : splitFeeds (trim wrappedBlock.toList) = wrapperOpening ::
      [[], "\x60\x60\x60lean".toList, ['#'], wrapperClosing, [], wrapperClosing] := by decide
  have htext : splitFeeds (trim blockAndText.toList) =
      wrapperOpening :: [['a'], wrapperClosing, ['b']] := by decide
  have hspan : splitFeeds (trim blockAndSpan.toList) =
      wrapperOpening :: [['a'], wrapperClosing, ['b', ' '] ++ wrapperClosing] := by decide
  obtain ⟨hall, -⟩ := unwrap_wrapper namesLanguage hwrapped
  obtain ⟨-, hstays⟩ := unwrap_wrapper namesLanguage htext
  obtain ⟨-, hcut⟩ := unwrap_wrapper namesLanguage hspan
  have hwhole := hall [[], "\x60\x60\x60lean".toList, ['#'], wrapperClosing, []] (by decide)
  obtain ⟨hsame, -⟩ := hstays [['a']] [] ['b'] (by decide)
  obtain ⟨-, hends⟩ := hcut [['a']] [] (['b', ' '] ++ wrapperClosing) (by decide)
  obtain ⟨hne, hshown⟩ := hends ['b', ' '] rfl
  exact ⟨hwhole.trans (by decide), hsame (by decide), hne, hshown.trans (by decide)⟩

/-- Two blocks with text between them, the first of which begins as a wrapper. -/
def twoBlocks : String :=
  "\x60\x60\x60markdown\na\n\x60\x60\x60\nb\n\x60\x60\x60lean\nc\n\x60\x60\x60"

/-- Two blocks are cut as if they were one, so the second loses its end. -/
theorem unwrap_twoBlocks :
    (∃ rest, splitFeeds (trim twoBlocks.toList) = wrapperOpening :: rest ∧
      readBlock namesLanguage 0 rest =
        some ([['a']], [['b'], "\x60\x60\x60lean".toList, ['c'], wrapperClosing])) ∧
      unwrap twoBlocks = "a\n\x60\x60\x60\nb\n\x60\x60\x60lean\nc" ∧
      unwrap twoBlocks ≠ twoBlocks := by
  refine ⟨⟨_, rfl, ?_⟩, ?_, ?_⟩
  · decide
  · decide
  · decide

end MarkdownDocx.Markdown

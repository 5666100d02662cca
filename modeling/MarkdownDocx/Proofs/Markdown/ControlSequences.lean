import MarkdownDocx.Proofs.Markdown.BareLines

/-!
What is counted as a command of a line. A command counts where it begins a control sequence, be it the
whole sequence or a part of it; so a sequence counts for each command that it begins with. There are
two such commands in the integral sign and in infinity, which both begin with the sign for membership,
and at most one in anything else.
-/

set_option autoImplicit false

namespace MarkdownDocx.Markdown

open MarkdownDocx.Text

/-! ## Control sequences -/

/-- Commands that are longer than a word and begin the text that the word begins: the word and the
bracket after it. -/
def bracketed (word cs : List Char) : Option String :=
  formulaCommands.find? fun c => word.length < c.toList.length ∧ c.toList <+: cs

/-- The control sequence at the beginning of a text: a backslash and all letters after it, with the
bracket after them where a command has it. -/
def sequenceAt : List Char → Option (List Char)
  | '\\' :: r =>
    let word := '\\' :: r.takeWhile isAsciiLetter
    if r.takeWhile isAsciiLetter = [] then none
    else some (((bracketed word ('\\' :: r)).map String.toList).getD word)
  | _ => none

/-- All control sequences of a line, from left to right. -/
def sequences (l : Line) : List (List Char) := l.tails.filterMap sequenceAt

/-- The command is one of the control sequences. -/
def StandsWhole (l : Line) (command : String) : Prop := command.toList ∈ sequences l

/-- The command begins some control sequences but is none. -/
def StandsCut (l : Line) (command : String) : Prop :=
  command.toList ∉ sequences l ∧ ∃ s ∈ sequences l, command.toList <+: s

instance (l : Line) (command : String) : Decidable (StandsWhole l command) :=
  inferInstanceAs (Decidable (_ ∈ _))

instance (l : Line) (command : String) : Decidable (StandsCut l command) :=
  inferInstanceAs (Decidable (_ ∧ _))

/-! ## Commands in one another -/

/-- The commands in which another one ends too early. -/
def overlong : List String := ["\\int", "\\infty"]

/-- No command begins another one, except that two of the earlier ones begin with a later one. -/
theorem pairwise_commands : formulaCommands.Pairwise fun c d =>
    ¬ c.toList <+: d.toList ∧ (d.toList <+: c.toList → c ∈ overlong ∧ d = "\\in") := by
  decide +kernel

/-- The commands that a text begins with. -/
def begun (s : List Char) : List String := formulaCommands.filter fun c => c.toList <+: s

theorem mem_begun {s : List Char} {c : String} :
    c ∈ begun s ↔ c ∈ formulaCommands ∧ c.toList <+: s := by
  simp [begun]

/-- Of two commands that a text begins with, the first in the table is the longer one. -/
theorem pairwise_begun (s : List Char) :
    (begun s).Pairwise fun c d => c ∈ overlong ∧ d = "\\in" := by
  refine (pairwise_commands.sublist List.filter_sublist).imp_of_mem fun {c d} hc hd hcd => ?_
  have hcs := (mem_begun.1 hc).2
  have hds := (mem_begun.1 hd).2
  rcases List.prefix_or_prefix_of_prefix hcs hds with h | h
  · exact absurd h hcd.1
  · exact hcd.2 h

theorem begun_cases (s : List Char) :
    (begun s).length ≤ 1 ∨ ∃ c ∈ overlong, begun s = [c, "\\in"] := by
  have hpairs := pairwise_begun s
  match hbegun : begun s with
  | [] => exact .inl (by simp)
  | [_] => exact .inl (by simp)
  | [c, d] =>
    rw [hbegun, List.pairwise_pair] at hpairs
    exact .inr ⟨c, hpairs.1, by rw [hpairs.2]⟩
  | c :: d :: e :: rest =>
    -- the second would be both the short one and a longer one
    rw [hbegun] at hpairs
    obtain ⟨hfirst, hpairs⟩ := List.pairwise_cons.1 hpairs
    obtain ⟨hsecond, -⟩ := List.pairwise_cons.1 hpairs
    have hd := (hfirst d (by simp)).2
    have hoverlong := (hsecond e (by simp)).1
    rw [hd] at hoverlong
    exact absurd hoverlong (by decide)

theorem eq_of_few {s : List Char} (hfew : (begun s).length ≤ 1) {c d : String} (hc : c ∈ begun s)
    (hd : d ∈ begun s) : c = d := by
  match hbegun : begun s with
  | [] => simp [hbegun] at hc
  | [_] =>
    rw [hbegun, List.mem_singleton] at hc hd
    exact hc.trans hd.symm
  | _ :: _ :: _ => simp [hbegun] at hfew

/-- More than one command begins a text just where that is an integral sign or infinity. -/
theorem length_begun_eq_two_iff {s : List Char} :
    (begun s).length = 2 ↔ ∃ c ∈ overlong, c.toList <+: s := by
  constructor
  · intro hlength
    rcases begun_cases s with hfew | ⟨c, hc, hbegun⟩
    · omega
    · exact ⟨c, hc, (mem_begun.1 (by rw [hbegun]; simp)).2⟩
  · rintro ⟨c, hc, hcs⟩
    rcases begun_cases s with hfew | ⟨d, -, hbegun⟩
    · have hparts : ∀ c ∈ overlong, c ∈ formulaCommands ∧ "\\in".toList <+: c.toList ∧
          c ≠ "\\in" := by decide +kernel
      obtain ⟨hmem, hin, hne⟩ := hparts c hc
      have hlong : c ∈ begun s := mem_begun.2 ⟨hmem, hcs⟩
      have hshort : "\\in" ∈ begun s :=
        mem_begun.2 ⟨by decide +kernel, hin.trans hcs⟩
      exact absurd (eq_of_few hfew hlong hshort) hne
    · rw [hbegun]
      rfl

/-! ## Commands in control sequences -/

theorem prefix_takeWhile {p : Char → Bool} {w r : List Char} (hw : ∀ c ∈ w, p c = true)
    (h : w <+: r) : w <+: r.takeWhile p := by
  obtain ⟨b, rfl⟩ := h
  rw [List.takeWhile_append_of_pos hw]
  exact List.prefix_append w _

theorem prefix_controlWord (r : List Char) : '\\' :: r.takeWhile isAsciiLetter <+: '\\' :: r :=
  (List.prefix_cons_inj '\\').2 (List.takeWhile_prefix _)

/-- A control sequence stands where it is read. -/
theorem prefix_of_sequenceAt {cs s : List Char} (h : sequenceAt cs = some s) : s <+: cs := by
  unfold sequenceAt at h
  split at h
  · rename_i r
    split at h
    · cases h
    · obtain rfl := Option.some.inj h
      cases hfound : bracketed ('\\' :: r.takeWhile isAsciiLetter) ('\\' :: r) with
      | none => exact prefix_controlWord r
      | some c =>
        have hc := List.find?_some hfound
        rw [decide_eq_true_eq] at hc
        exact hc.2
  · cases h

/-- Two commands that begin one text are the same, or made of letters. -/
theorem eq_or_letters {c d : String} {cs : List Char} (hc : c ∈ begun cs) (hd : d ∈ begun cs) :
    c = d ∨ ∀ x ∈ d.toList.tail, isAsciiLetter x = true := by
  rcases begun_cases cs with hfew | ⟨e, he, hbegun⟩
  · exact .inl (eq_of_few hfew hc hd)
  · right
    have hletters : ∀ e ∈ "\\in" :: overlong, e.toList.tail.all isAsciiLetter = true := by
      decide +kernel
    have hmem : d ∈ "\\in" :: overlong := by
      rw [hbegun] at hd
      rcases List.mem_pair.1 hd with rfl | rfl
      · exact List.mem_cons_of_mem _ he
      · exact List.mem_cons_self
    exact List.all_eq_true.1 (hletters d hmem)

/-- A command is a backslash and a letter at least. -/
theorem command_head {c : String} (hc : c ∈ formulaCommands) :
    ∃ x w, isAsciiLetter x = true ∧ c.toList = '\\' :: x :: w := by
  have hheads : ∀ c ∈ formulaCommands, c.toList.head? = some '\\' ∧
      c.toList.tail.head?.any isAsciiLetter = true := by decide +kernel
  obtain ⟨hbackslash, hletter⟩ := hheads c hc
  obtain ⟨r, hr⟩ := List.head?_eq_some_iff.1 hbackslash
  rw [hr, List.tail_cons] at hletter
  cases r with
  | nil => simp at hletter
  | cons x w => exact ⟨x, w, by simpa using hletter, hr⟩

/-- A command that begins a text begins the control sequence there. -/
theorem exists_sequenceAt {c : String} (hc : c ∈ formulaCommands) {cs : List Char}
    (h : c.toList <+: cs) : ∃ s, sequenceAt cs = some s ∧ c.toList <+: s := by
  obtain ⟨x, w, hx, hw⟩ := command_head hc
  obtain ⟨r, rfl⟩ : ∃ r, cs = '\\' :: x :: r := by
    obtain ⟨b, rfl⟩ := h
    exact ⟨w ++ b, by rw [hw, List.cons_append, List.cons_append]⟩
  have hnonempty : (x :: r).takeWhile isAsciiLetter ≠ [] := by simp [hx]
  refine ⟨_, by rw [sequenceAt, if_neg hnonempty], ?_⟩
  cases hfound : bracketed ('\\' :: (x :: r).takeWhile isAsciiLetter) ('\\' :: x :: r) with
  | none =>
    have hnone := List.find?_eq_none.1 hfound c hc
    have hshort : c.toList.length ≤ ('\\' :: (x :: r).takeWhile isAsciiLetter).length := by
      by_contra hlong
      exact hnone (decide_eq_true ⟨not_le.1 hlong, h⟩)
    exact List.prefix_of_prefix_length_le h (prefix_controlWord _) hshort
  | some d =>
    have hd := List.find?_some hfound
    obtain ⟨hlong, hbegins⟩ := of_decide_eq_true hd
    have hbegun : d ∈ begun ('\\' :: x :: r) :=
      mem_begun.2 ⟨List.mem_of_find?_eq_some hfound, hbegins⟩
    rcases eq_or_letters (mem_begun.2 ⟨hc, h⟩) hbegun with rfl | hletters
    · exact List.prefix_refl _
    · -- a command of letters is no longer than the letters that stand there
      obtain ⟨y, v, -, hv⟩ := command_head (mem_begun.1 hbegun).1
      rw [hv, List.prefix_cons_inj] at hbegins
      rw [hv, List.tail_cons] at hletters
      have hlength := (prefix_takeWhile hletters hbegins).length_le
      rw [hv, List.length_cons, List.length_cons] at hlong
      omega

/-- A command stands in a line exactly where it begins a control sequence. -/
theorem infix_iff_exists_sequence {c : String} (hc : c ∈ formulaCommands) {l : Line} :
    c.toList <:+: l ↔ ∃ s ∈ sequences l, c.toList <+: s := by
  rw [List.infix_iff_prefix_suffix]
  constructor
  · rintro ⟨cs, hbegins, hcs⟩
    obtain ⟨s, hs, hprefix⟩ := exists_sequenceAt hc hbegins
    exact ⟨s, List.mem_filterMap.2 ⟨cs, (List.mem_tails _ _).2 hcs, hs⟩, hprefix⟩
  · rintro ⟨s, hs, hprefix⟩
    obtain ⟨cs, hcs, hat⟩ := List.mem_filterMap.1 hs
    exact ⟨cs, hprefix.trans (prefix_of_sequenceAt hat), (List.mem_tails _ _).1 hcs⟩

/-! ## Counting -/

/-- A command counts if it is one of the control sequences, or begins one. -/
theorem countCommands_eq (l : Line) : countCommands l =
    formulaCommands.countP (StandsWhole l) + formulaCommands.countP (StandsCut l) := by
  rw [countCommands, List.countP_eq_countP_filter_add _ _ (StandsWhole l), List.countP_filter,
    List.countP_filter]
  congr 1
  · refine List.countP_congr fun c hc => ?_
    have hinfix := @infix_iff_exists_sequence c hc l
    simp only [Bool.and_eq_true, decide_eq_true_eq, occursIn_eq_true_iff, hinfix]
    exact ⟨fun h => h.2, fun h => ⟨⟨c.toList, h, List.prefix_refl _⟩, h⟩⟩
  · refine List.countP_congr fun c hc => ?_
    have hinfix := @infix_iff_exists_sequence c hc l
    simp only [Bool.and_eq_true, Bool.not_eq_true', decide_eq_true_eq, decide_eq_false_iff_not,
      occursIn_eq_true_iff, hinfix]
    exact and_comm

/-- Where a line has one control sequence only, the commands are those that this begins with. -/
theorem countCommands_lone {l : Line} {s : List Char} (h : ∀ t ∈ sequences l, t = s) :
    countCommands l = if s ∈ sequences l then (begun s).length else 0 := by
  have hcount : countCommands l =
      formulaCommands.countP fun c => decide (s ∈ sequences l ∧ c.toList <+: s) := by
    refine List.countP_congr fun c hc => ?_
    rw [occursIn_eq_true_iff, infix_iff_exists_sequence hc, decide_eq_true_eq]
    constructor
    · rintro ⟨t, ht, hprefix⟩
      obtain rfl := h t ht
      exact ⟨ht, hprefix⟩
    · rintro ⟨hs, hprefix⟩
      exact ⟨s, hs, hprefix⟩
  rw [hcount]
  split
  · rename_i hs
    simp [hs, begun, List.countP_eq_length_filter]
  · rename_i hs
    simp [hs]

/-! ## Lines with one control sequence -/

/-- White space around a line holds no command. -/
theorem countCommands_trim (l : Line) : countCommands (trim l) = countCommands l := by
  have hvisible : ∀ c ∈ formulaCommands,
      c.toList.all (fun x => !isBlank x) = true ∧ c.toList ≠ [] := by
    decide +kernel
  refine List.countP_congr fun c hc => ?_
  obtain ⟨hall, hne⟩ := hvisible c hc
  have hblank : ∀ x ∈ c.toList, isBlank x = false := by simpa using hall
  rw [occursIn_eq_true_iff, occursIn_eq_true_iff, infix_trim_iff hblank hne]

theorem hasScript_of_within {l m : Line} (h : l <:+: m) (hl : hasScript l = true) :
    hasScript m = true := by
  obtain ⟨a, b, rfl⟩ := h
  obtain ⟨u, v, rfl, hv⟩ := hasScript_iff.1 hl
  obtain ⟨w, r, rfl, -, -, hscript⟩ := exists_of_beginsScript hv
  exact hasScript_iff.2 ⟨a ++ u, w ++ (r ++ b), by simp, hscript (r ++ b)⟩

/-- With neither an equals sign nor a script, it takes two commands. -/
theorem looksLikeFormula_plain_iff {l : Line} (hequals : '=' ∉ l) (hscript : hasScript l = false) :
    looksLikeFormula l = true ↔ 2 ≤ countCommands l ∧ beginsBlock (trim l) = false ∧
      (trim l).countP isHan ≤ greatestHanCount := by
  have hequation : isEquation (trim l) = false := by
    have hcount : (trim l).count '=' = 0 :=
      List.count_eq_zero.2 fun hmem => hequals (mem_of_mem_trim hmem)
    simp [isEquation, hcount]
  have htrim : hasScript (trim l) = false := by
    rw [Bool.eq_false_iff] at hscript ⊢
    exact mt (hasScript_of_within (trim_within l)) hscript
  have hempty : 2 ≤ countCommands l → trim l ≠ [] := by
    rintro htwo hnil
    rw [← countCommands_trim, hnil, countCommands_nil] at htwo
    omega
  simp only [looksLikeFormula, countCommands_trim, hequation, htrim, Bool.false_or, Bool.or_false,
    Bool.and_eq_true, Bool.not_eq_true', List.isEmpty_eq_false_iff, bne_iff_ne, ne_eq,
    decide_eq_true_eq]
  constructor
  · rintro ⟨⟨⟨⟨-, hblock⟩, hhan⟩, -⟩, htwo⟩
    exact ⟨htwo, hblock, hhan⟩
  · rintro ⟨htwo, hblock, hhan⟩
    exact ⟨⟨⟨⟨hempty htwo, hblock⟩, hhan⟩, by omega⟩, htwo⟩

/-- The commands that are counted are the control sequences among them, and those that only begin a
longer control sequence. A lone control sequence, with neither an equals sign nor a script, counts
twice if it begins as an integral sign or as infinity does, and makes the line a formula then; any
other counts once at most and does not. -/
theorem countCommands_sequences (l : Line) :
    countCommands l =
      formulaCommands.countP (StandsWhole l) + formulaCommands.countP (StandsCut l) ∧
    ∀ s, (∀ t ∈ sequences l, t = s) → '=' ∉ l → hasScript l = false →
      countCommands l ≤ 2 ∧
      (countCommands l = 2 ↔ s ∈ sequences l ∧ ∃ c ∈ overlong, c.toList <+: s) ∧
      (looksLikeFormula l = true ↔ (s ∈ sequences l ∧ ∃ c ∈ overlong, c.toList <+: s) ∧
        beginsBlock (trim l) = false ∧ (trim l).countP isHan ≤ greatestHanCount) := by
  refine ⟨countCommands_eq l, fun s hlone hequals hscript => ?_⟩
  have hcount := countCommands_lone hlone
  have hfew : countCommands l ≤ 2 := by
    rw [hcount]
    split
    · rcases begun_cases s with hfew | ⟨c, -, hbegun⟩
      · omega
      · simp [hbegun]
    · omega
  have htwo : countCommands l = 2 ↔ s ∈ sequences l ∧ ∃ c ∈ overlong, c.toList <+: s := by
    rw [hcount, ← length_begun_eq_two_iff]
    split
    · rename_i hs
      simp [hs]
    · rename_i hs
      simp [hs]
  refine ⟨hfew, htwo, ?_⟩
  rw [looksLikeFormula_plain_iff hequals hscript, ← htwo]
  exact and_congr_left fun _ => ⟨fun h => by omega, fun h => by omega⟩

theorem countCommands_sequences_alpha :
    (∀ t ∈ sequences "the value \\alpha matters".toList, t = "\\alpha".toList) ∧
      '=' ∉ "the value \\alpha matters".toList ∧
      hasScript "the value \\alpha matters".toList = false ∧
      countCommands "the value \\alpha matters".toList ≠ 2 ∧
      looksLikeFormula "the value \\alpha matters".toList = false := by
  have hlone : ∀ t ∈ sequences "the value \\alpha matters".toList, t = "\\alpha".toList := by
    decide +kernel
  have hequals : '=' ∉ "the value \\alpha matters".toList := by decide +kernel
  have hscript : hasScript "the value \\alpha matters".toList = false := by decide +kernel
  have hshort : ¬ ∃ c ∈ overlong, c.toList <+: "\\alpha".toList := by decide +kernel
  obtain ⟨-, hline⟩ := countCommands_sequences "the value \\alpha matters".toList
  obtain ⟨-, htwo, hlooks⟩ := hline _ hlone hequals hscript
  refine ⟨hlone, hequals, hscript, fun h => hshort (htwo.1 h).2, ?_⟩
  rw [Bool.eq_false_iff]
  exact fun h => hshort (hlooks.1 h).1.2

/-- The sign for infinity, alone in a sentence, counts for membership as well. -/
theorem countCommands_infinity :
    sequences "the bound is \\infty here".toList = ["\\infty".toList] ∧
      '=' ∉ "the bound is \\infty here".toList ∧
      hasScript "the bound is \\infty here".toList = false ∧
      formulaCommands.countP (StandsWhole "the bound is \\infty here".toList) = 1 ∧
      countCommands "the bound is \\infty here".toList = 2 ∧
      looksLikeFormula "the bound is \\infty here".toList = true := by
  decide +kernel

end MarkdownDocx.Markdown

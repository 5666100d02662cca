import MarkdownDocx.Proofs.Latex.Environments
import MarkdownDocx.Proofs.Latex.Tokens

/-!
The formulas that are accepted. Main statement: the check accepts exactly those that are not blank,
whose tokens are sound and whose environments begin as often as they end; of an unsound formula it
reports the leftmost fault, and open groups only where there is none.
-/

set_option autoImplicit false

namespace MarkdownDocx.Latex

open MarkdownDocx.Text

/-- Something in a text can be seen. -/
def Visible (cs : List Char) : Prop := ∃ c ∈ cs, isBlank c = false

/-- Tokens without a fault and with balanced groups. -/
structure Sound (known : String → Bool) (ts : List Token) : Prop where
  finished : Token.danglingBackslash ∉ ts
  defined : ∀ name, Token.command name ∈ ts → known (commandOf name) = true
  closed : ∀ p, p <+: ts → closings p ≤ openings p
  balanced : openings ts = closings ts

/-- A formula that may be drawn, said of its characters alone. -/
structure Accepted (known : String → Bool) (formula : List Char) : Prop where
  visible : Visible formula
  sound : ∃ ts, Reading formula ts ∧ Sound known ts
  environments : ∀ name, occurrences ⟨true, name⟩ formula = occurrences ⟨false, name⟩ formula

variable {known : String → Bool} {ts : List Token}

theorem visible_iff {cs : List Char} : Visible cs ↔ isBlankText cs = false := by
  simp [Visible, isBlankText]

/-- No prefix closes more groups than it opens, if no closing brace is a fault. -/
theorem closings_le_openings (h : Faultless known [] ts) {p : List Token} (hp : p <+: ts) :
    closings p ≤ openings p := by
  induction p using List.reverseRecOn with
  | nil => simp [closings]
  | append_singleton p t ih =>
    obtain ⟨q, rfl⟩ := hp
    have hbegins := ih ⟨t :: q, by simp⟩
    by_cases ht : t = .char '\x7d'
    · subst ht
      have hfault := h p (.char '\x7d') q .closingBrace (by simp)
      have hlt : closings p < openings p := by
        by_contra hle
        exact hfault (.closing (by simpa using hle))
      simp [openings, closings] at hlt ⊢
      omega
    · have hzero : closings [t] = 0 := by simp [closings, ht]
      simp only [closings_append, openings_append, hzero]
      omega

theorem faultless_iff : Faultless known [] ts ↔ Token.danglingBackslash ∉ ts ∧
    (∀ name, Token.command name ∈ ts → known (commandOf name) = true) ∧
      ∀ p, p <+: ts → closings p ≤ openings p := by
  constructor
  · intro h
    refine ⟨fun hmem => ?_, fun name hmem => ?_, fun p => closings_le_openings h⟩
    · obtain ⟨p, q, rfl⟩ := List.append_of_mem hmem
      exact h p _ q _ rfl .dangling
    · obtain ⟨p, q, rfl⟩ := List.append_of_mem hmem
      cases hknown : known (commandOf name) with
      | true => rfl
      | false => exact absurd (.undefined hknown) (h p _ q _ rfl)
  · rintro ⟨hfinished, hdefined, hclosed⟩ p t q f rfl hfault
    cases hfault with
    | dangling => exact hfinished (by simp)
    | @undefined name hknown =>
      exact absurd ((hdefined name (by simp)).symm.trans hknown) (by decide)
    | closing hle =>
      have hbegins := hclosed (p ++ [.char '\x7d']) ⟨q, by simp⟩
      simp [openings, closings] at hle hbegins
      omega

theorem sound_iff : Sound known ts ↔ Faultless known [] ts ∧ openings ts = closings ts := by
  rw [faultless_iff]
  constructor
  · rintro ⟨hfinished, hdefined, hclosed, hbalanced⟩
    exact ⟨⟨hfinished, hdefined, hclosed⟩, hbalanced⟩
  · rintro ⟨⟨hfinished, hdefined, hclosed⟩, hbalanced⟩
    exact ⟨hfinished, hdefined, hclosed, hbalanced⟩

/-! The check. -/

/-- The check, one question after the other. -/
theorem checkWith_eq (known : String → Bool) (formula : List Char) :
    checkWith known formula =
      if isBlankText formula = true then .error .empty
      else
        match checkTokens known 0 (tokens formula) with
        | .error f => .error f
        | .ok depth =>
          if depth ≠ 0 then .error (.openGroups depth)
          else if unmatchedNames (marks formula) = [] then .ok ()
          else .error (.unmatched (unmatchedNames (marks formula))) := by
  unfold checkWith
  split
  · rfl
  · cases checkTokens known 0 (tokens formula) with
    | error f => rfl
    | ok depth =>
      cases depth with
      | succ depth => rfl
      | zero => cases unmatchedNames (marks formula) <;> rfl

variable (known) in
/-- What the tokens of a visible formula make of the check. -/
theorem checkWith_run {formula : List Char} (hvisible : Visible formula)
    (hread : Reading formula ts) :
    (∃ f, LeftmostFault known [] ts f ∧ checkWith known formula = .error f) ∨
      Faultless known [] ts ∧ ∃ n, openings ts = closings ts + n ∧
        checkWith known formula =
          if n ≠ 0 then .error (.openGroups n)
          else if unmatchedNames (marks formula) = [] then .ok ()
          else .error (.unmatched (unmatchedNames (marks formula))) := by
  have hstart : openings [] = closings [] + 0 := rfl
  rw [checkWith_eq, visible_iff.1 hvisible, tokens_of_reading hread]
  rcases checkTokens_run known hstart ts with ⟨f, hf, hrun⟩ | ⟨hnone, n, hn, hrun⟩
  · exact .inl ⟨f, hf, by simp [hrun]⟩
  · exact .inr ⟨hnone, n, hn, by simp [hrun]⟩

theorem checkWith_ok_iff (known : String → Bool) (formula : List Char) :
    checkWith known formula = .ok () ↔ Accepted known formula := by
  have hread := reading_tokens formula
  constructor
  · intro h
    have hvisible : Visible formula := by
      rw [visible_iff]
      cases hblank : isBlankText formula with
      | false => rfl
      | true => simp [checkWith_eq, hblank] at h
    rcases checkWith_run known hvisible hread with ⟨f, -, hf⟩ | ⟨hnone, n, hn, hcheck⟩
    · rw [h] at hf
      cases hf
    · rw [h] at hcheck
      split at hcheck
      · cases hcheck
      · rename_i hzero
        split at hcheck
        · rename_i hnames
          refine ⟨hvisible, ⟨_, hread, sound_iff.2 ⟨hnone, by omega⟩⟩, fun name => ?_⟩
          rw [← count_marks, ← count_marks]
          exact unmatchedNames_eq_nil_iff.1 hnames name
        · cases hcheck
  · rintro ⟨hvisible, ⟨ts, hts, hsound⟩, henvironments⟩
    obtain ⟨hnone, hbalanced⟩ := sound_iff.1 hsound
    have hnames : unmatchedNames (marks formula) = [] := by
      rw [unmatchedNames_eq_nil_iff]
      intro name
      rw [count_marks, count_marks]
      exact henvironments name
    rcases checkWith_run known hvisible hts with ⟨f, hf, -⟩ | ⟨-, n, hn, hcheck⟩
    · exact absurd hnone hf.not_faultless
    · obtain rfl : n = 0 := by omega
      simpa [hnames] using hcheck

/-- The check accepts exactly its language, for any commands that are known. Every formula has one
reading; where this is not sound, the leftmost fault is reported, or, if there is none, the number
of groups that are left open. -/
theorem checkWith_language (known : String → Bool) (formula : List Char) :
    (checkWith known formula = .ok () ↔ Accepted known formula) ∧
      ∃ ts, Reading formula ts ∧ (∀ us, Reading formula us → us = ts) ∧
        (Visible formula → ¬Sound known ts →
          (∃ f, LeftmostFault known [] ts f ∧ checkWith known formula = .error f) ∨
            Faultless known [] ts ∧ ∃ n, n ≠ 0 ∧ openings ts = closings ts + n ∧
              checkWith known formula = .error (.openGroups n)) := by
  have hread := reading_tokens formula
  refine ⟨checkWith_ok_iff known formula, tokens formula, hread, ?_, ?_⟩
  · exact fun us hus => (tokens_of_reading hus).symm
  · intro hvisible hunsound
    rcases checkWith_run known hvisible hread with hfault | ⟨hnone, n, hn, hcheck⟩
    · exact .inl hfault
    · have hzero : n ≠ 0 := by
        rintro rfl
        exact hunsound (sound_iff.2 ⟨hnone, hn⟩)
      rw [if_pos hzero] at hcheck
      exact .inr ⟨hnone, n, hzero, hn, hcheck⟩

end MarkdownDocx.Latex

import Mathlib.Data.List.TakeWhile
import MarkdownDocx.Latex.Check

/-!
How a formula is read, said without the reader, and what the check makes of its tokens. The check
stops at the leftmost token that is a fault after the tokens before it; without one it counts the
groups that are left open.
-/

set_option autoImplicit false

namespace MarkdownDocx.Latex

open MarkdownDocx.Text

/-- The tokens of a formula. A control word takes all letters that follow its backslash. -/
inductive Reading : List Char → List Token → Prop
  | nil : Reading [] []
  | dangling : Reading ['\\'] [.danglingBackslash]
  | command {name rest : List Char} {ts : List Token} (hname : name ≠ [])
      (hletters : ∀ c ∈ name, isAsciiLetter c = true)
      (hrest : ∀ c ∈ rest.head?, isAsciiLetter c = false) :
      Reading rest ts → Reading ('\\' :: (name ++ rest)) (.command name :: ts)
  | symbol {c : Char} {rest : List Char} {ts : List Token} (hc : isAsciiLetter c = false) :
      Reading rest ts → Reading ('\\' :: c :: rest) (.symbol c :: ts)
  | char {c : Char} {rest : List Char} {ts : List Token} (hc : c ≠ '\\') :
      Reading rest ts → Reading (c :: rest) (.char c :: ts)

/-- Every formula can be read, to its last character. -/
theorem reading_tokens (cs : List Char) : Reading cs (tokens cs) := by
  fun_induction tokens cs with
  | case1 => exact .nil
  | case2 => exact .dangling
  | case3 c r hc ih =>
    have hletters : ∀ d ∈ c :: r.takeWhile isAsciiLetter, isAsciiLetter d = true :=
      List.forall_mem_cons.2 ⟨hc, fun _ hd => List.mem_takeWhile_imp hd⟩
    have hstop : ∀ d ∈ (r.dropWhile isAsciiLetter).head?, isAsciiLetter d = false := by
      intro d hd
      have hhead := List.head?_dropWhile_not isAsciiLetter r
      rw [Option.mem_def.1 hd] at hhead
      simpa using hhead
    have hread := Reading.command (List.cons_ne_nil _ _) hletters hstop ih
    rwa [List.cons_append, List.takeWhile_append_dropWhile] at hread
  | case4 c r hc ih => exact .symbol (by simpa using hc) ih
  | case5 c r hlast hc ih =>
    refine .char ?_ ih
    rintro rfl
    cases r with
    | nil => exact hlast rfl rfl
    | cons d r => exact hc d r rfl rfl

theorem tokens_of_reading {cs : List Char} {ts : List Token} (h : Reading cs ts) :
    tokens cs = ts := by
  induction h with
  | nil => simp [tokens]
  | dangling => simp [tokens]
  | @command name rest ts hname hletters hrest _ ih =>
    cases name with
    | nil => exact absurd rfl hname
    | cons c name =>
      obtain ⟨hc, hletters⟩ := List.forall_mem_cons.1 hletters
      have hstop : rest.takeWhile isAsciiLetter = [] ∧ rest.dropWhile isAsciiLetter = rest := by
        cases rest with
        | nil => simp
        | cons d rest => simp [hrest d (by simp)]
      simp [tokens, hc, List.takeWhile_append_of_pos hletters,
        List.dropWhile_append_of_pos hletters, hstop, ih]
  | @symbol c rest ts hc _ ih => simp [tokens, hc, ih]
  | @char c rest ts hc _ ih => simp [tokens, hc, ih]

/-! Faults. -/

def openings (ts : List Token) : Nat := ts.count (.char '\x7b')

def closings (ts : List Token) : Nat := ts.count (.char '\x7d')

@[simp] theorem openings_append (ts us : List Token) :
    openings (ts ++ us) = openings ts + openings us := List.count_append

@[simp] theorem closings_append (ts us : List Token) :
    closings (ts ++ us) = closings ts + closings us := List.count_append

/-- The command that a control word names. -/
def commandOf (name : List Char) : String := String.ofList ('\\' :: name)

/-- The fault that a token is, after the tokens before it. -/
inductive FaultAt (known : String → Bool) (before : List Token) : Token → Fault → Prop
  | dangling : FaultAt known before .danglingBackslash .danglingBackslash
  | undefined {name : List Char} (h : known (commandOf name) = false) :
      FaultAt known before (.command name) (.undefinedCommand (commandOf name))
  | closing (h : openings before ≤ closings before) :
      FaultAt known before (.char '\x7d') .closingBrace

/-- No token is a fault after the tokens before it. -/
def Faultless (known : String → Bool) (before ts : List Token) : Prop :=
  ∀ p t q f, ts = p ++ t :: q → ¬FaultAt known (before ++ p) t f

/-- The first token that is a fault is this one. -/
def LeftmostFault (known : String → Bool) (before ts : List Token) (f : Fault) : Prop :=
  ∃ p t q, ts = p ++ t :: q ∧ FaultAt known (before ++ p) t f ∧ Faultless known before p

variable {known : String → Bool} {before ts : List Token}

theorem faultless_nil : Faultless known before [] := by
  intro p t q f h
  simp at h

theorem faultless_cons {t : Token} (ht : ∀ f, ¬FaultAt known before t f)
    (h : Faultless known (before ++ [t]) ts) : Faultless known before (t :: ts) := by
  intro p u q f heq hfault
  cases p with
  | nil =>
    obtain ⟨rfl, rfl⟩ := List.cons.inj heq
    exact ht f (by simpa using hfault)
  | cons v p =>
    obtain ⟨rfl, rfl⟩ := List.cons.inj heq
    exact h p u q f rfl (by simpa using hfault)

theorem leftmostFault_head {t : Token} {f : Fault} (h : FaultAt known before t f) :
    LeftmostFault known before (t :: ts) f :=
  ⟨[], t, ts, rfl, by simpa using h, faultless_nil⟩

theorem leftmostFault_cons {t : Token} {f : Fault} (ht : ∀ f, ¬FaultAt known before t f)
    (h : LeftmostFault known (before ++ [t]) ts f) : LeftmostFault known before (t :: ts) f := by
  obtain ⟨p, u, q, rfl, hfault, hp⟩ := h
  exact ⟨t :: p, u, q, rfl, by simpa using hfault, faultless_cons ht hp⟩

/-- Where there is a leftmost fault, the tokens are not faultless. -/
theorem LeftmostFault.not_faultless {f : Fault} (h : LeftmostFault known before ts f) :
    ¬Faultless known before ts := by
  obtain ⟨p, t, q, heq, hfault, _⟩ := h
  exact fun hnone => hnone p t q f heq hfault

/-! The check of the tokens. -/

theorem checkTokens_command (depth : Nat) (name : List Char) (r : List Token) :
    checkTokens known depth (.command name :: r) =
      if known (commandOf name) = true then checkTokens known depth r
      else .error (.undefinedCommand (commandOf name)) := rfl

variable (known) in
/-- One token, read after tokens that leave so many groups open: it is a fault, which ends the
check, or the check goes on with the groups that are open after it. -/
theorem checkTokens_step {depth : Nat} (hdepth : openings before = closings before + depth)
    (t : Token) :
    (∃ f, FaultAt known before t f ∧ ∀ r, checkTokens known depth (t :: r) = .error f) ∨
      (∀ f, ¬FaultAt known before t f) ∧
        ∃ d, openings (before ++ [t]) = closings (before ++ [t]) + d ∧
          ∀ r, checkTokens known depth (t :: r) = checkTokens known d r := by
  cases t with
  | danglingBackslash => exact .inl ⟨_, .dangling, fun _ => rfl⟩
  | command name =>
    cases hknown : known (commandOf name) with
    | false =>
      refine .inl ⟨_, .undefined hknown, fun r => ?_⟩
      rw [checkTokens_command, if_neg (by rw [hknown]; decide)]
    | true =>
      refine .inr ⟨?_, depth, ?_, fun r => ?_⟩
      · rintro f (_ | hunknown)
        exact absurd (hknown.symm.trans hunknown) (by decide)
      · simpa [openings, closings] using hdepth
      · rw [checkTokens_command, if_pos hknown]
  | symbol c =>
    refine .inr ⟨?_, depth, ?_, fun r => rfl⟩
    · rintro f ⟨⟩
    · simpa [openings, closings] using hdepth
  | char c =>
    by_cases hopen : c = '\x7b'
    · subst hopen
      refine .inr ⟨?_, depth + 1, ?_, fun r => by simp [checkTokens]⟩
      · rintro f ⟨⟩
      · simp [openings, closings] at hdepth ⊢
        omega
    by_cases hclose : c = '\x7d'
    · subst hclose
      cases depth with
      | zero => exact .inl ⟨_, .closing (by omega), fun r => by simp [checkTokens]⟩
      | succ depth =>
        refine .inr ⟨?_, depth, ?_, fun r => by simp [checkTokens]⟩
        · rintro f (_ | _ | hle)
          omega
        · simp [openings, closings] at hdepth ⊢
          omega
    · refine .inr ⟨?_, depth, ?_, fun r => by simp [checkTokens, hopen, hclose]⟩
      · rintro f (_ | _ | _)
        exact hclose rfl
      · simpa [openings, closings, hopen, hclose] using hdepth

variable (known) in
/-- All tokens: the check ends with the leftmost fault, or else with the number of groups that are
left open. -/
theorem checkTokens_run {depth : Nat} (hdepth : openings before = closings before + depth)
    (ts : List Token) :
    (∃ f, LeftmostFault known before ts f ∧ checkTokens known depth ts = .error f) ∨
      Faultless known before ts ∧
        ∃ n, openings (before ++ ts) = closings (before ++ ts) + n ∧
          checkTokens known depth ts = .ok n := by
  induction ts generalizing before depth with
  | nil => exact .inr ⟨faultless_nil, depth, by simpa using hdepth, rfl⟩
  | cons t ts ih =>
    rcases checkTokens_step known hdepth t with ⟨f, hf, hrun⟩ | ⟨ht, d, hd, hrun⟩
    · exact .inl ⟨f, leftmostFault_head hf, hrun ts⟩
    · rcases ih hd with ⟨f, hf, hcheck⟩ | ⟨hnone, n, hn, hcheck⟩
      · exact .inl ⟨f, leftmostFault_cons ht hf, (hrun ts).trans hcheck⟩
      · exact .inr ⟨faultless_cons ht hnone, n, by simpa using hn, (hrun ts).trans hcheck⟩

end MarkdownDocx.Latex

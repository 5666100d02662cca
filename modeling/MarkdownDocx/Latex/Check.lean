import MarkdownDocx.Latex.Commands
import MarkdownDocx.Text.Blank
import MarkdownDocx.Text.Digit
import MarkdownDocx.Text.Scan

/-!
Formulas that would be drawn as something else than they say are rejected before they are drawn:
blank ones, unknown commands, braces and environments that do not match.
-/

set_option autoImplicit false

namespace MarkdownDocx.Latex

open MarkdownDocx.Text

/-- The parts of a formula as they are read from left to right. A backslash takes the letters after
it, or else the one character after it. -/
inductive Token where
  | command (name : List Char)
  | symbol (c : Char)
  | char (c : Char)
  | danglingBackslash
  deriving DecidableEq, Repr

def tokens : List Char → List Token
  | [] => []
  | '\\' :: [] => [.danglingBackslash]
  | '\\' :: c :: r =>
    if isAsciiLetter c then
      .command (c :: r.takeWhile isAsciiLetter) :: tokens (r.dropWhile isAsciiLetter)
    else .symbol c :: tokens r
  | c :: r => .char c :: tokens r
termination_by cs => cs.length
decreasing_by
  · have := (List.dropWhile_suffix isAsciiLetter (l := r)).length_le
    simp only [List.length_cons]
    omega
  · simp only [List.length_cons]; omega
  · simp

/-- Why a formula is rejected. -/
inductive Fault where
  | empty
  | danglingBackslash
  | undefinedCommand (command : String)
  | closingBrace
  | openGroups (count : Nat)
  | unmatched (names : List String)
  /-- The renderer failed with an error of this kind. -/
  | rendering (kind message : String)
  deriving DecidableEq, Repr

def Fault.message : Fault → String
  | .empty => "Empty formula"
  | .danglingBackslash => "Formula ends with an unterminated command"
  | .undefinedCommand command => "Undefined control sequence: " ++ command
  | .closingBrace => "Unexpected closing brace"
  | .openGroups count => "Unbalanced braces: " ++ toString count ++ " group(s) left open"
  | .unmatched names => "Unmatched environment: " ++ ", ".intercalate names
  | .rendering kind message => kind ++ ": " ++ message

/-- The number of groups left open, or the leftmost fault. -/
def checkTokens (known : String → Bool) : Nat → List Token → Except Fault Nat
  | depth, [] => .ok depth
  | _, .danglingBackslash :: _ => .error .danglingBackslash
  | depth, .command name :: r =>
    let command := String.ofList ('\\' :: name)
    if known command then checkTokens known depth r else .error (.undefinedCommand command)
  | depth, .symbol _ :: r => checkTokens known depth r
  | depth, .char c :: r =>
    if c = '\x7b' then checkTokens known (depth + 1) r
    else if c = '\x7d' then
      match depth with
      | 0 => .error .closingBrace
      | depth + 1 => checkTokens known depth r
    else checkTokens known depth r

/-- The beginning or the end of an environment, wherever these letters stand after a backslash. -/
structure Mark where
  begins : Bool
  name : List Char
  deriving DecidableEq, Repr

/-- A name between braces, which may stand after white space, and the rest. -/
def readBraced (cs : List Char) : Option (List Char × List Char) :=
  match cs.dropWhile isBlank with
  | '\x7b' :: r =>
    match r.dropWhile fun c => c != '\x7b' && c != '\x7d' with
    | '\x7d' :: rest => some (r.takeWhile fun c => c != '\x7b' && c != '\x7d', rest)
    | _ => none
  | _ => none

def readMark (cs : List Char) : Option (Mark × List Char) :=
  match afterWord ['\\', 'b', 'e', 'g', 'i', 'n'] cs with
  | some r => (readBraced r).map fun p => (⟨true, p.1⟩, p.2)
  | none =>
    match afterWord ['\\', 'e', 'n', 'd'] cs with
    | some r => (readBraced r).map fun p => (⟨false, p.1⟩, p.2)
    | none => none

theorem readBraced_length {cs a b : List Char} (h : readBraced cs = some (a, b)) :
    b.length < cs.length := by
  unfold readBraced at h
  split at h
  · rename_i r hr
    have h1 := (List.dropWhile_suffix isBlank (l := cs)).length_le
    rw [hr] at h1
    split at h
    · rename_i rest hd
      have h2 := (List.dropWhile_suffix (fun c => c != '\x7b' && c != '\x7d') (l := r)).length_le
      rw [hd] at h2
      simp at h
      rw [← h.2]
      simp only [List.length_cons] at h1 h2
      omega
    · simp at h
  · simp at h

theorem readMark_length {cs b : List Char} {m : Mark} (h : readMark cs = some (m, b)) :
    b.length < cs.length := by
  unfold readMark at h
  split at h
  · rename_i r hr
    obtain ⟨⟨x, y⟩, hxy, he⟩ := Option.map_eq_some_iff.1 h
    simp at he
    have h1 := readBraced_length hxy
    rw [afterWord_eq_some_iff.1 hr, ← he.2]
    simp only [List.length_append]
    omega
  · split at h
    · rename_i r hr
      obtain ⟨⟨x, y⟩, hxy, he⟩ := Option.map_eq_some_iff.1 h
      simp at he
      have h1 := readBraced_length hxy
      rw [afterWord_eq_some_iff.1 hr, ← he.2]
      simp only [List.length_append]
      omega
    · simp at h

/-- All marks, from left to right. -/
def marks : List Char → List Mark
  | [] => []
  | c :: r =>
    match _h : readMark (c :: r) with
    | some (m, rest) => m :: marks rest
    | none => marks r
termination_by cs => cs.length
decreasing_by
  · exact readMark_length _h
  · simp

/-- Names that begin and end a different number of times, in the order of code points. -/
def unmatchedNames (ms : List Mark) : List String :=
  let names := (ms.map Mark.name).eraseDups.filter fun n =>
    ms.count ⟨true, n⟩ != ms.count ⟨false, n⟩
  (names.map String.ofList).mergeSort fun a b => !decide (b < a)

/-- Rejects a formula with a fault; the commands that are drawn are a parameter. -/
def checkWith (known : String → Bool) (formula : List Char) : Except Fault Unit := do
  if isBlankText formula then throw .empty
  let depth ← checkTokens known 0 (tokens formula)
  if depth ≠ 0 then throw (.openGroups depth)
  let names := unmatchedNames (marks formula)
  if !names.isEmpty then throw (.unmatched names)

def check (formula : String) : Except Fault Unit := checkWith isKnownCommand formula.toList

end MarkdownDocx.Latex

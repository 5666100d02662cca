import MarkdownDocx.Files.StyleFile
import MarkdownDocx.Proofs.Logged

/-!
Style files that cannot be used. Most faults of a style file are faults of style, with a message of
their own; here are the others.
-/

set_option autoImplicit false

namespace MarkdownDocx.Files

open MarkdownDocx.Style (StyleTable Settings)

/-- Whether a fault is no fault of style: a number that is too large for what it stands for. -/
def outOfRange : Style.Error → Bool
  | .config _ => false
  | .tooLarge => true
  | .infinite => true

/-- Why a style file stops everything without a fault of style: it cannot be looked up, it is not
text, it has a numeral that is not read or a bracket too deep inside others, or a number that is out
of range. -/
inductive Unusable (json : Json.Setup) (t : Tree) (p : Path) (styles : StyleTable)
    (settings : Settings) : Failure → Prop
  | lookup {e : FileError} (h : t.has p = .error e) : Unusable json t p styles settings (.file e)
  | text {e : FileError} (hhere : t.has p = .ok true) (h : t.readText p = .error e) :
      Unusable json t p styles settings (.file e)
  | numeral {text : String} (hhere : t.has p = .ok true) (htext : t.readText p = .ok text)
      (h : Json.read json.depth text = .error .tooManyDigits) :
      Unusable json t p styles settings .numeralTooLong
  | nested {text : String} {opened : Json.Bracket} (hhere : t.has p = .ok true)
      (htext : t.readText p = .ok text) (h : Json.read json.depth text = .error (.tooDeep opened)) :
      Unusable json t p styles settings (.nestedTooDeep opened)
  | range {text : String} {members : Json.Members} {e : Style.Error} (hhere : t.has p = .ok true)
      (htext : t.readText p = .ok text) (hread : Json.read json.depth text = .ok (.obj members))
      (h : (styles.merge (.obj members)).result = .error e ∨
        (∃ merged, (styles.merge (.obj members)).result = .ok merged) ∧
          overrideSettings settings members = .error e)
      (hrange : outOfRange e = true) : Unusable json t p styles settings (.style e)

def isConfig : Failure → Bool
  | .style (.config _) => true
  | _ => false

section Unusable

variable {json : Json.Setup} {t : Tree} {p : Path} {e : Failure}

theorem isConfig_of_unusable {styles : StyleTable} {settings : Settings}
    (h : Unusable json t p styles settings e) : isConfig e = false := by
  cases h with
  | lookup => rfl
  | text => rfl
  | numeral => rfl
  | nested => rfl
  | @range _ _ fault _ _ _ _ hrange =>
    cases fault with
    | config => cases hrange
    | tooLarge => rfl
    | infinite => rfl

theorem readOverrides_eq_ok_iff {members : Json.Members} :
    readOverrides json t p = .ok members ↔
      t.has p = .ok true ∧
        ∃ text, t.readText p = .ok text ∧ Json.read json.depth text = .ok (.obj members) := by
  unfold readOverrides
  cases hhas : t.has p with
  | error e => simp
  | ok found =>
    cases found with
    | false => simp [configFailure]
    | true =>
      cases htext : t.readText p with
      | error e => simp
      | ok text =>
        cases hread : Json.read json.depth text with
        | error e => cases e <;> simp [hread, configFailure]
        | ok value => cases value <;> simp [hread, configFailure]

theorem readOverrides_eq_error_iff (he : isConfig e = false) :
    readOverrides json t p = .error e ↔
      (∃ f, e = .file f ∧ (t.has p = .error f ∨ t.has p = .ok true ∧ t.readText p = .error f)) ∨
      t.has p = .ok true ∧ ∃ text, t.readText p = .ok text ∧
        (e = .numeralTooLong ∧ Json.read json.depth text = .error .tooManyDigits ∨
          ∃ opened, e = .nestedTooDeep opened ∧
            Json.read json.depth text = .error (.tooDeep opened)) := by
  have hconfig : ∀ fault, Failure.style (.config fault) ≠ e := by
    rintro fault rfl
    cases he
  unfold readOverrides
  cases hhas : t.has p with
  | error f => simp [eq_comm]
  | ok found =>
    cases found with
    | false => simp [configFailure, hconfig]
    | true =>
      cases htext : t.readText p with
      | error f => simp [eq_comm]
      | ok text =>
        cases hread : Json.read json.depth text with
        | error f =>
          cases f with
          | malformed => simp [hread, configFailure, hconfig]
          | tooManyDigits => simp [hread, eq_comm]
          | tooDeep opened => simp [hread, eq_comm]
        | ok value => cases value <;> simp [hread, configFailure, hconfig]

theorem saveStyles_eq_ok_iff {written : Tree} {styles : StyleTable} {settings : Option Settings} :
    saveStyles t p styles settings = .ok written ↔
      (∀ font ∈ writtenFonts styles, font.text?.isSome) ∧
        t.write p (.bytes (Json.write (.obj (styleMembers styles settings))).toUTF8) =
          .ok written := by
  unfold saveStyles
  cases hwrite : t.write p (.bytes (Json.write (.obj (styleMembers styles settings))).toUTF8) with
  | error e => simp [bind, Except.bind]
  | ok tree =>
    cases hfind : (writtenFonts styles).find? fun font => font.text?.isNone with
    | none =>
      have hall : ∀ font ∈ writtenFonts styles, font.text?.isSome := by
        simpa [Option.isSome_iff_ne_none] using hfind
      exact (and_iff_right hall).symm
    | some font =>
      have hnone : font.text?.isSome = false := by simpa using List.find?_some hfind
      have hmem := List.mem_of_find?_eq_some hfind
      simp only [bind, Except.bind, reduceCtorEq, false_iff, not_and]
      exact fun hall => absurd (hall font hmem) (by simp [hnone])

/-- A style file is either used, or at fault, or unusable. -/
theorem loadConfig_eq_error_iff {path : String} {styles : StyleTable} {settings : Settings}
    (he : isConfig e = false) :
    (loadConfig json t (some path) styles settings).result = .error e ↔
      Unusable json t (Path.ofString path) styles settings e := by
  have hrange : ∀ fault, Failure.style fault = e → outOfRange fault = true := by
    rintro fault rfl
    cases fault <;> first | rfl | cases he
  simp only [loadConfig]
  rw [Logged.bind_result_eq_error, Logged.ofExcept_result, readOverrides_eq_error_iff he]
  constructor
  · rintro ((⟨f, rfl, hlookup | ⟨hhere, htext⟩⟩ |
        ⟨hhere, text, htext, ⟨rfl, hread⟩ | ⟨opened, rfl, hread⟩⟩) | ⟨members, hmembers, h⟩)
    · exact .lookup hlookup
    · exact .text hhere htext
    · exact .numeral hhere htext hread
    · exact .nested hhere htext hread
    · obtain ⟨hhere, text, htext, hread⟩ := readOverrides_eq_ok_iff.1 hmembers
      rcases Logged.bind_result_eq_error.1 h with h | ⟨merged, hmerged, h⟩
      · obtain ⟨fault, hfault, rfl⟩ := mapError_eq_error_iff.1 h
        exact .range hhere htext hread (.inl hfault) (hrange fault rfl)
      · rcases Logged.bind_result_eq_error.1 h with h | ⟨overridden, _, h⟩
        · obtain ⟨fault, hfault, rfl⟩ := mapError_eq_error_iff.1 h
          exact .range hhere htext hread (.inr ⟨⟨merged, mapError_eq_ok_iff.1 hmerged⟩, hfault⟩)
            (hrange fault rfl)
        · cases h
  · rintro (h | ⟨hhere, h⟩ | ⟨hhere, htext, h⟩ | ⟨hhere, htext, h⟩ | ⟨hhere, htext, hread, h, _⟩)
    · exact .inl (.inl ⟨_, rfl, .inl h⟩)
    · exact .inl (.inl ⟨_, rfl, .inr ⟨hhere, h⟩⟩)
    · exact .inl (.inr ⟨hhere, _, htext, .inl ⟨rfl, h⟩⟩)
    · exact .inl (.inr ⟨hhere, _, htext, .inr ⟨_, rfl, h⟩⟩)
    · refine .inr ⟨_, readOverrides_eq_ok_iff.2 ⟨hhere, _, htext, hread⟩, ?_⟩
      rcases h with h | ⟨⟨merged, hmerged⟩, h⟩
      · exact Logged.bind_result_eq_error.2 (.inl (mapError_eq_error_iff.2 ⟨_, h, rfl⟩))
      · refine Logged.bind_result_eq_error.2 (.inr ⟨merged, mapError_eq_ok_iff.2 hmerged, ?_⟩)
        exact Logged.bind_result_eq_error.2 (.inl (mapError_eq_error_iff.2 ⟨_, h, rfl⟩))

end Unusable

end MarkdownDocx.Files

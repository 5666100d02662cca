import MarkdownDocx.Proofs.Command.FilesLeft
import MarkdownDocx.Proofs.Files.StyleFile

/-!
How a run ends. It ends with a status, and with a line about the fault if the status is 1, unless it
meets something that it does not handle. That is never a fault of style or of the conversion itself:
it is an input or a style file that cannot be read, a style file that cannot be written, a number in
a style file that is out of range, or a standard output that does not take what is shown outside the
conversion.
-/

set_option autoImplicit false

namespace MarkdownDocx.Command

open MarkdownDocx.Files (Tree Path FileError Unusable isConfig)
open MarkdownDocx.Math (ToolError)

/-- What a run meets and does not handle. -/
inductive Unhandled (tools : Toolbox) (a : Arguments) (template : Style.Template)
    (stdin : Except ToolError String) (files : Tree) : Failure → Prop
  | newStyles {name : String} {e : FileError} (hinit : a.initStyles = true)
      (hname : a.styles.name? = some name)
      (h : files.has (Path.ofString name) = .error e ∨
        files.has (Path.ofString name) = .ok false ∧
          Files.saveStyles files (Path.ofString name) template.styles (some template.settings) =
            .error e) : Unhandled tools a template stdin files (.file e)
  | newStylesUntold {name : String} {written : Tree} {e : ToolError} (hinit : a.initStyles = true)
      (hname : a.styles.name? = some name) (hnew : files.has (Path.ofString name) = .ok false)
      (hsave : Files.saveStyles files (Path.ofString name) template.styles
        (some template.settings) = .ok written)
      (h : tools.refusal (createdLine (Path.ofString name)) = some e) :
      Unhandled tools a template stdin files (.output e)
  | standardInput {e : ToolError} (hinit : a.initStyles = false) (hstdin : a.stdin = true)
      (houtput : a.outputName ≠ none) (h : stdin = .error e) :
      Unhandled tools a template stdin files (.input e)
  | help {e : ToolError} (hinit : a.initStyles = false) (hstdin : a.stdin = false)
      (hname : named a.input = none) (h : tools.refusal help = some e) :
      Unhandled tools a template stdin files (.output e)
  | input {name : String} {e : FileError} (hinit : a.initStyles = false) (hstdin : a.stdin = false)
      (hname : named a.input = some name)
      (h : files.has (Path.ofString name) = .error e ∨
        files.has (Path.ofString name) = .ok true ∧
          files.readText (Path.ofString name) = .error e) :
      Unhandled tools a template stdin files (.file e)
  | unnamedStyles (hinit : a.initStyles = false) (hsource : ∃ s, a.source stdin files = .ok s)
      (h : a.styles = .unnamed) : Unhandled tools a template stdin files .unnamedStyles
  | styles {name : String} {e : Failure} (hinit : a.initStyles = false)
      (hsource : ∃ s, a.source stdin files = .ok s) (hname : a.styles = .file name)
      (h : Unusable tools.json files (Path.ofString name) template.styles template.settings e) :
      Unhandled tools a template stdin files e
  | cleanupUntold {text : String} {path : Path} {e : ToolError} (hinit : a.initStyles = false)
      (hsource : a.source stdin files = .ok (text, path))
      (hload : ∃ loaded, (a.styles.load tools.json template files).result = .ok loaded)
      (hclean : a.clean = true)
      (h : tools.refusal (cleanedLine (Markdown.unwrap text)) = some e) :
      Unhandled tools a template stdin files (.output e)

/-- A fault that a run reports, with its message. -/
inductive Fault (tools : Toolbox) (a : Arguments) (template : Style.Template)
    (stdin : Except ToolError String) (files : Tree) : String → Prop
  | stylesUnnamed (hinit : a.initStyles = true) (h : a.styles.name? = none) :
      Fault tools a template stdin files
        "--init-styles requires -s/--styles to specify the file to write"
  | stylesThere {name : String} (hinit : a.initStyles = true) (hname : a.styles.name? = some name)
      (h : files.has (Path.ofString name) = .ok true) :
      Fault tools a template stdin files
        ("Styles file already exists: " ++ (Path.ofString name).text)
  | outputUnnamed (hinit : a.initStyles = false) (hstdin : a.stdin = true)
      (h : a.outputName = none) :
      Fault tools a template stdin files "--stdin requires -o/--output to specify output file"
  | inputMissing {name : String} (hinit : a.initStyles = false) (hstdin : a.stdin = false)
      (hname : named a.input = some name) (h : files.has (Path.ofString name) = .ok false) :
      Fault tools a template stdin files
        (Failure.inputNotFound (Path.ofString name).text).message
  | styles {name : String} {fault : Style.ConfigError} (hinit : a.initStyles = false)
      (hsource : ∃ s, a.source stdin files = .ok s) (hname : a.styles = .file name)
      (h : (Files.loadConfig tools.json files (some name) template.styles
        template.settings).result = .error (.style (.config fault))) :
      Fault tools a template stdin files fault.message
  | conversion {job : Job} {e : Failure} (hinit : a.initStyles = false)
      (hjob : (a.job tools template stdin files).result = .ok job)
      (h : (convert tools files job.markdown job.path (some job.styles) (some job.settings)
        (some template.id)).result = .error e) :
      Fault tools a template stdin files ("Conversion failed: " ++ e.message)

/-- Whether there is more to do than to show something. -/
def Arguments.Works (a : Arguments) : Prop := a.version = false ∧ a.listTemplates = false

def Arguments.NamesNoInput (a : Arguments) : Prop := a.stdin = false ∧ named a.input = none

/-- What is asked for cannot be shown. -/
inductive Request.Unshown (tools : Toolbox) : Request → ToolError → Prop
  | help {e : ToolError} (h : tools.refusal Command.help = some e) : Unshown tools .help e
  | version {a : Arguments} {e : ToolError} (hversion : a.version = true)
      (h : tools.refusal versionText = some e) : Unshown tools (.run a) e
  | templates {a : Arguments} {e : ToolError} (hversion : a.version = false)
      (hlist : a.listTemplates = true)
      (h : (Style.templates.map templateLine).findSome? tools.refusal = some e) :
      Unshown tools (.run a) e

/-- Whether a failure can be met where nothing handles it. -/
def isStray : Failure → Bool
  | .file _ => true
  | .numeralTooLong => true
  | .nestedTooDeep _ => true
  | .unnamedStyles => true
  | .input _ => true
  | .output _ => true
  | .style e => Files.outOfRange e
  | _ => false

/-- A run that ends with a line about a fault and with the status for it. -/
def Run.Reports (r : Run) (message : String) : Prop :=
  r.result = .ok 1 ∧ ∃ before, r.printed = before ++ [.err ("[ERROR] " ++ message ++ "\n")]

@[simp] theorem reportedRun_reports {events : List Event} {files : Tree} {message said : String} :
    (reportedRun events files said).Reports message ↔ said = message := by
  have hprinted : (reportedRun events files said).printed =
      printedEvents events ++ [.err ("[ERROR] " ++ said ++ "\n")] := by
    simp [reportedRun, printedEvents, printedEvent]
  constructor
  · rintro ⟨-, before, hbefore⟩
    rw [hprinted] at hbefore
    have hlast := (List.append_inj' hbefore rfl).2
    simpa using hlast
  · rintro rfl
    exact ⟨rfl, _, hprinted⟩

/-! ## Refusals -/

theorem styleRefusal_eq_unhandled_iff {e e' : Failure} :
    styleRefusal e = .unhandled e' ↔ e = e' ∧ isConfig e = false := by
  unfold styleRefusal isConfig
  split <;> simp

theorem styleRefusal_eq_reported_iff {e : Failure} {message : String} :
    styleRefusal e = .reported message ↔
      ∃ fault, e = .style (.config fault) ∧ fault.message = message := by
  unfold styleRefusal
  split
  · simp
  · next hother =>
    simp only [reduceCtorEq, false_iff, not_exists, not_and]
    exact fun fault h => absurd h (hother fault)

theorem load_eq_error_iff {json : Json.Setup} {o : StyleOption} {template : Style.Template}
    {files : Tree} {r : Refusal} :
    (o.load json template files).result = .error r ↔
      o = .unnamed ∧ r = .unhandled .unnamedStyles ∨
      ∃ name e, o = .file name ∧ (Files.loadConfig json files (some name) template.styles
        template.settings).result = .error e ∧ styleRefusal e = r := by
  cases o with
  | absent => simp [StyleOption.load]
  | unnamed => simp [StyleOption.load, Logged.fail, eq_comm]
  | file name => simp [StyleOption.load]

/-! ## Conversions -/

section Runs

variable {tools : Toolbox} {a : Arguments} {template : Style.Template}
  {stdin : Except ToolError String} {files : Tree}

theorem isStray_of_unhandled {e : Failure} (h : Unhandled tools a template stdin files e) :
    isStray e = true := by
  cases h with
  | styles _ _ _ h =>
    cases h with
    | range _ _ _ _ hrange => exact hrange
    | _ => rfl
  | _ => rfl

/-- The faults before a conversion that a run does not handle are those of its input, those of its
styles, and a cleanup that cannot be told. -/
theorem job_eq_unhandled_iff {e : Failure} (hinit : a.initStyles = false)
    (hname : ¬a.NamesNoInput) :
    (a.job tools template stdin files).result = .error (.unhandled e) ↔
      Unhandled tools a template stdin files e := by
  rw [job_eq_error_iff, source_eq_error_iff, load_eq_error_iff]
  constructor
  · rintro ((⟨-, -, h⟩ | ⟨hstdin, houtput, f, h, hf⟩ | ⟨-, -, h⟩ |
      ⟨hstdin, name, hname, ⟨f, h, hf⟩ | ⟨-, h⟩ | ⟨hhere, f, h, hf⟩⟩) |
      ⟨hsource, ⟨hnone, h⟩ | ⟨name, f, hname, h, hf⟩⟩ |
      ⟨text, path, hsource, hload, hclean, f, h, hf⟩)
    · cases h
    · cases hf
      exact .standardInput hinit hstdin houtput h
    · cases h
    · cases hf
      exact .input hinit hstdin hname (.inl h)
    · cases h
    · cases hf
      exact .input hinit hstdin hname (.inr ⟨hhere, h⟩)
    · cases h
      exact .unnamedStyles hinit hsource hnone
    · obtain ⟨rfl, hother⟩ := styleRefusal_eq_unhandled_iff.1 hf
      exact .styles hinit hsource hname ((Files.loadConfig_eq_error_iff hother).1 h)
    · cases hf
      exact .cleanupUntold hinit hsource hload hclean h
  · intro h
    cases h with
    | newStyles h => simp [hinit] at h
    | newStylesUntold h => simp [hinit] at h
    | standardInput _ hstdin houtput h => exact .inl (.inr (.inl ⟨hstdin, houtput, _, h, rfl⟩))
    | help _ hstdin hnone => exact absurd ⟨hstdin, hnone⟩ hname
    | input _ hstdin hname h =>
      refine .inl (.inr (.inr (.inr ⟨hstdin, _, hname, ?_⟩)))
      rcases h with h | ⟨hhere, h⟩
      · exact .inl ⟨_, h, rfl⟩
      · exact .inr (.inr ⟨hhere, _, h, rfl⟩)
    | unnamedStyles _ hsource h => exact .inr (.inl ⟨hsource, .inl ⟨h, rfl⟩⟩)
    | styles _ hsource hname h =>
      have hother := Files.isConfig_of_unusable h
      exact .inr (.inl ⟨hsource, .inr ⟨_, e, hname, (Files.loadConfig_eq_error_iff hother).2 h,
        styleRefusal_eq_unhandled_iff.2 ⟨rfl, hother⟩⟩⟩)
    | cleanupUntold _ hsource hload hclean h =>
      exact .inr (.inr ⟨_, _, hsource, hload, hclean, _, h, rfl⟩)

theorem source_noInput (h : a.NamesNoInput) : a.source stdin files = .error .noInput :=
  source_eq_error_iff.2 (.inr (.inr (.inl ⟨h.1, h.2, rfl⟩)))

theorem job_noInput (h : a.NamesNoInput) :
    a.job tools template stdin files = ⟨[], .error .noInput⟩ := by
  simp [Arguments.job, source_noInput h, Logged.ofExcept]

theorem namesNoInput_of_job (h : (a.job tools template stdin files).result = .error .noInput) :
    a.NamesNoInput := by
  have hsource : a.source stdin files = .error .noInput := by
    rcases job_eq_error_iff.1 h with hsource | ⟨-, hload⟩ | ⟨_, _, -, -, -, _, -, hkind⟩
    · exact hsource
    · rcases load_eq_error_iff.1 hload with ⟨-, hkind⟩ | ⟨_, e, -, -, hkind⟩
      · cases hkind
      · unfold styleRefusal at hkind
        split at hkind <;> cases hkind
    · cases hkind
  rcases source_eq_error_iff.1 hsource with ⟨-, -, hkind⟩ | ⟨-, -, _, -, hkind⟩ | ⟨hstdin, hname, -⟩ |
    ⟨-, _, -, ⟨_, -, hkind⟩ | ⟨-, hkind⟩ | ⟨-, _, -, hkind⟩⟩
  · cases hkind
  · cases hkind
  · exact ⟨hstdin, hname⟩
  · cases hkind
  · cases hkind
  · cases hkind

/-- Without an input the help is shown. -/
theorem convertRun_noInput (h : a.NamesNoInput) :
    convertRun tools a template stdin files = printRun tools files 1 [help] := by
  simp only [convertRun, job_noInput h]
  rfl

theorem unhandled_noInput_iff {e : Failure} (hinit : a.initStyles = false) (h : a.NamesNoInput) :
    Unhandled tools a template stdin files e ↔ ∃ f, tools.refusal help = some f ∧ e = .output f := by
  have hsource : ∀ s, a.source stdin files ≠ .ok s := by simp [source_noInput h]
  constructor
  · intro hunhandled
    cases hunhandled with
    | newStyles hinit' => simp [hinit] at hinit'
    | newStylesUntold hinit' => simp [hinit] at hinit'
    | standardInput _ hstdin => simp [h.1] at hstdin
    | help _ _ _ hrefusal => exact ⟨_, hrefusal, rfl⟩
    | input _ _ hname => simp [h.2] at hname
    | unnamedStyles _ hread => exact absurd hread.choose_spec (hsource _)
    | styles _ hread => exact absurd hread.choose_spec (hsource _)
    | cleanupUntold _ hread => exact absurd hread (hsource _)
  · rintro ⟨f, hrefusal, rfl⟩
    exact .help hinit h.1 h.2 hrefusal

theorem printRun_eq_error_iff {status : Nat} {texts : List String} {e : Failure} :
    (printRun tools files status texts).result = .error e ↔
      ∃ f, texts.findSome? tools.refusal = some f ∧ e = .output f := by
  rw [printRun_result]
  cases texts.findSome? tools.refusal <;> simp [eq_comm]

theorem convertRun_eq_error_iff {e : Failure} (hinit : a.initStyles = false) :
    (convertRun tools a template stdin files).result = .error e ↔
      Unhandled tools a template stdin files e := by
  -- without an input no job is at fault: only the help can fail to be shown
  by_cases hnames : a.NamesNoInput
  · rw [convertRun_noInput hnames, printRun_eq_error_iff, unhandled_noInput_iff hinit hnames]
    simp
  · rw [← job_eq_unhandled_iff hinit hnames]
    cases hjob : (a.job tools template stdin files).result with
    | error refusal =>
      cases refusal with
      | noInput => exact absurd (namesNoInput_of_job hjob) hnames
      | _ => simp [convertRun, hjob, reportedRun]
    | ok job => simp [(convertRun_of_job hjob).2]

/-- The faults that a run reports are met before the conversion or in it. -/
theorem fault_iff {message : String} (hinit : a.initStyles = false) :
    Fault tools a template stdin files message ↔
      (a.job tools template stdin files).result = .error (.reported message) ∨
      ∃ job e, (a.job tools template stdin files).result = .ok job ∧
        (convert tools files job.markdown job.path (some job.styles) (some job.settings)
          (some template.id)).result = .error e ∧ "Conversion failed: " ++ e.message = message := by
  rw [job_eq_error_iff, source_eq_error_iff, load_eq_error_iff]
  constructor
  · intro h
    cases h with
    | stylesUnnamed h => simp [hinit] at h
    | stylesThere h => simp [hinit] at h
    | outputUnnamed _ hstdin h => exact .inl (.inl (.inl ⟨hstdin, h, rfl⟩))
    | inputMissing _ hstdin hname h =>
      exact .inl (.inl (.inr (.inr (.inr ⟨hstdin, _, hname, .inr (.inl ⟨h, rfl⟩)⟩))))
    | styles _ hsource hname h =>
      refine .inl (.inr (.inl ⟨hsource, .inr ⟨_, _, hname, h, ?_⟩⟩))
      exact styleRefusal_eq_reported_iff.2 ⟨_, rfl, rfl⟩
    | conversion _ hjob h => exact .inr ⟨_, _, hjob, h, rfl⟩
  · rintro (((⟨hstdin, houtput, h⟩ | ⟨-, -, _, -, h⟩ | ⟨-, -, h⟩ |
      ⟨hstdin, name, hname, ⟨_, -, h⟩ | ⟨habsent, h⟩ | ⟨-, _, -, h⟩⟩) |
      ⟨hsource, ⟨-, h⟩ | ⟨name, e, hname, hload, h⟩⟩ | ⟨_, _, -, -, -, _, -, h⟩) |
      ⟨job, e, hjob, h, rfl⟩)
    · cases h
      exact .outputUnnamed hinit hstdin houtput
    · cases h
    · cases h
    · cases h
    · cases h
      exact .inputMissing hinit hstdin hname habsent
    · cases h
    · cases h
    · obtain ⟨fault, rfl, rfl⟩ := styleRefusal_eq_reported_iff.1 h
      exact .styles hinit hsource hname hload
    · cases h
    · exact .conversion hinit hjob h

/-- A run that only prints reports nothing, even if it is cut off. -/
theorem not_printRun_reports {status : Nat} {texts : List String} {message : String} :
    ¬(printRun tools files status texts).Reports message := by
  have hprinted : ∀ text, Printed.err text ∉ (printRun tools files status texts).printed := by
    induction texts with
    | nil => simp [printRun]
    | cons text rest ih =>
      unfold printRun
      cases tools.refusal text <;> simp [ih]
  rintro ⟨-, before, hbefore⟩
  exact hprinted _ (by rw [hbefore]; exact List.mem_append_right _ (List.mem_singleton_self _))

theorem convertRun_reports_iff {message : String} (hinit : a.initStyles = false) :
    (convertRun tools a template stdin files).Reports message ↔
      Fault tools a template stdin files message := by
  rw [fault_iff hinit]
  cases hjob : (a.job tools template stdin files).result with
  | error refusal =>
    cases refusal with
    | reported said => simp [convertRun, hjob]
    | noInput =>
      rw [convertRun_noInput (namesNoInput_of_job hjob)]
      simp [not_printRun_reports]
    | unhandled e => simp [convertRun, hjob, Run.Reports]
  | ok job =>
    cases hdone : (convert tools files job.markdown job.path (some job.styles) (some job.settings)
        (some template.id)).result with
    | ok path => simp [convertRun, hjob, Run.Reports, hdone]
    | error e => simp [convertRun, hjob, hdone]

theorem printRun_eq_ok_printed {status n : Nat} {texts : List String}
    (h : (printRun tools files status texts).result = .ok n) :
    (printRun tools files status texts).printed = texts.map .out := by
  induction texts with
  | nil => rfl
  | cons text rest ih =>
    unfold printRun at h ⊢
    cases hrefusal : tools.refusal text with
    | none => simpa [hrefusal] using ih (by simpa [hrefusal] using h)
    | some e => simp [hrefusal] at h

/-- A conversion ends as done or as at fault, or the help is shown for want of an input. -/
theorem convertRun_eq_ok {n : Nat} (h : (convertRun tools a template stdin files).result = .ok n) :
    n = 0 ∨ (∃ message, (convertRun tools a template stdin files).Reports message) ∨
      n = 1 ∧ (convertRun tools a template stdin files).printed = [.out help] ∧
        a.NamesNoInput := by
  cases hjob : (a.job tools template stdin files).result with
  | error refusal =>
    cases refusal with
    | reported said => exact .inr (.inl ⟨said, by simp [convertRun, hjob]⟩)
    | noInput =>
      have hnames := namesNoInput_of_job hjob
      rw [convertRun_noInput hnames] at h ⊢
      exact .inr (.inr ⟨printRun_eq_ok h, printRun_eq_ok_printed h, hnames⟩)
    | unhandled e => simp [convertRun, hjob] at h
  | ok job =>
    cases hdone : (convert tools files job.markdown job.path (some job.styles) (some job.settings)
        (some template.id)).result with
    | ok path =>
      simp only [convertRun, hjob, hdone, Except.ok.injEq] at h
      exact .inl h.symm
    | error e =>
      exact .inr (.inl ⟨"Conversion failed: " ++ e.message, by simp [convertRun, hjob, hdone]⟩)

/-! ## New style files -/

/-- Beside a fault and what is not handled there is only success. -/
theorem initStylesRun_cases (stdin : Except ToolError String) (hinit : a.initStyles = true) :
    let r := initStylesRun tools a template files
    (∃ message, Fault tools a template stdin files message ∧ r = reportedRun [] files message) ∨
      (∃ e, Unhandled tools a template stdin files e ∧ r.result = .error e) ∨ r.result = .ok 0 := by
  intro r
  simp only [r, initStylesRun]
  cases hname : a.styles.name? with
  | none => exact .inl ⟨_, .stylesUnnamed hinit hname, rfl⟩
  | some name =>
    cases hhas : files.has (Path.ofString name) with
    | error e => exact .inr (.inl ⟨.file e, .newStyles hinit hname (.inl hhas), by simp [hhas]⟩)
    | ok found =>
      cases found with
      | true => exact .inl ⟨_, .stylesThere hinit hname hhas, by simp [hhas]⟩
      | false =>
        simp only [hhas]
        cases hsave : Files.saveStyles files (Path.ofString name) template.styles
            (some template.settings) with
        | error e => exact .inr (.inl ⟨.file e, .newStyles hinit hname (.inr ⟨hhas, hsave⟩), rfl⟩)
        | ok written =>
          simp only
          cases htold : (tools.say ("Styles file created: " ++ (Path.ofString name).text)).result with
          | ok told => exact .inr (.inr rfl)
          | error e =>
            obtain ⟨f, hrefusal, rfl⟩ := say_eq_error_iff.1 htold
            exact .inr (.inl ⟨_, .newStylesUntold hinit hname hhas hsave hrefusal, rfl⟩)

theorem initStylesRun_eq_error_iff {e : Failure} (hinit : a.initStyles = true) :
    (initStylesRun tools a template files).result = .error e ↔
      Unhandled tools a template stdin files e := by
  constructor
  · intro h
    rcases initStylesRun_cases stdin hinit with ⟨_, -, hr⟩ | ⟨e', hunhandled, hr⟩ | hr
    · rw [hr] at h
      cases h
    · rw [hr] at h
      cases h
      exact hunhandled
    · rw [hr] at h
      cases h
  · intro h
    cases h with
    | newStyles _ hname h =>
      rcases h with h | ⟨hhas, hsave⟩
      · simp [initStylesRun, hname, h]
      · simp [initStylesRun, hname, hhas, hsave]
    | newStylesUntold _ hname hnew hsave h =>
      have htold := say_eq_error_iff.2 ⟨_, h, rfl⟩
      simp [initStylesRun, hname, hnew, hsave, htold, Except.map]
    | standardInput h => simp [hinit] at h
    | help h => simp [hinit] at h
    | input h => simp [hinit] at h
    | unnamedStyles h => simp [hinit] at h
    | styles h => simp [hinit] at h
    | cleanupUntold h => simp [hinit] at h

theorem initStylesRun_reports_iff {message : String} (hinit : a.initStyles = true) :
    (initStylesRun tools a template files).Reports message ↔
      Fault tools a template stdin files message := by
  constructor
  · intro h
    rcases initStylesRun_cases stdin hinit with ⟨said, hfault, hr⟩ | ⟨e, -, hr⟩ | hr
    · rw [hr, reportedRun_reports] at h
      exact h ▸ hfault
    · simp [Run.Reports, hr] at h
    · simp [Run.Reports, hr] at h
  · intro h
    cases h with
    | stylesUnnamed _ hname => simp [initStylesRun, hname]
    | stylesThere _ hname hhas => simp [initStylesRun, hname, hhas]
    | outputUnnamed h => simp [hinit] at h
    | inputMissing h => simp [hinit] at h
    | styles h => simp [hinit] at h
    | conversion h => simp [hinit] at h

/-! ## All runs -/

/-- A run that only shows something. -/
theorem runArguments_idle (h : ¬a.Works) :
    ∃ texts, runArguments tools a stdin files = printRun tools files 0 texts ∧
      ∀ e, texts.findSome? tools.refusal = some e ↔ (Request.run a).Unshown tools e := by
  unfold runArguments
  cases hversion : a.version with
  | true =>
    refine ⟨[versionText], rfl, fun e => ?_⟩
    constructor
    · intro hrefusal
      exact .version hversion (by simpa using hrefusal)
    · intro hunshown
      cases hunshown with
      | version _ hrefusal => simpa using hrefusal
      | templates hversion' => simp [hversion] at hversion'
  | false =>
    cases hlist : a.listTemplates with
    | true =>
      refine ⟨Style.templates.map templateLine, rfl, fun e => ?_⟩
      constructor
      · exact .templates hversion hlist
      · intro hunshown
        cases hunshown with
        | version hversion' => simp [hversion] at hversion'
        | templates _ _ hrefusal => exact hrefusal
    | false => exact absurd ⟨hversion, hlist⟩ h

theorem not_unshown_of_works {e : ToolError} (h : a.Works) : ¬(Request.run a).Unshown tools e := by
  intro hunshown
  cases hunshown with
  | version hversion => simp [h.1] at hversion
  | templates _ hlist => simp [h.2] at hlist

theorem runArguments_unknown {e : Style.ConfigError} (hworks : a.Works)
    (h : Style.findTemplate a.template = .error e) :
    runArguments tools a stdin files = reportedRun [] files e.message := by
  simp [runArguments, hworks.1, hworks.2, h]

theorem runArguments_work (hworks : a.Works) (h : Style.findTemplate a.template = .ok template) :
    runArguments tools a stdin files =
      if a.initStyles then initStylesRun tools a template files
      else convertRun tools a template stdin files := by
  simp [runArguments, hworks.1, hworks.2, h]

theorem runArguments_eq_error_iff {e : Failure} :
    (runArguments tools a stdin files).result = .error e ↔
      (∃ f, (Request.run a).Unshown tools f ∧ e = .output f) ∨
      a.Works ∧ ∃ template, Style.findTemplate a.template = .ok template ∧
        Unhandled tools a template stdin files e := by
  by_cases hworks : a.Works
  · simp only [not_unshown_of_works hworks, false_and, exists_false, false_or, hworks, true_and]
    cases htemplate : Style.findTemplate a.template with
    | error fault => simp [runArguments_unknown hworks htemplate, reportedRun]
    | ok template =>
      rw [runArguments_work hworks htemplate]
      cases hinit : a.initStyles with
      | true => simpa using initStylesRun_eq_error_iff hinit
      | false => simpa using convertRun_eq_error_iff hinit
  · obtain ⟨texts, hr, hunshown⟩ := @runArguments_idle tools a stdin files hworks
    simp [hr, printRun_eq_error_iff, hunshown, hworks]

theorem runArguments_reports_iff {message : String} :
    (runArguments tools a stdin files).Reports message ↔ a.Works ∧
      ((∃ e, Style.findTemplate a.template = .error e ∧ e.message = message) ∨
        ∃ template, Style.findTemplate a.template = .ok template ∧
          Fault tools a template stdin files message) := by
  by_cases hworks : a.Works
  · cases htemplate : Style.findTemplate a.template with
    | error fault => simp [runArguments_unknown hworks htemplate, hworks]
    | ok template =>
      rw [runArguments_work hworks htemplate]
      cases hinit : a.initStyles with
      | true => simpa [hworks] using initStylesRun_reports_iff hinit
      | false => simpa [hworks] using convertRun_reports_iff hinit
  · obtain ⟨texts, hr, -⟩ := @runArguments_idle tools a stdin files hworks
    simp [hr, not_printRun_reports, hworks]

theorem runArguments_eq_ok {n : Nat} (h : (runArguments tools a stdin files).result = .ok n) :
    n = 0 ∨ (∃ message, (runArguments tools a stdin files).Reports message) ∨
      n = 1 ∧ (runArguments tools a stdin files).printed = [.out help] ∧ a.NamesNoInput := by
  by_cases hworks : a.Works
  · cases htemplate : Style.findTemplate a.template with
    | error fault =>
      rw [runArguments_unknown hworks htemplate]
      exact .inr (.inl ⟨_, reportedRun_reports.2 rfl⟩)
    | ok template =>
      rw [runArguments_work hworks htemplate] at h ⊢
      cases hinit : a.initStyles with
      | true =>
        simp only [hinit, if_true] at h ⊢
        rcases initStylesRun_cases stdin hinit with ⟨message, -, hr⟩ | ⟨e, -, hr⟩ | hr
        · exact .inr (.inl ⟨message, hr ▸ reportedRun_reports.2 rfl⟩)
        · rw [hr] at h
          cases h
        · rw [hr] at h
          exact .inl (Except.ok.inj h).symm
      | false =>
        simp only [hinit, Bool.false_eq_true, if_false] at h ⊢
        exact convertRun_eq_ok h
  · obtain ⟨texts, hr, -⟩ := @runArguments_idle tools a stdin files hworks
    rw [hr] at h
    exact .inl (printRun_eq_ok h)

end Runs

/-- How a run ends that is told what to do. It escapes with a failure just if it cannot show what is
asked for or meets something that it does not handle, which is no fault of style and none of the
conversion. It reports a message just if there is a fault with that message. There is no other end,
but for success, and for the help that is shown if no input is named. -/
theorem run_status (tools : Toolbox) {rule : DashRule} {arguments : List String}
    {request : Request} (stdin : Except ToolError String) (files : Tree)
    (hread : readArguments rule arguments = .ok request) :
    let r := run tools rule arguments stdin files
    (∀ e, r.result = .error e ↔ (∃ f, request.Unshown tools f ∧ e = .output f) ∨
      ∃ a template, request = .run a ∧ a.Works ∧ Style.findTemplate a.template = .ok template ∧
        Unhandled tools a template stdin files e) ∧
    (∀ e, r.result = .error e → isStray e = true) ∧
    (∀ message, r.Reports message ↔ ∃ a, request = .run a ∧ a.Works ∧
      ((∃ e, Style.findTemplate a.template = .error e ∧ e.message = message) ∨
        ∃ template, Style.findTemplate a.template = .ok template ∧
          Fault tools a template stdin files message)) ∧
    ∀ n, r.result = .ok n → n = 0 ∨ (∃ message, r.Reports message) ∨
      n = 1 ∧ r.printed = [.out help] ∧ ∃ a, request = .run a ∧ a.NamesNoInput := by
  intro r
  simp only [r, run, hread]
  cases request with
  | help =>
    have hunshown : ∀ f, Request.help.Unshown tools f ↔ tools.refusal help = some f :=
      fun f => ⟨fun h => by cases h with | help h => exact h, .help⟩
    refine ⟨fun e => ?_, fun e h => ?_, fun message => ?_, fun n h => .inl (printRun_eq_ok h)⟩
    · simp [printRun_eq_error_iff, hunshown]
    · obtain ⟨f, -, rfl⟩ := printRun_eq_error_iff.1 h
      rfl
    · simp [not_printRun_reports]
  | run a =>
    refine ⟨fun e => ?_, fun e h => ?_, fun message => ?_, fun n h => ?_⟩
    · simpa using runArguments_eq_error_iff
    · rcases runArguments_eq_error_iff.1 h with ⟨f, -, rfl⟩ | ⟨-, template, -, hunhandled⟩
      · rfl
      · exact isStray_of_unhandled hunhandled
    · simpa using runArguments_reports_iff
    · simpa using runArguments_eq_ok h

/-! A file that holds no text. -/

def strayFile : Tree := ⟨[(["a.md"], .file (.bytes ⟨#[0xff]⟩))]⟩

theorem readArguments_stray :
    readArguments keptDashes ["a.md"] = .ok (.run { input := some "a.md" }) :=
  toOption_eq_some_iff.1 (by decide +kernel)

theorem findTemplate_none : Style.findTemplate none = .ok Style.defaultTemplate := rfl

theorem unhandled_stray :
    Unhandled idleTools { input := some "a.md" } Style.defaultTemplate (.ok "") strayFile
      (.file .notText) := by
  have hname : named (some "a.md") = some "a.md" := by decide
  have hlook : strayFile.look (Path.ofString "a.md") = .ok (.file ["a.md"] (.bytes ⟨#[0xff]⟩)) :=
    Tree.look_eq_walk (by decide) (by decide)
  have htext : strayFile.readText (Path.ofString "a.md") = .error .notText := by
    rw [Tree.readText_of_file hlook, show Files.textOf ⟨#[0xff]⟩ = none by decide]
    rfl
  exact .input rfl rfl hname (.inr ⟨Tree.has_of_file hlook, htext⟩)

/-- A file that holds no text is named, and the run ends without a status. -/
theorem run_status_notText :
    readArguments keptDashes ["a.md"] = .ok (.run { input := some "a.md" }) ∧
      (run idleTools keptDashes ["a.md"] (.ok "") strayFile).result = .error (.file .notText) := by
  refine ⟨readArguments_stray, ?_⟩
  simp only [run, readArguments_stray]
  exact runArguments_eq_error_iff.2
    (.inr ⟨⟨rfl, rfl⟩, _, findTemplate_none, unhandled_stray⟩)

theorem run_status_sample :
    (run idleTools keptDashes ["a.md"] (.ok "") strayFile).result = .error (.file .notText) ∧
    (run idleTools keptDashes ["b.md"] (.ok "") strayFile).Reports
      "Input file not found: b.md" := by
  have hread : readArguments keptDashes ["b.md"] = .ok (.run { input := some "b.md" }) :=
    toOption_eq_some_iff.1 (by decide +kernel)
  have hname : named (some "b.md") = some "b.md" := by decide
  have hmissing : strayFile.has (Path.ofString "b.md") = .ok false :=
    Tree.has_of_vacant (Tree.look_eq_walk (by decide) (by decide))
  have htext : (Path.ofString "b.md").text = "b.md" := rfl
  obtain ⟨hescapes, -⟩ := run_status idleTools (.ok "") strayFile readArguments_stray
  obtain ⟨-, -, hreports, -⟩ := run_status idleTools (.ok "") strayFile hread
  refine ⟨(hescapes _).2 (.inr ⟨_, _, rfl, ⟨rfl, rfl⟩, findTemplate_none, unhandled_stray⟩), ?_⟩
  have hfault : Fault idleTools { input := some "b.md" } Style.defaultTemplate (.ok "") strayFile
      (Failure.inputNotFound (Path.ofString "b.md").text).message :=
    .inputMissing rfl rfl hname hmissing
  rw [htext] at hfault
  exact (hreports _).2 ⟨_, rfl, ⟨rfl, rfl⟩, .inr ⟨_, findTemplate_none, hfault⟩⟩

end MarkdownDocx.Command

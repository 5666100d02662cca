import MarkdownDocx.Command.Run
import MarkdownDocx.Proofs.Logged

/-!
What a conversion is told to do: when a job comes of arguments or of an input file, which job that
is, and what else may come of arguments.
-/

set_option autoImplicit false

namespace MarkdownDocx

open MarkdownDocx.Files (Tree Path)

/-! ## What is told -/

theorem say_eq_ok_iff {tools : Toolbox} {message : String} {u : Unit} :
    (tools.say message).result = .ok u ↔ tools.refusal (informationLine message) = none := by
  unfold Toolbox.say
  cases tools.refusal (informationLine message) <;> simp [Logged.report, Logged.fail]

theorem say_eq_error_iff {tools : Toolbox} {message : String} {e : Failure} :
    (tools.say message).result = .error e ↔
      ∃ f, tools.refusal (informationLine message) = some f ∧ e = .output f := by
  unfold Toolbox.say
  cases tools.refusal (informationLine message) <;> simp [Logged.report, Logged.fail, eq_comm]

/-! ## Jobs of files -/

/-- A job comes of a file just if the file is there and is text, and the path, the template and the
styles can be made out. -/
theorem prepareFile_eq_ok_iff {json : Json.Setup} {files : Tree} {input : String}
    {output template : Option String} {source : StyleSource} {job : Job} :
    (prepareFile json files input output source template).result = .ok job ↔
      files.has (Path.ofString input) = .ok true ∧
      outputPath (Path.ofString input) output = .ok job.path ∧
      ∃ chosen text, Style.findTemplate template = .ok chosen ∧
        (source.load json files chosen).result = .ok (job.styles, job.settings) ∧
        files.readText (Path.ofString input) = .ok text ∧
        job.markdown = Markdown.unwrap text := by
  unfold prepareFile
  simp only [Logged.bind_result_eq_ok, Logged.mapError_result, Logged.ofExcept_result,
    mapError_eq_ok_iff]
  constructor
  · rintro ⟨found, hfound, h⟩
    cases found with
    | false =>
      obtain ⟨_, hfail, _⟩ := Logged.bind_result_eq_ok.1 h
      cases hfail
    | true =>
      obtain ⟨path, hpath, h⟩ := Logged.bind_result_eq_ok.1 h
      obtain ⟨chosen, hchosen, h⟩ := Logged.bind_result_eq_ok.1 h
      obtain ⟨⟨styles, settings⟩, hload, h⟩ := Logged.bind_result_eq_ok.1 h
      obtain ⟨text, htext, h⟩ := Logged.bind_result_eq_ok.1 h
      cases h
      exact ⟨hfound, hpath, chosen, text, mapError_eq_ok_iff.1 hchosen, hload,
        mapError_eq_ok_iff.1 htext, rfl⟩
  · rintro ⟨hfound, hpath, chosen, text, hchosen, hload, htext, hmarkdown⟩
    refine ⟨true, hfound, ?_⟩
    refine Logged.bind_result_eq_ok.2 ⟨job.path, hpath, ?_⟩
    refine Logged.bind_result_eq_ok.2 ⟨chosen, mapError_eq_ok_iff.2 hchosen, ?_⟩
    refine Logged.bind_result_eq_ok.2 ⟨(job.styles, job.settings), hload, ?_⟩
    refine Logged.bind_result_eq_ok.2 ⟨text, mapError_eq_ok_iff.2 htext, ?_⟩
    simp [← hmarkdown]

/-- A path that a text can be read from has a name: without one it is a directory. -/
theorem parts_ne_nil_of_readText {files : Tree} {path : Path} {text : String}
    (h : files.readText path = .ok text) : path.parts ≠ [] := by
  intro hparts
  simp only [Tree.readText, Tree.look, hparts, Tree.walk] at h
  split at h
  · cases h
  · split at h
    · cases h
    · cases h

theorem exists_outputPath {files : Tree} {path : Path} {text : String} (output : Option String)
    (h : files.readText path = .ok text) : ∃ p, outputPath path output = .ok p := by
  cases output with
  | some output => exact ⟨_, rfl⟩
  | none =>
    cases hname : path.parts.getLast? with
    | some name => simp [outputPath, Path.withExtension, hname]
    | none => exact absurd (List.getLast?_eq_none_iff.1 hname) (parts_ne_nil_of_readText h)

namespace Command

/-! ## Jobs of arguments -/

section Jobs

variable {tools : Toolbox} {a : Arguments} {template : Style.Template}
  {stdin : Except Math.ToolError String} {files : Tree}

/-- The text and the path come from the standard input with a named output, or from an input that
is named, there, and text. -/
theorem source_eq_ok_iff {text : String} {path : Path} :
    a.source stdin files = .ok (text, path) ↔
      (a.stdin = true ∧ stdin = .ok text ∧ ∃ output, a.outputName = some output ∧
        Path.ofString output = path) ∨
      (a.stdin = false ∧ ∃ input, named a.input = some input ∧
        files.has (Path.ofString input) = .ok true ∧
        files.readText (Path.ofString input) = .ok text ∧
        outputPath (Path.ofString input) a.outputName = .ok path) := by
  unfold Arguments.source
  cases hstdin : a.stdin with
  | true =>
    cases a.outputName with
    | none => simp
    | some output => cases stdin <;> simp [bind, Except.bind, pure, Except.pure]
  | false =>
    cases named a.input with
    | none => simp
    | some input =>
      cases hhas : files.has (Path.ofString input) with
      | error e => simp [hhas]
      | ok found =>
        cases found with
        | false => simp [hhas]
        | true =>
          cases htext : files.readText (Path.ofString input) <;>
            cases hpath : outputPath (Path.ofString input) a.outputName <;>
              simp [hhas, htext, hpath, bind, Except.bind, pure, Except.pure]

theorem source_eq_error_iff {r : Refusal} :
    a.source stdin files = .error r ↔
      (a.stdin = true ∧ a.outputName = none ∧
        r = .reported "--stdin requires -o/--output to specify output file") ∨
      (a.stdin = true ∧ a.outputName ≠ none ∧ ∃ e, stdin = .error e ∧ r = .unhandled (.input e)) ∨
      (a.stdin = false ∧ named a.input = none ∧ r = .noInput) ∨
      (a.stdin = false ∧ ∃ input, named a.input = some input ∧
        ((∃ e, files.has (Path.ofString input) = .error e ∧ r = .unhandled (.file e)) ∨
          (files.has (Path.ofString input) = .ok false ∧
            r = .reported (Failure.inputNotFound (Path.ofString input).text).message) ∨
          (files.has (Path.ofString input) = .ok true ∧
            ∃ e, files.readText (Path.ofString input) = .error e ∧ r = .unhandled (.file e)))) := by
  unfold Arguments.source
  cases hstdin : a.stdin with
  | true =>
    cases a.outputName with
    | none => simp [eq_comm]
    | some output => cases stdin <;> simp [bind, Except.bind, pure, Except.pure, eq_comm]
  | false =>
    cases named a.input with
    | none => simp [eq_comm]
    | some input =>
      cases hhas : files.has (Path.ofString input) with
      | error e => simp [hhas, eq_comm]
      | ok found =>
        cases found with
        | false => simp [hhas, eq_comm]
        | true =>
          cases htext : files.readText (Path.ofString input) with
          | error e => simp [hhas, htext, bind, Except.bind, eq_comm]
          | ok text =>
            obtain ⟨path, hpath⟩ := exists_outputPath a.outputName htext
            simp [hhas, htext, hpath, bind, Except.bind, pure, Except.pure]

/-- A text after the cleanup, if it was asked for. -/
def Arguments.cleaned (a : Arguments) (markdown : String) : String :=
  if a.clean then String.ofList (Text.cleanUp markdown.toList).text else markdown

/-- What is told of a text's cleanup. -/
def cleanedLine (markdown : String) : String :=
  informationLine (cleanedText (Text.cleanUp markdown.toList))

/-- The cleanup of a text is told if it was asked for. -/
def Arguments.Tells (a : Arguments) (tools : Toolbox) (markdown : String) : Prop :=
  a.clean = true → tools.refusal (cleanedLine markdown) = none

theorem cleanedMarkdown_eq_ok_iff {markdown text : String} :
    (a.cleanedMarkdown tools markdown).result = .ok text ↔
      a.Tells tools markdown ∧ a.cleaned markdown = text := by
  unfold Arguments.cleanedMarkdown Arguments.Tells Arguments.cleaned
  cases a.clean with
  | false => simp
  | true =>
    rw [if_pos rfl, Logged.bind_result_eq_ok]
    simp [say_eq_ok_iff, cleanedLine]

theorem cleanedMarkdown_eq_error_iff {markdown : String} {r : Refusal} :
    (a.cleanedMarkdown tools markdown).result = .error r ↔
      a.clean = true ∧ ∃ e, tools.refusal (cleanedLine markdown) = some e ∧
        r = .unhandled (.output e) := by
  unfold Arguments.cleanedMarkdown
  cases a.clean with
  | false => simp
  | true =>
    rw [if_pos rfl, Logged.bind_result_eq_error]
    simp only [Logged.mapError_result, mapError_eq_error_iff, say_eq_error_iff, cleanedLine]
    constructor
    · rintro (⟨_, ⟨e, he, rfl⟩, rfl⟩ | ⟨_, -, h⟩)
      · exact ⟨trivial, e, he, rfl⟩
      · cases h
    · rintro ⟨-, e, he, rfl⟩
      exact .inl ⟨_, ⟨e, he, rfl⟩, rfl⟩

theorem job_eq_ok_iff {job : Job} :
    (a.job tools template stdin files).result = .ok job ↔
      ∃ text, a.source stdin files = .ok (text, job.path) ∧
        (a.styles.load tools.json template files).result = .ok (job.styles, job.settings) ∧
        a.Tells tools (Markdown.unwrap text) ∧ a.cleaned (Markdown.unwrap text) = job.markdown := by
  unfold Arguments.job
  constructor
  · intro h
    obtain ⟨⟨text, path⟩, hsource, h⟩ := Logged.bind_result_eq_ok.1 h
    obtain ⟨⟨styles, settings⟩, hload, h⟩ := Logged.bind_result_eq_ok.1 h
    obtain ⟨markdown, hmarkdown, h⟩ := Logged.bind_result_eq_ok.1 h
    cases h
    exact ⟨text, hsource, hload, cleanedMarkdown_eq_ok_iff.1 hmarkdown⟩
  · rintro ⟨text, hsource, hload, hmarkdown⟩
    refine Logged.bind_result_eq_ok.2 ⟨(text, job.path), hsource, ?_⟩
    refine Logged.bind_result_eq_ok.2 ⟨(job.styles, job.settings), hload, ?_⟩
    exact Logged.bind_result_eq_ok.2 ⟨job.markdown, cleanedMarkdown_eq_ok_iff.2 hmarkdown, rfl⟩

/-- A job is refused for its text and path, or else for its styles, or else because its cleanup
cannot be told. -/
theorem job_eq_error_iff {r : Refusal} :
    (a.job tools template stdin files).result = .error r ↔
      a.source stdin files = .error r ∨
      (∃ s, a.source stdin files = .ok s) ∧
        (a.styles.load tools.json template files).result = .error r ∨
      ∃ text path, a.source stdin files = .ok (text, path) ∧
        (∃ loaded, (a.styles.load tools.json template files).result = .ok loaded) ∧
        a.clean = true ∧ ∃ e, tools.refusal (cleanedLine (Markdown.unwrap text)) = some e ∧
          r = .unhandled (.output e) := by
  unfold Arguments.job
  rw [Logged.bind_result_eq_error]
  refine or_congr Iff.rfl ?_
  constructor
  · rintro ⟨⟨text, path⟩, hsource, h⟩
    rcases Logged.bind_result_eq_error.1 h with h | ⟨loaded, hload, h⟩
    · exact .inl ⟨⟨_, hsource⟩, h⟩
    · rcases Logged.bind_result_eq_error.1 h with h | ⟨_, _, h⟩
      · exact .inr ⟨text, path, hsource, ⟨loaded, hload⟩, cleanedMarkdown_eq_error_iff.1 h⟩
      · cases h
  · rintro (⟨⟨⟨text, path⟩, hsource⟩, hload⟩ | ⟨text, path, hsource, ⟨loaded, hload⟩, htold⟩)
    · exact ⟨(text, path), hsource, Logged.bind_result_eq_error.2 (.inl hload)⟩
    · refine ⟨(text, path), hsource, Logged.bind_result_eq_error.2 (.inr ⟨loaded, hload, ?_⟩)⟩
      exact Logged.bind_result_eq_error.2 (.inl (cleanedMarkdown_eq_error_iff.2 htold))

end Jobs

end Command

end MarkdownDocx

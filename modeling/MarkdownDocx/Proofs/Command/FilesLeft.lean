import MarkdownDocx.Proofs.Command.Job
import MarkdownDocx.Proofs.Files.Changes
import MarkdownDocx.Proofs.Files.StyleFile

/-!
How the files are left. What can go wrong goes wrong before the one write of a run, but for one
thing: that the file has been written is told afterwards, and the standard output may refuse that.
Every other run that fails has touched no file. A run that succeeds has written the one file that it
was asked for.
-/

set_option autoImplicit false

namespace MarkdownDocx

open MarkdownDocx.Files (Tree Path Location Content)

/-- What is told when a document has been saved. -/
def savedLine (path : Path) : String := informationLine ("Document saved: " ++ path.text)

/-- A document was saved, but the standard output did not let that be told. -/
def SavedUntold (tools : Toolbox) (path : Path) (before after : Tree) (e : Failure) : Prop :=
  ∃ fault document, e = .output fault ∧ tools.refusal (savedLine path) = some fault ∧
    Tree.Saved path (.document document) before after

theorem not_savedUntold {tools : Toolbox} (h : ∀ text, tools.refusal text = none) {path : Path}
    {before after : Tree} {e : Failure} : ¬SavedUntold tools path before after e := by
  rintro ⟨fault, _, -, hrefusal, -⟩
  simp [h] at hrefusal

section Conversion

variable {tools : Toolbox} {files : Tree} {markdown : String} {path : Path}
  {styles : Option Style.StyleTable} {settings : Option Style.Settings} {template : Option String}

theorem convert_of_saved {document : Docx.Document} {left : Tree}
    (hmade : (generate tools markdown styles settings template).result = .ok document)
    (hsave : files.save path (.document document) = (left, .ok ())) :
    (convert tools files markdown path styles settings template).files = left ∧
      (convert tools files markdown path styles settings template).result =
        (tools.say ("Document saved: " ++ path.text)).result.map fun () => path := by
  simp [convert, hmade, hsave]

/-- A conversion saves the whole document, and tells so or fails to; or else it fails and touches no
file. -/
theorem convert_cases (tools : Toolbox) (files : Tree) (markdown : String) (path : Path)
    (styles : Option Style.StyleTable) (settings : Option Style.Settings)
    (template : Option String) :
    let done := convert tools files markdown path styles settings template
    (∃ document, (generate tools markdown styles settings template).result = .ok document ∧
        done.result = .ok path ∧ Tree.Saved path (.document document) files done.files) ∨
      ∃ e, done.result = .error e ∧ (SavedUntold tools path files done.files e ∨
        Tree.Kept path.parent.Passes files done.files) := by
  intro done
  cases hmade : (generate tools markdown styles settings template).result with
  | error e =>
    refine .inr ⟨e, by simp [done, convert, hmade], .inr ?_⟩
    simpa [done, convert, hmade] using Tree.Kept.refl _ files
  | ok document =>
    have hcases := Tree.save_cases files path (.document document)
    cases hsave : files.save path (.document document) with
    | mk left r =>
      rw [hsave] at hcases
      rcases hcases with ⟨hok, hsaved⟩ | ⟨⟨e, herror⟩, hkept⟩
      · obtain rfl : r = .ok () := hok
        obtain ⟨hfiles, hresult⟩ := convert_of_saved hmade hsave
        -- the document stands in its file by now, whether or not that can be told
        cases htold : (tools.say ("Document saved: " ++ path.text)).result with
        | ok told =>
          refine .inl ⟨document, rfl, ?_, ?_⟩
          · rw [hresult, htold]
            rfl
          · simpa only [done, hfiles] using hsaved
        | error e =>
          obtain ⟨fault, hrefusal, rfl⟩ := say_eq_error_iff.1 htold
          refine .inr ⟨.output fault, ?_, .inl ⟨fault, document, rfl, hrefusal, ?_⟩⟩
          · rw [hresult, htold]
            rfl
          · simpa only [done, hfiles] using hsaved
      · obtain rfl : r = .error e := herror
        exact .inr ⟨.file e, by simp [done, convert, hmade, hsave],
          .inr (by simpa [done, convert, hmade, hsave] using hkept)⟩

theorem convert_failed {e : Failure}
    (h : (convert tools files markdown path styles settings template).result = .error e) :
    let left := (convert tools files markdown path styles settings template).files
    Tree.Kept path.parent.Passes files left ∨ SavedUntold tools path files left e := by
  rcases convert_cases tools files markdown path styles settings template with
    ⟨_, _, hok, _⟩ | ⟨e', herror, hleft⟩
  · rw [hok] at h
    cases h
  · rw [herror] at h
    cases h
    exact hleft.symm

end Conversion

theorem convertFile_failed {tools : Toolbox} {files : Tree} {input : String}
    {output template : Option String} {source : StyleSource} {e : Failure}
    (h : (convertFile tools files input output source template).result = .error e) :
    let left := (convertFile tools files input output source template).files
    Tree.Kept
      (fun l => ∃ path, outputPath (Path.ofString input) output = .ok path ∧ path.parent.Passes l)
      files left ∨
    ∃ path, outputPath (Path.ofString input) output = .ok path ∧
      SavedUntold tools path files left e := by
  unfold convertFile at h ⊢
  cases hprepared : (prepareFile tools.json files input output source template).result with
  | error e' =>
    simp only [hprepared]
    exact .inl (.refl _ files)
  | ok job =>
    obtain ⟨_, hpath, _⟩ := prepareFile_eq_ok_iff.1 hprepared
    simp only [hprepared] at h ⊢
    rcases convert_failed h with hkept | huntold
    · exact .inl (hkept.imp fun l hl => ⟨job.path, hpath, hl⟩)
    · exact .inr ⟨job.path, hpath, huntold⟩

namespace Command

/-- Where the document of a conversion goes. -/
def Arguments.destination? (a : Arguments) : Option Path :=
  match a.outputName with
  | some output => some (Path.ofString output)
  | none =>
    if a.stdin then none
    else (named a.input).bind fun input => (Path.ofString input).withExtension documentExtension

theorem destination?_of_source {a : Arguments} {stdin : Except Math.ToolError String}
    {text : String} {files : Tree} {path : Path} (h : a.source stdin files = .ok (text, path)) :
    a.destination? = some path := by
  unfold Arguments.destination?
  rcases source_eq_ok_iff.1 h with
    ⟨_, _, output, houtput, hpath⟩ | ⟨hstdin, input, hinput, _, _, hpath⟩
  · simp [houtput, hpath]
  · cases houtput : a.outputName with
    | some output =>
      rw [houtput] at hpath
      simpa [outputPath] using hpath
    | none =>
      cases hextended : (Path.ofString input).withExtension documentExtension with
      | none => simp [houtput, outputPath, hextended] at hpath
      | some p => simpa [houtput, outputPath, hextended, hstdin, hinput] using hpath

/-- A location that the document of a conversion is to be below. -/
def Arguments.Above (a : Arguments) (l : Location) : Prop :=
  ∃ path, a.destination? = some path ∧ path.parent.Passes l

/-- What is told when a style file has been written. -/
def createdLine (path : Path) : String := informationLine ("Styles file created: " ++ path.text)

/-- A style file is written where nothing was before. -/
def StylesWritten (a : Arguments) (before after : Tree) : Prop :=
  ∃ name data, a.styles.name? = some name ∧
    before.entry (Path.ofString name).location = none ∧
    Tree.SetAt (Path.ofString name).location (.file (.bytes data)) before after

/-- A run that does not succeed although it has written its one file, because the standard output
did not let that be told. -/
inductive WrittenUntold (tools : Toolbox) (a : Arguments) (before : Tree) (r : Run) : Prop
  | styles {name : String} {fault : Math.ToolError} (hinit : a.initStyles = true)
      (hname : a.styles.name? = some name)
      (hrefusal : tools.refusal (createdLine (Path.ofString name)) = some fault)
      (hresult : r.result = .error (.output fault)) (h : StylesWritten a before r.files)
  | document {path : Path} {e : Failure} (hinit : a.initStyles = false)
      (hpath : a.destination? = some path) (hresult : r.result = .ok 1)
      (h : SavedUntold tools path before r.files e)

theorem not_writtenUntold {tools : Toolbox} (h : ∀ text, tools.refusal text = none) {a : Arguments}
    {before : Tree} {r : Run} : ¬WrittenUntold tools a before r := by
  intro huntold
  cases huntold with
  | styles _ _ hrefusal => simp [h] at hrefusal
  | document _ _ _ huntold => exact not_savedUntold h huntold

section Runs

variable {tools : Toolbox} {a : Arguments} {template : Style.Template}
  {stdin : Except Math.ToolError String} {files : Tree}

@[simp] theorem printRun_files (status : Nat) (texts : List String) :
    (printRun tools files status texts).files = files := by
  induction texts with
  | nil => rfl
  | cons text rest ih =>
    unfold printRun
    cases tools.refusal text with
    | none => exact ih
    | some e => rfl

/-- The first text that is refused ends a run that prints. -/
theorem printRun_result (status : Nat) (texts : List String) :
    (printRun tools files status texts).result =
      ((texts.findSome? tools.refusal).elim (.ok status) fun e => .error (.output e)) := by
  induction texts with
  | nil => rfl
  | cons text rest ih =>
    unfold printRun
    rw [List.findSome?_cons]
    cases tools.refusal text with
    | none => exact ih
    | some e => rfl

theorem printRun_eq_ok {status n : Nat} {texts : List String}
    (h : (printRun tools files status texts).result = .ok n) : n = status := by
  rw [printRun_result] at h
  cases hrefusal : texts.findSome? tools.refusal <;> simp_all

theorem convertRun_of_job {job : Job} (h : (a.job tools template stdin files).result = .ok job) :
    let done := convert tools files job.markdown job.path (some job.styles) (some job.settings)
      (some template.id)
    (convertRun tools a template stdin files).files = done.files ∧
      (convertRun tools a template stdin files).result =
        .ok (match done.result with | .ok _ => 0 | .error _ => 1) := by
  intro done
  simp only [convertRun, h]
  cases done.result <;> simp [done, reportedRun]

theorem convertRun_of_refusal {refusal : Refusal}
    (h : (a.job tools template stdin files).result = .error refusal) :
    (convertRun tools a template stdin files).files = files ∧
      (convertRun tools a template stdin files).result ≠ .ok 0 := by
  simp only [convertRun, h]
  cases refusal with
  | reported message => exact ⟨rfl, by simp [reportedRun]⟩
  | noInput =>
    refine ⟨printRun_files 1 [help], fun hok => ?_⟩
    cases printRun_eq_ok hok
  | unhandled e => exact ⟨rfl, by simp⟩

theorem convertRun_files (hinit : a.initStyles = false) :
    let r := convertRun tools a template stdin files
    (r.result = .ok 0 ∧ ∃ path document, a.destination? = some path ∧
        Tree.Saved path (.document document) files r.files) ∨
      r.result ≠ .ok 0 ∧ (WrittenUntold tools a files r ∨ Tree.Kept a.Above files r.files) := by
  intro r
  cases hjob : (a.job tools template stdin files).result with
  | error refusal =>
    obtain ⟨hfiles, hresult⟩ := convertRun_of_refusal hjob
    exact .inr ⟨hresult, .inr (by simpa only [r, hfiles] using Tree.Kept.refl _ files)⟩
  | ok job =>
    obtain ⟨text, hsource, _⟩ := job_eq_ok_iff.1 hjob
    have hdestination := destination?_of_source hsource
    obtain ⟨hfiles, hresult⟩ := convertRun_of_job hjob
    rcases convert_cases tools files job.markdown job.path (some job.styles) (some job.settings)
      (some template.id) with ⟨document, _, hok, hsaved⟩ | ⟨e, herror, hleft⟩
    · rw [hok] at hresult
      exact .inl ⟨hresult, job.path, document, hdestination, hfiles ▸ hsaved⟩
    · rw [herror] at hresult
      refine .inr ⟨by simp [r, hresult], ?_⟩
      rcases hleft with huntold | hkept
      · exact .inl (.document hinit hdestination hresult (hfiles ▸ huntold))
      · exact .inr (hfiles ▸ hkept.imp fun l hl => ⟨job.path, hdestination, hl⟩)

theorem initStylesRun_files (hinit : a.initStyles = true) :
    let r := initStylesRun tools a template files
    (r.result = .ok 0 ∧ StylesWritten a files r.files) ∨
      r.result ≠ .ok 0 ∧ (WrittenUntold tools a files r ∨ r.files = files) := by
  intro r
  simp only [r, initStylesRun]
  cases hname : a.styles.name? with
  | none => exact .inr ⟨by simp [reportedRun], .inr rfl⟩
  | some name =>
    cases hhas : files.has (Path.ofString name) with
    | error e => exact .inr ⟨by simp [hhas], .inr (by simp [hhas])⟩
    | ok found =>
      cases found with
      | true => exact .inr ⟨by simp [hhas, reportedRun], .inr (by simp [hhas, reportedRun])⟩
      | false =>
        simp only [hhas]
        cases hsave : Files.saveStyles files (Path.ofString name) template.styles
            (some template.settings) with
        | error e => exact .inr ⟨by simp, .inr rfl⟩
        | ok written =>
          have hwrite := (Files.saveStyles_eq_ok_iff.1 hsave).2
          have hwritten : StylesWritten a files written :=
            ⟨name, _, hname, Tree.entry_of_write_new hhas hwrite, Tree.write_setAt hwrite⟩
          simp only
          cases htold : (tools.say ("Styles file created: " ++ (Path.ofString name).text)).result with
          | ok told => exact .inl ⟨rfl, hwritten⟩
          | error e =>
            obtain ⟨fault, hrefusal, rfl⟩ := say_eq_error_iff.1 htold
            exact .inr ⟨by simp [Except.map], .inl (.styles hinit hname hrefusal rfl hwritten)⟩

/-- What a request that succeeds makes of the files. -/
def Request.Leaves (before after : Tree) : Request → Prop
  | .help => after = before
  | .run a =>
    if a.version || a.listTemplates then after = before
    else if a.initStyles then StylesWritten a before after
    else ∃ path document, a.destination? = some path ∧
      Tree.Saved path (.document document) before after

theorem runArguments_files (tools : Toolbox) (a : Arguments)
    (stdin : Except Math.ToolError String) (files : Tree) :
    let r := runArguments tools a stdin files
    (r.result = .ok 0 ∧ (Request.run a).Leaves files r.files) ∨
      r.result ≠ .ok 0 ∧ (WrittenUntold tools a files r ∨ Tree.Kept a.Above files r.files) := by
  intro r
  have hshown : ∀ texts, r = printRun tools files 0 texts →
      (r.result = .ok 0 ∧ r.files = files) ∨
        r.result ≠ .ok 0 ∧ (WrittenUntold tools a files r ∨ Tree.Kept a.Above files r.files) := by
    intro texts hr
    have hfiles : r.files = files := hr ▸ printRun_files 0 texts
    by_cases hok : r.result = .ok 0
    · exact .inl ⟨hok, hfiles⟩
    · exact .inr ⟨hok, .inr (by rw [hfiles]; exact .refl _ files)⟩
  simp only [Request.Leaves]
  cases hversion : a.version with
  | true => exact hshown _ (by simp only [r, runArguments, hversion]; rfl)
  | false =>
    cases hlist : a.listTemplates with
    | true => exact hshown _ (by simp only [r, runArguments, hversion, hlist]; rfl)
    | false =>
      cases htemplate : Style.findTemplate a.template with
      | error e =>
        have hr : r = reportedRun [] files e.message := by
          simp [r, runArguments, hversion, hlist, htemplate]
        exact .inr ⟨by simp [hr, reportedRun], .inr (by rw [hr]; exact .refl _ files)⟩
      | ok template =>
        cases hinit : a.initStyles with
        | true =>
          have hr : r = initStylesRun tools a template files := by
            simp [r, runArguments, hversion, hlist, htemplate, hinit]
          rw [hr]
          rcases initStylesRun_files hinit with hdone | ⟨hfailed, huntold | hsame⟩
          · exact .inl hdone
          · exact .inr ⟨hfailed, .inl huntold⟩
          · exact .inr ⟨hfailed, .inr (by rw [hsame]; exact .refl _ files)⟩
        | false =>
          have hr : r = convertRun tools a template stdin files := by
            simp [r, runArguments, hversion, hlist, htemplate, hinit]
          rw [hr]
          exact convertRun_files hinit

end Runs

/-- A run that does not succeed leaves every file as it was, and makes no more than directories
above its output, unless it has written its one file and the standard output did not let that be
told. One that succeeds has written the style file or the document that it was asked for, or nothing
at all. A conversion and a conversion of a file that fail leave the files so, too. -/
theorem run_files (tools : Toolbox) (rule : DashRule) (arguments : List String)
    (stdin : Except Math.ToolError String) (files : Tree) :
    let r := run tools rule arguments stdin files
    (r.result ≠ .ok 0 →
      (∃ a, readArguments rule arguments = .ok (.run a) ∧ WrittenUntold tools a files r) ∨
      Tree.Kept (fun l => ∃ a, readArguments rule arguments = .ok (.run a) ∧ a.Above l) files
        r.files) ∧
    (r.result = .ok 0 →
      ∃ request, readArguments rule arguments = .ok request ∧ request.Leaves files r.files) ∧
    (∀ markdown path styles settings template e,
      (convert tools files markdown path styles settings template).result = .error e →
      let left := (convert tools files markdown path styles settings template).files
      Tree.Kept path.parent.Passes files left ∨ SavedUntold tools path files left e) ∧
    ∀ input output source template e,
      (convertFile tools files input output source template).result = .error e →
      let left := (convertFile tools files input output source template).files
      Tree.Kept
        (fun l => ∃ path, outputPath (Path.ofString input) output = .ok path ∧ path.parent.Passes l)
        files left ∨
      ∃ path, outputPath (Path.ofString input) output = .ok path ∧
        SavedUntold tools path files left e := by
  intro r
  have hrun : (r.result = .ok 0 ∧
      ∃ request, readArguments rule arguments = .ok request ∧ request.Leaves files r.files) ∨
      r.result ≠ .ok 0 ∧
        ((∃ a, readArguments rule arguments = .ok (.run a) ∧ WrittenUntold tools a files r) ∨
        Tree.Kept (fun l => ∃ a, readArguments rule arguments = .ok (.run a) ∧ a.Above l) files
          r.files) := by
    simp only [r, run]
    cases hread : readArguments rule arguments with
    | error e => exact .inr ⟨by simp, .inr (.refl _ files)⟩
    | ok request =>
      cases request with
      | help =>
        simp only
        by_cases hok : (printRun tools files 0 [help]).result = .ok 0
        · exact .inl ⟨hok, .help, rfl, printRun_files 0 [help]⟩
        · refine .inr ⟨hok, .inr ?_⟩
          rw [printRun_files]
          exact .refl _ files
      | run a =>
        rcases runArguments_files tools a stdin files with
          ⟨hok, hleft⟩ | ⟨hfailed, huntold | hkept⟩
        · exact .inl ⟨hok, .run a, rfl, hleft⟩
        · exact .inr ⟨hfailed, .inl ⟨a, rfl, huntold⟩⟩
        · exact .inr ⟨hfailed, .inr (hkept.imp fun l hl => ⟨a, rfl, hl⟩)⟩
  exact ⟨fun hfailed => (hrun.resolve_left fun h => hfailed h.1).2,
    fun hok => (hrun.resolve_right fun h => h.1 hok).2,
    fun _ _ _ _ _ _ h => convert_failed h, fun _ _ _ _ _ h => convertFile_failed h⟩

/-! Runs in a directory with one empty file, with a standard output that takes everything and with
one that takes nothing but ASCII. -/

def idleTools : Toolbox where
  render _ _ := .error ⟨"LookupError", "no rendering for this formula"⟩
  transduce _ := .error ⟨"LookupError", "no OMML for this MathML"⟩
  markupFault _ := "no element found"
  parse _ := .error ⟨"LookupError", "no tokens for this markdown"⟩
  library := Docx.library
  json := { depth := 990, fault := fun _ => "Expecting value" }
  refusal _ := none

def asciiTools : Toolbox :=
  { idleTools with
    refusal := fun text =>
      if text.toList.all fun c => c.toNat < 128 then none
      else some ⟨"UnicodeEncodeError", "ordinal not in range(128)"⟩ }

def keptDashes : DashRule := { keepsAttached := true, keepsOperand := false }

def oneFile : Tree := ⟨[(["a.md"], .file (.bytes ⟨#[]⟩))]⟩

theorem generate_empty : ∃ document,
    (generate idleTools "" (some Style.government.styles) (some Style.government.settings)
      none).result = .ok document :=
  exists_eq_ok (by decide +kernel)

theorem save_upwards (content : Content) :
    oneFile.save (Path.ofString "x/..") content =
      (oneFile.put ["x"] .directory, .error (.isDirectory "x/..")) := by
  have hvacant : oneFile.look (Path.ofString "x") = .ok (.vacant ["x"]) :=
    Tree.look_eq_walk (by decide) (by decide)
  have hmade : oneFile.makeDirectory (Path.ofString "x/..").parent =
      .ok (oneFile.put ["x"] .directory) := by
    rw [show (Path.ofString "x/..").parent = Path.ofString "x" from rfl]
    simp [Tree.makeDirectory, hvacant, bind, Except.bind]
  have hlook : (oneFile.put ["x"] .directory).look (Path.ofString "x/..") = .ok .directory :=
    Tree.look_eq_walk (by decide) (by decide)
  have hwrite : (oneFile.put ["x"] .directory).write (Path.ofString "x/..") content =
      .error (.isDirectory "x/..") := by
    simp only [Tree.write, hlook]
    rfl
  rw [Tree.save, Tree.makeDirectories_of_makeDirectory hmade]
  simp only [hwrite]

theorem convert_upwards :
    (convert idleTools oneFile "" (Path.ofString "x/..") (some Style.government.styles)
      (some Style.government.settings) none).result = .error (.file (.isDirectory "x/..")) := by
  obtain ⟨document, hdocument⟩ := generate_empty
  simp [convert, hdocument, save_upwards]

theorem convertFile_missing : ∃ e,
    (convertFile idleTools oneFile "b.md" none .template none).result = .error e := by
  have hhas : oneFile.has (Path.ofString "b.md") = .ok false :=
    Tree.has_of_vacant (Tree.look_eq_walk (by decide) (by decide))
  cases hprepared : (prepareFile idleTools.json oneFile "b.md" none .template none).result with
  | error e => exact ⟨e, by simp [convertFile, hprepared]⟩
  | ok job =>
    obtain ⟨hfound, _⟩ := prepareFile_eq_ok_iff.1 hprepared
    rw [hhas] at hfound
    cases hfound

theorem run_missing :
    (run idleTools keptDashes ["b.md"] (.ok "") oneFile).result = .ok 1 := by
  have hread : readArguments keptDashes ["b.md"] = .ok (.run { input := some "b.md" }) :=
    toOption_eq_some_iff.1 (by decide +kernel)
  have hhas : oneFile.has (Path.ofString "b.md") = .ok false :=
    Tree.has_of_vacant (Tree.look_eq_walk (by decide) (by decide))
  have hjob : (Arguments.job idleTools { input := some "b.md" } Style.government (.ok "")
      oneFile).result =
      .error (.reported (Failure.inputNotFound (Path.ofString "b.md").text).message) :=
    job_eq_error_iff.2 (.inl (source_eq_error_iff.2
      (.inr (.inr (.inr ⟨rfl, "b.md", by decide, .inr (.inl ⟨hhas, rfl⟩)⟩)))))
  simp [run, hread, runArguments, Style.findTemplate, Style.defaultTemplate, convertRun, hjob,
    reportedRun]

theorem run_initStyles :
    (run idleTools keptDashes ["--init-styles", "-s", "s.json"] (.ok "") oneFile).result =
      .ok 0 := by
  have hread : readArguments keptDashes ["--init-styles", "-s", "s.json"] =
      .ok (.run { styles := .file "s.json", initStyles := true }) :=
    toOption_eq_some_iff.1 (by decide +kernel)
  have hname : (StyleOption.file "s.json").name? = some "s.json" := by decide
  have hlook : oneFile.look (Path.ofString "s.json") = .ok (.vacant ["s.json"]) :=
    Tree.look_eq_walk (by decide) (by decide)
  have hhas := Tree.has_of_vacant hlook
  have hfonts : ∀ font ∈ Files.writtenFonts Style.government.styles, font.text?.isSome := by decide
  obtain ⟨written, hsave⟩ : ∃ written, Files.saveStyles oneFile (Path.ofString "s.json")
      Style.government.styles (some Style.government.settings) = .ok written :=
    ⟨_, Files.saveStyles_eq_ok_iff.2 ⟨hfonts, by simp [Tree.write, hlook, bind, Except.bind]; rfl⟩⟩
  simp [run, hread, runArguments, Style.findTemplate, Style.defaultTemplate, initStylesRun, hname,
    hhas, hsave, Toolbox.say, idleTools, Logged.report, Except.map]

theorem run_files_sample :
    (∀ l, (run idleTools keptDashes ["b.md"] (.ok "") oneFile).files.file? l = oneFile.file? l) ∧
    (∃ request, readArguments keptDashes ["--init-styles", "-s", "s.json"] = .ok request ∧
      request.Leaves oneFile
        (run idleTools keptDashes ["--init-styles", "-s", "s.json"] (.ok "") oneFile).files) ∧
    (let left := (convert idleTools oneFile "" (Path.ofString "x/..")
        (some Style.government.styles) (some Style.government.settings) none).files
      ∀ l, left.file? l = oneFile.file? l) ∧
    ∀ l, (convertFile idleTools oneFile "b.md" none .template none).files.file? l =
      oneFile.file? l := by
  obtain ⟨hfailed, -, hconvert, hconvertFile⟩ :=
    run_files idleTools keptDashes ["b.md"] (.ok "") oneFile
  obtain ⟨-, hok, -, -⟩ :=
    run_files idleTools keptDashes ["--init-styles", "-s", "s.json"] (.ok "") oneFile
  obtain ⟨e, he⟩ := convertFile_missing
  have hnever : ∀ text, idleTools.refusal text = none := fun _ => rfl
  refine ⟨?_, hok run_initStyles, ?_, ?_⟩
  · rcases hfailed (by simp [run_missing]) with ⟨a, -, huntold⟩ | hkept
    · exact absurd huntold (not_writtenUntold hnever)
    · exact hkept.files
  · exact ((hconvert _ _ _ _ _ _ convert_upwards).resolve_right (not_savedUntold hnever)).files
  · rcases hconvertFile _ _ _ _ e he with hkept | ⟨_, -, huntold⟩
    · exact hkept.files
    · exact absurd huntold (not_savedUntold hnever)

/-- The empty file is saved as a document whose name the standard output does not take. -/
def accented : Arguments := { input := some "a.md", outputFile := some "é.docx" }

theorem generate_ascii : ∃ document,
    (generate asciiTools "" (some Style.government.styles) (some Style.government.settings)
      (some Style.government.id)).result = .ok document :=
  exists_eq_ok (by decide +kernel)

theorem job_accented :
    (accented.job asciiTools Style.government (.ok "") oneFile).result =
      .ok ⟨Style.government.styles, Style.government.settings, "", Path.ofString "é.docx"⟩ := by
  have hlook : oneFile.look (Path.ofString "a.md") = .ok (.file ["a.md"] (.bytes ⟨#[]⟩)) :=
    Tree.look_eq_walk (by decide) (by decide)
  have hhere := Tree.has_of_file hlook
  have htext : oneFile.readText (Path.ofString "a.md") = .ok "" := by
    rw [Tree.readText_of_file hlook, show Files.textOf ⟨#[]⟩ = some "" by decide]
    rfl
  have hname : named accented.input = some "a.md" := by decide
  have houtput : accented.outputName = some "é.docx" := by decide
  have hempty : Markdown.unwrap "" = "" := by decide
  exact job_eq_ok_iff.2 ⟨"",
    source_eq_ok_iff.2 (.inr ⟨rfl, "a.md", hname, hhere, htext, by rw [houtput]; rfl⟩), rfl,
    by simp [Arguments.Tells, accented], by rw [hempty]; rfl⟩

theorem convertRun_accented :
    (convertRun asciiTools accented Style.government (.ok "") oneFile).result = .ok 1 ∧
      ∃ document, (convertRun asciiTools accented Style.government (.ok "") oneFile).files =
        oneFile.put ["é.docx"] (.file (.document document)) := by
  obtain ⟨document, hmade⟩ := generate_ascii
  have hsave : oneFile.save (Path.ofString "é.docx") (.document document) =
      (oneFile.put ["é.docx"] (.file (.document document)), .ok ()) :=
    Tree.save_of_vacant (Tree.look_eq_walk (by decide) (by decide))
      (Tree.look_eq_walk (by decide) (by decide))
  have hrefusal : asciiTools.refusal (savedLine (Path.ofString "é.docx")) =
      some ⟨"UnicodeEncodeError", "ordinal not in range(128)"⟩ := by decide
  have htold := say_eq_error_iff.2 ⟨_, hrefusal, rfl⟩
  obtain ⟨hfiles, hresult⟩ := convertRun_of_job job_accented
  obtain ⟨hleft, hdone⟩ := convert_of_saved hmade hsave
  rw [htold] at hdone
  refine ⟨?_, document, hfiles.trans hleft⟩
  rw [hresult, hdone]
  rfl

def oldStyles : Tree := ⟨[(["s.json"], .file (.bytes "\x7b\x7d".toUTF8))]⟩

/-- A run may fail although it has saved its document, and one that is asked for the version
succeeds without a new style file. -/
theorem run_files_exceptions :
    ((run asciiTools keptDashes ["a.md", "é.docx"] (.ok "") oneFile).result = .ok 1 ∧
      oneFile.file? ["é.docx"] = none ∧
      ∃ document, (run asciiTools keptDashes ["a.md", "é.docx"] (.ok "") oneFile).files.file?
        ["é.docx"] = some (.document document)) ∧
    oldStyles.has (Path.ofString "s.json") = .ok true ∧
    (run idleTools keptDashes ["--version", "--init-styles", "-s", "s.json"] (.ok "")
      oldStyles).result = .ok 0 ∧
    (run idleTools keptDashes ["--version", "--init-styles", "-s", "s.json"] (.ok "")
      oldStyles).files = oldStyles := by
  have hread : readArguments keptDashes ["a.md", "é.docx"] = .ok (.run accented) :=
    toOption_eq_some_iff.1 (by decide +kernel)
  have hrun : run asciiTools keptDashes ["a.md", "é.docx"] (.ok "") oneFile =
      convertRun asciiTools accented Style.government (.ok "") oneFile := by
    simp [run, hread, runArguments, accented, Style.findTemplate, Style.defaultTemplate]
  obtain ⟨hresult, document, hfiles⟩ := convertRun_accented
  refine ⟨⟨by rw [hrun, hresult], rfl, document, ?_⟩, ?_⟩
  · rw [hrun, hfiles]
    rfl
  · have hversion : readArguments keptDashes ["--version", "--init-styles", "-s", "s.json"] =
        .ok (.run { styles := .file "s.json", initStyles := true, version := true }) :=
      toOption_eq_some_iff.1 (by decide +kernel)
    have hshown : run idleTools keptDashes ["--version", "--init-styles", "-s", "s.json"] (.ok "")
        oldStyles = printRun idleTools oldStyles 0 [versionText] := by
      simp [run, hversion, runArguments]
    rw [hshown]
    have hthere := Tree.has_of_file (t := oldStyles) (p := Path.ofString "s.json")
      (Tree.look_eq_walk (by decide) (by decide))
    exact ⟨hthere, rfl, printRun_files 0 [versionText]⟩

end Command

end MarkdownDocx

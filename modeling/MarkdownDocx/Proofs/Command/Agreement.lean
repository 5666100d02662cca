import Mathlib.Data.List.Nodup
import MarkdownDocx.Proofs.Command.FilesLeft
import MarkdownDocx.Proofs.Files.RegularFile

/-!
The two ways to convert a file. The command reads its settings in any order, and comes to the same
job as a conversion of a file that is given them directly, so both leave the same document.
-/

set_option autoImplicit false

namespace MarkdownDocx.Command

open MarkdownDocx.Files (Tree Path)

def Flag.name (f : Flag) : String := ((flagNames.find? fun p => p.2 == f).map Prod.fst).getD ""

/-- What a conversion is told, but for switches. -/
inductive Setting where
  | input (path : String)
  | option (flag : Flag) (h : flag.takesValue = true) (value : String)

namespace Setting

def text : Setting → String
  | .input path => path
  | .option _ _ value => value

def flag? : Setting → Option Flag
  | .input _ => none
  | .option flag _ _ => some flag

def arguments : Setting → List String
  | .input path => [path]
  | .option flag _ value => [flag.name, value]

def words : Setting → List Word
  | .input path => [.value path]
  | .option flag _ value => [.option flag none, .value value]

def apply (rule : DashRule) (a : Arguments) : Setting → Arguments
  | .input path => { a with input := valueOf rule.keepsOperand path, outputFile := none }
  | .option flag _ value => a.assign rule flag value

end Setting

/-! ## Words -/

theorem classify_value {s : String} (h : s.toList.head? ≠ some '-') :
    classify s = .ok (.value s) := by
  simp [classify, h]

theorem ne_separator {s : String} (h : s.toList.head? ≠ some '-') : s ≠ "--" := by
  rintro rfl
  exact h (by decide)

theorem classify_name (f : Flag) : classify f.name = .ok (.option f none) := by
  cases f <;> exact toOption_eq_some_iff.1 (by decide +kernel)

theorem name_ne_separator (f : Flag) : f.name ≠ "--" := by
  cases f <;> decide

theorem words_cons {argument : String} {rest : List String} {word : Word} {others : List Word}
    (hword : classify argument = .ok word) (hne : argument ≠ "--")
    (hrest : words rest = .ok others) : words (argument :: rest) = .ok (word :: others) := by
  simp [words, hne, hword, hrest, bind, Except.bind, pure, Except.pure]

theorem words_settings {settings : List Setting}
    (h : ∀ s ∈ settings, s.text.toList.head? ≠ some '-') :
    words (settings.flatMap Setting.arguments) = .ok (settings.flatMap Setting.words) := by
  induction settings with
  | nil => rfl
  | cons s settings ih =>
    obtain ⟨htext, hrest⟩ := List.forall_mem_cons.1 h
    have hvalue := words_cons (classify_value htext) (ne_separator htext) (ih hrest)
    cases s with
    | input path => exact hvalue
    | option flag _ value => exact words_cons (classify_name flag) (name_ne_separator flag) hvalue

def inputs (settings : List Setting) : Nat := settings.countP fun s => s.flag?.isNone

/-- The first value is the input, and no other value is left for an output without a name. -/
theorem takeOperands_settings {rule : DashRule} {p : Progress} {path : String}
    {settings : List Setting} (h : inputs settings = 0) :
    p.takeOperands rule (.value path :: settings.flatMap Setting.words) =
      ({ p with
        arguments := Setting.apply rule p.arguments (.input path)
        operandsTaken := true }, settings.flatMap Setting.words) := by
  cases settings with
  | nil => rfl
  | cons s settings =>
    cases s with
    | input path => simp [inputs, Setting.flag?] at h
    | option flag _ value => rfl

theorem readWords_settings {rule : DashRule} {settings : List Setting} {p : Progress}
    (hextras : p.extras = []) (hinputs : inputs settings + p.operandsTaken.toNat ≤ 1) :
    readWords rule p (settings.flatMap Setting.words) =
      .ok (.run (settings.foldl (Setting.apply rule) p.arguments)) := by
  induction settings generalizing p with
  | nil => simp [readWords, hextras]
  | cons s settings ih =>
    cases s with
    | input path =>
      have hcount : inputs (.input path :: settings) = inputs settings + 1 := by
        simp [inputs, Setting.flag?]
      have hrest : inputs settings = 0 := by omega
      have hfirst : p.operandsTaken = false := by
        cases htaken : p.operandsTaken with
        | false => rfl
        | true =>
          rw [htaken, Bool.toNat_true] at hinputs
          omega
      rw [List.flatMap_cons, Setting.words, List.singleton_append, readWords, hfirst,
        takeOperands_settings hrest]
      exact ih hextras (by simp [hrest])
    | option flag h value =>
      have hcount : inputs (.option flag h value :: settings) = inputs settings := by
        simp [inputs, Setting.flag?]
      have hcluster : readCluster flag none = .ok ⟨[], .valued flag none⟩ := by
        simp [readCluster, h]
      rw [hcount] at hinputs
      simp only [List.flatMap_cons, Setting.words, List.cons_append, List.nil_append, readWords,
        hcluster]
      exact ih hextras hinputs

/-! ## The settings of a conversion -/

/-- Settings of different things may be told in either order. -/
theorem apply_comm (rule : DashRule) {s s' : Setting} (h : s.flag? ≠ s'.flag?) (a : Arguments) :
    Setting.apply rule (Setting.apply rule a s) s' =
      Setting.apply rule (Setting.apply rule a s') s := by
  cases s with
  | input path =>
    cases s' with
    | input path' => exact absurd rfl h
    | option flag' h' value' => cases flag' <;> rfl
  | option flag hflag value =>
    cases s' with
    | input path' => cases flag <;> rfl
    | option flag' h' value' =>
      have hne : flag ≠ flag' := fun heq => h (congrArg some heq)
      cases flag <;> cases flag' <;> first | rfl | exact absurd rfl hne

section Wanted

variable {rule : DashRule} {input : String} {output template styles : Option String}
  {settings : List Setting}

def wanted (input : String) (output template styles : Option String) : List Setting :=
  .input input ::
    ((output.map (.option .output rfl)).toList ++ (template.map (.option .template rfl)).toList ++
      (styles.map (.option .styles rfl)).toList)

/-- Arguments with the settings of a conversion, and no switch. -/
def wantedArguments (input : String) (output template styles : Option String) : Arguments :=
  { input := some input, output := output, template := template
    styles := styles.elim .absent .file }

theorem nodup_wanted : ((wanted input output template styles).map Setting.flag?).Nodup := by
  cases output <;> cases template <;> cases styles <;> simp [wanted, Setting.flag?]

theorem inputs_wanted : inputs (wanted input output template styles) = 1 := by
  cases output <;> cases template <;> cases styles <;> rfl

theorem valueOf_eq {s : String} (h : s.toList.head? ≠ some '-') (keeps : Bool) :
    valueOf keeps s = some s := by
  simp [valueOf, ne_separator h]

theorem foldl_wanted
    (h : ∀ s ∈ wanted input output template styles, s.text.toList.head? ≠ some '-') :
    (wanted input output template styles).foldl (Setting.apply rule) {} =
      wantedArguments input output template styles := by
  have hvalue : ∀ s ∈ wanted input output template styles,
      valueOf rule.keepsOperand s.text = some s.text ∧
        valueOf rule.keepsAttached s.text = some s.text :=
    fun s hs => ⟨valueOf_eq (h s hs) _, valueOf_eq (h s hs) _⟩
  cases output <;> cases template <;> cases styles <;>
    simp_all [wanted, wantedArguments, Setting.apply, Setting.text, Arguments.assign]

theorem foldl_settings (hperm : settings.Perm (wanted input output template styles))
    (a : Arguments) :
    settings.foldl (Setting.apply rule) a =
      (wanted input output template styles).foldl (Setting.apply rule) a := by
  refine (hperm.symm.foldl_eq' (fun s hs s' hs' a => ?_) a).symm
  by_cases hflag : s.flag? = s'.flag?
  · rw [List.inj_on_of_nodup_map nodup_wanted hs hs' hflag]
  · exact apply_comm rule hflag a

/-- The settings of a conversion are read in any order. -/
theorem readArguments_settings (hperm : settings.Perm (wanted input output template styles))
    (h : ∀ s ∈ settings, s.text.toList.head? ≠ some '-') :
    readArguments rule (settings.flatMap Setting.arguments) =
      .ok (.run (wantedArguments input output template styles)) := by
  have hinputs : inputs settings = 1 := (hperm.countP_eq _).trans inputs_wanted
  have hread : readWords rule {} (settings.flatMap Setting.words) =
      .ok (.run (settings.foldl (Setting.apply rule) {})) :=
    readWords_settings rfl (by simp [hinputs])
  rw [foldl_settings hperm, foldl_wanted fun s hs => h s (hperm.symm.subset hs)] at hread
  simp [readArguments, words_settings h, hread, bind, Except.bind]

end Wanted

/-! ## Jobs -/

section Agreement

variable {tools : Toolbox} {rule : DashRule} {a : Arguments}
  {stdin : Except Math.ToolError String} {files : Tree} {input : String}
  {output template styles : Option String} {settings : List Setting}

/-- A template that is found is found by its own name, too. -/
theorem findTemplate_id {chosen : Style.Template} (h : Style.findTemplate template = .ok chosen) :
    Style.findTemplate (some chosen.id) = .ok chosen := by
  have hmem : chosen ∈ Style.templates := by
    unfold Style.findTemplate at h
    split at h
    · cases h
      simp [Style.templates, Style.defaultTemplate]
    · cases h
      simp [Style.templates, Style.defaultTemplate]
    · split at h
      · next t ht =>
        cases h
        exact List.mem_of_find?_eq_some ht
      · cases h
  simp only [Style.templates, List.mem_cons, List.not_mem_nil, or_false] at hmem
  rcases hmem with rfl | rfl <;> rfl

/-- Where styles and settings are given, the template's name has no part in a conversion but that it
is known. -/
theorem convert_template {chosen : Style.Template} (h : Style.findTemplate template = .ok chosen)
    (markdown : String) (path : Path) (table : Style.StyleTable) (set : Style.Settings) :
    convert tools files markdown path (some table) (some set) template =
      convert tools files markdown path (some table) (some set) (some chosen.id) := by
  have hresolve : resolve (some table) (some set) template =
      resolve (some table) (some set) (some chosen.id) := by
    rw [resolve, resolve, h, findTemplate_id h]
  simp only [convert, generate, hresolve]

theorem convertRun_eq_ok_zero_iff {chosen : Style.Template} :
    (convertRun tools a chosen stdin files).result = .ok 0 ↔
      ∃ job path, (a.job tools chosen stdin files).result = .ok job ∧
        (convert tools files job.markdown job.path (some job.styles) (some job.settings)
          (some chosen.id)).result = .ok path := by
  cases hjob : (a.job tools chosen stdin files).result with
  | error refusal => simp [(convertRun_of_refusal hjob).2]
  | ok job =>
    rw [(convertRun_of_job hjob).2]
    cases hdone : (convert tools files job.markdown job.path (some job.styles)
      (some job.settings) (some chosen.id)).result <;> simp [hdone]

theorem readText_ofString_empty {text : String} : files.readText (Path.ofString "") ≠ .ok text :=
  fun h => parts_ne_nil_of_readText h (by decide)

theorem named_eq_some {s : String} (h : s ≠ "") : named (some s) = some s := by
  simp [named, h]

theorem outputName_wanted (h : output ≠ some "") :
    (wantedArguments input output template styles).outputName = output := by
  cases output with
  | none => rfl
  | some path =>
    have hpath : path ≠ "" := fun heq => h (congrArg some heq)
    simp [wantedArguments, Arguments.outputName, named_eq_some hpath]

theorem load_wanted {json : Json.Setup} {chosen : Style.Template}
    {loaded : Style.StyleTable × Style.Settings} :
    ((wantedArguments input output template styles).styles.load json chosen files).result =
        .ok loaded ↔
      (StyleSource.load json (styles.elim .template .file) files chosen).result = .ok loaded := by
  cases styles <;> simp [wantedArguments, StyleOption.load, StyleSource.load]

/-- The settings of a conversion lead to the same job in both ways. -/
theorem prepareFile_eq_ok_iff_job {job : Job} (houtput : output ≠ some "") :
    (prepareFile tools.json files input output (styles.elim .template .file) template).result =
        .ok job ↔
      ∃ chosen, Style.findTemplate template = .ok chosen ∧
        ((wantedArguments input output template styles).job tools chosen stdin files).result =
          .ok job := by
  rw [prepareFile_eq_ok_iff]
  simp only [job_eq_ok_iff, source_eq_ok_iff, outputName_wanted houtput, load_wanted]
  constructor
  · rintro ⟨hfound, hpath, chosen, text, hchosen, hload, htext, hmarkdown⟩
    have hinput : input ≠ "" := by
      rintro rfl
      exact readText_ofString_empty htext
    exact ⟨chosen, hchosen, text,
      .inr ⟨rfl, input, named_eq_some hinput, hfound, htext, hpath⟩, hload,
      by simp [Arguments.Tells, wantedArguments], hmarkdown.symm⟩
  · rintro ⟨chosen, hchosen, text, ⟨hstdin, -⟩ | ⟨-, name, hname, hfound, htext, hpath⟩, hload, -,
      hmarkdown⟩
    · cases hstdin
    · obtain ⟨rfl, -⟩ : input = name ∧ _ := by simpa [wantedArguments, named] using hname
      exact ⟨hfound, hpath, chosen, text, hchosen, hload, htext, hmarkdown.symm⟩

theorem convertFile_eq_ok_iff {source : StyleSource} {path : Path} :
    (convertFile tools files input output source template).result = .ok path ↔
      ∃ job, (prepareFile tools.json files input output source template).result = .ok job ∧
        (convert tools files job.markdown job.path (some job.styles) (some job.settings)
          template).result = .ok path := by
  simp only [convertFile]
  cases hprepared : (prepareFile tools.json files input output source template).result <;> simp

theorem convertFile_files {source : StyleSource} {job : Job}
    (h : (prepareFile tools.json files input output source template).result = .ok job) :
    (convertFile tools files input output source template).files =
      (convert tools files job.markdown job.path (some job.styles) (some job.settings)
        template).files := by
  simp [convertFile, h]

theorem convertFile_saved {source : StyleSource} {path : Path}
    (h : (convertFile tools files input output source template).result = .ok path) :
    ∃ document, Tree.Saved path (.document document) files
      (convertFile tools files input output source template).files := by
  obtain ⟨job, hprepared, hdone⟩ := convertFile_eq_ok_iff.1 h
  rw [convertFile_files hprepared]
  rcases convert_cases tools files job.markdown job.path (some job.styles) (some job.settings)
    template with ⟨document, _, hok, hsaved⟩ | ⟨e, herror, _⟩
  · rw [hok] at hdone
    cases hdone
    exact ⟨document, hsaved⟩
  · rw [herror] at hdone
    cases hdone

theorem run_wanted (hperm : settings.Perm (wanted input output template styles))
    (hdash : ∀ s ∈ settings, s.text.toList.head? ≠ some '-') :
    run tools rule (settings.flatMap Setting.arguments) stdin files =
      runArguments tools (wantedArguments input output template styles) stdin files := by
  simp [run, readArguments_settings hperm hdash]

theorem runArguments_wanted {chosen : Style.Template}
    (h : Style.findTemplate template = .ok chosen) :
    runArguments tools (wantedArguments input output template styles) stdin files =
      convertRun tools (wantedArguments input output template styles) chosen stdin files := by
  simp [runArguments, wantedArguments, h]

end Agreement

/-- A conversion by the command and a conversion of a file with the same settings do the same: one
succeeds just if the other does, and then both leave the same files, with the same document at the
same place. -/
theorem run_convertFile (tools : Toolbox) (rule : DashRule) (stdin : Except Math.ToolError String)
    (files : Tree) {input : String} {output template styles : Option String}
    {settings : List Setting} (hperm : settings.Perm (wanted input output template styles))
    (hdash : ∀ s ∈ settings, s.text.toList.head? ≠ some '-') (houtput : output ≠ some "") :
    let r := run tools rule (settings.flatMap Setting.arguments) stdin files
    let done := convertFile tools files input output (styles.elim .template .file) template
    (r.result = .ok 0 ↔ ∃ path, done.result = .ok path) ∧
    ∀ path, done.result = .ok path → r.files = done.files ∧
      ∃ document, Tree.Saved path (.document document) files r.files := by
  intro r done
  simp only [r, done]
  rw [run_wanted hperm hdash]
  refine ⟨⟨fun h => ?_, ?_⟩, fun path h => ?_⟩
  · cases hchosen : Style.findTemplate template with
    | error e => simp [runArguments, wantedArguments, hchosen, reportedRun] at h
    | ok chosen =>
      rw [runArguments_wanted hchosen] at h
      obtain ⟨job, path, hjob, hdone⟩ := convertRun_eq_ok_zero_iff.1 h
      have hprepared := (prepareFile_eq_ok_iff_job houtput).2 ⟨chosen, hchosen, hjob⟩
      rw [← convert_template hchosen] at hdone
      exact ⟨path, convertFile_eq_ok_iff.2 ⟨job, hprepared, hdone⟩⟩
  · rintro ⟨path, h⟩
    obtain ⟨job, hprepared, hdone⟩ := convertFile_eq_ok_iff.1 h
    obtain ⟨chosen, hchosen, hjob⟩ := (prepareFile_eq_ok_iff_job houtput).1 hprepared
    rw [convert_template hchosen] at hdone
    rw [runArguments_wanted hchosen]
    exact convertRun_eq_ok_zero_iff.2 ⟨job, path, hjob, hdone⟩
  · obtain ⟨job, hprepared, _⟩ := convertFile_eq_ok_iff.1 h
    obtain ⟨chosen, hchosen, hjob⟩ := (prepareFile_eq_ok_iff_job houtput).1 hprepared
    have hfiles : (runArguments tools (wantedArguments input output template styles) stdin
        files).files =
          (convertFile tools files input output (styles.elim .template .file) template).files := by
      rw [runArguments_wanted hchosen, (convertRun_of_job hjob).1, convertFile_files hprepared,
        convert_template hchosen]
    rw [hfiles]
    exact ⟨rfl, convertFile_saved h⟩

/-! A short text under a template and a style file. -/

def greetingTools : Toolbox :=
  { idleTools with
    parse := fun text => .ok [.token .paragraph "" {} [.token .text text {} []]] }

def largerText : Json.Members := [("bodyText", .obj [("size", .int 12)])]

def greeting : Tree :=
  ⟨[(["a.md"], .file (.bytes "Hi".toUTF8)),
    (["s.json"], .file (.bytes (Json.write (.obj largerText)).toUTF8))]⟩

def greetingSettings : List Setting :=
  [.option .output rfl "b.docx", .input "a.md", .option .template rfl "en-standard",
    .option .styles rfl "s.json"]

/-- The template's styles with another size for text. -/
def greetingStyles : Style.StyleTable :=
  Style.english.styles.set .bodyText
    { Style.english.styles.style .bodyText with
      size := .real (.finite false 6755399441055744 (-49)) }

theorem load_greeting :
    (StyleSource.load greetingTools.json (.file "s.json") greeting Style.english).result =
      .ok (greetingStyles, Style.english.settings) := by
  have hread : Files.readOverrides greetingTools.json greeting (Path.ofString "s.json") =
      .ok largerText := by
    rw [Files.readOverrides_file (Tree.look_eq_walk (by decide) (by decide)),
      Files.objectOf_eq_ok_iff]
    exact Files.contentOf_write (.singleton _ (.singleton _ (.int (by decide))))
  have hmerge : Style.english.styles.merge (.obj largerText) = ⟨[], .ok greetingStyles⟩ := rfl
  have hoverride : Files.overrideSettings Style.english.settings largerText =
      .ok Style.english.settings := rfl
  simp [StyleSource.load, Files.loadConfig, hread, hmerge, hoverride, Logged.ofExcept]

theorem convertFile_greeting :
    (convertFile greetingTools greeting "a.md" (some "b.docx") (.file "s.json")
      (some "en-standard")).result = .ok (Path.ofString "b.docx") := by
  have hlook : greeting.look (Path.ofString "a.md") =
      .ok (.file ["a.md"] (.bytes "Hi".toUTF8)) := Tree.look_eq_walk (by decide) (by decide)
  have htext : greeting.readText (Path.ofString "a.md") = .ok "Hi" := by
    rw [Tree.readText_of_file hlook, show Files.textOf "Hi".toUTF8 = some "Hi" by decide]
    rfl
  have hplain : Markdown.unwrap "Hi" = "Hi" := by decide
  obtain ⟨document, hmade⟩ : ∃ document, (generate greetingTools "Hi" (some greetingStyles)
      (some Style.english.settings) (some "en-standard")).result = .ok document :=
    exists_eq_ok (by decide +kernel)
  have hsave : greeting.save (Path.ofString "b.docx") (.document document) =
      (greeting.put ["b.docx"] (.file (.document document)), .ok ()) :=
    Tree.save_of_vacant (Tree.look_eq_walk (by decide) (by decide))
      (Tree.look_eq_walk (by decide) (by decide))
  refine convertFile_eq_ok_iff.2 ⟨⟨greetingStyles, Style.english.settings, "Hi",
    Path.ofString "b.docx"⟩, prepareFile_eq_ok_iff.2 ?_, ?_⟩
  · exact ⟨Tree.has_of_file hlook, rfl, Style.english, "Hi", rfl, load_greeting, htext, hplain.symm⟩
  · rw [(convert_of_saved hmade hsave).2]
    rfl

theorem run_convertFile_sample :
    (run greetingTools keptDashes
      ["-o", "b.docx", "a.md", "-t", "en-standard", "-s", "s.json"] (.ok "") greeting).result =
        .ok 0 ∧
    ∃ document, (run greetingTools keptDashes
      ["-o", "b.docx", "a.md", "-t", "en-standard", "-s", "s.json"] (.ok "")
        greeting).files.file? ["b.docx"] = some (.document document) := by
  have hperm : greetingSettings.Perm
      (wanted "a.md" (some "b.docx") (some "en-standard") (some "s.json")) := .swap _ _ _
  have hdash : ∀ s ∈ greetingSettings, s.text.toList.head? ≠ some '-' := by decide
  obtain ⟨hsame, hleft⟩ :=
    run_convertFile greetingTools keptDashes (.ok "") greeting hperm hdash (by decide)
  obtain ⟨-, document, hsaved⟩ := hleft _ convertFile_greeting
  exact ⟨hsame.2 ⟨_, convertFile_greeting⟩, document, hsaved.file⟩

end MarkdownDocx.Command

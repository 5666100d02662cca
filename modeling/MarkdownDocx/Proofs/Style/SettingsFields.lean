import MarkdownDocx.Proofs.Style.Fieldwise

/-!
Settings are overridden field by field, and the line spacing and the margins are sections with
fields of their own. This is so after any run of overrides, the ones that fail among them.
-/

set_option autoImplicit false

namespace MarkdownDocx.Style

/-! ## The fields of settings -/

inductive Side where
  | top
  | bottom
  | left
  | right
  | header
  | footer
  deriving DecidableEq, Repr

namespace Side

def name : Side → String
  | .top => "top"
  | .bottom => "bottom"
  | .left => "left"
  | .right => "right"
  | .header => "header"
  | .footer => "footer"

def get : Side → Margins → Int
  | .top, m => m.top
  | .bottom, m => m.bottom
  | .left, m => m.left
  | .right, m => m.right
  | .header, m => m.header
  | .footer, m => m.footer

def set : Side → Int → Margins → Margins
  | .top, n, m => { m with top := n }
  | .bottom, n, m => { m with bottom := n }
  | .left, n, m => { m with left := n }
  | .right, n, m => { m with right := n }
  | .header, n, m => { m with header := n }
  | .footer, n, m => { m with footer := n }

@[simp] theorem get_set_self (side : Side) (n : Int) (m : Margins) :
    side.get (side.set n m) = n := by
  cases side <;> rfl

theorem get_set_ne {side side' : Side} (h : side ≠ side') (n : Int) (m : Margins) :
    side.get (side'.set n m) = side.get m := by
  cases side <;> cases side' <;> first | rfl | exact absurd rfl h

theorem injective_name : Function.Injective name := by
  intro side side' h
  cases side <;> cases side' <;> first | rfl | exact absurd h (by decide)

theorem exists_name {s : WideString} (h : s ∈ marginNames) :
    ∃ side : Side, (side.name : WideString) = s := by
  simp only [marginNames, List.mem_cons, List.not_mem_nil, or_false] at h
  rcases h with rfl | rfl | rfl | rfl | rfl | rfl
  exacts [⟨.top, rfl⟩, ⟨.bottom, rfl⟩, ⟨.left, rfl⟩, ⟨.right, rfl⟩, ⟨.header, rfl⟩, ⟨.footer, rfl⟩]

theorem injective_get : Function.Injective fun (m : Margins) (side : Side) => side.get m := by
  rintro ⟨⟩ ⟨⟩ h
  have hsides := congrFun h
  obtain rfl := hsides .top
  obtain rfl := hsides .bottom
  obtain rfl := hsides .left
  obtain rfl := hsides .right
  obtain rfl := hsides .header
  obtain rfl := hsides .footer
  rfl

theorem setter?_name (side : Side) : Margins.setter? side.name = some side.set := by
  cases side <;> rfl

end Side

theorem setter?_eq_none {name : WideString} (h : name ∉ marginNames) : Margins.setter? name = none :=
  Option.not_isSome_iff_eq_none.1 (mt setter?_isSome_iff.1 h)

/-- What a section has for its fields. -/
def sectionMembers : Option Json → Json.Members
  | some (.obj members) => members
  | _ => []

def spacingMembers (data : Json.Members) : Json.Members :=
  sectionMembers (findEither? "line_spacing" "lineSpacing" data)

def marginMembers (data : Json.Members) : Json.Members := sectionMembers (Json.find? "margins" data)

def readChoice {α : Type} (ofJson? : Json → Option α) (unknown : Json → ConfigError) (v : Json) :
    Except Error α :=
  match ofJson? v with
  | some a => .ok a
  | none => .error (.config (unknown v))

inductive SettingsField where
  | spacingRule
  | spacingValue
  | pageNumberFormat
  | margin (side : Side)
  | spacingAfter
  deriving DecidableEq, Repr

namespace SettingsField

def Value : SettingsField → Type
  | .spacingRule => SpacingRule
  | .spacingValue => Int
  | .pageNumberFormat => PageNumberFormat
  | .margin _ => Int
  | .spacingAfter => Int

def get : (f : SettingsField) → Settings → f.Value
  | .spacingRule, s => s.lineSpacing.rule
  | .spacingValue, s => s.lineSpacing.value
  | .pageNumberFormat, s => s.pageNumberFormat
  | .margin side, s => side.get s.margins
  | .spacingAfter, s => s.spacingAfter

/-- What an object names for a field. A margin that is named twice counts where it is named last. -/
def find? (f : SettingsField) (data : Json.Members) : Option Json :=
  match f with
  | .spacingRule => Json.find? "type" (spacingMembers data)
  | .spacingValue => Json.find? "value" (spacingMembers data)
  | .pageNumberFormat => findEither? "page_number_format" "pageNumberFormat" data
  | .margin side => Json.find? side.name (marginMembers data).reverse
  | .spacingAfter => findEither? "spacing_after" "spacingAfter" data

/-- The value of a field that is named. -/
def read : (f : SettingsField) → Json → Except Error f.Value
  | .spacingRule, v => readChoice SpacingRule.ofJson? .unknownLineSpacing v
  | .spacingValue, v => readInteger "line_spacing.value" v
  | .pageNumberFormat, v => readChoice PageNumberFormat.ofJson? .unknownPageNumberFormat v
  | .margin side, v => readInteger ("margins." ++ side.name) v
  | .spacingAfter, v => readInteger "spacing_after" v

def given (data : Json.Members) (f : SettingsField) : Option (Except Error f.Value) :=
  (f.find? data).map f.read

theorem injective_get :
    Function.Injective fun (s : Settings) (f : SettingsField) => f.get s := by
  rintro ⟨⟨⟩, _, _, _⟩ ⟨⟨⟩, _, _, _⟩ h
  have hfields := congrFun h
  obtain rfl := hfields .spacingRule
  obtain rfl := hfields .spacingValue
  obtain rfl := hfields .pageNumberFormat
  obtain rfl := Side.injective_get (funext fun side => hfields (.margin side))
  obtain rfl := hfields .spacingAfter
  rfl

end SettingsField

/-! ## One override -/

theorem choiceOr_eq {α : Type} (ofJson? : Json → Option α) (unknown : Json → ConfigError)
    (before : α) (value : Option Json) :
    choiceOr ofJson? unknown before value =
      (value.map (readChoice ofJson? unknown)).getD (.ok before) := by
  cases value <;> rfl

/-- A section that is missing, or `null`, is read like one without members. -/
theorem read_sectionMembers {α : Type} {name : String} {value : Option Json}
    {read : Json.Members → Except Error α} {before after : α} (hnil : read [] = .ok before)
    (h : sectionOr name value read before = .ok after) : read (sectionMembers value) = .ok after := by
  cases value with
  | none => exact hnil.trans h
  | some v =>
    cases v with
    | null => exact hnil.trans h
    | obj members => exact h
    | _ => cases h

theorem LineSpacing.override_eq_ok {base after : LineSpacing} {data : Json.Members}
    (h : base.override data = .ok after) :
    ((Json.find? "type" data).map SettingsField.spacingRule.read).getD (.ok base.rule) =
        .ok after.rule ∧
      ((Json.find? "value" data).map SettingsField.spacingValue.read).getD (.ok base.value) =
        .ok after.value := by
  have hinteger : integerOr data "value" "line_spacing.value" base.value =
      ((Json.find? "value" data).map SettingsField.spacingValue.read).getD (.ok base.value) :=
    valueOr_eq _ _ _
  simp only [override_eq, choiceOr_eq, except_bind_eq_ok_iff] at h
  obtain ⟨rule, hrule, value, hvalue, hafter⟩ := h
  obtain rfl := Except.ok.inj hafter
  exact ⟨hrule, hinteger.symm.trans hvalue⟩

/-- Margins are set one after the other, so the last one of a name stays. -/
theorem Margins.override_eq_ok {base after : Margins} {data : Json.Members}
    (h : base.override data = .ok after) (side : Side) :
    ((Json.find? side.name data.reverse).map (readInteger ("margins." ++ side.name))).getD
      (.ok (side.get base)) = .ok (side.get after) := by
  induction data generalizing base with
  | nil =>
    obtain rfl := Except.ok.inj h
    rfl
  | cons m rest ih =>
    obtain ⟨name, v⟩ := m
    simp only [Margins.override] at h
    rw [List.reverse_cons, Json.find?_append]
    by_cases hname : name ∈ marginNames
    · obtain ⟨side', rfl⟩ := Side.exists_name hname
      simp only [Side.setter?_name, WideString.shown_ofString, except_bind_eq_ok_iff] at h
      obtain ⟨n, hn, hrest⟩ := h
      have hlater := ih hrest
      -- a later member of the same name hides this one
      cases hv : Json.find? side.name rest.reverse with
      | some w => simpa [hv] using hlater
      | none =>
        by_cases hside : side = side'
        · subst hside
          simpa [hv, Json.find?, hn] using hlater
        · have hne : (side'.name : WideString) ≠ side.name := fun h =>
            hside (Side.injective_name (WideString.ofString_inj.1 h)).symm
          simpa only [hv, Json.find?, hne, if_false, Option.or_none, Side.get_set_ne hside]
            using hlater
    · have hnone := setter?_eq_none hname
      have hne : name ≠ (side.name : WideString) := by
        rintro rfl
        simp [Side.setter?_name] at hnone
      rw [hnone] at h
      simpa [Json.find?, hne] using ih h

/-- Settings that can be read override others field by field. -/
theorem Settings.override_eq_ok_iff {base s : Settings} {data : Json} :
    base.override data = .ok s ↔ ∃ members, data = .obj members ∧ SoundSettings members ∧
      Overridden SettingsField.get (SettingsField.given members) base s := by
  have hfields : ∀ {base s : Settings} {members : Json.Members},
      base.override (.obj members) = .ok s →
      Overridden SettingsField.get (SettingsField.given members) base s := by
    intro base s members h
    simp only [Settings.override_eq, choiceOr_eq, valueOr_eq, except_bind_eq_ok_iff] at h
    obtain ⟨spacing, hspacing, format, hformat, margins, hmargins, after, hafter, hs⟩ := h
    obtain rfl := Except.ok.inj hs
    have hspacing := LineSpacing.override_eq_ok (read_sectionMembers rfl hspacing)
    intro f
    cases f with
    | spacingRule => exact hspacing.1
    | spacingValue => exact hspacing.2
    | pageNumberFormat => exact hformat
    | margin side => exact Margins.override_eq_ok (read_sectionMembers rfl hmargins) side
    | spacingAfter => exact hafter
  constructor
  · intro h
    obtain ⟨members, rfl, hsound⟩ := (base.override_reads data).ok_iff.1 ⟨s, h⟩
    exact ⟨members, rfl, hsound, hfields h⟩
  · rintro ⟨members, rfl, hsound, h⟩
    -- sound members can be read over any settings, and the fields tell what comes of it
    obtain ⟨s', hs'⟩ := (base.override_reads (.obj members)).ok_iff.2 ⟨members, rfl, hsound⟩
    rw [hs', (hfields hs').unique SettingsField.injective_get h]

/-! ## Names that are no fields -/

def spacingNames : List WideString := ["type", "value"]

def settingNames : List WideString :=
  ["line_spacing", "lineSpacing", "page_number_format", "pageNumberFormat", "margins",
    "spacing_after", "spacingAfter"]

/-- A section with the members of these names. -/
def onlyPart (names : List WideString) : Json → Json
  | .obj members => .obj (Json.only names members)
  | v => v

def knownPart (name : WideString) (v : Json) : Json :=
  if name = "margins" then onlyPart marginNames v
  else if name = "line_spacing" ∨ name = "lineSpacing" then onlyPart spacingNames v
  else v

/-- Settings without names that are no fields, in sections too. -/
def knownSettings (data : Json.Members) : Json.Members :=
  (Json.only settingNames data).map fun m => (m.1, knownPart m.1 m.2)

theorem find?_knownSettings {key : WideString} (h : key ∈ settingNames) (data : Json.Members) :
    Json.find? key (knownSettings data) = (Json.find? key data).map (knownPart key) := by
  rw [knownSettings, Json.find?_map, Json.find?_only h]

theorem findEither?_knownSettings {key other : String} (part : Json → Json)
    (hkey : (key : WideString) ∈ settingNames ∧ knownPart key = part)
    (hother : (other : WideString) ∈ settingNames ∧ knownPart other = part) (data : Json.Members) :
    findEither? key other (knownSettings data) = (findEither? key other data).map part := by
  rw [findEither?, find?_knownSettings hkey.1, find?_knownSettings hother.1, hkey.2, hother.2,
    findEither?]
  cases Json.find? key data <;> rfl

theorem sectionOr_onlyPart {α : Type} {names : List WideString}
    {read : Json.Members → Except Error α}
    (h : ∀ data, read (Json.only names data) = read data) (name : String) (value : Option Json)
    (before : α) :
    sectionOr name (value.map (onlyPart names)) read before = sectionOr name value read before := by
  cases value with
  | none => rfl
  | some v =>
    cases v with
    | obj members => exact h members
    | _ => rfl

theorem LineSpacing.override_only (base : LineSpacing) (data : Json.Members) :
    base.override (Json.only spacingNames data) = base.override data := by
  simp only [override_eq, integerOr, Json.find?_only (show ("type" : WideString) ∈ spacingNames by decide),
    Json.find?_only (show ("value" : WideString) ∈ spacingNames by decide)]

theorem Margins.override_only (base : Margins) (data : Json.Members) :
    base.override (Json.only marginNames data) = base.override data := by
  induction data generalizing base with
  | nil => rfl
  | cons m rest ih =>
    obtain ⟨name, v⟩ := m
    rw [Json.only] at ih ⊢
    by_cases hname : name ∈ marginNames
    · obtain ⟨side, rfl⟩ := Side.exists_name hname
      simp [hname, Margins.override, Side.setter?_name, ih]
    · simp [hname, Margins.override, setter?_eq_none hname, ih]

theorem Settings.override_knownSettings (base : Settings) (data : Json.Members) :
    base.override (.obj (knownSettings data)) = base.override (.obj data) := by
  have hspacing : findEither? "line_spacing" "lineSpacing" (knownSettings data) =
      (findEither? "line_spacing" "lineSpacing" data).map (onlyPart spacingNames) :=
    findEither?_knownSettings (onlyPart spacingNames) ⟨by decide, rfl⟩ ⟨by decide, rfl⟩ data
  have hformat : findEither? "page_number_format" "pageNumberFormat" (knownSettings data) =
      (findEither? "page_number_format" "pageNumberFormat" data).map id :=
    findEither?_knownSettings id ⟨by decide, rfl⟩ ⟨by decide, rfl⟩ data
  have hmargins : Json.find? "margins" (knownSettings data) =
      (Json.find? "margins" data).map (onlyPart marginNames) :=
    find?_knownSettings (by decide) data
  have hafter : findEither? "spacing_after" "spacingAfter" (knownSettings data) =
      (findEither? "spacing_after" "spacingAfter" data).map id :=
    findEither?_knownSettings id ⟨by decide, rfl⟩ ⟨by decide, rfl⟩ data
  simp only [Settings.override_eq, hspacing, hformat, hmargins, hafter, Option.map_id, id_eq,
    sectionOr_onlyPart base.lineSpacing.override_only, sectionOr_onlyPart base.margins.override_only]

/-! ## Runs -/

/-- Settings with all of these read over them, one after the other. What cannot be read is passed
over. -/
def Settings.overrideAll (start : Settings) (datas : List Json) : Settings :=
  datas.foldl (fun s data => (s.override data).toOption.getD s) start

theorem Settings.overrideAll_append (start : Settings) (before later : List Json) :
    start.overrideAll (before ++ later) = (start.overrideAll before).overrideAll later :=
  List.foldl_append

theorem Settings.overrideAll_cons {start s : Settings} {data : Json}
    (h : start.override data = .ok s) (later : List Json) :
    start.overrideAll (data :: later) = s.overrideAll later := by
  rw [Settings.overrideAll, List.foldl_cons, h]
  rfl

structure Settings.Valid (s : Settings) : Prop where
  rule : s.lineSpacing.rule.name = "exact" ∨ s.lineSpacing.rule.name = "auto"
  format : s.pageNumberFormat.name = "dash" ∨ s.pageNumberFormat.name = "plain"

theorem Settings.valid (s : Settings) : s.Valid := by
  constructor
  · cases s.lineSpacing.rule <;> simp [SpacingRule.name]
  · cases s.pageNumberFormat <;> simp [PageNumberFormat.name]

def SettingsField.Unnamed (f : SettingsField) (data : Json) : Prop :=
  ∀ members, data = .obj members → f.find? members = none

theorem Settings.overrideAll_kept {f : SettingsField} {datas : List Json}
    (h : ∀ data ∈ datas, f.Unnamed data) (start : Settings) :
    f.get (start.overrideAll datas) = f.get start := by
  induction datas generalizing start with
  | nil => rfl
  | cons data rest ih =>
    have hstep : f.get ((start.override data).toOption.getD start) = f.get start := by
      cases hs : start.override data with
      | error e => rfl
      | ok s =>
        obtain ⟨members, hmembers, -, hfields⟩ := Settings.override_eq_ok_iff.1 hs
        exact hfields.kept (by simp [SettingsField.given, h data (by simp) members hmembers])
    exact (ih (fun d hd => h d (by simp [hd])) _).trans hstep

/-- After any run of overrides, one more that succeeds gives valid settings. Every field that it
does not name is as before, and so is a section that is `null`. Every field that it names has the
value that is read, and keeps it until a later one names the field. Other names do not matter, and a
second time it changes nothing. -/
theorem Settings.overrideAll_fields {start s : Settings} {before : List Json} {data : Json}
    (h : (start.overrideAll before).override data = .ok s) :
    s.Valid ∧ ∃ members, data = .obj members ∧
      (∀ f, SettingsField.find? f members = none → f.get s = f.get (start.overrideAll before)) ∧
      (∀ f v, SettingsField.find? f members = some v → f.read v = .ok (f.get s)) ∧
      (findEither? "line_spacing" "lineSpacing" members = some .null →
        s.lineSpacing = (start.overrideAll before).lineSpacing) ∧
      (Json.find? "margins" members = some .null →
        s.margins = (start.overrideAll before).margins) ∧
      (start.overrideAll before).override (.obj (knownSettings members)) = .ok s ∧
      s.override data = .ok s ∧
      ∀ f later, (∀ d ∈ later, SettingsField.Unnamed f d) →
        f.get (start.overrideAll (before ++ data :: later)) = f.get s := by
  obtain ⟨members, rfl, hsound, hfields⟩ := Settings.override_eq_ok_iff.1 h
  have hkept : ∀ f, SettingsField.find? f members = none →
      f.get s = f.get (start.overrideAll before) :=
    fun f hf => hfields.kept (by rw [SettingsField.given, hf, Option.map_none])
  refine ⟨s.valid, members, rfl, hkept, fun f v hf => ?_, fun hnull => ?_, fun hnull => ?_, ?_, ?_,
    fun f later hlater => ?_⟩
  · exact hfields.replaced (by rw [SettingsField.given, hf, Option.map_some])
  · have hmembers : spacingMembers members = [] := by rw [spacingMembers, hnull]; rfl
    exact congrArg₂ LineSpacing.mk (hkept .spacingRule (by rw [SettingsField.find?, hmembers]; rfl))
      (hkept .spacingValue (by rw [SettingsField.find?, hmembers]; rfl))
  · have hmembers : marginMembers members = [] := by rw [marginMembers, hnull]; rfl
    exact Side.injective_get (funext fun side =>
      hkept (.margin side) (by rw [SettingsField.find?, hmembers]; rfl))
  · rw [Settings.override_knownSettings, h]
  · exact Settings.override_eq_ok_iff.2 ⟨members, rfl, hsound, hfields.again⟩
  · rw [Settings.overrideAll_append, Settings.overrideAll_cons h]
    exact Settings.overrideAll_kept hlater s

/-- One override with a margin, and two that fail. -/
def drafts : List Json :=
  [.obj [("lineSpacing", .null), ("margins", .obj [("left", .int 1800)])], .arr [],
    .obj [("page_number_format", .str "roman")]]

def report : Json.Members :=
  [("line_spacing", .obj [("type", .str "auto"), ("font", .null)]), ("margins", .null),
    ("spacingAfter", .bool true), ("colour", .int 1)]

theorem Settings.overrideAll_fields_report :
    let base := Settings.overrideAll {} drafts
    let s : Settings :=
      { lineSpacing := ⟨.auto, 560⟩, margins := { left := 1800 }, spacingAfter := 1 }
    base.override (.obj report) = .ok s ∧ s.Valid ∧ s.lineSpacing.value = base.lineSpacing.value ∧
      s.pageNumberFormat = base.pageNumberFormat ∧ s.margins = base.margins ∧
      base.override (.obj (knownSettings report)) = .ok s ∧ s.override (.obj report) = .ok s ∧
      (Settings.overrideAll {} (drafts ++ [.obj report,
        .obj [("lineSpacing", .obj [("value", .int 360)])]])).lineSpacing.rule = .auto := by
  intro base s
  have hs : base.override (.obj report) = .ok s := by rfl
  obtain ⟨hvalid, _, ⟨⟩, hkept, -, -, hmargins, hknown, hagain, hrun⟩ :=
    Settings.overrideAll_fields hs
  refine ⟨hs, hvalid, hkept .spacingValue rfl, hkept .pageNumberFormat rfl, hmargins rfl, hknown,
    hagain, hrun .spacingRule _ fun d hd members hmembers => ?_⟩
  obtain rfl := List.mem_singleton.1 hd
  cases hmembers
  rfl

end MarkdownDocx.Style

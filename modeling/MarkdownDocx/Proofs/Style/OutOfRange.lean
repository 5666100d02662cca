import MarkdownDocx.Proofs.Logged
import MarkdownDocx.Style.Settings
import MarkdownDocx.Style.Table

/-!
Overrides with a number that is out of range: a size that is a whole number beyond every
floating-point number, or a setting that is infinite where an integer is needed. These are no faults
of style. Such a number counts if nothing is wrong with what is read before it, whatever the styles
and settings are that it was to override.
-/

set_option autoImplicit false

namespace MarkdownDocx.Style

open MarkdownDocx.Number (Binary64)

/-- What reading a part of an override comes to. It succeeds just if the part is sound, and it stops
at a number that is out of range just if that is so. All else is a fault of style. -/
structure Reads {α : Type} (r : Except Error α) (sound : Prop) (stray : Error → Prop) : Prop where
  ok_iff : (∃ a, r = .ok a) ↔ sound
  error_iff : ∀ e, (∀ fault, e ≠ .config fault) → (r = .error e ↔ stray e)

namespace Reads

variable {α β : Type} {r : Except Error α} {sound sound' : Prop} {stray stray' : Error → Prop}

theorem ok (a : α) : Reads (.ok a : Except Error α) True fun _ => False :=
  ⟨by simp, by simp⟩

theorem fault (f : ConfigError) :
    Reads (.error (.config f) : Except Error α) False fun _ => False :=
  ⟨by simp, fun e he => by simpa using (he f).symm⟩

theorem congr (h : Reads r sound stray) (hsound : sound ↔ sound')
    (hstray : ∀ e, stray e ↔ stray' e) : Reads r sound' stray' :=
  ⟨h.ok_iff.trans hsound, fun e he => (h.error_iff e he).trans (hstray e)⟩

/-- Of two parts, the second is read if the first is sound. -/
theorem bind {f : α → Except Error β} (h : Reads r sound stray)
    (hf : ∀ a, Reads (f a) sound' stray') :
    Reads (r >>= f) (sound ∧ sound') fun e => stray e ∨ sound ∧ stray' e where
  ok_iff := by
    simp only [except_bind_eq_ok_iff]
    rw [← h.ok_iff]
    constructor
    · rintro ⟨b, a, ha, hb⟩
      exact ⟨⟨a, ha⟩, (hf a).ok_iff.1 ⟨b, hb⟩⟩
    · rintro ⟨⟨a, ha⟩, hsound⟩
      obtain ⟨b, hb⟩ := (hf a).ok_iff.2 hsound
      exact ⟨b, a, ha, hb⟩
  error_iff e he := by
    rw [except_bind_eq_error_iff, h.error_iff e he, ← h.ok_iff]
    refine or_congr_right ?_
    constructor
    · rintro ⟨a, ha, hstray⟩
      exact ⟨⟨a, ha⟩, ((hf a).error_iff e he).1 hstray⟩
    · rintro ⟨⟨a, ha⟩, hstray⟩
      exact ⟨a, ha, ((hf a).error_iff e he).2 hstray⟩

end Reads

/-! ## Integers -/

/-- A value that can stand for an integer. -/
def Integral : Json → Prop
  | .int _ => True
  | .bool _ => True
  | .real (.finite _ _ _) => True
  | .str s => (s.text?.bind Number.readInt?).isSome = true
  | _ => False

def IsInfinite : Json → Prop
  | .real (.infinite _) => True
  | _ => False

theorem readInteger_reads (setting : String) (v : Json) :
    Reads (readInteger setting v) (Integral v) fun e => e = .infinite ∧ IsInfinite v := by
  cases v with
  | int n => exact (Reads.ok n).congr (by simp [Integral]) (by simp [IsInfinite])
  | bool b => exact (Reads.ok _).congr (by simp [Integral]) (by simp [IsInfinite])
  | str s =>
    cases hs : s.text?.bind Number.readInt? with
    | some n =>
      simp only [readInteger, hs]
      exact (Reads.ok n).congr (by simp [Integral, hs]) (by simp [IsInfinite])
    | none =>
      simp only [readInteger, hs]
      exact (Reads.fault _).congr (by simp [Integral, hs]) (by simp [IsInfinite])
  | real x =>
    cases x with
    | finite s m e => exact (Reads.ok _).congr (by simp [Integral]) (by simp [IsInfinite])
    | infinite s =>
      refine ⟨?_, fun e _ => ?_⟩
      · simp [readInteger, Binary64.truncate, Integral]
      · simp [readInteger, Binary64.truncate, IsInfinite, eq_comm]
    | nan => exact (Reads.fault _).congr (by simp [Integral]) (by simp [IsInfinite])
  | null => exact (Reads.fault _).congr (by simp [Integral]) (by simp [IsInfinite])
  | arr items => exact (Reads.fault _).congr (by simp [Integral]) (by simp [IsInfinite])
  | obj members => exact (Reads.fault _).congr (by simp [Integral]) (by simp [IsInfinite])

/-- What may be missing is sound if it is missing. -/
def Sound (sound : Json → Prop) (value : Option Json) : Prop := ∀ v, value = some v → sound v

/-- A value that is read, or what was there before. -/
def valueOr {α : Type} (read : Json → Except Error α) (before : α) : Option Json → Except Error α
  | some v => read v
  | none => .ok before

theorem valueOr_reads {α : Type} {read : Json → Except Error α} {sound : Json → Prop}
    {stray : Json → Error → Prop} (h : ∀ v, Reads (read v) (sound v) (stray v)) (before : α)
    (value : Option Json) :
    Reads (valueOr read before value) (Sound sound value)
      fun e => ∃ v, value = some v ∧ stray v e := by
  cases value with
  | some v => exact (h v).congr (by simp [Sound]) (by simp)
  | none => exact (Reads.ok before).congr (by simp [Sound]) (by simp)

/-! ## Styles -/

/-- A whole number that no size can be. -/
def Oversize : Json → Prop
  | .int n => Binary64.ofInt? n = none
  | _ => False

theorem parseSize_reads (v : Json) :
    Reads (parseSize v).result (¬Oversize v) fun e => e = .tooLarge ∧ Oversize v := by
  cases v with
  | int n =>
    cases hn : Binary64.ofInt? n with
    | some x =>
      simp only [parseSize, hn]
      exact (Reads.ok _).congr (by simp [Oversize, hn]) (by simp [Oversize, hn])
    | none =>
      refine ⟨?_, fun e _ => ?_⟩
      · simp [parseSize, hn, Oversize, Logged.fail]
      · simp [parseSize, hn, Oversize, Logged.fail, eq_comm]
  | str s =>
    cases hs : s.text?.bind sizeOfText? with
    | some p =>
      simp only [parseSize, hs]
      exact (Reads.ok p).congr (by simp [Oversize]) (by simp [Oversize])
    | none =>
      simp only [parseSize, hs]
      exact (Reads.ok _).congr (by simp [Oversize]) (by simp [Oversize])
  | real x => exact (Reads.ok _).congr (by simp [Oversize]) (by simp [Oversize])
  | null => exact (Reads.ok _).congr (by simp [Oversize]) (by simp [Oversize])
  | bool b => exact (Reads.ok _).congr (by simp [Oversize]) (by simp [Oversize])
  | arr items => exact (Reads.ok _).congr (by simp [Oversize]) (by simp [Oversize])
  | obj members => exact (Reads.ok _).congr (by simp [Oversize]) (by simp [Oversize])

def IsFlag : Json → Prop
  | .bool _ => True
  | _ => False

theorem readFlag_reads (data : Json.Members) (field : String) (before : Bool) :
    Reads (readFlag data field before) (Sound IsFlag (Json.find? field data)) fun _ => False := by
  cases h : Json.find? field data with
  | none =>
    simp only [readFlag, h]
    exact (Reads.ok before).congr (by simp [Sound]) (by simp)
  | some v =>
    cases v with
    | bool b =>
      simp only [readFlag, h]
      exact (Reads.ok b).congr (by simp [Sound, IsFlag]) (by simp)
    | _ =>
      simp only [readFlag, h]
      exact (Reads.fault _).congr (by simp [Sound, IsFlag]) (by simp)

/-- A record that a style can be overridden with. -/
structure SoundFields (data : Json.Members) : Prop where
  size : Sound (fun v => ¬Oversize v) (Json.find? "size" data)
  bold : Sound IsFlag (Json.find? "bold" data)
  italic : Sound IsFlag (Json.find? "italic" data)
  center : Sound IsFlag (Json.find? "center" data)
  indent : Sound IsFlag (Json.find? "indent" data)

/-- The size that a record gives, or the one before. -/
def sizeOr (data : Json.Members) (before : Points) : Logged Error Points :=
  match Json.find? "size" data with
  | some v => parseSize v
  | none => Logged.pure before

theorem sizeOr_result (data : Json.Members) (before : Points) : (sizeOr data before).result =
    valueOr (fun v => (parseSize v).result) before (Json.find? "size" data) := by
  unfold sizeOr
  cases Json.find? "size" data <;> rfl

/-- The fields of a style are read one after the other. -/
theorem TextStyle.override_eq (base : TextStyle) (data : Json.Members) :
    base.override data = do
      let size ← sizeOr data base.size
      let bold ← Logged.ofExcept (readFlag data "bold" base.bold)
      let italic ← Logged.ofExcept (readFlag data "italic" base.italic)
      let center ← Logged.ofExcept (readFlag data "center" base.center)
      let indent ← Logged.ofExcept (readFlag data "indent" base.indent)
      return ⟨((Json.find? "font" data).map Json.asText).getD base.font, size, bold, italic, center,
        indent, (englishFontOf? data).orElse fun _ => base.englishFont⟩ := by
  unfold TextStyle.override sizeOr
  cases Json.find? "font" data <;> cases Json.find? "size" data <;>
    cases englishFontOf? data <;> rfl

/-- The size is read before the flags are, so nothing in its record can come before it. -/
theorem TextStyle.override_reads (base : TextStyle) (data : Json.Members) :
    Reads (base.override data).result (SoundFields data)
      fun e => e = .tooLarge ∧ ∃ v, Json.find? "size" data = some v ∧ Oversize v := by
  have hsize := valueOr_reads parseSize_reads base.size (Json.find? "size" data)
  rw [← sizeOr_result] at hsize
  rw [override_eq]
  simp only [Logged.bind_result]
  refine (hsize.bind fun _ => (readFlag_reads data "bold" _).bind fun _ =>
    (readFlag_reads data "italic" _).bind fun _ => (readFlag_reads data "center" _).bind fun _ =>
    (readFlag_reads data "indent" _).bind fun _ => Reads.ok _).congr ?_ ?_
  · constructor
    · rintro ⟨hsize, hbold, hitalic, hcenter, hindent, -⟩
      exact ⟨hsize, hbold, hitalic, hcenter, hindent⟩
    · rintro ⟨hsize, hbold, hitalic, hcenter, hindent⟩
      exact ⟨hsize, hbold, hitalic, hcenter, hindent, trivial⟩
  · intro e
    simp [and_left_comm]

/-! ## Style tables -/

/-- A record for a style with nothing wrong in it. -/
def SoundStyle : Json → Prop
  | .obj data => SoundFields data
  | _ => False

def HasOversize : Json → Prop
  | .obj data => ∃ v, Json.find? "size" data = some v ∧ Oversize v
  | _ => False

theorem apply_reads (v : Json) (key : StyleKey) (base : TextStyle) :
    Reads ((Override.data v).apply key base).result (SoundStyle v)
      fun e => e = .tooLarge ∧ HasOversize v := by
  cases v with
  | obj data => exact base.override_reads data
  | _ => exact (Reads.fault _).congr (by simp [SoundStyle]) (by simp [HasOversize])

/-- The first style that something is wrong with has a size that is too large. -/
inductive Oversized (members : Json.Members) : List StyleKey → Prop
  | here {key : StyleKey} {rest : List StyleKey} {v : Json}
      (hv : Json.find? key.name members = some v) (h : HasOversize v) :
      Oversized members (key :: rest)
  | later {key : StyleKey} {rest : List StyleKey}
      (hkey : Sound SoundStyle (Json.find? key.name members)) (h : Oversized members rest) :
      Oversized members (key :: rest)

theorem oversized_cons_iff {members : Json.Members} {key : StyleKey} {rest : List StyleKey} :
    Oversized members (key :: rest) ↔
      (∃ v, Json.find? key.name members = some v ∧ HasOversize v) ∨
        Sound SoundStyle (Json.find? key.name members) ∧ Oversized members rest := by
  constructor
  · intro h
    cases h with
    | here hv h => exact .inl ⟨_, hv, h⟩
    | later hkey h => exact .inr ⟨hkey, h⟩
  · rintro (⟨v, hv, h⟩ | ⟨hkey, h⟩)
    · exact .here hv h
    · exact .later hkey h

/-- The members of an object as overrides. -/
def overridesOf (members : Json.Members) : List (WideString × Override) :=
  members.map fun m => (m.1, .data m.2)

theorem findOverride?_overridesOf (name : WideString) (members : Json.Members) :
    findOverride? name (overridesOf members) = (Json.find? name members).map .data := by
  induction members with
  | nil => rfl
  | cons m rest ih =>
    obtain ⟨k, v⟩ := m
    by_cases h : k = name
    · simp [findOverride?, overridesOf, Json.find?, h]
    · simpa [findOverride?, overridesOf, Json.find?, h] using ih

theorem mergeKeys_reads (members : Json.Members) (keys : List StyleKey) (t : StyleTable) :
    Reads (mergeKeys (overridesOf members) keys t).result
      (∀ key ∈ keys, Sound SoundStyle (Json.find? key.name members))
      fun e => e = .tooLarge ∧ Oversized members keys := by
  induction keys generalizing t with
  | nil =>
    refine (Reads.ok t).congr (by simp) fun e => ?_
    simp only [false_iff, not_and]
    intro _ h
    cases h
  | cons key rest ih =>
    simp only [mergeKeys, findOverride?_overridesOf]
    cases hv : Json.find? key.name members with
    | none =>
      exact (ih t).congr (by simp [hv, Sound]) (by simp [oversized_cons_iff, hv, Sound])
    | some v =>
      simp only [Option.map_some, Logged.bind_result]
      refine ((apply_reads v key _).bind fun s => ih (t.set key s)).congr ?_ ?_
      · simp [hv, Sound]
      · intro e
        simp [oversized_cons_iff, hv, Sound, and_or_left, and_left_comm]

theorem StyleKey.mem_all (key : StyleKey) : key ∈ StyleKey.all := by
  cases key <;> decide

theorem merge_reads (members : Json.Members) (t : StyleTable) :
    Reads (t.merge (.obj members)).result
      (∀ key : StyleKey, Sound SoundStyle (Json.find? key.name members))
      fun e => e = .tooLarge ∧ Oversized members StyleKey.all :=
  (mergeKeys_reads members StyleKey.all t).congr
    ⟨fun h key => h key key.mem_all, fun h key _ => h key⟩ fun _ => Iff.rfl

/-! ## Settings -/

def IsSpacingRule : Json → Prop
  | .str s => s = "exact" ∨ s = "auto"
  | _ => False

def IsPageNumberFormat : Json → Prop
  | .str s => s = "dash" ∨ s = "plain"
  | _ => False

/-- Overrides of the line spacing with nothing wrong in them. -/
structure SoundSpacing (data : Json.Members) : Prop where
  rule : Sound IsSpacingRule (Json.find? "type" data)
  value : Sound Integral (Json.find? "value" data)

/-- An infinite height of lines, under a rule with nothing wrong in it. -/
def SpacingInfinite (data : Json.Members) : Prop :=
  Sound IsSpacingRule (Json.find? "type" data) ∧
    ∃ v, Json.find? "value" data = some v ∧ IsInfinite v

def marginNames : List WideString := ["top", "bottom", "left", "right", "header", "footer"]

/-- Overrides of margins with nothing wrong in them. Other names are passed over. -/
def SoundMargins (data : Json.Members) : Prop := ∀ m ∈ data, m.1 ∈ marginNames → Integral m.2

/-- The first margin that something is wrong with is infinite. -/
inductive MarginInfinite : Json.Members → Prop
  | here {name : WideString} {v : Json} {rest : Json.Members} (hname : name ∈ marginNames)
      (h : IsInfinite v) : MarginInfinite ((name, v) :: rest)
  | later {name : WideString} {v : Json} {rest : Json.Members}
      (hv : name ∈ marginNames → Integral v) (h : MarginInfinite rest) :
      MarginInfinite ((name, v) :: rest)

theorem marginInfinite_cons_iff {name : WideString} {v : Json} {rest : Json.Members} :
    MarginInfinite ((name, v) :: rest) ↔
      name ∈ marginNames ∧ IsInfinite v ∨
        (name ∈ marginNames → Integral v) ∧ MarginInfinite rest := by
  constructor
  · intro h
    cases h with
    | here hname h => exact .inl ⟨hname, h⟩
    | later hv h => exact .inr ⟨hv, h⟩
  · rintro (⟨hname, h⟩ | ⟨hv, h⟩)
    · exact .here hname h
    · exact .later hv h

theorem setter?_isSome_iff {name : WideString} :
    (Margins.setter? name).isSome = true ↔ name ∈ marginNames := by
  unfold Margins.setter?
  split <;> simp_all [marginNames]

theorem Margins.override_reads (base : Margins) (data : Json.Members) :
    Reads (base.override data) (SoundMargins data)
      fun e => e = .infinite ∧ MarginInfinite data := by
  induction data generalizing base with
  | nil =>
    refine (Reads.ok base).congr (by simp [SoundMargins]) fun e => ?_
    simp only [false_iff, not_and]
    intro _ h
    cases h
  | cons m rest ih =>
    obtain ⟨name, v⟩ := m
    simp only [Margins.override]
    cases hname : Margins.setter? name with
    | none =>
      have hno : name ∉ marginNames := fun h => by simpa [hname] using setter?_isSome_iff.2 h
      exact (ih base).congr (by simp [SoundMargins, hno]) (by simp [marginInfinite_cons_iff, hno])
    | some set =>
      have hyes : name ∈ marginNames := setter?_isSome_iff.1 (by simp [hname])
      refine ((readInteger_reads _ v).bind fun n => ih (set n base)).congr ?_ ?_
      · simp [SoundMargins, hyes]
      · intro e
        simp [marginInfinite_cons_iff, hyes, and_or_left, and_left_comm]

/-- One of a few words, or what was there before. -/
def choiceOr {α : Type} (ofJson? : Json → Option α) (unknown : Json → ConfigError) (before : α) :
    Option Json → Except Error α
  | none => .ok before
  | some v =>
    match ofJson? v with
    | some a => .ok a
    | none => .error (.config (unknown v))

theorem choiceOr_reads {α : Type} {ofJson? : Json → Option α} {sound : Json → Prop}
    (h : ∀ v, (ofJson? v).isSome = true ↔ sound v) (unknown : Json → ConfigError) (before : α)
    (value : Option Json) :
    Reads (choiceOr ofJson? unknown before value) (Sound sound value) fun _ => False := by
  cases value with
  | none => exact (Reads.ok before).congr (by simp [Sound]) (by simp)
  | some v =>
    have hsound : Sound sound (some v) ↔ (ofJson? v).isSome = true := by simp [Sound, h]
    cases hv : ofJson? v with
    | some a =>
      simp only [choiceOr, hv]
      exact (Reads.ok a).congr (by simp [hsound, hv]) (by simp)
    | none =>
      simp only [choiceOr, hv]
      exact (Reads.fault _).congr (by simp [hsound, hv]) (by simp)

theorem isSpacingRule_iff (v : Json) :
    (SpacingRule.ofJson? v).isSome = true ↔ IsSpacingRule v := by
  cases v with
  | str s =>
    simp only [SpacingRule.ofJson?, IsSpacingRule]
    split
    · simp_all
    · split <;> simp_all
  | _ => simp [SpacingRule.ofJson?, IsSpacingRule]

theorem isPageNumberFormat_iff (v : Json) :
    (PageNumberFormat.ofJson? v).isSome = true ↔ IsPageNumberFormat v := by
  cases v with
  | str s =>
    simp only [PageNumberFormat.ofJson?, IsPageNumberFormat]
    split
    · simp_all
    · split <;> simp_all
  | _ => simp [PageNumberFormat.ofJson?, IsPageNumberFormat]

/-- The rule is read before the height. -/
theorem LineSpacing.override_eq (base : LineSpacing) (data : Json.Members) :
    base.override data = do
      let rule ← choiceOr SpacingRule.ofJson? .unknownLineSpacing base.rule (Json.find? "type" data)
      let value ← integerOr data "value" "line_spacing.value" base.value
      return ⟨rule, value⟩ := by
  unfold LineSpacing.override
  cases Json.find? "type" data with
  | none => rfl
  | some v => cases hv : SpacingRule.ofJson? v <;> simp only [choiceOr, hv] <;> rfl

theorem LineSpacing.override_reads (base : LineSpacing) (data : Json.Members) :
    Reads (base.override data) (SoundSpacing data)
      fun e => e = .infinite ∧ SpacingInfinite data := by
  have hvalue : Reads (integerOr data "value" "line_spacing.value" base.value)
      (Sound Integral (Json.find? "value" data))
      fun e => ∃ v, Json.find? "value" data = some v ∧ e = .infinite ∧ IsInfinite v :=
    valueOr_reads (readInteger_reads _) base.value (Json.find? "value" data)
  rw [override_eq]
  refine ((choiceOr_reads isSpacingRule_iff _ _ _).bind fun _ =>
    hvalue.bind fun _ => Reads.ok _).congr ?_ ?_
  · constructor
    · rintro ⟨hrule, hvalue, -⟩
      exact ⟨hrule, hvalue⟩
    · rintro ⟨hrule, hvalue⟩
      exact ⟨hrule, hvalue, trivial⟩
  · intro e
    simp [SpacingInfinite, and_left_comm]

/-- A section of settings may be missing, or `null`, or an object. -/
def SoundSection (sound : Json.Members → Prop) : Json → Prop
  | .null => True
  | .obj data => sound data
  | _ => False

def InSection (stray : Json.Members → Prop) : Json → Prop
  | .obj data => stray data
  | _ => False

/-- What a section gives, or what was there before. -/
def sectionOr {α : Type} (name : String) (value : Option Json)
    (read : Json.Members → Except Error α) (before : α) : Except Error α := do
  match ← readSection name value with
  | some data => read data
  | none => return before

theorem sectionOr_reads {α : Type} {read : Json.Members → Except Error α}
    {sound stray : Json.Members → Prop} {e : Error}
    (h : ∀ data, Reads (read data) (sound data) fun e' => e' = e ∧ stray data) (name : String)
    (value : Option Json) (before : α) :
    Reads (sectionOr name value read before) (Sound (SoundSection sound) value)
      fun e' => e' = e ∧ ∃ v, value = some v ∧ InSection stray v := by
  cases value with
  | none => exact (Reads.ok before).congr (by simp [Sound]) (by simp)
  | some v =>
    cases v with
    | null =>
      exact (Reads.ok before).congr (by simp [Sound, SoundSection]) (by simp [InSection])
    | obj data => exact (h data).congr (by simp [Sound, SoundSection]) (by simp [InSection])
    | _ => exact (Reads.fault _).congr (by simp [Sound, SoundSection]) (by simp [InSection])

/-- Settings with nothing wrong in them. -/
structure SoundSettings (data : Json.Members) : Prop where
  spacing : Sound (SoundSection SoundSpacing) (findEither? "line_spacing" "lineSpacing" data)
  format : Sound IsPageNumberFormat (findEither? "page_number_format" "pageNumberFormat" data)
  margins : Sound (SoundSection SoundMargins) (Json.find? "margins" data)
  after : Sound Integral (findEither? "spacing_after" "spacingAfter" data)

/-- The first setting that something is wrong with is infinite. -/
inductive SettingInfinite (data : Json.Members) : Prop
  | spacing {v : Json} (hv : findEither? "line_spacing" "lineSpacing" data = some v)
      (h : InSection SpacingInfinite v)
  | margin {v : Json}
      (hspacing : Sound (SoundSection SoundSpacing) (findEither? "line_spacing" "lineSpacing" data))
      (hformat : Sound IsPageNumberFormat (findEither? "page_number_format" "pageNumberFormat" data))
      (hv : Json.find? "margins" data = some v) (h : InSection MarginInfinite v)
  | after {v : Json}
      (hspacing : Sound (SoundSection SoundSpacing) (findEither? "line_spacing" "lineSpacing" data))
      (hformat : Sound IsPageNumberFormat (findEither? "page_number_format" "pageNumberFormat" data))
      (hmargins : Sound (SoundSection SoundMargins) (Json.find? "margins" data))
      (hv : findEither? "spacing_after" "spacingAfter" data = some v) (h : IsInfinite v)

/-- The settings are read one after the other. -/
theorem Settings.override_eq (base : Settings) (data : Json.Members) :
    base.override (.obj data) = do
      let lineSpacing ← sectionOr "line_spacing" (findEither? "line_spacing" "lineSpacing" data)
        base.lineSpacing.override base.lineSpacing
      let pageNumberFormat ← choiceOr PageNumberFormat.ofJson? .unknownPageNumberFormat
        base.pageNumberFormat (findEither? "page_number_format" "pageNumberFormat" data)
      let margins ← sectionOr "margins" (Json.find? "margins" data) base.margins.override
        base.margins
      let spacingAfter ← valueOr (readInteger "spacing_after") base.spacingAfter
        (findEither? "spacing_after" "spacingAfter" data)
      return ⟨lineSpacing, pageNumberFormat, margins, spacingAfter⟩ := by
  simp only [Settings.override, sectionOr]
  cases readSection "line_spacing" (findEither? "line_spacing" "lineSpacing" data) with
  | error e => rfl
  | ok spacing =>
    cases hformat : findEither? "page_number_format" "pageNumberFormat" data with
    | none =>
      cases spacing <;> cases findEither? "spacing_after" "spacingAfter" data <;>
        cases readSection "margins" (Json.find? "margins" data) with
        | error e => rfl
        | ok margins => cases margins <;> rfl
    | some v =>
      cases hv : PageNumberFormat.ofJson? v with
      | none => cases spacing <;> simp only [choiceOr, hv] <;> rfl
      | some format =>
        cases spacing <;> cases findEither? "spacing_after" "spacingAfter" data <;>
          cases readSection "margins" (Json.find? "margins" data) with
          | error e =>
            simp only [choiceOr, hv]
            rfl
          | ok margins => cases margins <;> simp only [choiceOr, hv] <;> rfl

theorem Settings.override_reads (base : Settings) (data : Json) :
    Reads (base.override data) (∃ members, data = .obj members ∧ SoundSettings members)
      fun e => e = .infinite ∧ ∃ members, data = .obj members ∧ SettingInfinite members := by
  cases data with
  | obj data =>
    rw [override_eq]
    refine ((sectionOr_reads base.lineSpacing.override_reads _ _ _).bind fun _ =>
      (choiceOr_reads isPageNumberFormat_iff _ _ _).bind fun _ =>
      (sectionOr_reads base.margins.override_reads _ _ _).bind fun _ =>
      (valueOr_reads (readInteger_reads _) base.spacingAfter _).bind fun _ => Reads.ok _).congr ?_ ?_
    · constructor
      · rintro ⟨hspacing, hformat, hmargins, hafter, -⟩
        exact ⟨data, rfl, hspacing, hformat, hmargins, hafter⟩
      · rintro ⟨_, ⟨⟩, hspacing, hformat, hmargins, hafter⟩
        exact ⟨hspacing, hformat, hmargins, hafter, trivial⟩
    · intro e
      constructor
      · rintro (⟨rfl, v, hv, h⟩ | ⟨hspacing, ⟨⟨⟩⟩ | ⟨hformat, ⟨rfl, v, hv, h⟩ | ⟨hmargins,
          ⟨v, hv, rfl, h⟩ | ⟨-, ⟨⟩⟩⟩⟩⟩)
        · exact ⟨rfl, data, rfl, .spacing hv h⟩
        · exact ⟨rfl, data, rfl, .margin hspacing hformat hv h⟩
        · exact ⟨rfl, data, rfl, .after hspacing hformat hmargins hv h⟩
      · rintro ⟨rfl, _, ⟨⟩, h⟩
        cases h with
        | spacing hv h => exact .inl ⟨rfl, _, hv, h⟩
        | margin hspacing hformat hv h =>
          exact .inr ⟨hspacing, .inr ⟨hformat, .inl ⟨rfl, _, hv, h⟩⟩⟩
        | after hspacing hformat hmargins hv h =>
          exact .inr ⟨hspacing, .inr ⟨hformat, .inr ⟨hmargins, .inl ⟨_, hv, rfl, h⟩⟩⟩⟩
  | _ => exact (Reads.fault _).congr (by simp) (by simp)

end MarkdownDocx.Style

import MarkdownDocx.Proofs.Files.Changes
import MarkdownDocx.Proofs.Files.RegularFile

/-!
Styles and settings that are saved and loaded again. They are the same whatever they are loaded
over, because a record names every field: only an English font that is missing is not named.
-/

set_option autoImplicit false

namespace MarkdownDocx.Style

open MarkdownDocx.Number (Binary64 greatestNumeralLength)

/-! ## Sizes -/

/-- The number that a floating-point number is, the two infinite ones among them. -/
def Points.number? : Points → Option (WithBot (WithTop ℚ))
  | .whole n => some ((n : ℚ) : WithTop ℚ)
  | .real (.infinite negative) => some (if negative then ⊥ else ⊤)
  | .real x => x.toRat?.map fun q => ((q : WithTop ℚ) : WithBot (WithTop ℚ))

/-- A size that is a floating-point number, or a whole number that is the value of one. -/
def Points.Exact : Points → Prop
  | .whole n => ∃ x : Binary64, x.IsRegular ∧ x.toRat? = some (n : ℚ)
  | .real x => x.IsRegular ∧ x ≠ .nan

/-- The size that is read from the text of another. -/
def Points.restored : Points → Points
  | .whole n => ((Binary64.ofInt? n).map .real).getD (.whole n)
  | p => p

theorem Points.Exact.parseSize {p : Points} (h : p.Exact) :
    Style.parseSize p.toJson = ⟨[], .ok p.restored⟩ := by
  cases p with
  | whole n =>
    obtain ⟨x, hx, hn⟩ := h
    obtain ⟨y, hy, -⟩ := Number.ofInt?_of_exact hx hn
    simp only [toJson, Style.parseSize, restored, hy]
    rfl
  | real x => rfl

theorem Points.Exact.number?_restored {p : Points} (h : p.Exact) :
    p.restored.number? = p.number? := by
  cases p with
  | whole n =>
    obtain ⟨x, hx, hn⟩ := h
    obtain ⟨y, hy, hvalue⟩ := Number.ofInt?_of_exact hx hn
    simp only [restored, hy, Option.map_some, Option.getD_some]
    cases y with
    | infinite s => simp [Binary64.toRat?] at hvalue
    | finite s m e => simp [number?, hvalue]
    | nan => simp [Binary64.toRat?] at hvalue
  | real x => rfl

theorem Points.Exact.restorable {depth : ℕ} {p : Points} (h : p.Exact) :
    Json.Restorable depth p.toJson := by
  cases p with
  | whole n =>
    obtain ⟨x, hx, hn⟩ := h
    exact .int ((Number.toDigits_length_of_exact hx hn).trans (by decide))
  | real x => exact .real h.1

/-! ## Styles -/

/-- A style as it is restored: the same fonts and flags, and a size that is the same number. An
English font without a name is no English font. -/
structure TextStyle.Restores (s restored : TextStyle) : Prop where
  font : restored.font = s.font
  size : restored.size.number? = s.size.number?
  bold : restored.bold = s.bold
  italic : restored.italic = s.italic
  center : restored.center = s.center
  indent : restored.indent = s.indent
  englishFont : restored.englishFont = s.namedEnglishFont

namespace TextStyle

/-- The style that is read from the record of another. -/
def restored (s : TextStyle) : TextStyle :=
  { s with size := s.size.restored, englishFont := s.namedEnglishFont }

theorem restores_restored {s : TextStyle} (h : s.size.Exact) : s.Restores s.restored :=
  ⟨rfl, h.number?_restored, rfl, rfl, rfl, rfl, rfl⟩

theorem Restores.namedEnglishFont {s restored : TextStyle} (h : s.Restores restored) :
    restored.namedEnglishFont = s.namedEnglishFont := by
  rw [TextStyle.namedEnglishFont, h.englishFont]
  cases hfont : s.namedEnglishFont with
  | none => rfl
  | some f =>
    have hne : f ≠ "" := by
      rintro rfl
      unfold TextStyle.namedEnglishFont at hfont
      split at hfont
      · split at hfont
        · cases hfont
        · next hne => exact hne (Option.some.inj hfont)
      · cases hfont
    simp [hne]

theorem Restores.latinFont {s restored : TextStyle} (h : s.Restores restored) :
    restored.latinFont = s.latinFont := by
  rw [TextStyle.latinFont, TextStyle.latinFont, h.namedEnglishFont, h.font]

theorem Restores.eastAsianFont {s restored : TextStyle} (h : s.Restores restored) :
    restored.eastAsianFont = s.eastAsianFont := by
  rw [TextStyle.eastAsianFont, TextStyle.eastAsianFont, h.font]

/-- Every field is in the record, but an English font only if there is one. -/
theorem override_toMembers {s base : TextStyle} (hsize : s.size.Exact)
    (hbase : base.englishFont = none) : base.override s.toMembers = ⟨[], .ok s.restored⟩ := by
  have hparse := hsize.parseSize
  have henglish : englishFontOf? s.toMembers = s.namedEnglishFont := by
    unfold toMembers
    cases s.namedEnglishFont <;> rfl
  have hfont : Json.find? "font" s.toMembers = some (.str s.font) := rfl
  have hsizes : Json.find? "size" s.toMembers = some s.size.toJson := rfl
  have hbold : Json.find? "bold" s.toMembers = some (.bool s.bold) := rfl
  have hitalic : Json.find? "italic" s.toMembers = some (.bool s.italic) := rfl
  have hcenter : Json.find? "center" s.toMembers = some (.bool s.center) := rfl
  have hindent : Json.find? "indent" s.toMembers = some (.bool s.indent) := rfl
  rw [override_eq, henglish, hbase]
  simp [sizeOr, readFlag, hfont, hsizes, hbold, hitalic, hcenter, hindent, hparse, Json.asText,
    Logged.ofExcept, restored]

theorem restorable_toMembers {depth : ℕ} {s : TextStyle} (hsize : s.size.Exact)
    (hfont : Json.IsText s.font) (henglish : ∀ f ∈ s.namedEnglishFont, Json.IsText f) :
    Json.Restorable (depth + 1) (.obj s.toMembers) := by
  unfold toMembers
  cases hnamed : s.namedEnglishFont with
  | none =>
    exact .obj (by simp) (by simp [Json.isText_ofString])
      (by simp [Json.Restorable.str hfont, Json.Restorable.bool, hsize.restorable])
  | some f =>
    exact .obj (by simp) (by simp [Json.isText_ofString])
      (by simp [Json.Restorable.str hfont, Json.Restorable.str (henglish f hnamed),
        Json.Restorable.bool, hsize.restorable])

end TextStyle

/-! ## Style tables -/

/-- Each key is merged once, into the style that was there at the beginning. -/
theorem mergeKeys_data {members : Json.Members} {keys : List StyleKey} (hkeys : keys.Nodup)
    {t : StyleTable} {f : StyleKey → TextStyle}
    (h : ∀ key ∈ keys, ∃ data, Json.find? key.name members = some (.obj data) ∧
      (t.style key).override data = ⟨[], .ok (f key)⟩) :
    ∃ merged, mergeKeys (overridesOf members) keys t = ⟨[], .ok merged⟩ ∧
      ∀ key, merged.style key = if key ∈ keys then f key else t.style key := by
  induction keys generalizing t with
  | nil => exact ⟨t, rfl, fun key => by simp⟩
  | cons key rest ih =>
    obtain ⟨hnew, hrest⟩ := List.nodup_cons.1 hkeys
    obtain ⟨data, hdata, hoverride⟩ := h key (by simp)
    have hother : ∀ other ∈ rest, (t.set key (f key)).style other = t.style other := by
      intro other hmem
      have hne : other ≠ key := fun heq => hnew (heq ▸ hmem)
      simp [StyleTable.set, hne]
    obtain ⟨merged, hmerge, hstyle⟩ := ih hrest (t := t.set key (f key)) fun other hmem => by
      rw [hother other hmem]
      exact h other (.tail _ hmem)
    refine ⟨merged, ?_, fun other => ?_⟩
    · simp [mergeKeys, findOverride?_overridesOf, hdata, Override.apply, hoverride, hmerge]
    · rw [hstyle]
      by_cases hmem : other ∈ rest
      · simp [hmem]
      · by_cases heq : other = key <;> simp [hmem, heq, hnew, StyleTable.set]

theorem find?_toMembers (t : StyleTable) (key : StyleKey) (rest : Json.Members) :
    Json.find? key.name (t.toMembers ++ rest) = some (.obj (t.style key).toMembers) := by
  cases key <;> rfl

/-- A table is restored from its members, over a table without English fonts. -/
theorem merge_toMembers {t base : StyleTable} (rest : Json.Members)
    (hsizes : ∀ key, (t.style key).size.Exact)
    (hbase : ∀ key, (base.style key).englishFont = none) :
    ∃ merged, base.merge (.obj (t.toMembers ++ rest)) = ⟨[], .ok merged⟩ ∧
      ∀ key, merged.style key = (t.style key).restored := by
  have hall : StyleKey.all.Nodup := by decide
  obtain ⟨merged, hmerge, hstyle⟩ := mergeKeys_data hall fun key _ =>
    ⟨_, find?_toMembers t key rest, TextStyle.override_toMembers (hsizes key) (hbase key)⟩
  exact ⟨merged, hmerge, fun key => by rw [hstyle, if_pos key.mem_all]⟩

/-- No template has a style with an English font. -/
theorem unnamed_of_mem_templates {template : Template} (h : template ∈ templates)
    (key : StyleKey) : (template.styles.style key).englishFont = none := by
  simp only [templates, List.mem_cons, List.not_mem_nil, or_false] at h
  rcases h with rfl | rfl <;> cases key <;> rfl

/-! ## Settings -/

/-- The integers of settings. -/
def Settings.integers (s : Settings) : List ℤ :=
  [s.lineSpacing.value, s.margins.top, s.margins.bottom, s.margins.left, s.margins.right,
    s.margins.header, s.margins.footer, s.spacingAfter]

theorem LineSpacing.override_record (base : LineSpacing) (rule : SpacingRule) (value : ℤ) :
    base.override [("type", .str rule.name), ("value", .int value)] = .ok ⟨rule, value⟩ := by
  cases rule <;> rfl

theorem Margins.override_record (base : Margins) (top bottom left right header footer : ℤ) :
    base.override [("top", .int top), ("bottom", .int bottom), ("left", .int left),
      ("right", .int right), ("header", .int header), ("footer", .int footer)] =
        .ok ⟨top, bottom, left, right, header, footer⟩ := by
  simp [Margins.override, Margins.setter?, readInteger, bind, Except.bind]

/-- Every setting is in the record. -/
theorem Settings.override_toMembers (s base : Settings) :
    base.override (.obj s.toMembers) = .ok s := by
  obtain ⟨⟨rule, value⟩, format, margins, after⟩ := s
  have hformat : choiceOr PageNumberFormat.ofJson? ConfigError.unknownPageNumberFormat
      base.pageNumberFormat (some (.str format.name)) = .ok format := by
    cases format <;> rfl
  have hspacing := base.lineSpacing.override_record rule value
  have hmargins := base.margins.override_record margins.top margins.bottom margins.left
    margins.right margins.header margins.footer
  have hafter : readInteger "spacing_after" (.int after) = .ok after := rfl
  simp [override_eq, toMembers, findEither?, Json.find?, sectionOr, readSection, valueOr, hspacing,
    hformat, hmargins, hafter, bind, Except.bind]
  rfl

theorem Settings.restorable_toMembers {s : Settings}
    (h : ∀ n ∈ s.integers, (Nat.toDigits 10 n.natAbs).length ≤ greatestNumeralLength)
    {depth : ℕ} : Json.Restorable (depth + 2) (.obj s.toMembers) := by
  have hint : ∀ n ∈ s.integers, ∀ {d : ℕ}, Json.Restorable d (.int n) :=
    fun n hn _ => .int (h n hn)
  simp only [integers, List.forall_mem_cons] at hint
  obtain ⟨hvalue, htop, hbottom, hleft, hright, hheader, hfooter, hafter, -⟩ := hint
  refine .obj (by simp [toMembers]) (by simp [toMembers, Json.isText_ofString]) ?_
  simp only [toMembers, List.forall_mem_cons]
  refine ⟨.obj (by simp) (by simp [Json.isText_ofString]) ?_, .str (Json.isText_ofString _),
    .obj (by simp) (by simp [Json.isText_ofString]) ?_, hafter, by simp⟩
  · simp [Json.Restorable.str (Json.isText_ofString _), hvalue]
  · simp [*]

end MarkdownDocx.Style

namespace MarkdownDocx.Files

open MarkdownDocx.Style (StyleTable StyleKey Settings TextStyle Points templates government)
open MarkdownDocx.Number (Binary64 greatestNumeralLength)

/-! ## Files -/

/-- The keys of a style file. -/
theorem nodup_keys (styles : StyleTable) (settings : Settings) :
    ((styleMembers styles (some settings)).map Prod.fst).Nodup := by
  have hkeys : (styleMembers styles (some settings)).map Prod.fst =
      (StyleKey.all.map StyleKey.name ++ [settingsSection]).map WideString.ofString := by
    simp [styleMembers, StyleTable.toMembers]
  rw [hkeys]
  decide

theorem find?_settingsSection (styles : StyleTable) (settings : Settings) :
    Json.find? settingsSection (styleMembers styles (some settings)) =
      some (.obj settings.toMembers) := rfl

theorem isText_of_mem {styles : StyleTable}
    (h : ∀ font ∈ writtenFonts styles, font.text?.isSome) {font : WideString}
    (hmem : font ∈ writtenFonts styles) : Json.IsText font := by
  obtain ⟨t, ht⟩ := Option.isSome_iff_exists.1 (h font hmem)
  exact ⟨t, WideString.text?_eq_some_iff.1 ht⟩

theorem restorable_styleFile {depth : ℕ} {styles : StyleTable} {settings : Settings}
    (hfonts : ∀ font ∈ writtenFonts styles, font.text?.isSome)
    (hsizes : ∀ key, (styles.style key).size.Exact)
    (hsettings : ∀ n ∈ settings.integers,
      (Nat.toDigits 10 n.natAbs).length ≤ greatestNumeralLength) :
    Json.Restorable (depth + 3) (.obj (styleMembers styles (some settings))) := by
  refine .obj (nodup_keys styles settings) (fun m hm => ?_) fun m hm => ?_
  · rcases List.mem_append.1 hm with hm | hm
    · obtain ⟨key, -, rfl⟩ := List.mem_map.1 hm
      exact Json.isText_ofString _
    · obtain rfl := List.mem_singleton.1 hm
      exact Json.isText_ofString _
  · rcases List.mem_append.1 hm with hm | hm
    · obtain ⟨key, hkey, rfl⟩ := List.mem_map.1 hm
      have hwritten : ∀ font ∈ (styles.style key).font :: (styles.style key).namedEnglishFont.toList,
          Json.IsText font := fun font hfont =>
        isText_of_mem hfonts (List.mem_flatMap.2 ⟨key, hkey, hfont⟩)
      exact Style.TextStyle.restorable_toMembers (hsizes key) (hwritten _ (by simp))
        fun f hf => hwritten f (by simp [Option.mem_def.1 hf])
    · obtain rfl := List.mem_singleton.1 hm
      exact Style.Settings.restorable_toMembers hsettings

/-- Styles and settings that are saved are restored when the file is loaded, over any settings and
over any styles without English fonts, and nothing is reported. A reader has to let three objects be
nested for that. -/
theorem loadConfig_saveStyles {json : Json.Setup} {t written : Tree} {path : String}
    {styles base : StyleTable} {settings : Settings} (hdepth : 3 ≤ json.depth)
    (hsizes : ∀ key, (styles.style key).size.Exact)
    (hsettings : ∀ n ∈ settings.integers,
      (Nat.toDigits 10 n.natAbs).length ≤ greatestNumeralLength)
    (hsave : saveStyles t (Path.ofString path) styles (some settings) = .ok written)
    (hbase : ∀ key, (base.style key).englishFont = none) (baseSettings : Settings) :
    ∃ restored,
      loadConfig json written (some path) base baseSettings = ⟨[], .ok (restored, settings)⟩ ∧
      ∀ key, (styles.style key).Restores (restored.style key) ∧
        (restored.style key).latinFont = (styles.style key).latinFont ∧
        (restored.style key).eastAsianFont = (styles.style key).eastAsianFont := by
  obtain ⟨hfonts, hwrite⟩ := saveStyles_eq_ok_iff.1 hsave
  obtain ⟨place, hplace⟩ := Tree.look_write hwrite
  obtain ⟨depth, hdepth⟩ : ∃ depth, json.depth = depth + 3 := ⟨json.depth - 3, by omega⟩
  have hread : readOverrides json written (Path.ofString path) =
      .ok (styleMembers styles (some settings)) := by
    rw [readOverrides_file hplace, objectOf_eq_ok_iff, hdepth]
    exact contentOf_write (restorable_styleFile hfonts hsizes hsettings)
  obtain ⟨merged, hmerge, hstyle⟩ : ∃ merged,
      base.merge (.obj (styleMembers styles (some settings))) = ⟨[], .ok merged⟩ ∧
        ∀ key, merged.style key = (styles.style key).restored :=
    Style.merge_toMembers _ hsizes hbase
  refine ⟨merged, ?_, fun key => ?_⟩
  · have hoverride : overrideSettings baseSettings (styleMembers styles (some settings)) =
        .ok settings := by
      unfold overrideSettings
      rw [find?_settingsSection]
      exact Style.Settings.override_toMembers settings baseSettings
    simp [loadConfig, hread, hmerge, hoverride, Logged.ofExcept]
  · have hrestores := Style.TextStyle.restores_restored (hsizes key)
    rw [hstyle]
    exact ⟨hrestores, hrestores.latinFont, hrestores.eastAsianFont⟩

/-! Sizes and fonts of every kind, and settings that differ from those they are loaded over. -/

def sampleStyle : StyleKey → TextStyle
  | .title => { size := .real (.finite false 5910974510923776 (-49)), englishFont := some "" }
  | .heading1 => { font := "Georgia", size := .real (.infinite true), italic := true }
  | .bodyText => { size := .whole (-12), englishFont := some "\"\\\r\n" }
  | _ => { size := .whole 16, indent := true }

def sampleSettings : Settings where
  lineSpacing := { rule := .auto, value := -360 }
  pageNumberFormat := .plain
  margins := { left := 0, footer := 123456789012345678901234567890 }
  spacingAfter := 7

theorem exact_sampleStyle (key : StyleKey) : (sampleStyle key).size.Exact := by
  have htwelve : (Points.whole (-12)).Exact :=
    ⟨.finite true 6755399441055744 (-49), ⟨by decide, by decide, by decide, by decide⟩, by
      norm_num [Binary64.toRat?]⟩
  have hsixteen : (Points.whole 16).Exact :=
    ⟨.finite false 4503599627370496 (-48), ⟨by decide, by decide, by decide, by decide⟩, by
      norm_num [Binary64.toRat?]⟩
  cases key with
  | title => exact ⟨⟨by decide, by decide, by decide, by decide⟩, by simp⟩
  | heading1 => exact ⟨trivial, by simp⟩
  | bodyText => exact htwelve
  | _ => exact hsixteen

theorem texts_sampleStyle :
    ∀ font ∈ writtenFonts { style := sampleStyle }, font.text?.isSome := by
  decide

theorem write_styleFileTree (data : ByteArray) (content : Content) :
    (styleFileTree data).write (Path.ofString "s.json") content =
      .ok ((styleFileTree data).put ["s.json"] (.file content)) := by
  simp [Tree.write, look_styleFileTree, bind, Except.bind]

theorem loadConfig_saveStyles_sample :
    3 ≤ sampleReader.depth ∧
    ∃ written, saveStyles (styleFileTree noText) (Path.ofString "s.json")
        { style := sampleStyle } (some sampleSettings) = .ok written ∧
      ∃ restored, loadConfig sampleReader written (some "s.json") government.styles
          government.settings = ⟨[], .ok (restored, sampleSettings)⟩ ∧
        ∀ key, (sampleStyle key).Restores (restored.style key) ∧
          (restored.style key).latinFont = (sampleStyle key).latinFont ∧
          (restored.style key).eastAsianFont = (sampleStyle key).eastAsianFont := by
  have hdepth : 3 ≤ sampleReader.depth := by decide
  obtain ⟨written, hsave⟩ : ∃ written, saveStyles (styleFileTree noText) (Path.ofString "s.json")
      { style := sampleStyle } (some sampleSettings) = .ok written :=
    ⟨_, saveStyles_eq_ok_iff.2 ⟨texts_sampleStyle, write_styleFileTree noText _⟩⟩
  exact ⟨hdepth, written, hsave, loadConfig_saveStyles hdepth exact_sampleStyle (by decide) hsave
    (Style.unnamed_of_mem_templates (by simp [templates])) government.settings⟩

end MarkdownDocx.Files

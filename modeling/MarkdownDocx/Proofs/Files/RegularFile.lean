import MarkdownDocx.Proofs.Files.StyleFile
import MarkdownDocx.Proofs.Json.RoundTrip
import MarkdownDocx.Proofs.Style.OutOfRange
import MarkdownDocx.Proofs.Text.Feeds

/-!
What the bytes of a style file come to, whatever the styles and settings are that it overrides. They
are used, or they are at fault, or they stop everything without a fault of style.
-/

set_option autoImplicit false

namespace MarkdownDocx.Files

open MarkdownDocx.Style (StyleTable StyleKey Settings Sound SoundStyle SoundSettings Oversized
  SettingInfinite)

/-- What the text of a file writes, if its bytes are a text, for a reader that lets so much be
nested. -/
def contentOf (depth : Nat) (data : ByteArray) : Option (Except Json.ReadError Json) :=
  (textOf data).map (Json.read depth)

/-- The bytes write an object with sound records for the styles and for the settings. -/
inductive Usable (depth : Nat) (data : ByteArray) : Prop
  | intro {members : Json.Members} (hread : contentOf depth data = some (.ok (.obj members)))
      (hstyles : ∀ key : StyleKey, Sound SoundStyle (Json.find? key.name members))
      (hsettings : Sound (fun v => ∃ settings, v = .obj settings ∧ SoundSettings settings)
        (Json.find? settingsSection members))

/-- Bytes that stop everything without a fault of style: they are no text, or there is an integer of
too many digits or a bracket too deep inside others, or else a number that is out of range comes
before all that is at fault. -/
inductive Stray (depth : Nat) (data : ByteArray) : Failure → Prop
  | notText (h : contentOf depth data = none) : Stray depth data (.file .notText)
  | numeral (h : contentOf depth data = some (.error .tooManyDigits)) :
      Stray depth data .numeralTooLong
  | nested {opened : Json.Bracket} (h : contentOf depth data = some (.error (.tooDeep opened))) :
      Stray depth data (.nestedTooDeep opened)
  | size {members : Json.Members} (hread : contentOf depth data = some (.ok (.obj members)))
      (h : Oversized members StyleKey.all) : Stray depth data (.style .tooLarge)
  | setting {members settings : Json.Members}
      (hread : contentOf depth data = some (.ok (.obj members)))
      (hstyles : ∀ key : StyleKey, Sound SoundStyle (Json.find? key.name members))
      (hsettings : Json.find? settingsSection members = some (.obj settings))
      (h : SettingInfinite settings) : Stray depth data (.style .infinite)

/-- What has been written is read again. -/
theorem contentOf_write {depth : ℕ} {v : Json} (h : Json.Restorable depth v) :
    contentOf depth (Json.write v).toUTF8 = some (.ok v) := by
  have hdecode : String.fromUTF8? (Json.write v).toUTF8 = some (Json.write v) :=
    dif_pos (Json.write v).isValidUTF8
  unfold contentOf textOf
  rw [hdecode, Option.map_some, Text.unifyFeeds_of_not_mem (Json.return_not_mem_write h),
    String.ofList_toList, Option.map_some, Json.read_write h]

theorem isConfig_iff {e : Failure} : isConfig e = true ↔ ∃ fault, e = .style (.config fault) := by
  unfold isConfig
  split <;> simp_all

theorem isConfig_of_stray {depth : Nat} {data : ByteArray} {e : Failure}
    (h : Stray depth data e) : isConfig e = false := by
  cases h <;> rfl

/-- The object that a file has to hold. -/
def objectOf (json : Json.Setup) (path : String) (data : ByteArray) :
    Except Failure Json.Members :=
  match textOf data with
  | none => .error (.file .notText)
  | some text =>
    match Json.read json.depth text with
    | .error .malformed => configFailure (.fileMalformed path (json.fault text))
    | .error .tooManyDigits => .error .numeralTooLong
    | .error (.tooDeep opened) => .error (.nestedTooDeep opened)
    | .ok (.obj members) => .ok members
    | .ok _ => configFailure (.fileNotObject path)

section RegularFile

variable {json : Json.Setup} {t : Tree} {path : String} {place : Location} {data : ByteArray}

theorem objectOf_eq_ok_iff {members : Json.Members} :
    objectOf json path data = .ok members ↔
      contentOf json.depth data = some (.ok (.obj members)) := by
  unfold objectOf contentOf
  cases textOf data with
  | none => simp
  | some text =>
    cases hread : Json.read json.depth text with
    | error e => cases e <;> simp [hread, configFailure]
    | ok value => cases value <;> simp [hread, configFailure]

theorem objectOf_eq_error_iff {e : Failure} (he : isConfig e = false) :
    objectOf json path data = .error e ↔
      e = .file .notText ∧ contentOf json.depth data = none ∨
        e = .numeralTooLong ∧ contentOf json.depth data = some (.error .tooManyDigits) ∨
          ∃ opened, e = .nestedTooDeep opened ∧
            contentOf json.depth data = some (.error (.tooDeep opened)) := by
  have hconfig : ∀ fault, Failure.style (.config fault) ≠ e := by
    rintro fault rfl
    cases he
  unfold objectOf contentOf
  cases textOf data with
  | none => simp [eq_comm]
  | some text =>
    cases hread : Json.read json.depth text with
    | error f =>
      cases f with
      | malformed => simp [hread, configFailure, hconfig]
      | tooManyDigits => simp [hread, eq_comm]
      | tooDeep opened => simp [hread, eq_comm]
    | ok value => cases value <;> simp [hread, configFailure, hconfig]

theorem readOverrides_file
    (hfile : t.look (Path.ofString path) = .ok (.file place (.bytes data))) :
    readOverrides json t (Path.ofString path) =
      objectOf json (Path.ofString path).text data := by
  unfold readOverrides objectOf
  simp only [Tree.has_of_file hfile, Tree.readText_of_file hfile]
  cases textOf data <;> rfl

theorem overrideSettings_reads (base : Settings) (members : Json.Members) :
    Style.Reads (overrideSettings base members)
      (Sound (fun v => ∃ settings, v = .obj settings ∧ SoundSettings settings)
        (Json.find? settingsSection members))
      fun e => ∃ v, Json.find? settingsSection members = some v ∧ e = .infinite ∧
        ∃ settings, v = .obj settings ∧ SettingInfinite settings := by
  have h := Style.valueOr_reads base.override_reads base (Json.find? settingsSection members)
  unfold overrideSettings
  cases hv : Json.find? settingsSection members with
  | none => simpa only [hv, Style.valueOr] using h
  | some v => simpa only [hv, Style.valueOr] using h

/-- The styles and the settings of an object, over others. -/
def loadMembers (members : Json.Members) (styles : StyleTable) (settings : Settings) :
    Except Style.Error (StyleTable × Settings) := do
  let merged ← (styles.merge (.obj members)).result
  let overridden ← overrideSettings settings members
  return (merged, overridden)

theorem loadMembers_reads (members : Json.Members) (styles : StyleTable) (settings : Settings) :
    Style.Reads (loadMembers members styles settings)
      ((∀ key : StyleKey, Sound SoundStyle (Json.find? key.name members)) ∧
        Sound (fun v => ∃ data, v = .obj data ∧ SoundSettings data)
          (Json.find? settingsSection members))
      fun e => e = .tooLarge ∧ Oversized members StyleKey.all ∨
        (∀ key : StyleKey, Sound SoundStyle (Json.find? key.name members)) ∧
          ∃ v, Json.find? settingsSection members = some v ∧ e = .infinite ∧
            ∃ data, v = .obj data ∧ SettingInfinite data :=
  ((Style.merge_reads members styles).bind fun _ => (overrideSettings_reads settings members).bind
    fun _ => Style.Reads.ok _).congr (by simp) (by simp)

/-- The styles are merged before the settings are read. -/
theorem loadConfig_result (styles : StyleTable) (settings : Settings) :
    (loadConfig json t (some path) styles settings).result =
      readOverrides json t (Path.ofString path) >>= fun members =>
        (loadMembers members styles settings).mapError Failure.style := by
  simp only [loadConfig, Logged.bind_result, Logged.ofExcept_result, Logged.mapError_result]
  cases readOverrides json t (Path.ofString path) with
  | error e => rfl
  | ok members =>
    change ((styles.merge (.obj members)).result.mapError Failure.style >>= fun merged =>
      (overrideSettings settings members).mapError Failure.style >>= fun overridden =>
        .ok (merged, overridden)) = (loadMembers members styles settings).mapError Failure.style
    unfold loadMembers
    cases (styles.merge (.obj members)).result with
    | error e => rfl
    | ok merged => cases overrideSettings settings members <;> rfl

/-- A regular file is used just if its bytes write sound records; it stops everything without a
fault of style just if they are stray; and it is at fault if they are neither. What it is loaded over
has no part in this. -/
theorem loadConfig_regularFile
    (hfile : t.look (Path.ofString path) = .ok (.file place (.bytes data))) (styles : StyleTable)
    (settings : Settings) :
    let r := (loadConfig json t (some path) styles settings).result
    ((∃ loaded, r = .ok loaded) ↔ Usable json.depth data) ∧
    (∀ e, isConfig e = false → (r = .error e ↔ Stray json.depth data e)) ∧
    ((∃ fault, r = .error (.style (.config fault))) ↔
      ¬Usable json.depth data ∧ ∀ e, ¬Stray json.depth data e) := by
  intro r
  have hr : r = objectOf json (Path.ofString path).text data >>= fun members =>
      (loadMembers members styles settings).mapError Failure.style := by
    rw [← readOverrides_file hfile]
    exact loadConfig_result styles settings
  have hok : (∃ loaded, r = .ok loaded) ↔ Usable json.depth data := by
    simp only [hr, except_bind_eq_ok_iff, objectOf_eq_ok_iff, mapError_eq_ok_iff]
    constructor
    · rintro ⟨loaded, members, hread, h⟩
      obtain ⟨hstyles, hsettings⟩ :=
        (loadMembers_reads members styles settings).ok_iff.1 ⟨loaded, h⟩
      exact ⟨hread, hstyles, hsettings⟩
    · rintro ⟨hread, hstyles, hsettings⟩
      obtain ⟨loaded, h⟩ := (loadMembers_reads _ styles settings).ok_iff.2 ⟨hstyles, hsettings⟩
      exact ⟨loaded, _, hread, h⟩
  have hstray : ∀ e, isConfig e = false → (r = .error e ↔ Stray json.depth data e) := by
    intro e he
    rw [hr, except_bind_eq_error_iff, objectOf_eq_error_iff he]
    simp only [objectOf_eq_ok_iff, mapError_eq_error_iff]
    constructor
    · rintro ((⟨rfl, h⟩ | ⟨rfl, h⟩ | ⟨opened, rfl, h⟩) | ⟨members, hread, fault, hfault, rfl⟩)
      · exact .notText h
      · exact .numeral h
      · exact .nested h
      · have hne : ∀ f, fault ≠ .config f := by
          rintro f rfl
          cases he
        rcases ((loadMembers_reads members styles settings).error_iff fault hne).1 hfault with
          ⟨rfl, h⟩ | ⟨hstyles, _, hsettings, rfl, _, rfl, h⟩
        · exact .size hread h
        · exact .setting hread hstyles hsettings h
    · intro h
      cases h with
      | notText h => exact .inl (.inl ⟨rfl, h⟩)
      | numeral h => exact .inl (.inr (.inl ⟨rfl, h⟩))
      | nested h => exact .inl (.inr (.inr ⟨_, rfl, h⟩))
      | size hread h =>
        exact .inr ⟨_, hread, _, ((loadMembers_reads _ styles settings).error_iff _ (by simp)).2
          (.inl ⟨rfl, h⟩), rfl⟩
      | setting hread hstyles hsettings h =>
        exact .inr ⟨_, hread, _, ((loadMembers_reads _ styles settings).error_iff _ (by simp)).2
          (.inr ⟨hstyles, _, hsettings, rfl, _, rfl, h⟩), rfl⟩
  refine ⟨hok, hstray, ?_⟩
  rw [← hok]
  constructor
  · rintro ⟨fault, hfault⟩
    refine ⟨?_, fun e h => ?_⟩
    · simp [hfault]
    · have he := isConfig_of_stray h
      rw [← hstray e he, hfault] at h
      cases h
      cases he
  · rintro ⟨hnone, hno⟩
    cases hcases : r with
    | ok loaded => exact absurd ⟨loaded, hcases⟩ hnone
    | error e =>
      cases he : isConfig e with
      | false => exact absurd ((hstray e he).1 hcases) (hno e)
      | true =>
        obtain ⟨fault, rfl⟩ := isConfig_iff.1 he
        exact ⟨fault, rfl⟩

end RegularFile

/-! Two regular files: one that is no text, and one with an infinite setting. -/

def styleFileTree (data : ByteArray) : Tree := ⟨[(["s.json"], .file (.bytes data))]⟩

def noText : ByteArray := ⟨#[0xff]⟩

def infiniteSettings : Json.Members :=
  [("document", .obj [("spacing_after", .real (.infinite false))])]

def infiniteSpace : ByteArray := (Json.write (.obj infiniteSettings)).toUTF8

def sampleReader : Json.Setup := { depth := 990, fault := fun _ => "Expecting value" }

theorem look_styleFileTree (data : ByteArray) :
    (styleFileTree data).look (Path.ofString "s.json") = .ok (.file ["s.json"] (.bytes data)) :=
  Tree.look_eq_walk (by decide) (by decide)

theorem contentOf_noText : contentOf sampleReader.depth noText = none :=
  Option.map_eq_none_iff.2 (by decide)

theorem contentOf_infiniteSpace :
    contentOf sampleReader.depth infiniteSpace = some (.ok (.obj infiniteSettings)) :=
  contentOf_write (.singleton _ (.singleton _ (.real trivial)))

theorem sound_infiniteSpace (key : StyleKey) :
    Sound SoundStyle (Json.find? key.name infiniteSettings) := by
  cases key <;> simp [Sound, Json.find?, StyleKey.name, infiniteSettings]

theorem settingInfinite_infiniteSpace :
    SettingInfinite [("spacing_after", .real (.infinite false))] :=
  .after (v := .real (.infinite false)) (by simp [Sound, Style.findEither?, Json.find?])
    (by simp [Sound, Style.findEither?, Json.find?]) (by simp [Sound, Json.find?])
    (by simp [Style.findEither?, Json.find?]) trivial

/-- Both files are there and are loaded over a template, and neither is reported as a fault. -/
theorem loadConfig_strayFiles :
    (loadConfig sampleReader (styleFileTree noText) (some "s.json") Style.government.styles
      Style.government.settings).result = .error (.file .notText) ∧
    (loadConfig sampleReader (styleFileTree infiniteSpace) (some "s.json")
      Style.government.styles Style.government.settings).result = .error (.style .infinite) := by
  constructor
  · rw [loadConfig_result, readOverrides_file (look_styleFileTree _)]
    exact except_bind_eq_error_iff.2
      (.inl ((objectOf_eq_error_iff rfl).2 (.inl ⟨rfl, contentOf_noText⟩)))
  · rw [loadConfig_result, readOverrides_file (look_styleFileTree _)]
    refine except_bind_eq_error_iff.2 (.inr ⟨_, objectOf_eq_ok_iff.2 contentOf_infiniteSpace,
      mapError_eq_error_iff.2 ⟨_, ?_, rfl⟩⟩)
    exact ((loadMembers_reads _ _ _).error_iff _ (by simp)).2
      (.inr ⟨sound_infiniteSpace, _, rfl, rfl, _, rfl, settingInfinite_infiniteSpace⟩)

theorem loadConfig_regularFile_sample :
    (styleFileTree infiniteSpace).look (Path.ofString "s.json") =
      .ok (.file ["s.json"] (.bytes infiniteSpace)) ∧
    (loadConfig sampleReader (styleFileTree infiniteSpace) (some "s.json") Style.english.styles
      Style.english.settings).result = .error (.style .infinite) := by
  have hfile := look_styleFileTree infiniteSpace
  obtain ⟨-, hstray, -⟩ := @loadConfig_regularFile sampleReader _ _ _ _ hfile
    Style.english.styles Style.english.settings
  refine ⟨hfile, (hstray _ rfl).2 ?_⟩
  exact .setting contentOf_infiniteSpace sound_infiniteSpace rfl settingInfinite_infiniteSpace

end MarkdownDocx.Files

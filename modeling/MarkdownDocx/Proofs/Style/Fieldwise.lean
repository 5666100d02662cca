import Mathlib.Logic.Function.Basic
import MarkdownDocx.Proofs.Style.OutOfRange

/-!
Records that are overridden field by field. An override gives something for some of the fields, and
each of these has the value that is given; the others stay. All laws of overrides follow from that
alone: what they do twice, in another order and at once. The fields of a style are such fields.
-/

set_option autoImplicit false

namespace MarkdownDocx.Json

theorem find?_eq (key : WideString) (members : Members) :
    find? key members = (members.find? fun m => m.1 == key).map Prod.snd := by
  induction members with
  | nil => rfl
  | cons m rest ih =>
    obtain ⟨k, v⟩ := m
    by_cases h : k = key <;> simp [find?, h, ih]

theorem find?_append (key : WideString) (xs ys : Members) :
    find? key (xs ++ ys) = (find? key xs).or (find? key ys) := by
  rw [find?_eq, List.find?_append, Option.map_or, ← find?_eq, ← find?_eq]

/-- The members of these names. -/
def only (names : List WideString) (members : Members) : Members := members.filter fun m => m.1 ∈ names

theorem find?_only {names : List WideString} {key : WideString} (h : key ∈ names) (members : Members) :
    find? key (only names members) = find? key members := by
  rw [find?_eq, find?_eq, only, List.find?_filter]
  congr 2
  funext m
  by_cases hm : m.1 = key <;> simp [hm, h]

theorem find?_map (part : WideString → Json → Json) (key : WideString) (members : Members) :
    find? key (members.map fun m => (m.1, part m.1 m.2)) = (find? key members).map (part key) := by
  induction members with
  | nil => rfl
  | cons m rest ih =>
    obtain ⟨k, v⟩ := m
    by_cases h : k = key
    · simp [find?, h]
    · simpa [find?, h] using ih

end MarkdownDocx.Json

namespace MarkdownDocx.Style

section Overridden

variable {Record Field ε : Type} {Value : Field → Type} {get : (f : Field) → Record → Value f}
  {given given' : (f : Field) → Option (Except ε (Value f))} {base a b : Record}

/-- What an override that gives these values makes of a record. A given value may be an error, and
then it makes nothing of it. -/
def Overridden (get : (f : Field) → Record → Value f)
    (given : (f : Field) → Option (Except ε (Value f))) (base after : Record) : Prop :=
  ∀ f, (given f).getD (.ok (get f base)) = .ok (get f after)

theorem Overridden.kept (h : Overridden get given base a) {f : Field} (hf : given f = none) :
    get f a = get f base := by
  have hvalue := h f
  rw [hf, Option.getD_none] at hvalue
  exact (Except.ok.inj hvalue).symm

theorem Overridden.replaced (h : Overridden get given base a) {f : Field}
    {r : Except ε (Value f)} (hf : given f = some r) : r = .ok (get f a) := by
  have hvalue := h f
  rwa [hf, Option.getD_some] at hvalue

theorem overridden_of {given : (f : Field) → Option (Except ε (Value f))}
    (hkept : ∀ f, given f = none → get f a = get f base)
    (hreplaced : ∀ f r, given f = some r → r = .ok (get f a)) : Overridden get given base a := by
  intro f
  cases hf : given f with
  | none => rw [Option.getD_none, hkept f hf]
  | some r => rw [Option.getD_some, hreplaced f r hf]

/-- A second time nothing changes. -/
theorem Overridden.again (h : Overridden get given base a) : Overridden get given a a :=
  overridden_of (fun _ _ => rfl) fun _ _ hf => h.replaced hf

theorem Overridden.unique (hget : Function.Injective fun (r : Record) (f : Field) => get f r)
    (ha : Overridden get given base a) (hb : Overridden get given base b) : a = b :=
  hget (funext fun f => Except.ok.inj ((ha f).symm.trans (hb f)))

/-- Overrides that give nothing for the same field can be applied one after the other, in either
order, and at once. -/
theorem Overridden.both (hget : Function.Surjective fun (r : Record) (f : Field) => get f r)
    (ha : Overridden get given base a) (hb : Overridden get given' base b)
    (hapart : ∀ f, given f = none ∨ given' f = none) :
    ∃ c, Overridden get given' a c ∧ Overridden get given b c ∧
      Overridden get (fun f => (given f).or (given' f)) base c := by
  obtain ⟨c, hc⟩ := hget fun f => if (given' f).isSome then get f b else get f a
  replace hc : ∀ f, get f c = if (given' f).isSome then get f b else get f a := congrFun hc
  -- a field that the first one gives is that of `a`, and is not given by the second
  have hfirst : ∀ f r, given f = some r → given' f = none ∧ get f c = get f a := by
    intro f r hf
    have hf' : given' f = none := (hapart f).resolve_left (by simp [hf])
    exact ⟨hf', by simp [hc, hf']⟩
  have hsecond : ∀ f r, given' f = some r → given f = none ∧ get f c = get f b := by
    intro f r hf
    exact ⟨(hapart f).resolve_right (by simp [hf]), by simp [hc, hf]⟩
  refine ⟨c, overridden_of (fun f hf => by simp [hc, hf]) fun f r hf => ?_,
    overridden_of (fun f hf => ?_) fun f r hf => ?_,
    overridden_of (fun f hf => ?_) fun f r hf => ?_⟩
  · rw [(hsecond f r hf).2]
    exact hb.replaced hf
  · cases hf' : given' f with
    | none => simp [hc, hf', ha.kept hf, hb.kept hf']
    | some r => exact (hsecond f r hf').2
  · rw [(hfirst f r hf).2]
    exact ha.replaced hf
  · obtain ⟨hf, hf'⟩ := Option.or_eq_none_iff.1 hf
    simp [hc, hf', ha.kept hf]
  · rcases Option.or_eq_some_iff.1 hf with hf | ⟨-, hf⟩
    · rw [(hfirst f r hf).2]
      exact ha.replaced hf
    · rw [(hsecond f r hf).2]
      exact hb.replaced hf

end Overridden

theorem valueOr_eq {α : Type} (read : Json → Except Error α) (before : α) (value : Option Json) :
    valueOr read before value = (value.map read).getD (.ok before) := by
  cases value <;> rfl

/-! ## The fields of a style -/

inductive StyleField where
  | font
  | size
  | bold
  | italic
  | center
  | indent
  | englishFont
  deriving DecidableEq, Repr

namespace StyleField

def all : List StyleField := [.font, .size, .bold, .italic, .center, .indent, .englishFont]

def name : StyleField → String
  | .font => "font"
  | .size => "size"
  | .bold => "bold"
  | .italic => "italic"
  | .center => "center"
  | .indent => "indent"
  | .englishFont => "english_font"

def Value : StyleField → Type
  | .font => WideString
  | .size => Points
  | .bold => Bool
  | .italic => Bool
  | .center => Bool
  | .indent => Bool
  | .englishFont => Option WideString

def get : (f : StyleField) → TextStyle → f.Value
  | .font, s => s.font
  | .size, s => s.size
  | .bold, s => s.bold
  | .italic, s => s.italic
  | .center, s => s.center
  | .indent, s => s.indent
  | .englishFont, s => s.englishFont

/-- What a record has for the English font, under either of its keys. `null` is nothing. -/
def findEnglishFont? (data : Json.Members) : Option Json :=
  match findEither? "english_font" "englishFont" data with
  | some .null => none
  | value => value

/-- What a record names for a field. -/
def find? (f : StyleField) (data : Json.Members) : Option Json :=
  if f = .englishFont then findEnglishFont? data else Json.find? f.name data

def readFlag (field : String) : Json → Except Error Bool
  | .bool b => .ok b
  | v => .error (.config (.flagNotBool field v))

/-- The value of a field that is named. -/
def read : (f : StyleField) → Json → Except Error f.Value
  | .font, v => .ok v.asText
  | .size, v => (parseSize v).result
  | .bold, v => readFlag "bold" v
  | .italic, v => readFlag "italic" v
  | .center, v => readFlag "center" v
  | .indent, v => readFlag "indent" v
  | .englishFont, v => .ok (some v.asText)

theorem bijective_get : Function.Bijective fun (s : TextStyle) (f : StyleField) => f.get s := by
  constructor
  · rintro ⟨⟩ ⟨⟩ h
    have hfields := congrFun h
    obtain rfl := hfields .font
    obtain rfl := hfields .size
    obtain rfl := hfields .bold
    obtain rfl := hfields .italic
    obtain rfl := hfields .center
    obtain rfl := hfields .indent
    obtain rfl := hfields .englishFont
    rfl
  · intro v
    refine ⟨⟨v .font, v .size, v .bold, v .italic, v .center, v .indent, v .englishFont⟩, ?_⟩
    funext f
    cases f <;> rfl

end StyleField

theorem readFlag_eq (data : Json.Members) (field : String) (before : Bool) :
    readFlag data field before =
      ((Json.find? field data).map (StyleField.readFlag field)).getD (.ok before) := by
  unfold readFlag
  cases Json.find? field data with
  | none => rfl
  | some v => cases v <;> rfl

theorem font_eq (data : Json.Members) (before : WideString) :
    (.ok (((Json.find? "font" data).map Json.asText).getD before) : Except Error WideString) =
      ((Json.find? "font" data).map StyleField.font.read).getD (.ok before) := by
  cases Json.find? "font" data <;> rfl

theorem englishFont_eq (data : Json.Members) (before : Option WideString) :
    (.ok ((englishFontOf? data).orElse fun _ => before) : Except Error (Option WideString)) =
      ((StyleField.findEnglishFont? data).map StyleField.englishFont.read).getD (.ok before) := by
  unfold englishFontOf? StyleField.findEnglishFont? findEither?
  cases (Json.find? "english_font" data).orElse fun _ => Json.find? "englishFont" data with
  | none => rfl
  | some v => cases v <;> rfl

/-- A style is overridden by a record field by field. -/
theorem TextStyle.override_eq_ok_iff {base s : TextStyle} {data : Json.Members} :
    (base.override data).result = .ok s ↔
      Overridden StyleField.get (fun f => (f.find? data).map f.read) base s := by
  rw [override_eq]
  simp only [Logged.bind_result_eq_ok, sizeOr_result, valueOr_eq, Logged.ofExcept_result,
    readFlag_eq]
  constructor
  · rintro ⟨size, hsize, bold, hbold, italic, hitalic, center, hcenter, indent, hindent, hs⟩ f
    obtain rfl := Except.ok.inj hs
    cases f with
    | font => exact (font_eq data base.font).symm
    | size => exact hsize
    | bold => exact hbold
    | italic => exact hitalic
    | center => exact hcenter
    | indent => exact hindent
    | englishFont => exact (englishFont_eq data base.englishFont).symm
  · intro h
    have hfont : _ = s.font := Except.ok.inj ((font_eq data base.font).trans (h .font))
    have henglish : _ = s.englishFont :=
      Except.ok.inj ((englishFont_eq data base.englishFont).trans (h .englishFont))
    refine ⟨s.size, h .size, s.bold, h .bold, s.italic, h .italic, s.center, h .center, s.indent,
      h .indent, ?_⟩
    rw [hfont, henglish]
    rfl

end MarkdownDocx.Style

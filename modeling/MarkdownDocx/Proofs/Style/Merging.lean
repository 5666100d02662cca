import MarkdownDocx.Proofs.Style.Fieldwise
import MarkdownDocx.Style.Template

/-!
Overrides are merged into a style table field by field. What they give is a partial record over all
fields of all styles, and the merged table is a new one in which these are replaced and nothing else.
So a second merge does nothing, other names do not matter, and overrides that give nothing in common
can come in either order, or as one.
-/

set_option autoImplicit false

namespace MarkdownDocx.Style

/-- An override that a style can be made of. -/
def Override.IsRecord : Override → Prop
  | .style _ => True
  | .data (.obj _) => True
  | .data _ => False

/-- What an override gives for a field. A whole style gives something for all of them. -/
def Override.given (o : Override) (f : StyleField) : Option (Except Error f.Value) :=
  match o with
  | .style s => some (.ok (f.get s))
  | .data (.obj members) => (f.find? members).map f.read
  | .data _ => none

theorem Override.apply_eq_ok_iff {o : Override} {key : StyleKey} {base s : TextStyle} :
    (o.apply key base).result = .ok s ↔
      o.IsRecord ∧ Overridden StyleField.get o.given base s := by
  cases o with
  | style t =>
    constructor
    · intro h
      obtain rfl := Except.ok.inj h
      exact ⟨trivial, fun f => rfl⟩
    · rintro ⟨-, h⟩
      have hts : t = s := StyleField.bijective_get.1 (funext fun f => Except.ok.inj (h f))
      rw [hts]
      rfl
  | data v =>
    cases v with
    | obj members =>
      rw [and_iff_right (show (Override.data (.obj members)).IsRecord from trivial)]
      exact TextStyle.override_eq_ok_iff
    | _ => simp [Override.apply, Override.IsRecord, Logged.fail]

/-! ## The fields of a table -/

/-- A field of the style under a key. -/
structure Slot where
  key : StyleKey
  field : StyleField

namespace Slot

abbrev Value (p : Slot) : Type := p.field.Value

def get (p : Slot) (style : StyleKey → TextStyle) : p.Value := p.field.get (style p.key)

theorem bijective_get :
    Function.Bijective fun (style : StyleKey → TextStyle) (p : Slot) => p.get style := by
  constructor
  · intro style style' h
    funext key
    exact StyleField.bijective_get.1 (funext fun f => congrFun h ⟨key, f⟩)
  · intro v
    have hstyle (key : StyleKey) := StyleField.bijective_get.2 fun f => v ⟨key, f⟩
    exact ⟨fun key => (hstyle key).choose,
      funext fun p => congrFun (hstyle p.key).choose_spec p.field⟩

end Slot

/-- What overrides give for a field of the style under a key. -/
def givenFor (overrides : List (WideString × Override)) (p : Slot) : Option (Except Error p.Value) :=
  (findOverride? p.key.name overrides).bind fun o => o.given p.field

def RecordAt (overrides : List (WideString × Override)) (key : StyleKey) : Prop :=
  ∀ o, findOverride? key.name overrides = some o → o.IsRecord

/-- What overrides make of the style under a key. -/
def MergedAt (overrides : List (WideString × Override)) (key : StyleKey) (base s : TextStyle) : Prop :=
  RecordAt overrides key ∧
    Overridden StyleField.get (fun f => givenFor overrides ⟨key, f⟩) base s

theorem StyleTable.set_self (t : StyleTable) (key : StyleKey) : t.set key (t.style key) = t := by
  obtain ⟨style, others⟩ := t
  simp only [StyleTable.set, StyleTable.mk.injEq, and_true]
  funext k
  by_cases h : k = key <;> simp [h]

theorem mergeKeys_cons_eq_ok_iff {overrides : List (WideString × Override)} {key : StyleKey}
    {keys : List StyleKey} {t m : StyleTable} :
    (mergeKeys overrides (key :: keys) t).result = .ok m ↔
      ∃ s, MergedAt overrides key (t.style key) s ∧
        (mergeKeys overrides keys (t.set key s)).result = .ok m := by
  cases ho : findOverride? key.name overrides with
  | none =>
    have hmerged : ∀ s, MergedAt overrides key (t.style key) s ↔ t.style key = s := by
      intro s
      refine ⟨fun h => ?_, fun h => ⟨by simp [RecordAt, ho], fun f => by simp [givenFor, ho, h]⟩⟩
      exact StyleField.bijective_get.1 (funext fun f => (h.2.kept (by simp [givenFor, ho])).symm)
    simp only [mergeKeys, ho, hmerged, exists_eq_left', StyleTable.set_self]
  | some o =>
    simp only [mergeKeys, ho, Logged.bind_result_eq_ok, Override.apply_eq_ok_iff]
    simp only [MergedAt, RecordAt, givenFor, ho, Option.some.injEq, forall_eq', Option.bind_some]

theorem mergeKeys_eq_ok_iff {overrides : List (WideString × Override)} {keys : List StyleKey}
    (hkeys : keys.Nodup) {t m : StyleTable} :
    (mergeKeys overrides keys t).result = .ok m ↔
      (∀ key ∈ keys, MergedAt overrides key (t.style key) (m.style key)) ∧
        (∀ key ∉ keys, m.style key = t.style key) ∧ m.others = t.others := by
  induction keys generalizing t with
  | nil =>
    obtain ⟨style, others⟩ := t
    obtain ⟨style', others'⟩ := m
    simp [mergeKeys, Logged.pure, funext_iff, eq_comm]
  | cons key keys ih =>
    -- the keys are distinct, so the style under the first one is not touched again
    obtain ⟨hnew, hkeys⟩ := List.nodup_cons.1 hkeys
    rw [mergeKeys_cons_eq_ok_iff]
    simp only [ih hkeys]
    constructor
    · rintro ⟨s, hs, hmerged, hkept, hothers⟩
      have hkey : m.style key = s := by simpa [StyleTable.set] using hkept key hnew
      refine ⟨fun k hk => ?_, fun k hk => ?_, hothers⟩
      · rcases List.mem_cons.1 hk with rfl | hk
        · rwa [hkey]
        · have hne : k ≠ key := fun h => hnew (h ▸ hk)
          simpa [StyleTable.set, hne] using hmerged k hk
      · obtain ⟨hne, hk⟩ := not_or.1 (mt List.mem_cons.2 hk)
        simpa [StyleTable.set, hne] using hkept k hk
    · rintro ⟨hmerged, hkept, hothers⟩
      refine ⟨m.style key, hmerged key (by simp), fun k hk => ?_, fun k hk => ?_, hothers⟩
      · have hne : k ≠ key := fun h => hnew (h ▸ hk)
        simpa [StyleTable.set, hne] using hmerged k (by simp [hk])
      · by_cases hne : k = key
        · simp [StyleTable.set, hne]
        · simpa [StyleTable.set, hne] using hkept k (by simp [hne, hk])

/-- Overrides are merged into a table field by field. -/
theorem mergeEntries_eq_ok_iff {b m : StyleTable} {overrides : List (WideString × Override)} :
    (b.mergeEntries overrides).result = .ok m ↔
      (∀ key, RecordAt overrides key) ∧
        Overridden Slot.get (givenFor overrides) b.style m.style ∧ m.others = b.others := by
  have hall : StyleKey.all.Nodup := by decide
  rw [StyleTable.mergeEntries, mergeKeys_eq_ok_iff hall]
  simp only [StyleKey.mem_all, forall_const, not_true_eq_false, false_implies, implies_true,
    true_and]
  constructor
  · rintro ⟨h, hothers⟩
    exact ⟨fun key => (h key).1, fun p => (h p.key).2 p.field, hothers⟩
  · rintro ⟨hrecord, h, hothers⟩
    exact ⟨fun key => ⟨hrecord key, fun f => h ⟨key, f⟩⟩, hothers⟩

/-- Only what is found under the keys matters. -/
theorem mergeKeys_congr {overrides overrides' : List (WideString × Override)} {keys : List StyleKey}
    (h : ∀ key ∈ keys, findOverride? key.name overrides = findOverride? key.name overrides')
    (t : StyleTable) : mergeKeys overrides keys t = mergeKeys overrides' keys t := by
  induction keys generalizing t with
  | nil => rfl
  | cons key keys ih =>
    have hrest : ∀ t, mergeKeys overrides keys t = mergeKeys overrides' keys t :=
      ih fun k hk => h k (by simp [hk])
    simp only [mergeKeys, h key (by simp), hrest]

theorem StyleKey.injective_name :
    Function.Injective fun key : StyleKey => WideString.ofString key.name := by
  intro key key' h
  cases key <;> cases key' <;> first | rfl | exact absurd h (by decide)

theorem StyleKey.ofName?_name (key : StyleKey) : StyleKey.ofName? key.name = some key := by
  cases key <;> decide

/-- Overrides under names that are keys. -/
def knownOverrides (overrides : List (WideString × Override)) : List (WideString × Override) :=
  overrides.filter fun p => (p.1.text?.bind StyleKey.ofName?).isSome

theorem findOverride?_knownOverrides (key : StyleKey) (overrides : List (WideString × Override)) :
    findOverride? key.name (knownOverrides overrides) = findOverride? key.name overrides := by
  unfold findOverride? knownOverrides
  rw [List.find?_filter]
  congr 2
  funext p
  by_cases hp : p.1 = WideString.ofString key.name <;> simp [hp, StyleKey.ofName?_name]

/-! ## Several overrides as one -/

/-- Among entries made of keys of different names, one is found under its own. -/
theorem find?_entries {α β : Type} {name : α → WideString} (hname : Function.Injective name)
    (value : α → Option β) {keys : List α} {a : α} (ha : a ∈ keys) :
    ((keys.filterMap fun k => (value k).map fun v => (name k, v)).find?
      fun p => p.1 == name a).map Prod.snd = value a := by
  generalize hentries : (keys.filterMap fun k => (value k).map fun v => (name k, v)) = entries
  cases hfound : entries.find? fun p => p.1 == name a with
  | none =>
    cases hv : value a with
    | none => rfl
    | some v =>
      have hmem : (name a, v) ∈ entries := by
        rw [← hentries]
        exact List.mem_filterMap.2 ⟨a, ha, by simp [hv]⟩
      simpa using List.find?_eq_none.1 hfound _ hmem
  | some p =>
    have hmem := List.mem_of_find?_eq_some hfound
    rw [← hentries] at hmem
    obtain ⟨k, -, hk⟩ := List.mem_filterMap.1 hmem
    obtain ⟨v, hv, rfl⟩ := Option.map_eq_some_iff.1 hk
    have hka : k = a := hname (by simpa using List.find?_some hfound)
    rw [← hka, hv]
    rfl

namespace StyleField

theorem mem_all (f : StyleField) : f ∈ all := by
  cases f <;> decide

theorem injective_name : Function.Injective fun f : StyleField => WideString.ofString f.name := by
  intro f f' h
  cases f <;> cases f' <;> first | rfl | exact absurd h (by decide)

/-- A record that names these fields. -/
def record (value : StyleField → Option Json) : Json.Members :=
  all.filterMap fun f => (value f).map fun v => (f.name, v)

theorem find?_name_record (value : StyleField → Option Json) (f : StyleField) :
    Json.find? f.name (record value) = value f :=
  (Json.find?_eq _ _).trans (find?_entries injective_name value f.mem_all)

theorem find?_record {value : StyleField → Option Json} (h : value .englishFont ≠ some .null)
    (f : StyleField) : f.find? (record value) = value f := by
  by_cases hf : f = .englishFont
  · subst hf
    have hother : Json.find? "englishFont" (record value) = none := by
      rw [Json.find?_eq, Option.map_eq_none_iff, List.find?_eq_none]
      intro p hp
      obtain ⟨f, -, hf⟩ := List.mem_filterMap.1 hp
      obtain ⟨v, -, rfl⟩ := Option.map_eq_some_iff.1 hf
      have hne : f.name ≠ "englishFont" := by cases f <;> decide
      simpa using hne
    have hfirst : Json.find? "english_font" (record value) = value .englishFont :=
      find?_name_record value .englishFont
    rw [find?, if_pos rfl, findEnglishFont?, findEither?, hfirst, hother]
    cases hv : value .englishFont with
    | none => rfl
    | some v =>
      cases v with
      | null => exact absurd hv h
      | _ => rfl
  · rw [find?, if_neg hf]
    exact find?_name_record value f

theorem findEnglishFont?_ne_null (data : Json.Members) : findEnglishFont? data ≠ some .null := by
  unfold findEnglishFont?
  split
  · simp
  · assumption

end StyleField

def Override.joined : Override → Override → Override
  | .style s, _ => .style s
  | .data _, .style s => .style s
  | .data (.obj d), .data (.obj e) =>
    .data (.obj (StyleField.record fun f => (f.find? d).or (f.find? e)))
  | .data v, .data _ => .data v

theorem Override.isRecord_joined {a b : Override} (ha : a.IsRecord) (hb : b.IsRecord) :
    (a.joined b).IsRecord := by
  unfold Override.joined
  split <;> trivial

theorem Override.given_joined {a b : Override} (ha : a.IsRecord) (hb : b.IsRecord)
    (hapart : ∀ f, a.given f = none ∨ b.given f = none) (f : StyleField) :
    (a.joined b).given f = (a.given f).or (b.given f) := by
  cases a with
  | style s => rfl
  | data v =>
    cases b with
    | style s =>
      have hnone : (Override.data v).given f = none := (hapart f).resolve_right (by simp [given])
      rw [hnone]
      rfl
    | data w =>
      cases v with
      | obj d =>
        cases w with
        | obj e =>
          -- `null` is never found for the English font, so neither is it in the joined record
          let value (f : StyleField) := (f.find? d).or (f.find? e)
          have henglish : value .englishFont ≠ some .null := by
            intro h
            rcases Option.or_eq_some_iff.1 h with h | ⟨-, h⟩
            · exact StyleField.findEnglishFont?_ne_null d h
            · exact StyleField.findEnglishFont?_ne_null e h
          have hfind : f.find? (StyleField.record value) = (f.find? d).or (f.find? e) :=
            StyleField.find?_record henglish f
          calc (f.find? (StyleField.record value)).map f.read
              = ((f.find? d).or (f.find? e)).map f.read := by rw [hfind]
            _ = ((f.find? d).map f.read).or ((f.find? e).map f.read) := Option.map_or
        | _ => exact hb.elim
      | _ => exact ha.elim

/-- Two lists of overrides as one, with what either gives under every key. -/
def joinOverrides (o₁ o₂ : List (WideString × Override)) : List (WideString × Override) :=
  StyleKey.all.filterMap fun key =>
    (Option.merge Override.joined (findOverride? key.name o₁) (findOverride? key.name o₂)).map
      fun o => (key.name, o)

theorem findOverride?_joinOverrides (key : StyleKey) (o₁ o₂ : List (WideString × Override)) :
    findOverride? key.name (joinOverrides o₁ o₂) =
      Option.merge Override.joined (findOverride? key.name o₁) (findOverride? key.name o₂) :=
  find?_entries StyleKey.injective_name
    (fun key => Option.merge Override.joined (findOverride? key.name o₁) (findOverride? key.name o₂))
    key.mem_all

/-- Overrides that give just what one of two others gives. -/
structure Unites (o₁ o₂ o : List (WideString × Override)) : Prop where
  record : ∀ key, RecordAt o key
  given : ∀ p, givenFor o p = (givenFor o₁ p).or (givenFor o₂ p)

/-- Nothing is given twice. -/
def GiveApart (o₁ o₂ : List (WideString × Override)) : Prop :=
  ∀ p, givenFor o₁ p = none ∨ givenFor o₂ p = none

theorem unites_joinOverrides {o₁ o₂ : List (WideString × Override)}
    (h₁ : ∀ key, RecordAt o₁ key) (h₂ : ∀ key, RecordAt o₂ key) (hapart : GiveApart o₁ o₂) :
    Unites o₁ o₂ (joinOverrides o₁ o₂) := by
  constructor
  · intro key o ho
    rw [findOverride?_joinOverrides] at ho
    cases ha : findOverride? key.name o₁ with
    | none => exact h₂ key o (by simpa [ha] using ho)
    | some a =>
      cases hb : findOverride? key.name o₂ with
      | none => exact h₁ key o (by simpa [ha, hb] using ho)
      | some b =>
        obtain rfl : a.joined b = o := by simpa [ha, hb] using ho
        exact Override.isRecord_joined (h₁ key a ha) (h₂ key b hb)
  · rintro ⟨key, f⟩
    simp only [givenFor, findOverride?_joinOverrides]
    cases ha : findOverride? key.name o₁ with
    | none => simp
    | some a =>
      cases hb : findOverride? key.name o₂ with
      | none => simp
      | some b =>
        refine Override.given_joined (h₁ key a ha) (h₂ key b hb) (fun f' => ?_) f
        simpa [givenFor, ha, hb] using hapart ⟨key, f'⟩

theorem StyleTable.find?_name (t : StyleTable) (key : StyleKey) :
    t.find? key.name = some (t.style key) := by
  rw [StyleTable.find?, StyleKey.ofName?_name]

/-- The laws of overrides. A merge gives a table with a style under each of the keys, and takes
nothing but what is given for the fields. A second time it changes nothing, and names that are no
keys do not matter. Two lists of overrides that give nothing twice can be merged in either order,
and so can any list that gives just what they give; there is one. -/
theorem mergeEntries_fields {b m m₁ m₂ : StyleTable} {o o₁ o₂ : List (WideString × Override)}
    (h : (b.mergeEntries o).result = .ok m) (h₁ : (b.mergeEntries o₁).result = .ok m₁)
    (h₂ : (b.mergeEntries o₂).result = .ok m₂) :
    (∀ key, m.find? key.name = some (m.style key)) ∧ m.others = b.others ∧
      (∀ key, findOverride? key.name o = none → m.style key = b.style key) ∧
      (∀ p, givenFor o p = none → p.get m.style = p.get b.style) ∧
      (∀ p r, givenFor o p = some r → r = .ok (p.get m.style)) ∧
      (m.mergeEntries o).result = .ok m ∧
      b.mergeEntries (knownOverrides o) = b.mergeEntries o ∧
      (GiveApart o₁ o₂ → Unites o₁ o₂ (joinOverrides o₁ o₂) ∧
        ∃ both, (m₁.mergeEntries o₂).result = .ok both ∧ (m₂.mergeEntries o₁).result = .ok both ∧
          ∀ o₁₂, Unites o₁ o₂ o₁₂ → (b.mergeEntries o₁₂).result = .ok both) := by
  obtain ⟨hrecord, hmerged, hothers⟩ := mergeEntries_eq_ok_iff.1 h
  obtain ⟨hrecord₁, hmerged₁, hothers₁⟩ := mergeEntries_eq_ok_iff.1 h₁
  obtain ⟨hrecord₂, hmerged₂, hothers₂⟩ := mergeEntries_eq_ok_iff.1 h₂
  refine ⟨m.find?_name, hothers, fun key hkey => ?_, fun p hp => hmerged.kept hp,
    fun p r hp => hmerged.replaced hp, ?_, ?_, fun hapart => ?_⟩
  · refine StyleField.bijective_get.1 (funext fun f => ?_)
    exact hmerged.kept (f := ⟨key, f⟩) (by simp [givenFor, hkey])
  · exact mergeEntries_eq_ok_iff.2 ⟨hrecord, hmerged.again, rfl⟩
  · exact mergeKeys_congr (fun key _ => findOverride?_knownOverrides key o) b
  · refine ⟨unites_joinOverrides hrecord₁ hrecord₂ hapart, ?_⟩
    obtain ⟨style, hsecond, hfirst, hboth⟩ :=
      hmerged₁.both Slot.bijective_get.2 hmerged₂ hapart
    refine ⟨⟨style, b.others⟩, mergeEntries_eq_ok_iff.2 ⟨hrecord₂, hsecond, hothers₁.symm⟩,
      mergeEntries_eq_ok_iff.2 ⟨hrecord₁, hfirst, hothers₂.symm⟩, fun o₁₂ hunites => ?_⟩
    have hgiven : givenFor o₁₂ = fun p => (givenFor o₁ p).or (givenFor o₂ p) :=
      funext hunites.given
    exact mergeEntries_eq_ok_iff.2 ⟨hunites.record, hgiven ▸ hboth, rfl⟩

/-- A `null` names no English font, whatever there is under the other key. -/
def tallTitle : Json.Members :=
  [("title", .obj [("size", .str "小初"), ("english_font", .null), ("englishFont", .str "Arial")]),
    ("footnote", .int 9)]

def lightTitle : Json.Members :=
  [("title", .obj [("bold", .bool false), ("englishFont", .str "Georgia")])]

def tallLightTitle : Json.Members :=
  [("caption", .null), ("title", .obj [("english_font", .str "Georgia"), ("size", .str "小初"),
    ("bold", .bool false), ("colour", .str "red")])]

theorem giveApart_titles : GiveApart (overridesOf tallTitle) (overridesOf lightTitle) := by
  rintro ⟨key, f⟩
  cases key <;> cases f <;> first | exact .inl rfl | exact .inr rfl

theorem unites_titles : Unites (overridesOf tallTitle) (overridesOf lightTitle)
    (overridesOf tallLightTitle) := by
  constructor
  · intro key o ho
    cases key <;> cases ho
    trivial
  · rintro ⟨key, f⟩
    cases key <;> cases f <;> rfl

theorem mergeEntries_fields_titles :
    let b := government.styles
    ∃ tall light both : StyleTable,
      (b.merge (.obj tallTitle)).result = .ok tall ∧
      (b.merge (.obj lightTitle)).result = .ok light ∧
      tall.find? "title" = some (tall.style .title) ∧
      tall.style .heading1 = b.style .heading1 ∧
      (tall.style .title).size = .whole 36 ∧
      (tall.style .title).font = (b.style .title).font ∧
      (tall.style .title).englishFont = (b.style .title).englishFont ∧
      (tall.merge (.obj tallTitle)).result = .ok tall ∧
      b.mergeEntries (knownOverrides (overridesOf tallTitle)) = b.merge (.obj tallTitle) ∧
      (tall.merge (.obj lightTitle)).result = .ok both ∧
      (light.merge (.obj tallTitle)).result = .ok both ∧
      (b.merge (.obj tallLightTitle)).result = .ok both := by
  intro b
  let tall := b.set .title { b.style .title with size := .whole 36 }
  let light := b.set .title { b.style .title with bold := false, englishFont := some "Georgia" }
  have htall : (b.merge (.obj tallTitle)).result = .ok tall := rfl
  have hlight : (b.merge (.obj lightTitle)).result = .ok light := rfl
  obtain ⟨hfind, -, hkey, hkept, hreplaced, hagain, hknown, happart⟩ :=
    mergeEntries_fields htall htall hlight
  obtain ⟨-, both, hboth, hboth', hunited⟩ := happart giveApart_titles
  have hsize := hreplaced ⟨.title, .size⟩ (.ok (.whole 36)) rfl
  exact ⟨tall, light, both, htall, hlight, hfind .title, hkey .heading1 rfl,
    (Except.ok.inj hsize).symm, hkept ⟨.title, .font⟩ rfl, hkept ⟨.title, .englishFont⟩ rfl, hagain,
    hknown, hboth, hboth', hunited _ unites_titles⟩

end MarkdownDocx.Style

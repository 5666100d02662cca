import MarkdownDocx.Files.Tree

/-!
What the operations on a tree of files change. A lookup that comes to an end has passed directories
only, so an entry that is put where it ends shows there and nowhere else. Making directories adds
directories, and touches no file.
-/

set_option autoImplicit false

namespace MarkdownDocx.Files

/-- Where names lead from a location if nothing is missing or in the way. -/
def Location.follow (l : Location) : List String → Location
  | [] => l
  | name :: rest => Location.follow (if name = ".." then l.up else l ++ [name]) rest

def Path.location (p : Path) : Location := (rootLocation p.root).follow p.parts

/-- The locations of a path and of the directories that it is in. -/
inductive Path.Passes : Path → Location → Prop
  | here (p : Path) : Passes p p.location
  | above {p : Path} {l : Location} (h : Passes p.parent l) : Passes p l

theorem Location.isBase_iff {l : Location} :
    l.isBase = true ↔ (∀ name ∈ l, name = "..") ∨ l = ["/"] := by
  simp [isBase]

theorem Location.isBase_of_prefix {l m : Location} (hl : l.isBase = true) (h : m <+: l) :
    m.isBase = true := by
  rcases isBase_iff.1 hl with hall | rfl
  · exact isBase_iff.2 (.inl fun name hname => hall name (h.subset hname))
  · rcases List.prefix_cons_iff.1 h with rfl | ⟨rest, rfl, hrest⟩
    · rfl
    · rw [List.prefix_nil.1 hrest]
      rfl

theorem Location.isBase_rootLocation (r : Root) : (rootLocation r).isBase = true := by
  cases r <;> rfl

namespace Tree

/-- What a regular file holds, if one is at a location. -/
def file? (t : Tree) (l : Location) : Option Content :=
  match t.entry l with
  | some (.file content) => some content
  | _ => none

theorem entry_of_isBase (t : Tree) {l : Location} (h : l.isBase = true) :
    t.entry l = some .directory := by
  simp [entry, h]

/-! ## One entry -/

/-- Whether everything on the way to a location is a directory, and so is what is there. -/
def Open (t : Tree) (l : Location) : Prop := ∀ m, m <+: l → t.entry m = some .directory

section Put

variable {t : Tree} {l m : Location} {e : Entry}

theorem find?_put (t : Tree) (l m : Location) (e : Entry) :
    (t.put l e).find? m = if m = l then some e else t.find? m := by
  simp only [find?, put, List.find?_append]
  by_cases h : m = l
  · subst h
    have hnone : ((t.entries.filter fun old => old.1 != m).find? fun old => old.1 == m) = none := by
      simp
    simp [hnone]
  · have hsame : ((t.entries.filter fun old => old.1 != l).find? fun old => old.1 == m) =
        t.entries.find? fun old => old.1 == m := by
      rw [List.find?_filter]
      congr
      funext old
      by_cases hm : old.1 = m <;> simp [hm, h]
    rw [hsame]
    simp [h, Ne.symm h]

theorem any_put (hm : ¬ m <+: l) :
    ((t.put l e).entries.any fun old => m.isPrefixOf old.1) =
      t.entries.any fun old => m.isPrefixOf old.1 := by
  rw [Bool.eq_iff_iff]
  simp only [put, List.any_eq_true, List.mem_append, List.mem_filter, List.mem_singleton,
    List.isPrefixOf_iff_prefix, bne_iff_ne]
  constructor
  · rintro ⟨old, ⟨hold, _⟩ | rfl, hprefix⟩
    · exact ⟨old, hold, hprefix⟩
    · exact absurd hprefix hm
  · rintro ⟨old, hold, hprefix⟩
    exact ⟨old, .inl ⟨hold, fun h => hm (h ▸ hprefix)⟩, hprefix⟩

/-- An entry that is put into an open directory shows there alone: the directories above it were
there before. -/
theorem entry_put {d : Location} {name : String} (hd : t.Open d)
    (hbase : Location.isBase (d ++ [name]) = false) (e : Entry) (m : Location) :
    (t.put (d ++ [name]) e).entry m = if m = d ++ [name] then some e else t.entry m := by
  by_cases hm : m.isBase = true
  · have hne : m ≠ d ++ [name] := by
      rintro rfl
      simp [hbase] at hm
    rw [entry_of_isBase _ hm, if_neg hne, entry_of_isBase _ hm]
  · by_cases hself : m = d ++ [name]
    · subst hself
      simp [entry, hbase, find?_put]
    · have hself' : (m = d ++ [name]) ↔ False := ⟨hself, False.elim⟩
      by_cases hbelow : m <+: d ++ [name]
      · have hdir : t.entry m = some .directory :=
          hd m ((List.prefix_concat_iff.1 hbelow).resolve_left hself)
        have hany : ((t.put (d ++ [name]) e).entries.any fun old => m.isPrefixOf old.1) = true := by
          simp [put, hbelow]
        rw [if_neg hself, hdir]
        simp only [entry, hm, find?_put, hself'] at hdir ⊢
        cases hfind : t.find? m with
        | none => simp [hany]
        | some old => simpa [hfind] using hdir
      · rw [if_neg hself]
        simp only [entry, find?_put, hself', any_put hbelow]
        rfl

end Put

/-! ## Lookups -/

theorem open_of_isBase (t : Tree) {l : Location} (h : l.isBase = true) : t.Open l :=
  fun _ hm => entry_of_isBase t (Location.isBase_of_prefix h hm)

theorem Open.up {t : Tree} {l : Location} (h : t.Open l) : t.Open l.up := by
  unfold Location.up
  split
  · exact h
  · split
    · next hall =>
      refine open_of_isBase t (Location.isBase_iff.2 (.inl fun name hname => ?_))
      rcases List.mem_append.1 hname with hname | hname
      · simpa using List.all_eq_true.1 hall name hname
      · exact List.mem_singleton.1 hname
    · exact fun m hm => h m (hm.trans (List.dropLast_prefix l))

theorem Open.append {t : Tree} {d : Location} {name : String} (hd : t.Open d)
    (h : t.entry (d ++ [name]) = some .directory) : t.Open (d ++ [name]) := by
  intro m hm
  rcases List.prefix_concat_iff.1 hm with rfl | hm
  · exact h
  · exact hd m hm

/-- Where a lookup ends and what is there: a directory, or an entry of an open directory. -/
inductive Ends (t : Tree) : Found → Location → Prop
  | directory {l : Location} (h : t.Open l) : Ends t .directory l
  | file {d : Location} {name : String} {content : Content} (hd : t.Open d)
      (h : t.entry (d ++ [name]) = some (.file content)) :
      Ends t (.file (d ++ [name]) content) (d ++ [name])
  | vacant {d : Location} {name : String} (hd : t.Open d) (h : t.entry (d ++ [name]) = none) :
      Ends t (.vacant (d ++ [name])) (d ++ [name])

theorem walk_ends {t : Tree} {path : String} {names : List String} {l : Location} {found : Found}
    (hl : t.Open l) (h : t.walk path l names = .ok found) : t.Ends found (l.follow names) := by
  induction names generalizing l with
  | nil =>
    obtain rfl : Found.directory = found := Except.ok.inj h
    exact .directory hl
  | cons name rest ih =>
    unfold walk at h
    unfold Location.follow
    by_cases hup : name = ".."
    · rw [if_pos hup] at h ⊢
      exact ih hl.up h
    · rw [if_neg hup] at h ⊢
      cases hentry : t.entry (l ++ [name]) with
      | none =>
        simp only [hentry] at h
        split at h
        · cases h
        · cases rest with
          | nil =>
            obtain rfl : Found.vacant (l ++ [name]) = found := Except.ok.inj h
            exact .vacant hl hentry
          | cons next others => cases h
      | some e =>
        cases e with
        | directory =>
          simp only [hentry] at h
          exact ih (hl.append hentry) h
        | file content =>
          simp only [hentry] at h
          cases rest with
          | nil =>
            obtain rfl : Found.file (l ++ [name]) content = found := Except.ok.inj h
            exact .file hl hentry
          | cons next others => cases h

theorem look_ends {t : Tree} {p : Path} {found : Found} (h : t.look p = .ok found) :
    t.Ends found p.location := by
  unfold look at h
  split at h
  · cases h
  · split at h
    · cases h
    · exact walk_ends (open_of_isBase t (Location.isBase_rootLocation p.root)) h

theorem isBase_of_entry {t : Tree} {l : Location} (h : t.entry l ≠ some .directory) :
    l.isBase = false := by
  cases hbase : l.isBase with
  | false => rfl
  | true => exact absurd (entry_of_isBase t hbase) h

/-! ## Writing -/

/-- Two trees that have the same entries everywhere but at one location. -/
def SetAt (l : Location) (e : Entry) (before after : Tree) : Prop :=
  ∀ m, after.entry m = if m = l then some e else before.entry m

theorem setAt_put {t : Tree} {d : Location} {name : String} (hd : t.Open d)
    (h : t.entry (d ++ [name]) ≠ some .directory) (e : Entry) :
    SetAt (d ++ [name]) e t (t.put (d ++ [name]) e) :=
  entry_put hd (isBase_of_entry h) e

theorem write_setAt {t written : Tree} {p : Path} {content : Content}
    (h : t.write p content = .ok written) : SetAt p.location (.file content) t written := by
  unfold write at h
  cases hlook : t.look p with
  | error e => simp [hlook, bind, Except.bind] at h
  | ok found =>
    simp only [hlook, bind, Except.bind] at h
    have hends := look_ends hlook
    generalize p.location = l at hends ⊢
    cases hends with
    | directory hl => cases h
    | file hd hentry =>
      cases h
      exact setAt_put hd (by simp [hentry]) _
    | vacant hd hentry =>
      cases h
      exact setAt_put hd (by simp [hentry]) _

/-- A lookup that ended at an entry ends at the file that was put there. -/
theorem walk_setAt {t written : Tree} {path : String} {names : List String} {l place : Location}
    {content : Content} {found : Found}
    (hfound : (∃ old, found = .file place old) ∨ found = .vacant place)
    (hplace : t.entry place ≠ some .directory) (h : t.walk path l names = .ok found)
    (hset : SetAt place (.file content) t written) :
    written.walk path l names = .ok (.file place content) := by
  induction names generalizing l with
  | nil =>
    obtain rfl : Found.directory = found := Except.ok.inj h
    rcases hfound with ⟨old, hold⟩ | hold <;> cases hold
  | cons name rest ih =>
    unfold walk at h ⊢
    by_cases hup : name = ".."
    · rw [if_pos hup] at h ⊢
      exact ih h
    · rw [if_neg hup] at h ⊢
      by_cases hhere : l ++ [name] = place
      · rw [hset, if_pos hhere]
        rw [hhere] at h
        cases rest with
        | nil => simp [hhere]
        | cons next others =>
          cases hentry : t.entry place with
          | none =>
            simp [hentry] at h
            split at h <;> cases h
          | some e =>
            cases e with
            | directory => exact absurd hentry hplace
            | file old => simp [hentry] at h
      · rw [hset, if_neg hhere]
        cases hentry : t.entry (l ++ [name]) with
        | none =>
          simp only [hentry] at h
          split at h
          · cases h
          · split at h
            · cases h
              rcases hfound with ⟨old, hold⟩ | hold
              · cases hold
              · exact absurd (Found.vacant.inj hold) hhere
            · cases h
        | some e =>
          cases e with
          | directory =>
            simp only [hentry] at h
            exact ih h
          | file old =>
            simp only [hentry] at h
            split at h
            · cases h
              rcases hfound with ⟨other, hold⟩ | hold
              · exact absurd (Found.file.inj hold).1 hhere
              · cases hold
            · cases h

theorem look_setAt {t written : Tree} {p : Path} {place : Location} {content : Content}
    {found : Found} (hfound : (∃ old, found = .file place old) ∨ found = .vacant place)
    (hplace : t.entry place ≠ some .directory) (h : t.look p = .ok found)
    (hset : SetAt place (.file content) t written) :
    written.look p = .ok (.file place content) := by
  unfold look at h ⊢
  split at h
  · cases h
  · next hnull =>
    split at h
    · cases h
    · next hlong =>
      rw [if_neg hnull, if_neg hlong]
      exact walk_setAt hfound hplace h hset

/-- What was written is found. -/
theorem look_write {t written : Tree} {p : Path} {content : Content}
    (h : t.write p content = .ok written) :
    ∃ place, written.look p = .ok (.file place content) := by
  unfold write at h
  cases hlook : t.look p with
  | error e => simp [hlook, bind, Except.bind] at h
  | ok found =>
    simp only [hlook, bind, Except.bind] at h
    have hends := look_ends hlook
    generalize p.location = l at hends
    cases hends with
    | directory hl => cases h
    | file hd hentry =>
      cases h
      exact ⟨_, look_setAt (.inl ⟨_, rfl⟩) (by simp [hentry]) hlook
        (setAt_put hd (by simp [hentry]) _)⟩
    | vacant hd hentry =>
      cases h
      exact ⟨_, look_setAt (.inr rfl) (by simp [hentry]) hlook
        (setAt_put hd (by simp [hentry]) _)⟩

/-- What is not there and yet can be written is missing from an open directory. -/
theorem entry_of_write_new {t written : Tree} {p : Path} {content : Content}
    (hnew : t.has p = .ok false) (h : t.write p content = .ok written) :
    t.entry p.location = none := by
  unfold has at hnew
  unfold write at h
  cases hlook : t.look p with
  | error e => simp [hlook, bind, Except.bind] at h
  | ok found =>
    simp only [hlook] at hnew
    have hends := look_ends hlook
    generalize p.location = l at hends ⊢
    cases hends with
    | directory hl => cases hnew
    | file hd hentry => cases hnew
    | vacant hd hentry => exact hentry

/-! ## Making directories -/

/-- A tree that has come to have new directories at some of these locations, and nothing else. -/
def Grown (places : Location → Prop) (before after : Tree) : Prop :=
  ∀ l, after.entry l = before.entry l ∨
    before.entry l = none ∧ after.entry l = some .directory ∧ places l

section Grown

variable {places others : Location → Prop} {t t' t'' : Tree}

theorem Grown.refl (places : Location → Prop) (t : Tree) : Grown places t t := fun _ => .inl rfl

theorem Grown.imp (h : Grown places t t') (himp : ∀ l, places l → others l) : Grown others t t' :=
  fun l => (h l).imp_right fun ⟨hbefore, hafter, hl⟩ => ⟨hbefore, hafter, himp l hl⟩

theorem Grown.trans (h : Grown places t t') (h' : Grown places t' t'') : Grown places t t'' := by
  intro l
  rcases h l with hsame | ⟨hbefore, hafter, hl⟩
  · rw [← hsame]
    exact h' l
  · rcases h' l with hsame' | ⟨hbefore', _, _⟩
    · exact .inr ⟨hbefore, hsame'.trans hafter, hl⟩
    · simp [hafter] at hbefore'

theorem Grown.file? (h : Grown places t t') (l : Location) : t'.file? l = t.file? l := by
  unfold Tree.file?
  rcases h l with hsame | ⟨hbefore, hafter, _⟩
  · rw [hsame]
  · rw [hbefore, hafter]

end Grown

theorem makeDirectory_grown {t made : Tree} {p : Path} (h : t.makeDirectory p = .ok made) :
    Grown p.Passes t made := by
  unfold makeDirectory at h
  cases hlook : t.look p with
  | error e => simp [hlook, bind, Except.bind] at h
  | ok found =>
    simp only [hlook, bind, Except.bind] at h
    have hends := look_ends hlook
    have hhere := Path.Passes.here p
    generalize p.location = l at hends hhere
    cases hends with
    | directory hl =>
      cases h
      exact .refl _ t
    | file hd hentry => cases h
    | @vacant d name hd hentry =>
      cases h
      intro m
      rw [setAt_put hd (by simp [hentry]) .directory m]
      by_cases hm : m = d ++ [name]
      · subst hm
        exact .inr ⟨hentry, if_pos rfl, hhere⟩
      · exact .inl (if_neg hm)

/-- Directories are made at the path and above it, also if that comes to nothing in the end. -/
theorem makeDirectories_grown (t : Tree) (p : Path) : Grown p.Passes t (t.makeDirectories p).1 := by
  fun_induction makeDirectories t p with
  | case1 p made h => exact makeDirectory_grown h
  | case2 p path h hroot => exact .refl _ t
  | case3 p path h hroot above e habove ih =>
    rw [habove] at ih
    exact ih.imp fun _ => .above
  | case4 p path h hroot above habove made hmade ih =>
    rw [habove] at ih
    exact (ih.imp fun _ => .above).trans (makeDirectory_grown hmade)
  | case5 p path h hroot above habove e hmade ih =>
    rw [habove] at ih
    exact ih.imp fun _ => .above
  | case6 p e h hfound => exact .refl _ t

/-! ## Saving -/

/-- No file is new or different; what is new are directories at some of these locations. -/
structure Kept (places : Location → Prop) (before after : Tree) : Prop where
  files : ∀ l, after.file? l = before.file? l
  entries : ∀ l, after.entry l = before.entry l ∨
    before.entry l = none ∧ after.entry l = some .directory ∧ places l

/-- A path has a file with this content. No other file is new or different, and what else is new
are directories that the path is in. -/
structure Saved (p : Path) (content : Content) (before after : Tree) : Prop where
  file : after.file? p.location = some content
  files : ∀ l, l ≠ p.location → after.file? l = before.file? l
  entries : ∀ l, l ≠ p.location → after.entry l = before.entry l ∨
    before.entry l = none ∧ after.entry l = some .directory ∧ p.parent.Passes l

theorem Grown.kept {places : Location → Prop} {before after : Tree}
    (h : Grown places before after) : Kept places before after := ⟨h.file?, h⟩

theorem Kept.refl (places : Location → Prop) (t : Tree) : Kept places t t :=
  (Grown.refl places t).kept

theorem Kept.imp {places others : Location → Prop} {before after : Tree}
    (h : Kept places before after) (himp : ∀ l, places l → others l) : Kept others before after :=
  ⟨h.files, Grown.imp h.entries himp⟩

theorem Grown.saved {p : Path} {content : Content} {before made after : Tree}
    (hgrown : Grown p.parent.Passes before made)
    (hset : SetAt p.location (.file content) made after) : Saved p content before after := by
  have hother : ∀ l, l ≠ p.location → after.entry l = made.entry l := fun l hl => by
    rw [hset l, if_neg hl]
  refine ⟨?_, fun l hl => ?_, fun l hl => ?_⟩
  · simp [Tree.file?, hset p.location]
  · rw [← hgrown.file? l]
    simp only [Tree.file?, hother l hl]
  · rw [hother l hl]
    exact hgrown l

theorem save_cases (t : Tree) (p : Path) (content : Content) :
    (t.save p content).2 = .ok () ∧ Saved p content t (t.save p content).1 ∨
      (∃ e, (t.save p content).2 = .error e) ∧ Kept p.parent.Passes t (t.save p content).1 := by
  have hgrown := makeDirectories_grown t p.parent
  unfold save
  cases hmake : t.makeDirectories p.parent with
  | mk made r =>
    rw [hmake] at hgrown
    cases r with
    | error e => exact .inr ⟨⟨e, rfl⟩, hgrown.kept⟩
    | ok u =>
      cases hwrite : made.write p content with
      | error e =>
        simp only [hwrite]
        exact .inr ⟨⟨e, rfl⟩, hgrown.kept⟩
      | ok written =>
        simp only [hwrite]
        exact .inl ⟨trivial, hgrown.saved (write_setAt hwrite)⟩

end Tree

end MarkdownDocx.Files

import MarkdownDocx.Json.Reader
import MarkdownDocx.Proofs.Logged
import MarkdownDocx.Proofs.Number.Overflow

/-!
Which floating-point numbers a value holds. Reading rounds what a text writes, so all numbers in a
value that is read are such that there are.
-/

set_option autoImplicit false

namespace MarkdownDocx.Json

/-- A value without floating-point numbers that there are not. -/
inductive Regular : Json → Prop
  | null : Regular .null
  | bool (b : Bool) : Regular (.bool b)
  | int (n : Int) : Regular (.int n)
  | real {x : Number.Binary64} (h : x.IsRegular) : Regular (.real x)
  | str (s : WideString) : Regular (.str s)
  | arr {items : List Json} (h : ∀ v ∈ items, Regular v) : Regular (.arr items)
  | obj {members : Members} (h : ∀ m ∈ members, Regular m.2) : Regular (.obj members)

theorem Regular.isRegular {x : Number.Binary64} (h : Regular (.real x)) : x.IsRegular := by
  cases h with
  | real hx => exact hx

theorem Regular.of_find? {members : Members} (h : Regular (.obj members)) {key : WideString}
    {v : Json} (hv : find? key members = some v) : Regular v := by
  cases h with
  | obj h =>
    induction members with
    | nil => simp [find?] at hv
    | cons m rest ih =>
      obtain ⟨k, w⟩ := m
      by_cases hk : k = key
      · obtain rfl : w = v := by simpa [find?, hk] using hv
        exact h (k, w) (by simp)
      · exact ih (by simpa [find?, hk] using hv) fun p hp => h p (.tail _ hp)

theorem regular_put (key : WideString) {value : Json} {members : Members} (hvalue : Regular value)
    (h : ∀ m ∈ members, Regular m.2) : ∀ m ∈ put key value members, Regular m.2 := by
  induction members with
  | nil => simpa [put] using hvalue
  | cons m rest ih =>
    obtain ⟨k, w⟩ := m
    obtain ⟨hw, hrest⟩ := List.forall_mem_cons.1 h
    by_cases hk : k = key
    · simpa [put, hk, hvalue] using fun a b => hrest (a, b)
    · simpa [put, hk, hw] using fun a b => ih hrest (a, b)

/-! ## Reading -/

theorem readWord_regular {cs r : List Char} {v : Json} (h : readWord cs = some (v, r)) :
    Regular v := by
  obtain ⟨⟨w, u⟩, hmem, hword⟩ := List.exists_of_findSome?_eq_some h
  obtain ⟨r', -, hpair⟩ := Option.map_eq_some_iff.1 hword
  obtain rfl : u = v := congrArg Prod.fst hpair
  have hinfinite (negative : Bool) : Regular (.real (.infinite negative)) := .real trivial
  have hnan : Regular (.real .nan) := .real trivial
  have hwords : ∀ p ∈ words, Regular p.2 := by
    simp [words, Regular.null, Regular.bool, hinfinite, hnan]
  exact hwords (w, u) hmem

theorem readNumber_regular {negative : Bool} {cs r : List Char} {v : Json}
    (h : readNumber negative cs = .ok (v, r)) : Regular v := by
  unfold readNumber at h
  dsimp only at h
  split_ifs at h
  · obtain rfl := congrArg Prod.fst (Except.ok.inj h)
    exact .int _
  · obtain rfl := congrArg Prod.fst (Except.ok.inj h)
    exact .int _
  · obtain rfl := congrArg Prod.fst (Except.ok.inj h)
    exact .real (Number.ofDecimal_isRegular _ _ _)

/-- What the three parts of the reader give with some fuel, however deep they go. -/
structure ReadsRegular (fuel : Nat) : Prop where
  value : ∀ {depth : Nat} {cs r : List Char} {v : Json},
    readValue depth fuel cs = .ok (v, r) → Regular v
  items : ∀ {depth : Nat} {cs r : List Char} {vs : List Json},
    readItems depth fuel cs = .ok (vs, r) → ∀ v ∈ vs, Regular v
  members : ∀ {depth : Nat} {before ms : Members} {cs r : List Char},
    (∀ m ∈ before, Regular m.2) → readMembers depth fuel before cs = .ok (ms, r) →
      ∀ m ∈ ms, Regular m.2

section Step

variable {depth fuel : Nat} (ih : ReadsRegular fuel)

include ih

theorem readValue_regular {cs r : List Char} {v : Json}
    (h : readValue depth (fuel + 1) cs = .ok (v, r)) : Regular v := by
  unfold readValue at h
  split at h
  · next found hword =>
    obtain rfl := Except.ok.inj h
    exact readWord_regular hword
  split at h
  · split at h
    · obtain rfl := congrArg Prod.fst (Except.ok.inj h)
      exact .str _
    · simp at h
  · split at h
    · simp at h
    split at h
    · obtain rfl := congrArg Prod.fst (Except.ok.inj h)
      exact .arr (by simp)
    · obtain ⟨⟨items, r'⟩, hitems, h⟩ := except_bind_eq_ok_iff.1 h
      obtain rfl := congrArg Prod.fst (Except.ok.inj h)
      exact .arr (ih.items hitems)
  · split at h
    · simp at h
    split at h
    · obtain rfl := congrArg Prod.fst (Except.ok.inj h)
      exact .obj (by simp)
    · obtain ⟨⟨members, r'⟩, hmembers, h⟩ := except_bind_eq_ok_iff.1 h
      obtain rfl := congrArg Prod.fst (Except.ok.inj h)
      exact .obj (ih.members (by simp) hmembers)
  · exact readNumber_regular h
  · exact readNumber_regular h

theorem readItems_regular {cs r : List Char} {vs : List Json}
    (h : readItems depth (fuel + 1) cs = .ok (vs, r)) : ∀ v ∈ vs, Regular v := by
  unfold readItems at h
  obtain ⟨⟨v, r'⟩, hv, h⟩ := except_bind_eq_ok_iff.1 h
  dsimp only at h
  split at h
  · obtain rfl := congrArg Prod.fst (Except.ok.inj h)
    exact List.forall_mem_singleton.2 (ih.value hv)
  · obtain ⟨⟨rest, r''⟩, hrest, h⟩ := except_bind_eq_ok_iff.1 h
    obtain rfl := congrArg Prod.fst (Except.ok.inj h)
    exact List.forall_mem_cons.2 ⟨ih.value hv, ih.items hrest⟩
  · simp at h

theorem readMembers_regular {before ms : Members} {cs r : List Char}
    (hbefore : ∀ m ∈ before, Regular m.2)
    (h : readMembers depth (fuel + 1) before cs = .ok (ms, r)) : ∀ m ∈ ms, Regular m.2 := by
  unfold readMembers at h
  split at h
  · split at h
    · simp at h
    · next key rest hkey =>
      split at h
      · obtain ⟨⟨v, r'⟩, hv, h⟩ := except_bind_eq_ok_iff.1 h
        have hput := regular_put key (ih.value hv) hbefore
        dsimp only at h
        split at h
        · obtain rfl := congrArg Prod.fst (Except.ok.inj h)
          exact hput
        · exact ih.members hput h
        · simp at h
      · simp at h
  · simp at h

end Step

theorem readsRegular (fuel : Nat) : ReadsRegular fuel := by
  induction fuel with
  | zero =>
    refine ⟨fun h => ?_, fun h => ?_, fun _ h => ?_⟩
    · simp [readValue] at h
    · simp [readItems] at h
    · simp [readMembers] at h
  | succ fuel ih => exact ⟨readValue_regular ih, readItems_regular ih, readMembers_regular ih⟩

/-- So overrides that come from a text are regular. -/
theorem read_regular {depth : Nat} {s : String} {v : Json} (h : read depth s = .ok v) :
    Regular v := by
  obtain ⟨⟨w, r⟩, hw, h⟩ := except_bind_eq_ok_iff.1 h
  dsimp only at h
  split_ifs at h
  obtain rfl := Except.ok.inj h
  exact (readsRegular _).value hw

end MarkdownDocx.Json

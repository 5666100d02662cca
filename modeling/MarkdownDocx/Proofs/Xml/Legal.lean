import MarkdownDocx.Proofs.Text.Trim
import MarkdownDocx.Proofs.Xml.RoundTrip

/-!
Content that has been read is content that may be written. All its names are names, all its texts
and values hold characters of documents, and no element has two attributes of one name.
-/

set_option autoImplicit false

namespace MarkdownDocx.Xml

open MarkdownDocx.Text

/-- A string that a document may hold. -/
def LegalString (s : String) : Prop := s.toList.all isXmlChar = true

structure LegalAttributes (as : List Attribute) : Prop where
  names : ∀ a ∈ as, isLocalName a.1.base.toList = true
  values : ∀ a ∈ as, LegalString a.2
  nodup : (as.map Prod.fst).Nodup

mutual
/-- Comments and instructions are never looked into. -/
def Node.Legal : Node → Prop
  | .element name as children =>
    isLocalName name.base.toList = true ∧ LegalAttributes as ∧ LegalAll children
  | .text s => LegalString s
  | .comment _ => True
  | .instruction _ _ => True

def LegalAll : List Node → Prop
  | [] => True
  | x :: rest => x.Legal ∧ LegalAll rest
end

theorem legalAll_nil : LegalAll [] := trivial

theorem legalAll_iff {xs : List Node} : LegalAll xs ↔ ∀ x ∈ xs, x.Legal := by
  induction xs with
  | nil => simp [LegalAll]
  | cons x rest ih => simp [LegalAll, ih]

theorem legalAll_reverse {xs : List Node} (h : LegalAll xs) : LegalAll xs.reverse := by
  rw [legalAll_iff] at h ⊢
  exact fun x hx => h x (List.mem_reverse.1 hx)

theorem legalString_iff {s : String} : LegalString s ↔ ∀ c ∈ s.toList, isXmlChar c = true :=
  List.all_eq_true

theorem legalString_append {s t : String} (hs : LegalString s) (ht : LegalString t) :
    LegalString (s ++ t) := by
  rw [legalString_iff] at hs ht ⊢
  intro c hc
  rw [String.toList_append, List.mem_append] at hc
  exact hc.elim (hs c) (ht c)

theorem legalString_ofList {cs : List Char} (h : ∀ c ∈ cs, isXmlChar c = true) :
    LegalString (String.ofList cs) := by
  simpa [legalString_iff] using h

theorem legalString_trimmed {s : String} (h : LegalString s) : LegalString (trimmed s) := by
  rw [legalString_iff] at h ⊢
  intro c hc
  rw [trimmed, String.toList_ofList] at hc
  exact h c (mem_of_mem_trim hc)

/-! References and names. -/

theorem isXmlChar_of_charOfCode? {n : Nat} {c : Char} (h : charOfCode? n = some c) :
    isXmlChar c = true := by
  by_cases hn : n.isValidChar
  · rw [charOfCode?, dif_pos hn] at h
    change (if isXmlChar (Char.ofNatAux n hn) = true then some (Char.ofNatAux n hn) else none) =
      some c at h
    by_cases hc : isXmlChar (Char.ofNatAux n hn) = true
    · rw [if_pos hc] at h
      cases h
      exact hc
    · rw [if_neg hc] at h
      cases h
  · rw [charOfCode?, dif_neg hn] at h
    cases h

theorem isXmlChar_of_reference? {name : List Char} {c : Char} (h : reference? name = some c) :
    isXmlChar c = true := by
  unfold reference? at h
  split at h
  · obtain ⟨n, -, hn⟩ := Option.bind_eq_some_iff.1 h
    exact isXmlChar_of_charOfCode? hn
  · obtain ⟨n, -, hn⟩ := Option.bind_eq_some_iff.1 h
    exact isXmlChar_of_charOfCode? hn
  · split_ifs at h <;> cases h <;> decide

/-- Resolving references brings in characters of documents only. -/
theorem decodeFrom_legal {pending : Option (List Char)} {cs ds : List Char}
    (hcs : ∀ c ∈ cs, isXmlChar c = true) (h : decodeFrom pending cs = some ds) :
    ∀ d ∈ ds, isXmlChar d = true := by
  induction cs generalizing pending ds with
  | nil =>
    cases pending with
    | none => simp [decodeFrom] at h; simp [h]
    | some name => simp [decodeFrom] at h
  | cons c r ih =>
    have hr : ∀ d ∈ r, isXmlChar d = true := fun d hd => hcs d (List.mem_cons_of_mem c hd)
    have hc : isXmlChar c = true := hcs c List.mem_cons_self
    cases pending with
    | none =>
      rw [decodeFrom] at h
      split at h
      · exact ih hr h
      · obtain ⟨es, hes, rfl⟩ := Option.map_eq_some_iff.1 h
        exact List.forall_mem_cons.2 ⟨hc, ih hr hes⟩
    | some name =>
      rw [decodeFrom] at h
      split at h
      · cases hname : reference? name.reverse with
        | none => simp [hname] at h
        | some d =>
          rw [hname] at h
          obtain ⟨es, hes, rfl⟩ := Option.map_eq_some_iff.1 h
          exact List.forall_mem_cons.2 ⟨isXmlChar_of_reference? hname, ih hr hes⟩
      · exact ih hr h

theorem isLocalName_of_readLocalName {cs r : List Char} {n : String}
    (h : readLocalName cs = some (n, r)) : isLocalName n.toList = true ∧ r ⊆ cs := by
  cases cs with
  | nil => simp [readLocalName] at h
  | cons c cs =>
    rw [readLocalName] at h
    split at h
    · rename_i hc
      cases h
      refine ⟨?_, ?_⟩
      · simp only [String.toList_ofList, isLocalName, hc, Bool.true_and, List.all_eq_true]
        exact fun d hd => List.mem_takeWhile_imp hd
      · exact List.Subset.trans (List.dropWhile_subset _) (List.subset_cons_self c cs)
    · cases h

theorem isLocalName_of_readQName {cs r : List Char} {q : QName} (h : readQName cs = some (q, r)) :
    isLocalName q.base.toList = true ∧ r ⊆ cs := by
  unfold readQName at h
  split at h
  · cases h
  · rename_i n r₁ hn
    have hfirst := isLocalName_of_readLocalName hn
    split at h
    · rename_i m r₂ hm
      have hsecond := isLocalName_of_readLocalName hm
      split at h
      · cases h
      · cases h
        have hr₁ : r₁ ⊆ cs := fun d hd => hfirst.2 (List.mem_cons_of_mem _ hd)
        exact ⟨hsecond.1, List.Subset.trans hsecond.2 hr₁⟩
    · cases h
  · rename_i n r₁ _ hn
    cases h
    exact isLocalName_of_readLocalName hn

theorem skipSpace_subset (cs : List Char) : skipSpace cs ⊆ cs := List.dropWhile_subset _

/-! Tokens. -/

/-- A tag's names are names; its values and all texts are legal. -/
def Token.Legal : Token → Prop
  | .opening n as _ =>
    isLocalName n.base.toList = true ∧
      ∀ a ∈ as, isLocalName a.1.base.toList = true ∧ LegalString a.2
  | .text s => LegalString s
  | _ => True

theorem readValue_legal {cs r : List Char} {v : String} (hcs : ∀ c ∈ cs, isXmlChar c = true)
    (h : readValue cs = some (v, r)) : LegalString v ∧ r ⊆ cs := by
  cases cs with
  | nil => simp [readValue] at h
  | cons q cs =>
    rw [readValue] at h
    split at h
    · have hdrop : cs.dropWhile (· != q) ⊆ cs := List.dropWhile_subset _
      split at h
      · cases h
      · rename_i d rest hrest
        rw [hrest] at hdrop
        dsimp only at h
        split at h
        · cases h
        · obtain ⟨ds, hds, heq⟩ := Option.map_eq_some_iff.1 h
          cases heq
          refine ⟨legalString_ofList (decodeFrom_legal ?_ hds), ?_⟩
          · intro c hc
            obtain ⟨d, hd, rfl⟩ := List.mem_map.1 hc
            have hmem : d ∈ cs := (List.takeWhile_prefix _).subset hd
            split
            · decide
            · exact hcs d (List.mem_cons_of_mem q hmem)
          · exact fun c hc => List.mem_cons_of_mem q (hdrop (List.mem_cons_of_mem d hc))
    · cases h

theorem readAttribute_legal {cs r : List Char} {a : QName × String}
    (hcs : ∀ c ∈ cs, isXmlChar c = true) (h : readAttribute cs = some (a, r)) :
    (isLocalName a.1.base.toList = true ∧ LegalString a.2) ∧ r ⊆ cs := by
  unfold readAttribute at h
  split at h
  · cases h
  · rename_i n r₁ hn
    obtain ⟨hname, hr₁⟩ := isLocalName_of_readQName hn
    split at h
    · rename_i r₂ hr₂
      have hspace : r₂ ⊆ cs := by
        intro c hc
        refine hr₁ (skipSpace_subset r₁ ?_)
        rw [hr₂]
        exact List.mem_cons_of_mem _ hc
      obtain ⟨⟨v, r₃⟩, hv, heq⟩ := Option.map_eq_some_iff.1 h
      cases heq
      have hinside : skipSpace r₂ ⊆ cs := List.Subset.trans (skipSpace_subset r₂) hspace
      obtain ⟨hvalue, hr₃⟩ := readValue_legal (fun c hc => hcs c (hinside hc)) hv
      exact ⟨⟨hname, hvalue⟩, List.Subset.trans hr₃ hinside⟩
    · cases h

theorem readTagEnd_subset {cs r : List Char} {selfClosing : Bool}
    (h : readTagEnd cs = some (selfClosing, r)) : r ⊆ cs := by
  unfold readTagEnd at h
  split at h
  · cases h
    exact List.subset_cons_self _ _
  · cases h
    exact fun c hc => List.mem_cons_of_mem _ (List.mem_cons_of_mem _ hc)
  · cases h

theorem readAttributes_legal {fuel : Nat} {cs r : List Char} {as : List (QName × String)}
    {selfClosing : Bool} (hcs : ∀ c ∈ cs, isXmlChar c = true)
    (h : readAttributes fuel cs = some (as, selfClosing, r)) :
    (∀ a ∈ as, isLocalName a.1.base.toList = true ∧ LegalString a.2) ∧ r ⊆ cs := by
  induction fuel generalizing cs as with
  | zero => simp [readAttributes] at h
  | succ fuel ih =>
    rw [readAttributes] at h
    split at h
    · rename_i hend
      cases h
      exact ⟨by simp, List.Subset.trans (readTagEnd_subset hend) (skipSpace_subset cs)⟩
    · split at h
      · split at h
        · rename_i a r₁ ha
          have hspace := skipSpace_subset cs
          obtain ⟨hfirst, hr₁⟩ := readAttribute_legal (fun c hc => hcs c (hspace hc)) ha
          have hrest : r₁ ⊆ cs := List.Subset.trans hr₁ hspace
          obtain ⟨⟨bs, b, r₂⟩, hbs, heq⟩ := Option.map_eq_some_iff.1 h
          cases heq
          obtain ⟨hothers, hr₂⟩ := ih (fun c hc => hcs c (hrest hc)) hbs
          exact ⟨List.forall_mem_cons.2 ⟨hfirst, hothers⟩, List.Subset.trans hr₂ hrest⟩
        · cases h
      · cases h

theorem readOpening_legal {cs r : List Char} {t : Token} (hcs : ∀ c ∈ cs, isXmlChar c = true)
    (h : readOpening cs = some (t, r)) : t.Legal ∧ r ⊆ cs := by
  unfold readOpening at h
  split at h
  · cases h
  · rename_i n r₁ hn
    obtain ⟨hname, hr₁⟩ := isLocalName_of_readQName hn
    obtain ⟨⟨as, b, r₂⟩, has, heq⟩ := Option.map_eq_some_iff.1 h
    cases heq
    obtain ⟨hattributes, hr₂⟩ := readAttributes_legal (fun c hc => hcs c (hr₁ hc)) has
    exact ⟨⟨hname, hattributes⟩, List.Subset.trans hr₂ hr₁⟩

theorem readClosing_legal {cs r : List Char} {t : Token} (h : readClosing cs = some (t, r)) :
    t.Legal ∧ r ⊆ cs := by
  unfold readClosing at h
  split at h
  · cases h
  · rename_i n r₁ hn
    obtain ⟨_, hr₁⟩ := isLocalName_of_readQName hn
    split at h
    · rename_i r₂ hr₂
      cases h
      refine ⟨trivial, fun c hc => hr₁ (skipSpace_subset r₁ ?_)⟩
      rw [hr₂]
      exact List.mem_cons_of_mem _ hc
    · cases h

theorem readUntil_subset {word cs a b : List Char} (h : readUntil word cs = some (a, b)) :
    a ⊆ cs ∧ b ⊆ cs := by
  rw [readUntil_eq h]
  exact ⟨fun c hc => by simp [hc], fun c hc => by simp [hc]⟩

theorem readComment_legal {cs r : List Char} {t : Token} (h : readComment cs = some (t, r)) :
    t.Legal ∧ r ⊆ cs := by
  unfold readComment at h
  split at h
  · rename_i body r₁ hbody
    cases h
    exact ⟨trivial, fun c hc => (readUntil_subset hbody).2 (List.mem_cons_of_mem _ hc)⟩
  · cases h

theorem readCdata_legal {cs r : List Char} {t : Token} (hcs : ∀ c ∈ cs, isXmlChar c = true)
    (h : readCdata cs = some (t, r)) : t.Legal ∧ r ⊆ cs := by
  obtain ⟨⟨a, b⟩, hab, heq⟩ := Option.map_eq_some_iff.1 h
  cases heq
  obtain ⟨ha, hb⟩ := readUntil_subset hab
  exact ⟨legalString_ofList fun c hc => hcs c (ha hc), hb⟩

theorem readInstruction_legal {cs r : List Char} {t : Token}
    (h : readInstruction cs = some (t, r)) : t.Legal ∧ r ⊆ cs := by
  unfold readInstruction at h
  split at h
  · cases h
  · rename_i target r₁ htarget
    obtain ⟨_, hr₁⟩ := isLocalName_of_readLocalName htarget
    split at h
    · cases h
    · split at h
      · cases h
        exact ⟨trivial, fun c hc => hr₁ (List.mem_cons_of_mem _ (List.mem_cons_of_mem _ hc))⟩
      · split at h
        · obtain ⟨⟨a, b⟩, hab, heq⟩ := Option.map_eq_some_iff.1 h
          cases heq
          have hb := List.Subset.trans (readUntil_subset hab).2 (skipSpace_subset _)
          exact ⟨trivial, List.Subset.trans hb hr₁⟩
        · cases h
      · cases h

theorem readText_legal {cs r : List Char} {t : Token} (hcs : ∀ c ∈ cs, isXmlChar c = true)
    (h : readText cs = some (t, r)) : t.Legal ∧ r ⊆ cs := by
  unfold readText at h
  dsimp only at h
  split at h
  · cases h
  · obtain ⟨ds, hds, heq⟩ := Option.map_eq_some_iff.1 h
    cases heq
    have hraw : cs.takeWhile (· != '<') ⊆ cs := (List.takeWhile_prefix _).subset
    exact ⟨legalString_ofList (decodeFrom_legal (fun c hc => hcs c (hraw hc)) hds),
      List.dropWhile_subset _⟩

theorem readToken_legal {cs r : List Char} {t : Token} (hcs : ∀ c ∈ cs, isXmlChar c = true)
    (h : readToken cs = some (t, r)) : t.Legal ∧ r ⊆ cs := by
  unfold readToken at h
  split at h
  · obtain ⟨ht, hr⟩ := readInstruction_legal h
    exact ⟨ht, fun c hc => List.mem_cons_of_mem _ (List.mem_cons_of_mem _ (hr hc))⟩
  · obtain ⟨ht, hr⟩ := readClosing_legal h
    exact ⟨ht, fun c hc => List.mem_cons_of_mem _ (List.mem_cons_of_mem _ (hr hc))⟩
  · rename_i r₁
    have hinside : r₁ ⊆ '<' :: '!' :: r₁ := fun c hc =>
      List.mem_cons_of_mem _ (List.mem_cons_of_mem _ hc)
    split at h
    · rename_i r₂ hword
      obtain rfl := afterWord_eq_some_iff.1 hword
      obtain ⟨ht, hr⟩ := readComment_legal h
      exact ⟨ht, fun c hc => hinside (List.mem_append_right _ (hr hc))⟩
    · obtain ⟨r₂, hword, hcdata⟩ := Option.bind_eq_some_iff.1 h
      obtain rfl := afterWord_eq_some_iff.1 hword
      obtain ⟨ht, hr⟩ := readCdata_legal (fun c hc => hcs c (by simp [hc])) hcdata
      exact ⟨ht, fun c hc => hinside (List.mem_append_right _ (hr hc))⟩
  · obtain ⟨ht, hr⟩ := readOpening_legal (fun c hc => hcs c (List.mem_cons_of_mem _ hc)) h
    exact ⟨ht, fun c hc => List.mem_cons_of_mem _ (hr hc)⟩
  · exact readText_legal hcs h

theorem readTokens_legal {fuel : Nat} {cs : List Char} {ts : List Token}
    (hcs : ∀ c ∈ cs, isXmlChar c = true) (h : readTokens fuel cs = some ts) :
    ∀ t ∈ ts, t.Legal := by
  induction fuel generalizing cs ts with
  | zero =>
    cases cs with
    | nil => cases h; simp
    | cons c cs => simp [readTokens] at h
  | succ fuel ih =>
    cases cs with
    | nil => cases h; simp
    | cons c cs =>
      rw [readTokens] at h
      split at h
      · rename_i t r ht
        obtain ⟨hlegal, hr⟩ := readToken_legal hcs ht
        obtain ⟨us, hus, rfl⟩ := Option.map_eq_some_iff.1 h
        exact List.forall_mem_cons.2 ⟨hlegal, ih (fun d hd => hcs d (hr hd)) hus⟩
      · cases h

theorem tokens_legal {cs : List Char} {ts : List Token} (h : tokens cs = some ts) :
    ∀ t ∈ ts, t.Legal := by
  unfold tokens at h
  dsimp only at h
  split at h
  · rename_i hall
    exact readTokens_legal (List.all_eq_true.1 hall) h
  · cases h

/-! Trees. -/

/-- An element that is still open has a legal tag and legal siblings before it. -/
structure Open.Legal (o : Open) : Prop where
  name : isLocalName o.name.base.toList = true
  attributes : LegalAttributes o.attributes
  before : LegalAll o.before

theorem base_of_resolveElement {scope : Scope} {q : QName} {n : Name}
    (h : resolveElement scope q = some n) : n.base = q.base := by
  obtain ⟨s, -, rfl⟩ := Option.map_eq_some_iff.1 h
  rfl

theorem base_of_resolveAttribute {scope : Scope} {q : QName} {n : Name}
    (h : resolveAttribute scope q = some n) : n.base = q.base := by
  unfold resolveAttribute at h
  split at h
  · cases h
    rfl
  · exact base_of_resolveElement h

/-- The attributes of an element are among those of its tag. -/
theorem mem_of_resolveAttributes {scope : Scope} {attributes : List (QName × String)}
    {as : List Attribute} (h : resolveAttributes scope attributes = some as) :
    ∀ a ∈ as, ∃ b ∈ attributes, a.1.base = b.1.base ∧ a.2 = b.2 := by
  induction attributes generalizing as with
  | nil => cases h; simp
  | cons b rest ih =>
    obtain ⟨n, v⟩ := b
    rw [resolveAttributes] at h
    split at h
    · intro a ha
      obtain ⟨b, hb, heq⟩ := ih h a ha
      exact ⟨b, List.mem_cons_of_mem _ hb, heq⟩
    · obtain ⟨name, hname, h⟩ := Option.bind_eq_some_iff.1 h
      obtain ⟨others, hothers, heq⟩ := Option.bind_eq_some_iff.1 h
      cases heq
      intro a ha
      rcases List.mem_cons.1 ha with rfl | ha
      · exact ⟨(n, v), List.mem_cons_self, base_of_resolveAttribute hname, rfl⟩
      · obtain ⟨b, hb, heq⟩ := ih hothers a ha
        exact ⟨b, List.mem_cons_of_mem _ hb, heq⟩

theorem resolveTag_legal {scope inner : Scope} {n : QName} {attributes : List (QName × String)}
    {name : Name} {as : List Attribute} {selfClosing : Bool}
    (hlegal : (Token.opening n attributes selfClosing).Legal)
    (h : resolveTag scope n attributes = some (inner, name, as)) :
    isLocalName name.base.toList = true ∧ LegalAttributes as := by
  obtain ⟨hn, has⟩ := hlegal
  unfold resolveTag at h
  split at h
  · simp at h
  · obtain ⟨inner', -, h⟩ := Option.bind_eq_some_iff.1 h
    obtain ⟨name', hname, h⟩ := Option.bind_eq_some_iff.1 h
    obtain ⟨as', hresolved, h⟩ := Option.bind_eq_some_iff.1 h
    split at h
    · simp at h
    · rename_i hdistinct
      cases h
      refine ⟨?_, ?_, ?_, ?_⟩
      · rw [base_of_resolveElement hname]
        exact hn
      · intro a ha
        obtain ⟨b, hb, hbase, -⟩ := mem_of_resolveAttributes hresolved a ha
        rw [hbase]
        exact (has b hb).1
      · intro a ha
        obtain ⟨b, hb, -, hvalue⟩ := mem_of_resolveAttributes hresolved a ha
        rw [hvalue]
        exact (has b hb).2
      · rw [← distinct_iff_nodup]
        simpa using hdistinct

/-- Legal tokens build a legal tree, whatever is open and done before them. -/
theorem build_legal {ts : List Token} {room : Nat} {scope : Scope} {stack : List Open}
    {done content : List Node} (hts : ∀ t ∈ ts, t.Legal) (hstack : ∀ o ∈ stack, o.Legal)
    (hdone : LegalAll done) (h : build ts room scope stack done = some content) :
    LegalAll content := by
  induction ts generalizing room scope stack done with
  | nil =>
    cases stack with
    | nil =>
      cases h
      exact legalAll_reverse hdone
    | cons o stack => simp [build] at h
  | cons t rest ih =>
    obtain ⟨ht, hrest⟩ := List.forall_mem_cons.1 hts
    cases t with
    | opening n attributes selfClosing =>
      cases room with
      | zero => simp [build] at h
      | succ room =>
        cases htag : resolveTag scope n attributes with
        | none => simp [build, htag] at h
        | some tag =>
          obtain ⟨inner, name, resolved⟩ := tag
          obtain ⟨hname, hattributes⟩ := resolveTag_legal ht htag
          simp only [build, htag] at h
          split at h
          · refine ih hrest hstack ?_ h
            exact ⟨⟨hname, hattributes, legalAll_nil⟩, hdone⟩
          · exact ih hrest (List.forall_mem_cons.2 ⟨⟨hname, hattributes, hdone⟩, hstack⟩)
              legalAll_nil h
    | closing n =>
      cases stack with
      | nil => simp [build] at h
      | cons o stack =>
        obtain ⟨ho, hstack⟩ := List.forall_mem_cons.1 hstack
        rw [build] at h
        split at h
        · refine ih hrest hstack ?_ h
          exact ⟨⟨ho.name, ho.attributes, legalAll_reverse hdone⟩, ho.before⟩
        · cases h
    | text s =>
      rw [build] at h
      refine ih hrest hstack ?_ h
      exact ⟨ht, hdone⟩
    | comment s =>
      rw [build] at h
      refine ih hrest hstack ?_ h
      exact ⟨trivial, hdone⟩
    | instruction target body =>
      rw [build] at h
      refine ih hrest hstack ?_ h
      exact ⟨trivial, hdone⟩

/-- What a well-formed fragment holds is legal. -/
theorem readFragment_legal {cs : List Char} {content : List Node}
    (h : readFragment cs = some content) : LegalAll content := by
  obtain ⟨ts, hts, h⟩ := Option.bind_eq_some_iff.1 h
  split at h
  · simp at h
  · exact build_legal (tokens_legal hts) (by simp) legalAll_nil h

end MarkdownDocx.Xml

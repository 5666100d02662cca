import MarkdownDocx.Proofs.Text.Feeds
import MarkdownDocx.Proofs.Xml.Written

/-!
Trees that read back as they were written. Main statement: a written document is read as exactly
its tree where no element is nested too deeply, and is refused otherwise.
-/

set_option autoImplicit false

namespace MarkdownDocx.Xml

open MarkdownDocx.Text

def spelledAttributes (as : List Attribute) : List (QName × String) :=
  as.map fun a => (a.1.spelled, a.2)

mutual
/-- The tokens that a tree is written as. -/
def Node.tokens : Node → List Token
  | .element name attributes children =>
    .opening name.spelled (spelledAttributes attributes) false ::
      (tokensAll children ++ [.closing name.spelled])
  | .text s => [.text s]
  | .comment s => [.comment s]
  | .instruction target body => [.instruction target body]

def tokensAll : List Node → List Token
  | [] => []
  | n :: rest => n.tokens ++ tokensAll rest
end

/-- Attributes that read back as they are: under names with a mark, none twice, and none of them an
identity. -/
structure FaithfulAttributes (as : List Attribute) : Prop where
  marked : ∀ a ∈ as, a.1.Marked
  noIdentity : ∀ a ∈ as, a.1.spelled ≠ ⟨"xml", "id"⟩
  legal : ∀ a ∈ as, a.2.toList.all isXmlChar = true
  nodup : (as.map Prod.fst).Nodup

def startsWithText : List Node → Prop
  | .text _ :: _ => True
  | _ => False

mutual
/-- Elements and texts that keep apart when they are written: no text is empty, and none follows
another. -/
def Node.Faithful : Node → Prop
  | .element name attributes children =>
    name.Marked ∧ FaithfulAttributes attributes ∧ FaithfulAll children
  | .text s => s ≠ "" ∧ s.toList.all isXmlChar = true
  | .comment _ => False
  | .instruction _ _ => False

def FaithfulAll : List Node → Prop
  | [] => True
  | n :: rest => n.Faithful ∧ FaithfulAll rest ∧ ¬(startsWithText [n] ∧ startsWithText rest)
end

/-! Tags in terms of their tokens. -/

theorem FaithfulAttributes.qualified {as : List Attribute} (h : FaithfulAttributes as) :
    ∀ a ∈ spelledAttributes as, a.1.Qualified := by
  intro a ha
  obtain ⟨b, hb, rfl⟩ := List.mem_map.1 ha
  exact (h.marked b hb).spelled_qualified

theorem writtenAttributes_eq {as : List Attribute} (h : ∀ a ∈ as, a.1.Marked) :
    writtenAttributes as = (spelledAttributes as).flatMap writtenPair := by
  induction as with
  | nil => rfl
  | cons a as ih =>
    have hrest := ih fun b hb => h b (List.mem_cons_of_mem a hb)
    simp only [writtenAttributes, spelledAttributes] at hrest
    simp [writtenAttributes, spelledAttributes, writtenAttribute, writtenPair,
      (h a List.mem_cons_self).marked_toList, hrest]

/-- An element's text between and including its tags. -/
def tagText (q : QName) (as : List (QName × String)) (inner : List Char) : List Char :=
  '<' :: (q.text ++ (as.flatMap writtenPair ++ '>' :: (inner ++ '<' :: '/' :: (q.text ++ ['>']))))

theorem written_element {name : Name} {as : List Attribute} (children : List Node)
    (hn : name.Marked) (has : FaithfulAttributes as) :
    (Node.element name as children).written =
      tagText name.spelled (spelledAttributes as) (writtenAll children) := by
  simp [Node.written, tagText, hn.marked_toList, writtenAttributes_eq has.marked]

/-! Every written character is one that a document may hold. -/

theorem plain_pairs {as : List (QName × String)} (hq : ∀ a ∈ as, a.1.Qualified)
    (hv : ∀ a ∈ as, a.2.toList.all isXmlChar = true) :
    ∀ c ∈ as.flatMap writtenPair, isPlain c = true := by
  intro c hc
  obtain ⟨a, ha, hc⟩ := List.mem_flatMap.1 hc
  simp only [writtenPair, QName.text, List.mem_cons, List.mem_append, List.not_mem_nil,
    or_false] at hc
  rcases hc with rfl | (hc | rfl | hc) | rfl | rfl | hc | rfl
  · decide
  · exact plain_of_isLocalName (hq a ha).qualifier c hc
  · decide
  · exact plain_of_isLocalName (hq a ha).base c hc
  · decide
  · decide
  · exact (mem_escapedValue hc).2.2.2 (hv a ha)
  · decide

theorem plain_text {q : QName} (hq : q.Qualified) : ∀ c ∈ q.text, isPlain c = true := by
  intro c hc
  simp only [QName.text, List.mem_append, List.mem_cons] at hc
  rcases hc with hc | rfl | hc
  · exact plain_of_isLocalName hq.qualifier c hc
  · decide
  · exact plain_of_isLocalName hq.base c hc

theorem plain_tagText {q : QName} {as : List (QName × String)} {inner : List Char}
    (hq : q.Qualified) (has : ∀ a ∈ as, a.1.Qualified)
    (hv : ∀ a ∈ as, a.2.toList.all isXmlChar = true) (hinner : ∀ c ∈ inner, isPlain c = true) :
    ∀ c ∈ tagText q as inner, isPlain c = true := by
  intro c hc
  simp only [tagText, List.mem_cons, List.mem_append, List.not_mem_nil, or_false] at hc
  rcases hc with rfl | hc | hc | rfl | hc | rfl | rfl | hc | rfl
  · decide
  · exact plain_text hq c hc
  · exact plain_pairs has hv c hc
  · decide
  · exact hinner c hc
  · decide
  · decide
  · exact plain_text hq c hc
  · decide

theorem FaithfulAttributes.spelled_legal {as : List Attribute} (h : FaithfulAttributes as) :
    ∀ a ∈ spelledAttributes as, a.2.toList.all isXmlChar = true := by
  intro a ha
  obtain ⟨b, hb, rfl⟩ := List.mem_map.1 ha
  exact h.legal b hb

mutual
theorem plain_written (x : Node) (h : x.Faithful) : ∀ c ∈ x.written, isPlain c = true :=
  match x, h with
  | .element name as children, ⟨hn, has, hc⟩ => by
    rw [written_element children hn has]
    exact plain_tagText hn.spelled_qualified has.qualified has.spelled_legal
      (plain_writtenAll children hc)
  | .text s, ⟨_, hs⟩ => fun c hc => (mem_escapedText hc).2.2 hs

theorem plain_writtenAll (xs : List Node) (h : FaithfulAll xs) :
    ∀ c ∈ writtenAll xs, isPlain c = true :=
  match xs, h with
  | [], _ => by simp [writtenAll]
  | x :: xs, ⟨hx, hxs, _⟩ => by
    intro c hc
    simp only [writtenAll, List.mem_append] at hc
    rcases hc with hc | hc
    · exact plain_written x hx c hc
    · exact plain_writtenAll xs hxs c hc
end

theorem unifyFeeds_plain {cs : List Char} (h : ∀ c ∈ cs, isPlain c = true) :
    unifyFeeds cs = cs :=
  unifyFeeds_of_not_mem fun hmem => absurd (h '\r' hmem) (by decide)

/-- On plain text, only the cutting into tags and texts is left to do. -/
theorem tokens_plain {cs : List Char} (h : ∀ c ∈ cs, isPlain c = true) :
    tokens cs = readTokens cs.length cs := by
  have hall : cs.all isXmlChar = true := List.all_eq_true.2 fun c hc => by
    have := h c hc
    simp only [isPlain, Bool.and_eq_true] at this
    exact this.1
  simp [tokens, unifyFeeds_plain h, hall]

/-! Cutting what a tree writes. -/

/-- What follows a text begins a tag, where the text does not run to its end. -/
theorem begins_writtenAll {xs : List Node} (h : FaithfulAll xs) (hx : ¬startsWithText xs)
    (r : List Char) : ∃ t, writtenAll xs ++ '<' :: r = '<' :: t := by
  match xs, h with
  | [], _ => exact ⟨r, rfl⟩
  | .element name as children :: xs, _ =>
    simp only [writtenAll, Node.written, List.cons_append]
    exact ⟨_, rfl⟩
  | .text s :: xs, _ => exact absurd trivial hx

theorem readTokens_cons {cs r : List Char} {t : Token} (h : readToken cs = some (t, r))
    (hcs : cs ≠ []) (fuel : Nat) :
    readTokens (fuel + 1) cs = (readTokens fuel r).map (t :: ·) := by
  cases cs with
  | nil => exact absurd rfl hcs
  | cons c cs => simp [readTokens, h]

def tagTokens (q : QName) (as : List (QName × String)) (inner : List Token) : List Token :=
  .opening q as false :: (inner ++ [.closing q])

theorem tokens_element (name : Name) (as : List Attribute) (children : List Node) :
    (Node.element name as children).tokens =
      tagTokens name.spelled (spelledAttributes as) (tokensAll children) := rfl

theorem length_tagTokens (q : QName) (as : List (QName × String)) (inner : List Token) :
    (tagTokens q as inner).length = inner.length + 2 := by
  simp [tagTokens]

mutual
theorem readTokens_tagText {q : QName} {as : List (QName × String)} (children : List Node)
    (hq : q.Qualified) (has : ∀ a ∈ as, a.1.Qualified) (hc : FaithfulAll children)
    (r : List Char) (fuel : Nat) :
    readTokens ((tagTokens q as (tokensAll children)).length + fuel)
        (tagText q as (writtenAll children) ++ r) =
      (readTokens fuel r).map (tagTokens q as (tokensAll children) ++ ·) := by
  have hlen : (tagTokens q as (tokensAll children)).length + fuel =
      (tokensAll children).length + (fuel + 1) + 1 := by
    rw [length_tagTokens]
    omega
  have htext : tagText q as (writtenAll children) ++ r =
      '<' :: (q.text ++ (as.flatMap writtenPair ++
        '>' :: (writtenAll children ++ '<' :: ('/' :: (q.text ++ '>' :: r))))) := by
    simp [tagText]
  rw [htext, hlen, readTokens_cons (readToken_opening hq as has _) (by simp),
    readTokens_writtenAll children hc _ (fuel + 1),
    readTokens_cons (readToken_closing hq r) (by simp)]
  cases readTokens fuel r <;> simp [tagTokens]

/-- A tag stands behind what is cut here, so that a text at the end is not run on. -/
theorem readTokens_writtenAll (xs : List Node) (h : FaithfulAll xs) (r : List Char) (fuel : Nat) :
    readTokens ((tokensAll xs).length + fuel) (writtenAll xs ++ '<' :: r) =
      (readTokens fuel ('<' :: r)).map (tokensAll xs ++ ·) :=
  match xs, h with
  | [], _ => by simp [tokensAll, writtenAll]
  | .element name as children :: xs, ⟨⟨hn, has, hc⟩, hxs, _⟩ => by
    have hrest := readTokens_writtenAll xs hxs r fuel
    have hfirst := readTokens_tagText children hn.spelled_qualified has.qualified hc
      (writtenAll xs ++ '<' :: r) ((tokensAll xs).length + fuel)
    rw [hrest] at hfirst
    simp only [tokensAll, tokens_element, writtenAll, written_element children hn has,
      List.length_append, List.append_assoc, Nat.add_assoc]
    rw [hfirst]
    cases readTokens fuel ('<' :: r) <;> simp
  | .text s :: xs, ⟨hx, hxs, happart⟩ => by
    have hrest := readTokens_writtenAll xs hxs r fuel
    obtain ⟨t, ht⟩ := begins_writtenAll hxs (fun hs => happart ⟨trivial, hs⟩) r
    have hlen : (tokensAll (.text s :: xs)).length + fuel =
        (tokensAll xs).length + fuel + 1 := by
      simp [tokensAll, Node.tokens]
      omega
    simp only [writtenAll, Node.written, List.append_assoc]
    rw [ht] at hrest ⊢
    rw [hlen, readTokens_cons (readToken_escapedText hx.1 t) (by simp), hrest]
    cases readTokens fuel ('<' :: r) <;> simp [tokensAll, Node.tokens]
end

/-! Every token takes up some text. -/

theorem length_tagText (q : QName) (as : List (QName × String)) (inner : List Char) :
    inner.length + 2 ≤ (tagText q as inner).length := by
  simp only [tagText, List.length_cons, List.length_append]
  omega

mutual
theorem length_tokens_le (x : Node) (h : x.Faithful) : x.tokens.length ≤ x.written.length :=
  match x, h with
  | .element name as children, ⟨hn, has, hc⟩ => by
    have hinner := length_tokensAll_le children hc
    have htag := length_tagText name.spelled (spelledAttributes as) (writtenAll children)
    rw [tokens_element, length_tagTokens, written_element children hn has]
    omega
  | .text s, ⟨hs, _⟩ => List.length_pos_iff.2 (escapedText_ne_nil hs)

theorem length_tokensAll_le (xs : List Node) (h : FaithfulAll xs) :
    (tokensAll xs).length ≤ (writtenAll xs).length :=
  match xs, h with
  | [], _ => by simp [tokensAll]
  | x :: xs, ⟨hx, hxs, _⟩ => by
    have hfirst := length_tokens_le x hx
    have hrest := length_tokensAll_le xs hxs
    simp only [tokensAll, writtenAll, List.length_append]
    omega
end

/-! Documents. -/

def declarations : List (QName × String) :=
  [(⟨"xmlns", "m"⟩, mathAddress), (⟨"xmlns", "w"⟩, wordAddress)]

/-- A character that a value holds as it is. -/
def standsAsItIs (c : Char) : Bool := isXmlChar c && escapedValueChar c == [c]

theorem mathAddress_standsAsItIs : mathAddress.toList.all standsAsItIs = true := by decide

theorem wordAddress_standsAsItIs : wordAddress.toList.all standsAsItIs = true := by decide

theorem legal_of_standsAsItIs {s : String} (h : s.toList.all standsAsItIs = true) :
    s.toList.all isXmlChar = true :=
  List.all_eq_true.2 fun c hc => by
    have := List.all_eq_true.1 h c hc
    simp only [standsAsItIs, Bool.and_eq_true] at this
    exact this.1

theorem escapedValue_of_standsAsItIs {s : String} (h : s.toList.all standsAsItIs = true) :
    escapedValue s = s.toList := by
  unfold escapedValue
  generalize s.toList = cs at h
  induction cs with
  | nil => rfl
  | cons c cs ih =>
    simp only [List.all_cons, standsAsItIs, Bool.and_eq_true, beq_iff_eq] at h
    simp [h.1.2, ih h.2]

theorem formulaDeclarations_eq : formulaDeclarations = declarations.flatMap writtenPair := by
  have hmath := escapedValue_of_standsAsItIs mathAddress_standsAsItIs
  have hword := escapedValue_of_standsAsItIs wordAddress_standsAsItIs
  unfold formulaDeclarations declarations
  generalize mathAddress = m at hmath ⊢
  generalize wordAddress = w at hword ⊢
  simp [writtenPair, QName.text, hmath, hword]

theorem qualified_declarations : ∀ a ∈ declarations, a.1.Qualified := by
  intro a ha
  simp only [declarations, List.mem_cons, List.not_mem_nil, or_false] at ha
  rcases ha with rfl | rfl <;> exact ⟨by decide, by decide⟩

theorem legal_declarations : ∀ a ∈ declarations, a.2.toList.all isXmlChar = true := by
  intro a ha
  simp only [declarations, List.mem_cons, List.not_mem_nil, or_false] at ha
  rcases ha with rfl | rfl
  · exact legal_of_standsAsItIs mathAddress_standsAsItIs
  · exact legal_of_standsAsItIs wordAddress_standsAsItIs

theorem document_element {name : Name} {as : List Attribute} (children : List Node)
    (hn : name.Marked) (has : FaithfulAttributes as) :
    (Node.element name as children).document =
      tagText name.spelled (declarations ++ spelledAttributes as) (writtenAll children) := by
  simp [Node.document, tagText, hn.marked_toList, writtenAttributes_eq has.marked,
    formulaDeclarations_eq]

theorem tokens_tagText {q : QName} {as : List (QName × String)} {children : List Node}
    (hq : q.Qualified) (has : ∀ a ∈ as, a.1.Qualified)
    (hv : ∀ a ∈ as, a.2.toList.all isXmlChar = true) (hc : FaithfulAll children) :
    tokens (tagText q as (writtenAll children)) = some (tagTokens q as (tokensAll children)) := by
  have hroom := length_tagText q as (writtenAll children)
  have hcount := length_tokensAll_le children hc
  rw [tokens_plain (plain_tagText hq has hv (plain_writtenAll children hc))]
  obtain ⟨fuel, hfuel⟩ : ∃ fuel, (tagText q as (writtenAll children)).length =
      (tagTokens q as (tokensAll children)).length + fuel := by
    refine ⟨_, (Nat.add_sub_cancel' ?_).symm⟩
    rw [length_tagTokens]
    omega
  have hread := readTokens_tagText children hq has hc [] fuel
  rw [List.append_nil] at hread
  rw [hfuel, hread]
  simp [readTokens]

/-! Names resolved. -/

/-- The marks stand for the namespaces that they are the marks of. -/
def Scope.Usual (scope : Scope) : Prop :=
  ∀ n : Namespace, n = .math ∨ n = .word ∨ n = .xml → scope.find? n.mark = some n

theorem usual_formulaScope : formulaScope.Usual := by
  rintro n (rfl | rfl | rfl) <;> decide

def documentScope : Scope := ("w", .word) :: ("m", .math) :: formulaScope

theorem usual_documentScope : documentScope.Usual := by
  rintro n (rfl | rfl | rfl) <;> decide

theorem distinct_iff_nodup {α : Type} [DecidableEq α] (as : List α) :
    distinct as = true ↔ as.Nodup := by
  induction as with
  | nil => simp [distinct]
  | cons a as ih => simp [distinct, ih]

theorem Name.Marked.declaredMark_eq_none {n : Name} (h : n.Marked) :
    declaredMark? n.spelled = none := by
  rcases h.space with hs | hs | hs <;> simp [declaredMark?, Name.spelled, hs, Namespace.mark]

theorem declare_spelled {as : List Attribute} (h : ∀ a ∈ as, a.1.Marked) (scope : Scope) :
    declare (spelledAttributes as) scope = some scope := by
  induction as with
  | nil => rfl
  | cons a as ih =>
    have ha := (h a List.mem_cons_self).declaredMark_eq_none
    have hrest := ih fun b hb => h b (List.mem_cons_of_mem a hb)
    rw [spelledAttributes, List.map_cons, declare, ha]
    exact hrest

theorem declare_append (as bs : List (QName × String)) (scope : Scope) :
    declare (as ++ bs) scope = (declare as scope).bind (declare bs) := by
  induction as generalizing scope with
  | nil => rfl
  | cons a as ih =>
    simp only [List.cons_append, declare]
    split
    · split
      · exact ih _
      · rfl
    · exact ih scope

theorem Name.Marked.resolveElement_spelled {n : Name} (h : n.Marked) {scope : Scope}
    (hs : scope.Usual) : resolveElement scope n.spelled = some n := by
  simp [resolveElement, Name.spelled, hs n.space h.space]

theorem Name.Marked.resolveAttribute_spelled {n : Name} (h : n.Marked) {scope : Scope}
    (hs : scope.Usual) : resolveAttribute scope n.spelled = some n := by
  have hmark : n.spelled.qualifier ≠ "" := by
    rcases h.space with hm | hm | hm <;> simp [Name.spelled, hm, Namespace.mark]
  rw [resolveAttribute, if_neg hmark, h.resolveElement_spelled hs]

theorem resolveAttributes_spelled {as : List Attribute} (h : ∀ a ∈ as, a.1.Marked)
    {scope : Scope} (hs : scope.Usual) :
    resolveAttributes scope (spelledAttributes as) = some as := by
  induction as with
  | nil => rfl
  | cons a as ih =>
    have ha := h a List.mem_cons_self
    have hrest := ih fun b hb => h b (List.mem_cons_of_mem a hb)
    rw [spelledAttributes, List.map_cons, resolveAttributes, ha.declaredMark_eq_none]
    simp only [ha.resolveAttribute_spelled hs]
    simp only [spelledAttributes] at hrest
    simp [hrest]

theorem FaithfulAttributes.spelled_nodup {as : List Attribute} (h : FaithfulAttributes as) :
    ((spelledAttributes as).map Prod.fst).Nodup := by
  have hnames := h.nodup
  simp only [spelledAttributes, List.map_map, List.Nodup, List.pairwise_map] at hnames ⊢
  refine hnames.imp_of_mem fun {a b} ha hb hne heq => hne ?_
  exact (h.marked a ha).eq_of_spelled (h.marked b hb) heq

theorem resolveTag_eq_some {scope inner : Scope} {q : QName} {attributes : List (QName × String)}
    {n : Name} {as : List Attribute} (hwritten : (attributes.map Prod.fst).Nodup)
    (hscope : declare attributes scope = some inner) (hname : resolveElement inner q = some n)
    (has : resolveAttributes inner attributes = some as) (hresolved : (as.map Prod.fst).Nodup) :
    resolveTag scope q attributes = some (inner, n, as) := by
  rw [← distinct_iff_nodup] at hwritten hresolved
  simp [resolveTag, hwritten, hscope, hname, has, hresolved]

theorem resolveTag_spelled {n : Name} {as : List Attribute} (hn : n.Marked)
    (has : FaithfulAttributes as) {scope : Scope} (hs : scope.Usual) :
    resolveTag scope n.spelled (spelledAttributes as) = some (scope, n, as) :=
  resolveTag_eq_some has.spelled_nodup (declare_spelled has.marked scope)
    (hn.resolveElement_spelled hs) (resolveAttributes_spelled has.marked hs) has.nodup

/-! The tree of the tokens. -/

theorem build_tagTokens {n : Name} {as : List Attribute} {attributes : List (QName × String)}
    {children : List Node} {scope inner : Scope}
    (htag : resolveTag scope n.spelled attributes = some (inner, n, as))
    (hchildren : ∀ (rest : List Token) (room : Nat) (stack : List Open) (done : List Node),
      build (tokensAll children ++ rest) room inner stack done =
        if depthAll children ≤ room then build rest room inner stack (children.reverse ++ done)
        else none)
    (rest : List Token) (room : Nat) (stack : List Open) (done : List Node) :
    build (tagTokens n.spelled attributes (tokensAll children) ++ rest) room scope stack done =
      if depthAll children + 1 ≤ room
      then build rest room scope stack (.element n as children :: done)
      else none := by
  cases room with
  | zero => simp [tagTokens, build]
  | succ room => simp [tagTokens, build, htag, hchildren]

mutual
theorem build_tokens (x : Node) (h : x.Faithful) {scope : Scope} (hs : scope.Usual)
    (rest : List Token) (room : Nat) (stack : List Open) (done : List Node) :
    build (x.tokens ++ rest) room scope stack done =
      if x.depth ≤ room then build rest room scope stack (x :: done) else none :=
  match x, h with
  | .element name as children, ⟨hn, has, hc⟩ => by
    rw [tokens_element, build_tagTokens (resolveTag_spelled hn has hs)
      (fun rest room stack done => build_tokensAll children hc hs rest room stack done)]
    rfl
  | .text s, _ => by simp [Node.tokens, build, Node.depth]

/-- A level of the tree that has room for what is nested in it is built in full; otherwise nothing
is. -/
theorem build_tokensAll (xs : List Node) (h : FaithfulAll xs) {scope : Scope} (hs : scope.Usual)
    (rest : List Token) (room : Nat) (stack : List Open) (done : List Node) :
    build (tokensAll xs ++ rest) room scope stack done =
      if depthAll xs ≤ room then build rest room scope stack (xs.reverse ++ done) else none :=
  match xs, h with
  | [], _ => by simp [tokensAll, depthAll]
  | x :: xs, ⟨hx, hxs, _⟩ => by
    rw [tokensAll, List.append_assoc, build_tokens x hx hs, build_tokensAll xs hxs hs, depthAll]
    by_cases hdeep : x.depth ≤ room
    · have hmax : max x.depth (depthAll xs) ≤ room ↔ depthAll xs ≤ room := by omega
      simp [hdeep, hmax]
    · have hmax : ¬max x.depth (depthAll xs) ≤ room := by omega
      rw [if_neg hdeep, if_neg hmax]
end

/-! Identities. -/

theorem identities_append (ts us : List Token) :
    identities (ts ++ us) = identities ts ++ identities us := by
  fun_induction identities ts with
  | case1 => rfl
  | case2 n as selfClosing ts ih => simp [identities, ih]
  | case3 t ts hne ih =>
    cases t with
    | opening n as selfClosing => exact absurd rfl (hne n as selfClosing)
    | _ => simpa [identities] using ih

theorem identities_tagTokens {q : QName} {as : List (QName × String)} {inner : List Token}
    (has : ∀ a ∈ as, a.1 ≠ ⟨"xml", "id"⟩) (hinner : identities inner = []) :
    identities (tagTokens q as inner) = [] := by
  simp only [tagTokens, identities, identities_append, hinner, List.append_nil,
    List.map_eq_nil_iff, List.filter_eq_nil_iff, beq_iff_eq]
  exact has

theorem FaithfulAttributes.spelled_noIdentity {as : List Attribute} (h : FaithfulAttributes as) :
    ∀ a ∈ spelledAttributes as, a.1 ≠ ⟨"xml", "id"⟩ := by
  intro a ha
  obtain ⟨b, hb, rfl⟩ := List.mem_map.1 ha
  exact h.noIdentity b hb

mutual
theorem identities_tokens (x : Node) (h : x.Faithful) : identities x.tokens = [] :=
  match x, h with
  | .element name as children, ⟨_, has, hc⟩ => by
    rw [tokens_element]
    exact identities_tagTokens has.spelled_noIdentity (identities_tokensAll children hc)
  | .text s, _ => rfl

theorem identities_tokensAll (xs : List Node) (h : FaithfulAll xs) :
    identities (tokensAll xs) = [] :=
  match xs, h with
  | [], _ => rfl
  | x :: xs, ⟨hx, hxs, _⟩ => by
    rw [tokensAll, identities_append, identities_tokens x hx, identities_tokensAll xs hxs]
    rfl
end

/-! The outermost element. -/

theorem declare_declarations : declare declarations formulaScope = some documentScope := by
  have hm : declarable "m" mathAddress = true := by decide +kernel
  have hw : declarable "w" wordAddress = true := by decide +kernel
  have hmath : Namespace.ofAddress mathAddress = .math := by decide +kernel
  have hword : Namespace.ofAddress wordAddress = .word := by decide +kernel
  simp [declarations, declare, declaredMark?, hm, hw, hmath, hword, documentScope]

theorem spelled_not_declared {as : List Attribute} (h : ∀ a ∈ as, a.1.Marked) {a : QName × String}
    (ha : a ∈ spelledAttributes as) : a.1.qualifier ≠ "xmlns" := by
  obtain ⟨b, hb, rfl⟩ := List.mem_map.1 ha
  rcases (h b hb).space with hs | hs | hs <;> simp [Name.spelled, hs, Namespace.mark]

theorem nodup_declarations_append {as : List Attribute} (h : FaithfulAttributes as) :
    ((declarations ++ spelledAttributes as).map Prod.fst).Nodup := by
  rw [List.map_append, List.nodup_append]
  refine ⟨by decide, h.spelled_nodup, ?_⟩
  rintro q hq q' hq' rfl
  obtain ⟨a, ha, rfl⟩ := List.mem_map.1 hq'
  have hspelled := spelled_not_declared h.marked ha
  simp only [declarations, List.map_cons, List.map_nil, List.mem_cons, List.not_mem_nil,
    or_false] at hq
  rcases hq with hq | hq <;> simp [hq] at hspelled

theorem resolveTag_document {n : Name} {as : List Attribute} (hn : n.Marked)
    (has : FaithfulAttributes as) :
    resolveTag formulaScope n.spelled (declarations ++ spelledAttributes as) =
      some (documentScope, n, as) := by
  have hscope : declare (declarations ++ spelledAttributes as) formulaScope =
      some documentScope := by
    rw [declare_append, declare_declarations]
    exact declare_spelled has.marked documentScope
  have hattributes : resolveAttributes documentScope (declarations ++ spelledAttributes as) =
      some as := by
    simpa [declarations, resolveAttributes, declaredMark?] using
      resolveAttributes_spelled has.marked usual_documentScope
  exact resolveTag_eq_some (nodup_declarations_append has) hscope
    (hn.resolveElement_spelled usual_documentScope) hattributes has.nodup

/-- An element reads as the tree that it was written from, under whatever declarations, and it reads
at all just where its elements are not nested too deeply. -/
theorem readFragment_tagText {n : Name} {as : List Attribute} {attributes : List (QName × String)}
    {children : List Node} {inner : Scope} (hn : n.Marked)
    (hq : ∀ a ∈ attributes, a.1.Qualified)
    (hv : ∀ a ∈ attributes, a.2.toList.all isXmlChar = true)
    (hid : ∀ a ∈ attributes, a.1 ≠ ⟨"xml", "id"⟩) (hc : FaithfulAll children)
    (htag : resolveTag formulaScope n.spelled attributes = some (inner, n, as))
    (hinner : inner.Usual) :
    readFragment (tagText n.spelled attributes (writtenAll children)) =
      if (Node.element n as children).depth < greatestDepth
      then some [Node.element n as children] else none := by
  have htokens := tokens_tagText hn.spelled_qualified hq hv hc
  have hnone : identities (tagTokens n.spelled attributes (tokensAll children)) = [] :=
    identities_tagTokens hid (identities_tokensAll children hc)
  have hbuild := build_tagTokens htag
    (fun rest room stack done => build_tokensAll children hc hinner rest room stack done)
    [] (greatestDepth - 1) [] []
  rw [List.append_nil] at hbuild
  have hdepth : (Node.element n as children).depth = depthAll children + 1 := rfl
  have hroom : depthAll children + 1 ≤ greatestDepth - 1 ↔
      (Node.element n as children).depth < greatestDepth := by
    rw [hdepth, greatestDepth]
    omega
  simp [readFragment, htokens, identifiable, hnone, distinct, hbuild, build, hroom]

theorem readFragment_document {n : Name} {as : List Attribute} {children : List Node}
    (h : (Node.element n as children).Faithful) :
    readFragment (Node.element n as children).document =
      if (Node.element n as children).depth < greatestDepth
      then some [Node.element n as children] else none := by
  obtain ⟨hn, has, hc⟩ := h
  have hid : ∀ a ∈ declarations, a.1 ≠ ⟨"xml", "id"⟩ := by
    intro a ha
    simp only [declarations, List.mem_cons, List.not_mem_nil, or_false] at ha
    rcases ha with rfl | rfl <;> simp
  rw [document_element children hn has]
  exact readFragment_tagText hn
    (List.forall_mem_append.2 ⟨qualified_declarations, has.qualified⟩)
    (List.forall_mem_append.2 ⟨legal_declarations, has.spelled_legal⟩)
    (List.forall_mem_append.2 ⟨hid, has.spelled_noIdentity⟩)
    hc (resolveTag_document hn has) usual_documentScope

/-- The marks of formulas need no declarations. -/
theorem readFragment_written {n : Name} {as : List Attribute} {children : List Node}
    (h : (Node.element n as children).Faithful) :
    readFragment (Node.element n as children).written =
      if (Node.element n as children).depth < greatestDepth
      then some [Node.element n as children] else none := by
  obtain ⟨hn, has, hc⟩ := h
  rw [written_element children hn has]
  exact readFragment_tagText hn has.qualified has.spelled_legal has.spelled_noIdentity hc
    (resolveTag_spelled hn has usual_formulaScope) usual_formulaScope

/-! Trees that read back may be written. -/

theorem checkAttributes_of_faithful {as : List Attribute} (h : FaithfulAttributes as) :
    checkAttributes as = .ok () := by
  have hnames := fun a ha => (h.marked a ha).base
  have hvalues := h.legal
  clear h
  induction as with
  | nil => rfl
  | cons a as ih =>
    have hname := hnames a List.mem_cons_self
    have hvalue := hvalues a List.mem_cons_self
    have hrest := ih (fun b hb => hnames b (List.mem_cons_of_mem a hb))
      (fun b hb => hvalues b (List.mem_cons_of_mem a hb))
    rw [checkAttributes, checkName, if_pos hname, checkText, if_pos hvalue]
    exact hrest

mutual
theorem check_of_faithful (x : Node) (h : x.Faithful) : x.check = .ok () :=
  match x, h with
  | .element name as children, ⟨hn, has, hc⟩ => by
    rw [Node.check, checkName, if_pos hn.base, checkAttributes_of_faithful has]
    exact checkAll_of_faithful children hc
  | .text s, ⟨_, hs⟩ => if_pos hs

theorem checkAll_of_faithful (xs : List Node) (h : FaithfulAll xs) : checkAll xs = .ok () :=
  match xs, h with
  | [], _ => rfl
  | x :: xs, ⟨hx, hxs, _⟩ => by
    rw [checkAll, check_of_faithful x hx]
    exact checkAll_of_faithful xs hxs
end

end MarkdownDocx.Xml

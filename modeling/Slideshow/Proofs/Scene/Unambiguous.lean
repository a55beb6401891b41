/-
  Slideshow.Proofs.Scene.Unambiguous

  What the text of a diagram says about it. Names end where a blank or a mark follows, and
  texts and values are escaped, so that a text is cut into its parts in one way only. Two
  diagrams with the same text hence are the same document, but for how their texts are divided
  (`content_eq_of_text`).
-/
import Slideshow.Proofs.Scene.Escape
import Slideshow.Proofs.Scene.Index
import Slideshow.Proofs.Scene.Joined

namespace Slideshow

/-! ## Cutting texts -/

namespace Text

variable {l l' rest rest' : List Char}

/-- A text is cut in one way where a part ends at the first character that cannot be in it. -/
theorem eq_of_append_eq {p : Char → Bool} (hl : ∀ c ∈ l, p c = true)
    (hl' : ∀ c ∈ l', p c = true) (hrest : ∀ c ∈ rest.head?, p c = false)
    (hrest' : ∀ c ∈ rest'.head?, p c = false) (h : l ++ rest = l' ++ rest') :
    l = l' ∧ rest = rest' := by
  have hnone : ∀ rest : List Char, (∀ c ∈ rest.head?, p c = false) → rest.takeWhile p = [] := by
    intro rest hrest
    cases rest with
    | nil => rfl
    | cons c rest => rw [List.takeWhile_cons, hrest c rfl, if_neg Bool.false_ne_true]
  have htake := congrArg (List.takeWhile p) h
  rw [List.takeWhile_append_of_pos hl, List.takeWhile_append_of_pos hl', hnone rest hrest,
    hnone rest' hrest', List.append_nil, List.append_nil] at htake
  rw [htake] at h
  exact ⟨htake, List.append_cancel_left h⟩

end Text

/-! ## Escaped texts -/

namespace Markup

theorem textPiece_cases (c : Char) : textPiece c = .escaped c ∨ textPiece c = .char c := by
  unfold textPiece
  split
  · exact .inl rfl
  · exact .inr rfl

theorem valuePiece_cases (c : Char) : valuePiece c = .escaped c ∨ valuePiece c = .char c := by
  unfold valuePiece
  split
  · exact .inl rfl
  · exact textPiece_cases c

/-- A text can be told from how it is written, if each piece says which character it is. -/
theorem flatMap_injective {escape : Char → List Char} {piece : Char → Piece}
    (hread : ∀ c rest, pieces? (escape c ++ rest) = (pieces? rest).map (piece c :: ·))
    (hpiece : ∀ c, piece c = .escaped c ∨ piece c = .char c) :
    Function.Injective fun cs : List Char => cs.flatMap escape := by
  have hinj : Function.Injective piece := by
    intro c d h
    rcases hpiece c with hc | hc <;> rcases hpiece d with hd | hd <;> rw [hc, hd] at h <;>
      cases h <;> rfl
  intro cs ds h
  have hpieces := congrArg pieces? h
  rw [pieces?_flatMap hread, pieces?_flatMap hread] at hpieces
  exact (List.map_inj_right fun c d => @hinj c d).1 (Option.some.inj hpieces)

theorem escapeText_injective : Function.Injective fun cs : List Char => cs.flatMap escapeText :=
  flatMap_injective pieces?_escapeText textPiece_cases

theorem escapeValue_injective : Function.Injective fun cs : List Char => cs.flatMap escapeValue :=
  flatMap_injective pieces?_escapeValue valuePiece_cases

end Markup

/-! ## Clear names -/

/-- A name that holds something, and neither blanks nor marks. -/
def ClearName (name : String) : Prop :=
  name ≠ "" ∧ ∀ c ∈ name.toList, c ∉ [' ', '<', '>', '/', '=', '&', '"']

instance (name : String) : Decidable (ClearName name) :=
  @instDecidableAnd _ _ _ (List.decidableBAll _ _)

/-- The names of an element and of its attributes are clear. -/
def Tag.Clear (t : Tag) : Prop := ClearName t.name ∧ ∀ a ∈ t.attrs, ClearName a.1

instance (t : Tag) : Decidable t.Clear := inferInstanceAs (Decidable (_ ∧ _))

section Cutting

variable {name name' : String} {rest rest' : List Char}

theorem ClearName.ne (h : ClearName name) {c d : Char} (hc : c ∈ name.toList)
    (hd : d ∈ [' ', '<', '>', '/', '=', '&', '"']) : c ≠ d :=
  fun heq => h.2 c hc (heq ▸ hd)

/-- What comes behind the name of an element begins with one of these. -/
def endsName (c : Char) : Bool := c == ' ' || c == '/' || c == '>'

/-- The name of an element ends where it is written to end. -/
theorem ClearName.cut (h : ClearName name) (h' : ClearName name')
    (hrest : ∀ c ∈ rest.head?, endsName c = true) (hrest' : ∀ c ∈ rest'.head?, endsName c = true)
    (heq : name.toList ++ rest = name'.toList ++ rest') : name = name' ∧ rest = rest' := by
  have hinside : ∀ name : String, ClearName name → ∀ c ∈ name.toList, (!endsName c) = true := by
    intro name h c hc
    simp [endsName, h.ne hc (d := ' ') (by decide), h.ne hc (d := '/') (by decide),
      h.ne hc (d := '>') (by decide)]
  have hcut := Text.eq_of_append_eq (p := fun c => !endsName c) (hinside name h) (hinside name' h')
    (fun c hc => by simp [hrest c hc]) (fun c hc => by simp [hrest' c hc]) heq
  exact ⟨String.toList_injective hcut.1, hcut.2⟩

/-- An attribute ends where it is written to end. -/
theorem ClearName.cut_attribute (h : ClearName name) (h' : ClearName name') {value value' : String}
    (heq : attributeText name value ++ rest = attributeText name' value' ++ rest') :
    name = name' ∧ value = value' ∧ rest = rest' := by
  have hname : ∀ name : String, ClearName name → ∀ c ∈ name.toList, (c != '=') = true :=
    fun name h c hc => bne_iff_ne.2 (h.ne hc (by decide))
  have hvalue : ∀ cs : List Char, ∀ c ∈ cs.flatMap escapeValue, (c != '"') = true := by
    intro cs c hc
    rw [bne_iff_ne]
    rintro rfl
    exact Markup.quote_not_mem_escaped cs hc
  simp only [attributeText, List.cons_append, List.append_assoc, List.cons.injEq, true_and,
    List.nil_append] at heq
  obtain ⟨hnames, heq⟩ := Text.eq_of_append_eq (p := (· != '=')) (hname name h) (hname name' h')
    (by simp) (by simp) heq
  simp only [List.cons.injEq, true_and] at heq
  obtain ⟨hvalues, heq⟩ := Text.eq_of_append_eq (p := (· != '"')) (hvalue _) (hvalue _)
    (by simp) (by simp) heq
  exact ⟨String.toList_injective hnames,
    String.toList_injective (Markup.escapeValue_injective hvalues), (List.cons.inj heq).2⟩

end Cutting

/-! ## Tags -/

section Tags

variable {rest rest' : List Char}

theorem endsName_attributes (attrs : List (String × String))
    (h : ∀ c ∈ rest.head?, endsName c = true) :
    ∀ c ∈ ((attrs.flatMap fun a => attributeText a.1 a.2) ++ rest).head?, endsName c = true := by
  cases attrs with
  | nil => exact h
  | cons a attrs => simp [attributeText, endsName]

/-- Attributes end where something else begins. -/
theorem cut_attributes {attrs attrs' : List (String × String)} (h : ∀ a ∈ attrs, ClearName a.1)
    (h' : ∀ a ∈ attrs', ClearName a.1) (hrest : ∀ c ∈ rest.head?, c ≠ ' ')
    (hbehind : ∀ c ∈ rest'.head?, c ≠ ' ')
    (heq : (attrs.flatMap fun a => attributeText a.1 a.2) ++ rest =
      (attrs'.flatMap fun a => attributeText a.1 a.2) ++ rest') :
    attrs = attrs' ∧ rest = rest' := by
  induction attrs generalizing attrs' with
  | nil =>
    cases attrs' with
    | nil => exact ⟨rfl, heq⟩
    | cons b attrs' =>
      rw [List.flatMap_nil, List.nil_append] at heq
      rw [heq] at hrest
      exact absurd rfl (hrest ' ' rfl)
  | cons a attrs ih =>
    cases attrs' with
    | nil =>
      rw [List.flatMap_nil, List.nil_append] at heq
      rw [← heq] at hbehind
      exact absurd rfl (hbehind ' ' rfl)
    | cons b attrs' =>
      rw [List.flatMap_cons, List.flatMap_cons, List.append_assoc, List.append_assoc] at heq
      obtain ⟨hname, hvalue, heq⟩ := (h a List.mem_cons_self).cut_attribute
        (h' b List.mem_cons_self) heq
      obtain ⟨hattrs, hsame⟩ := ih (fun c hc => h c (List.mem_cons_of_mem _ hc))
        (fun c hc => h' c (List.mem_cons_of_mem _ hc)) heq
      exact ⟨by rw [hattrs, Prod.ext hname hvalue], hsame⟩

namespace Node

/-- How an element is written behind its attributes. -/
def tailChars (name : String) : List Node → List Char
  | [] => ['/', '>']
  | n :: ns => '>' :: listChars (n :: ns) ++ '<' :: '/' :: name.toList ++ ['>']

theorem chars_element (tag : Tag) (children : List Node) :
    (element tag children).chars = '<' :: (tag.name.toList ++
      ((tag.attrs.flatMap fun a => attributeText a.1 a.2) ++ tailChars tag.name children)) := by
  cases children <;> simp [chars, tailChars]

theorem head?_tailChars (name : String) (children : List Node) (rest : List Char) :
    ∀ c ∈ (tailChars name children ++ rest).head?, c ≠ ' ' ∧ endsName c = true := by
  cases children <;> simp [tailChars, endsName]

end Node

end Tags

/-! ## Nodes -/

namespace Node

variable {p q rest rest' : List Char} {ns ms : List Node}

/-- Nothing follows, or the end of the element around. -/
def Stops (rest : List Char) : Prop := rest = [] ∨ ∃ cs, rest = '<' :: '/' :: cs

theorem Stops.head? (h : Stops rest) : ∀ c ∈ rest.head?, (c != '<') = false := by
  rcases h with rfl | ⟨cs, rfl⟩ <;> simp

/-- A tag that begins is not one that ends. -/
theorem not_stops_element {tag : Tag} (h : ClearName tag.name) (children : List Node)
    (rest : List Char) : ¬ Stops ((element tag children).chars ++ rest) := by
  obtain ⟨c, name, hname⟩ : ∃ c name, tag.name.toList = c :: name := by
    cases hname : tag.name.toList with
    | nil => exact absurd (String.toList_injective hname) h.1
    | cons c name => exact ⟨c, name, rfl⟩
  have hslash : c ≠ '/' := h.ne (hname ▸ List.mem_cons_self) (by decide)
  rw [chars_element, hname]
  rintro (hnil | ⟨cs, hcons⟩)
  · cases hnil
  · exact hslash (List.cons.inj (List.cons.inj hcons).2).1

/-- Escaped text ends where a tag begins. -/
theorem cut_text (hrest : ∀ c ∈ rest.head?, (c != '<') = false)
    (hrest' : ∀ c ∈ rest'.head?, (c != '<') = false)
    (h : p.flatMap escapeText ++ rest = q.flatMap escapeText ++ rest') : p = q ∧ rest = rest' := by
  have hinside : ∀ cs : List Char, ∀ c ∈ cs.flatMap escapeText, (c != '<') = true := by
    intro cs c hc
    rw [bne_iff_ne]
    rintro rfl
    exact Markup.bracket_not_mem_escaped cs hc
  obtain ⟨htext, hsame⟩ := Text.eq_of_append_eq (hinside p) (hinside q) hrest hrest' h
  exact ⟨Markup.escapeText_injective htext, hsame⟩

/-- Nodes without a text in front. -/
def Leads (ns : List Node) : Prop :=
  ns = [] ∨ ∃ tag children rest, ns = element tag children :: rest

/-- The texts in front of some nodes go along with a text before them. -/
theorem exists_leading (q : List Char) (ms : List Node) : ∃ q' ms', Leads ms' ∧
    listTags ms = listTags ms' ∧ joinFrom q ms = joinFrom q' ms' ∧
    ∀ rest, q.flatMap escapeText ++ (listChars ms ++ rest) =
      q'.flatMap escapeText ++ (listChars ms' ++ rest) := by
  induction ms generalizing q with
  | nil => exact ⟨q, [], .inl rfl, rfl, rfl, fun _ => rfl⟩
  | cons m ms ih =>
    cases m with
    | element tag children => exact ⟨q, _, .inr ⟨tag, children, ms, rfl⟩, rfl, rfl, fun _ => rfl⟩
    | text s =>
      obtain ⟨q', ms', hleads, htags, hjoin, hchars⟩ := ih (q ++ s.toList)
      refine ⟨q', ms', hleads, htags, ?_, fun rest => ?_⟩
      · rw [joinFrom, hjoin]
      · rw [← hchars, listChars, chars, List.flatMap_append, List.append_assoc, List.append_assoc]

/-- An element without a handle, all of whose names are clear. -/
def Plain (t : Tag) : Prop := t.handle = none ∧ t.Clear

/-- Elements that are written alike have the same tag and the same text inside. -/
theorem cut_element {tag tag' : Tag} {children children' : List Node} (h : Plain tag)
    (h' : Plain tag')
    (heq : (element tag children).chars ++ rest = (element tag' children').chars ++ rest') :
    tag = tag' ∧ tailChars tag.name children ++ rest = tailChars tag.name children' ++ rest' := by
  simp only [chars_element, List.cons_append, List.append_assoc, List.cons.injEq, true_and] at heq
  obtain ⟨hname, heq⟩ := h.2.1.cut h'.2.1
    (endsName_attributes _ fun c hc => (head?_tailChars _ _ _ c hc).2)
    (endsName_attributes _ fun c hc => (head?_tailChars _ _ _ c hc).2) heq
  obtain ⟨hattrs, heq⟩ := cut_attributes h.2.2 h'.2.2
    (fun c hc => (head?_tailChars _ _ _ c hc).1) (fun c hc => (head?_tailChars _ _ _ c hc).1) heq
  obtain ⟨handle, name, attrs⟩ := tag
  obtain ⟨handle', name', attrs'⟩ := tag'
  obtain rfl : handle = none := h.1
  obtain rfl : handle' = none := h'.1
  cases hname
  cases hattrs
  exact ⟨rfl, heq⟩

theorem head?_element (tag : Tag) (children : List Node) (rest : List Char) :
    ∀ c ∈ ((element tag children).chars ++ rest).head?, (c != '<') = false := by
  simp [chars_element]

/-- The inside of an element ends where the element is written to end, if what is inside can be
    told from how it is written. -/
theorem cut_inside {name : String} {children children' : List Node}
    (ih : ∀ rest rest', Stops rest → Stops rest' →
      listChars children ++ rest = listChars children' ++ rest' →
      joinFrom [] children = joinFrom [] children' ∧ rest = rest')
    (h : tailChars name children ++ rest = tailChars name children' ++ rest') :
    joinFrom [] children = joinFrom [] children' ∧ rest = rest' := by
  cases children with
  | nil =>
    cases children' with
    | nil => exact ⟨rfl, List.append_cancel_left h⟩
    | cons => simp [tailChars] at h
  | cons n ns =>
    cases children' with
    | nil => simp [tailChars] at h
    | cons m ms =>
      simp only [tailChars, List.cons_append, List.append_assoc, List.cons.injEq, true_and] at h
      obtain ⟨hinside, hend⟩ := ih _ _ (.inr ⟨_, rfl⟩) (.inr ⟨_, rfl⟩) h
      have hend := List.append_cancel_left (List.cons.inj (List.cons.inj hend).2).2
      exact ⟨hinside, (List.cons.inj hend).2⟩

/-- Nodes that are written alike are the same, but for how texts are divided. -/
theorem joinFrom_eq_of_chars (hns : ∀ t ∈ listTags ns, Plain t) (hms : ∀ t ∈ listTags ms, Plain t)
    (hrest : Stops rest) (hrest' : Stops rest')
    (h : p.flatMap escapeText ++ (listChars ns ++ rest) =
      q.flatMap escapeText ++ (listChars ms ++ rest')) :
    joinFrom p ns = joinFrom q ms ∧ rest = rest' := by
  -- along the first nodes; of the others, the texts in front are taken together each time
  fun_induction joinFrom p ns generalizing q ms rest rest' with
  | case1 p =>
    obtain ⟨q', ms', hleads, htags, hjoin, hchars⟩ := exists_leading q ms
    rw [htags] at hms
    rw [hchars] at h
    rw [hjoin]
    rcases hleads with rfl | ⟨tag, children, ms', rfl⟩
    · obtain ⟨rfl, hsame⟩ := cut_text hrest.head? hrest'.head? h
      exact ⟨by rw [joinFrom], hsame⟩
    · -- an element would begin where nothing is
      simp only [listChars, List.nil_append, List.append_assoc] at h
      obtain ⟨_, hsame⟩ := cut_text hrest.head? (head?_element tag children _) h
      rw [hsame] at hrest
      exact absurd hrest (not_stops_element (hms tag List.mem_cons_self).2.1 _ _)
  | case2 p s ns ih =>
    refine ih hns hms hrest hrest' ?_
    rw [← h, listChars, chars, List.flatMap_append, List.append_assoc, List.append_assoc]
  | case3 p tag children ns ihchildren ih =>
    obtain ⟨q', ms', hleads, htags, hjoin, hchars⟩ := exists_leading q ms
    rw [htags] at hms
    rw [hchars] at h
    rw [hjoin]
    have hplain : Plain tag := hns tag List.mem_cons_self
    rcases hleads with rfl | ⟨tag', children', ms', rfl⟩
    · simp only [listChars, List.nil_append, List.append_assoc] at h
      obtain ⟨_, hsame⟩ := cut_text (head?_element tag children _) hrest'.head? h
      rw [← hsame] at hrest'
      exact absurd hrest' (not_stops_element hplain.2.1 _ _)
    · simp only [listChars, List.append_assoc] at h
      obtain ⟨rfl, htag⟩ :=
        cut_text (head?_element tag children _) (head?_element tag' children' _) h
      obtain ⟨rfl, htail⟩ := cut_element hplain (hms tag' List.mem_cons_self) htag
      simp only [listTags, tags, List.cons_append, List.forall_mem_cons, List.forall_mem_append]
        at hns hms
      obtain ⟨hinside, hrests⟩ := cut_inside (fun rest rest' hstops hstops' hsame =>
        ihchildren hns.2.1 hms.2.1 hstops hstops' hsame) htail
      have hnext : [].flatMap escapeText ++ (listChars ns ++ rest) =
          [].flatMap escapeText ++ (listChars ms' ++ rest') := hrests
      obtain ⟨hbehind, hsame⟩ := ih hns.2.2 hms.2.2 hrest hrest' hnext
      rw [joinFrom, hinside, hbehind]
      exact ⟨rfl, hsame⟩

end Node

/-! ## Diagrams -/

/-- The element, whatever it is found under. -/
def Tag.unkeyed (t : Tag) : Tag := { t with handle := none }

namespace Node

mutual

/-- Keys are not written. -/
theorem chars_unkeyed : (n : Node) → (n.mapTags Tag.unkeyed).chars = n.chars
  | .text s => rfl
  | .element tag [] => rfl
  | .element tag (n :: ns) => by
    have hinside := listChars_unkeyed (n :: ns)
    rw [listMapTags] at hinside
    rw [mapTags, listMapTags, chars, chars, hinside]
    rfl

theorem listChars_unkeyed : (ns : List Node) → listChars (listMapTags Tag.unkeyed ns) = listChars ns
  | [] => rfl
  | n :: ns => by rw [listMapTags, listChars, listChars, chars_unkeyed n, listChars_unkeyed ns]

end

theorem tailChars_unkeyed (name : String) (children : List Node) :
    tailChars name (listMapTags Tag.unkeyed children) = tailChars name children := by
  cases children with
  | nil => rfl
  | cons n ns =>
    have hinside := listChars_unkeyed (n :: ns)
    rw [listMapTags] at hinside
    rw [listMapTags, tailChars, tailChars, hinside]

theorem plain_unkeyed {ns : List Node} (h : ∀ t ∈ listTags ns, t.Clear) :
    ∀ t ∈ listTags (listMapTags Tag.unkeyed ns), Plain t := by
  intro t ht
  rw [Scene.listTags_listMapTags] at ht
  obtain ⟨u, hu, rfl⟩ := List.mem_map.1 ht
  exact ⟨rfl, h u hu⟩

end Node

namespace Scene

variable {s t : Scene}

/-- The document that a diagram is: its tree without keys, with neighbouring texts as one. -/
def content (s : Scene) : Node := (s.root.mapTags Tag.unkeyed).join

/-- The attributes of the root that declare the namespaces. -/
def declarations (s : Scene) : List (String × String) :=
  s.namespaces.map fun d => (declarationName d.1, d.2)

theorem chars_written (s : Scene) (rest : List Char) : s.written.chars ++ rest =
    '<' :: (s.tag.name.toList ++ ((s.declarations.flatMap fun a => attributeText a.1 a.2) ++
      ((s.tag.attrs.flatMap fun a => attributeText a.1 a.2) ++
        (Node.tailChars s.tag.name (Node.listMapTags Tag.unkeyed s.children) ++ rest)))) := by
  rw [written, Node.chars_element, Node.tailChars_unkeyed, List.flatMap_append]
  simp only [List.cons_append, List.append_assoc]
  rfl

/-- Diagrams with the same namespaces and clear names that have the same text are the same
    document. -/
theorem content_eq_of_text (hspaces : s.namespaces = t.namespaces)
    (hs : ∀ tag ∈ s.root.tags, tag.Clear) (ht : ∀ tag ∈ t.root.tags, tag.Clear)
    (h : s.text = t.text) : s.content = t.content := by
  have hsame : s.declarations = t.declarations := by rw [declarations, hspaces, declarations]
  have hchars : s.written.chars ++ [] = t.written.chars ++ [] := by
    rw [String.ofList_injective h]
  rw [root, Node.tags, List.forall_mem_cons] at hs ht
  rw [chars_written, chars_written, hsame, List.cons.injEq] at hchars
  -- the root is cut like any element, but that the namespaces stand before its attributes
  obtain ⟨hname, hbehind⟩ := hs.1.1.cut ht.1.1
    (endsName_attributes _ (endsName_attributes _ fun c hc => (Node.head?_tailChars _ _ _ c hc).2))
    (endsName_attributes _ (endsName_attributes _ fun c hc => (Node.head?_tailChars _ _ _ c hc).2))
    hchars.2
  obtain ⟨hattrs, htails⟩ := cut_attributes hs.1.2 ht.1.2
    (fun c hc => (Node.head?_tailChars _ _ _ c hc).1)
    (fun c hc => (Node.head?_tailChars _ _ _ c hc).1) (List.append_cancel_left hbehind)
  rw [← hname] at htails
  obtain ⟨hinside, _⟩ := Node.cut_inside (fun rest rest' hstops hstops' heq =>
    Node.joinFrom_eq_of_chars (p := []) (q := []) (Node.plain_unkeyed hs.2)
      (Node.plain_unkeyed ht.2) hstops hstops' heq) htails
  have htag : s.tag.unkeyed = t.tag.unkeyed := by rw [Tag.unkeyed, Tag.unkeyed, hname, hattrs]
  show Node.element s.tag.unkeyed _ = Node.element t.tag.unkeyed _
  rw [htag, hinside]

/-- A value and a text that look like tags, one text in two parts, and an empty one. -/
theorem content_eq_of_text_demo :
    let attrs := [("d", "M0 0\"/><rect id=\"")]
    let s : Scene := ⟨[(none, svgSpace)], ⟨none, "svg", []⟩,
      [.element ⟨some "a", "text", attrs⟩ [.text "</text", .text ">"], .text ""], []⟩
    let t : Scene := ⟨[(none, svgSpace)], ⟨none, "svg", []⟩,
      [.text "", .element ⟨none, "text", attrs⟩ [.text "</text>"]], []⟩
    s.namespaces = t.namespaces ∧ (∀ tag ∈ s.root.tags, tag.Clear) ∧
      (∀ tag ∈ t.root.tags, tag.Clear) ∧ s.text = t.text ∧ s.content = t.content := by
  intro attrs s t
  have hs : ∀ tag ∈ s.root.tags, tag.Clear := by decide +kernel
  have ht : ∀ tag ∈ t.root.tags, tag.Clear := by decide +kernel
  have htext : s.text = t.text := by decide +kernel
  exact ⟨rfl, hs, ht, htext, content_eq_of_text rfl hs ht htext⟩

end Scene

end Slideshow

/-
  Slideshow.Proofs.Markup.Sound

  What holds of every document that is read: its texts are made of characters that may occur,
  and the namespaces of its root may be declared once more, one after the other
  (`Document.sound_of_ofText?`).
-/
import Slideshow.Markup.Document
import Slideshow.Proofs.Markup.Spelling

namespace Slideshow

theorem Text.subset_of_splitAt? {stop cs before after : List Char}
    (h : splitAt? stop cs = some (before, after)) : ∀ c ∈ after, c ∈ cs := by
  induction cs generalizing before with
  | nil =>
    rw [splitAt?] at h
    split at h
    · cases h
      exact fun c hc => hc
    · cases h
  | cons d cs ih =>
    rw [splitAt?] at h
    split at h
    · cases h
      exact fun c hc => List.mem_of_mem_drop hc
    · obtain ⟨p, hp, heq⟩ := Option.map_eq_some_iff.1 h
      cases heq
      exact fun c hc => List.mem_cons_of_mem _ (ih hp c hc)

namespace Markup

variable {cs rest : List Char} {entities : Entities} {levels count : Nat}

/-! ## Characters of references -/

/-- All characters may occur. -/
def AllAllowed (cs : List Char) : Prop := ∀ c ∈ cs, isAllowed c = true

theorem allAllowed_nil : AllAllowed [] := fun _ hc => nomatch hc

theorem AllAllowed.append {cs ds : List Char} (h : AllAllowed cs) (h' : AllAllowed ds) :
    AllAllowed (cs ++ ds) := by
  intro c hc
  rcases List.mem_append.1 hc with hc | hc
  · exact h c hc
  · exact h' c hc

theorem AllAllowed.cons {c : Char} (hc : isAllowed c = true) (h : AllAllowed cs) :
    AllAllowed (c :: cs) := by
  intro d hd
  rcases List.mem_cons.1 hd with rfl | hd
  · exact hc
  · exact h d hd

/-- The character of a piece may occur. -/
def Piece.Sound : Piece → Prop
  | char c => isAllowed c = true
  | escaped c => isAllowed c = true
  | entity _ => True

theorem isAllowed_of_character? {n : Nat} {c : Char} (h : character? n = some c) :
    isAllowed c = true := by
  rw [character?] at h
  obtain ⟨hallowed, hc⟩ := Option.ite_none_right_eq_some.1 h
  rw [← Option.some.inj hc]
  exact hallowed

theorem sound_named (name : String) : (named name).Sound := by
  unfold named
  split
  · rfl
  split
  · rfl
  split
  · rfl
  split
  · rfl
  split
  · rfl
  · trivial

/-- References to code points and names stand for characters that may occur. -/
theorem sound_of_reference? {p : Piece} (h : reference? cs = some p) : p.Sound := by
  unfold reference? at h
  split at h
  · obtain ⟨c, hc, rfl⟩ := Option.map_eq_some_iff.1 h
    obtain ⟨n, _, hn⟩ := Option.bind_eq_some_iff.1 hc
    exact isAllowed_of_character? hn
  · obtain ⟨c, hc, rfl⟩ := Option.map_eq_some_iff.1 h
    obtain ⟨n, _, hn⟩ := Option.bind_eq_some_iff.1 hc
    exact isAllowed_of_character? hn
  · split at h
    · cases h
      exact sound_named _
    · cases h

theorem sound_of_pieces? {ps : List Piece} (h : pieces? cs = some ps) (hcs : AllAllowed cs) :
    ∀ p ∈ ps, p.Sound := by
  fun_induction pieces? cs generalizing ps with
  | case1 =>
    cases h
    exact fun p hp => nomatch hp
  | case2 => cases h
  | case3 => cases h
  | case4 rest body after hsplit hle p hp ih =>
    obtain ⟨qs, hqs, rfl⟩ := Option.map_eq_some_iff.1 h
    have hafter : AllAllowed after := fun c hc =>
      hcs c (List.mem_cons_of_mem _ (Text.subset_of_splitAt? hsplit c hc))
    intro q hq
    rcases List.mem_cons.1 hq with rfl | hq
    · exact sound_of_reference? hp
    · exact ih hqs hafter q hq
  | case5 c rest _ ih =>
    obtain ⟨qs, hqs, rfl⟩ := Option.map_eq_some_iff.1 h
    intro q hq
    rcases List.mem_cons.1 hq with rfl | hq
    · exact hcs c List.mem_cons_self
    · exact ih hqs (fun d hd => hcs d (List.mem_cons_of_mem _ hd)) q hq

/-! ## Tokens -/

/-- The texts of a token are made of characters that may occur, and the names of its attributes
    are proper. -/
def Token.Sound : Token → Prop
  | start _ attrs _ => ∀ a ∈ attrs, a.1.Proper
  | stop _ => True
  | cut _ attrs => ∀ a ∈ attrs, a.1.Proper
  | text s => AllAllowed s.toList
  | gap => True

/-- All tokens of a row are sound. -/
def AllSound (ts : List Token) : Prop := ∀ t ∈ ts, t.Sound

theorem AllSound.append {ts us : List Token} (h : AllSound ts) (h' : AllSound us) :
    AllSound (ts ++ us) := by
  intro t ht
  rcases List.mem_append.1 ht with ht | ht
  · exact h t ht
  · exact h' t ht

theorem AllSound.cons {t : Token} {ts : List Token} (ht : t.Sound) (h : AllSound ts) :
    AllSound (t :: ts) := by
  intro u hu
  rcases List.mem_cons.1 hu with rfl | hu
  · exact ht
  · exact h u hu

theorem allSound_nil : AllSound [] := fun _ ht => nomatch ht

/-- What is inside of entities is sound. -/
def SoundInside (inner : Nat → List Char → Option (List Token × Nat)) : Prop :=
  ∀ count cs ts count', inner count cs = some (ts, count') → AllSound ts

variable {inner : Nat → List Char → Option (List Token × Nat)} {done : List Char}

theorem allSound_flush (h : AllAllowed done) : AllSound (flush done) := by
  rw [flush]
  split
  · exact allSound_nil
  · refine AllSound.cons ?_ allSound_nil
    show AllAllowed (String.ofList done.reverse).toList
    rw [String.toList_ofList]
    exact fun c hc => h c (List.mem_reverse.1 hc)

theorem allAllowed_pushText {isLast : Bool} {c : Char} (hc : isAllowed c = true)
    (h : AllAllowed done) : AllAllowed (pushText isLast c done) := by
  have hfeed : isAllowed '\n' = true := rfl
  unfold pushText
  split
  · have hdone := fun d hd => h d (List.mem_cons_of_mem _ hd)
    split
    · exact (AllAllowed.cons hfeed (.cons hfeed hdone))
    split
    · exact .cons hfeed hdone
    · exact .cons hc (.cons hfeed hdone)
  · split
    · exact .cons hfeed h
    · exact .cons hc h

/-- The tokens of a text are sound where its pieces are. -/
theorem allSound_textTokens (hinner : SoundInside inner) {outermost exact : Bool}
    {ps : List Piece} (hps : ∀ p ∈ ps, p.Sound) (hdone : AllAllowed done) {count' : Nat}
    {ts : List Token}
    (h : textTokens entities outermost inner count exact done ps = some (ts, count')) :
    AllSound ts := by
  fun_induction textTokens entities outermost inner count exact done ps generalizing ts count' with
  | case1 =>
    cases h
    exact allSound_flush hdone
  | case2 count exact done c ps ih =>
    have hc : isAllowed c = true := hps (.char c) List.mem_cons_self
    refine ih (fun p hp => hps p (List.mem_cons_of_mem _ hp)) ?_ h
    split
    · exact .cons hc hdone
    · exact allAllowed_pushText hc hdone
  | case3 count exact done c ps _ ih =>
    have hc : isAllowed c = true := hps (.escaped c) List.mem_cons_self
    exact ih (fun p hp => hps p (List.mem_cons_of_mem _ hp)) (.cons hc hdone) h
  | case4 count exact done c ps _ ih =>
    have hc : isAllowed c = true := hps (.escaped c) List.mem_cons_self
    exact ih (fun p hp => hps p (List.mem_cons_of_mem _ hp)) (allAllowed_pushText hc hdone) h
  | case5 count exact done name ps ih =>
    simp only [Option.bind_eq_bind, Option.bind_eq_some_iff, Option.pure_def, Option.some.injEq,
      Prod.mk.injEq, Prod.exists] at h
    obtain ⟨text, _, count₁, _, us, count₂, hus, vs, count₃, hvs, rfl, _⟩ := h
    have hrest := ih count₂ (fun p hp => hps p (List.mem_cons_of_mem _ hp)) allAllowed_nil hvs
    exact ((allSound_flush hdone).append (hinner _ _ _ _ hus)).append hrest

/-! ## Tags -/

theorem proper_of_attribute? {a : QName × List Char} (h : attribute? cs = some (a, rest)) :
    a.1.Proper := by
  simp only [attribute?, Option.bind_eq_bind, Option.bind_eq_some_iff, Option.pure_def,
    Option.some.injEq, Prod.mk.injEq, Prod.exists] at h
  obtain ⟨name, _, hname, _, _, _, _, _, rfl, _⟩ := h
  exact QName.proper_of_qname? hname

theorem proper_of_attributes? {attrs : List (QName × List Char)} {closed : Bool}
    (h : attributes? cs = some (attrs, closed)) : ∀ a ∈ attrs, a.1.Proper := by
  fun_induction attributes? cs generalizing attrs closed with
  | case1 =>
    cases h
    exact fun a ha => nomatch ha
  | case2 =>
    cases h
    exact fun a ha => nomatch ha
  | case3 => cases h
  | case4 => cases h
  | case5 cs c rest _ _ _ a after hattribute _ ih =>
    obtain ⟨p, hp, heq⟩ := Option.map_eq_some_iff.1 h
    cases heq
    intro b hb
    rcases List.mem_cons.1 hb with rfl | hb
    · exact proper_of_attribute? hattribute
    · exact ih hp b hb

/-- Values are put to the same names. -/
theorem proper_of_values? {raw : List (QName × List Char)} {attrs : List (QName × String)}
    {count' : Nat} (h : values? entities levels count raw = some (attrs, count'))
    (hraw : ∀ a ∈ raw, a.1.Proper) : ∀ a ∈ attrs, a.1.Proper := by
  induction raw generalizing count count' attrs with
  | nil =>
    cases h
    exact fun a ha => nomatch ha
  | cons r raw ih =>
    obtain ⟨name, cs⟩ := r
    rw [values?] at h
    split at h
    · simp only [Option.bind_eq_bind, Option.bind_eq_some_iff, Option.pure_def,
        Option.some.injEq, Prod.mk.injEq, Prod.exists] at h
      obtain ⟨value, count₁, _, more, count₂, hmore, rfl, _⟩ := h
      intro b hb
      rcases List.mem_cons.1 hb with rfl | hb
      · exact hraw (name, cs) List.mem_cons_self
      · exact ih hmore (fun a ha => hraw a (List.mem_cons_of_mem _ ha)) b hb
    · cases h

theorem sound_of_startTag? {body : List Char} {t : Token} {closed : Bool} {count' : Nat}
    (h : startTag? entities levels count body = some (t, closed, count')) : t.Sound := by
  simp only [startTag?, Option.bind_eq_bind, Option.bind_eq_some_iff, Option.pure_def,
    Option.some.injEq, Prod.mk.injEq, Prod.exists] at h
  obtain ⟨name, rest, _, raw, _, hraw, attrs, _, hattrs, rfl, _⟩ := h
  exact proper_of_values? hattrs (proper_of_attributes? hraw)

theorem sound_of_cutTag? {body : List Char} {t : Token} {count' : Nat}
    (h : cutTag? entities levels count body = some (t, count')) : t.Sound := by
  simp only [cutTag?, Option.bind_eq_bind, Option.bind_eq_some_iff, Option.pure_def,
    Prod.exists] at h
  obtain ⟨name, rest, _, raw, _, hraw, h⟩ := h
  split at h
  · cases h
  · obtain ⟨⟨attrs, _⟩, hattrs, heq⟩ := Option.bind_eq_some_iff.1 h
    cases heq
    exact proper_of_values? hattrs (proper_of_attributes? hraw)

/-! ## Content -/

theorem allAllowed_lineEnds (h : AllAllowed cs) : AllAllowed (lineEnds cs) := by
  have hfeed : isAllowed '\n' = true := rfl
  fun_induction lineEnds cs with
  | case1 cs ih =>
    exact .cons hfeed (ih fun c hc =>
      h c (List.mem_cons_of_mem _ (List.mem_cons_of_mem _ hc)))
  | case2 cs _ ih => exact .cons hfeed (ih fun c hc => h c (List.mem_cons_of_mem _ hc))
  | case3 c cs _ _ ih =>
    exact .cons (h c List.mem_cons_self) (ih fun c hc => h c (List.mem_cons_of_mem _ hc))
  | case4 => exact h

theorem allAllowed_of_isText (h : isText cs = true) : AllAllowed cs := by
  rw [isText, Bool.and_eq_true, List.all_eq_true] at h
  exact h.1

/-- The tokens of content are sound where those of its entities are. -/
theorem allSound_contentWith (hinner : SoundInside inner) {p : Progress}
    {chunks more : List Chunk} {ts : List Token} {count' : Nat}
    (h : contentWith entities levels inner p chunks = some (ts, count', more)) : AllSound ts := by
  fun_induction contentWith entities levels inner p chunks generalizing ts count' more with
  | case1 =>
    cases h
    exact allSound_nil
  | case2 => cases h
  | case3 p cs rest htext ih =>
    simp only [Option.bind_eq_bind, Option.bind_eq_some_iff, Option.pure_def, Prod.exists] at h
    obtain ⟨ps, hps, us, count₁, hus, vs, count₂, rest', hvs, heq⟩ := h
    cases heq
    have hpieces := sound_of_pieces? hps (allAllowed_of_isText htext)
    exact (allSound_textTokens hinner hpieces allAllowed_nil hus).append (ih count₁ hvs)
  | case4 => cases h
  | case5 p cs rest hall ih =>
    obtain ⟨⟨us, count₁, rest'⟩, hus, heq⟩ := Option.bind_eq_some_iff.1 h
    cases heq
    refine .cons ?_ (ih hus)
    show AllAllowed (String.ofList (lineEnds cs)).toList
    rw [String.toList_ofList]
    exact allAllowed_lineEnds (List.all_eq_true.1 hall)
  | case6 => cases h
  | case7 p body rest _ ih =>
    obtain ⟨⟨us, count₁, rest'⟩, hus, heq⟩ := Option.bind_eq_some_iff.1 h
    cases heq
    exact .cons trivial (ih hus)
  | case8 => cases h
  | case9 p body rest _ ih =>
    obtain ⟨⟨us, count₁, rest'⟩, hus, heq⟩ := Option.bind_eq_some_iff.1 h
    cases heq
    exact .cons trivial (ih hus)
  | case10 => cases h
  | case11 p body rest _ ih =>
    obtain ⟨name, _, h⟩ := Option.bind_eq_some_iff.1 h
    dsimp only at h
    split at h
    · cases h
      exact .cons trivial allSound_nil
    · obtain ⟨⟨us, count₁, rest'⟩, hus, heq⟩ := Option.bind_eq_some_iff.1 h
      cases heq
      exact .cons trivial (ih hus)
  | case12 => cases h
  | case13 p body rest =>
    obtain ⟨⟨t, count₁⟩, ht, heq⟩ := Option.bind_eq_some_iff.1 h
    cases heq
    exact .cons (sound_of_cutTag? ht) allSound_nil
  | case14 p body rest _ ih =>
    obtain ⟨⟨t, closed, count₁⟩, ht, h⟩ := Option.bind_eq_some_iff.1 h
    obtain ⟨⟨us, count₂, rest'⟩, hus, heq⟩ := Option.bind_eq_some_iff.1 h
    cases heq
    exact .cons (sound_of_startTag? ht) (ih closed count₁ hus)

theorem soundInside_entityTokens (entities : Entities) (levels : Nat) :
    SoundInside (entityTokens entities levels) := by
  have hnone : SoundInside fun _ _ => none := by
    intro count cs ts count' h
    cases h
  induction levels with
  | zero =>
    intro count cs ts count' h
    obtain ⟨⟨us, _, _⟩, hus, heq⟩ := Option.map_eq_some_iff.1 h
    cases heq
    exact allSound_contentWith hnone hus
  | succ levels ih =>
    intro count cs ts count' h
    obtain ⟨⟨us, _, _⟩, hus, heq⟩ := Option.map_eq_some_iff.1 h
    cases heq
    exact allSound_contentWith ih hus

/-- The tokens of a root element are sound. -/
theorem allSound_of_rootTokens? {ts : List Token} (h : rootTokens? entities cs = some ts) :
    AllSound ts := by
  unfold rootTokens? at h
  split at h
  · obtain ⟨⟨t, closed, _⟩, ht, h⟩ := Option.bind_eq_some_iff.1 h
    have hstart := sound_of_startTag? ht
    dsimp only at h
    split at h
    · obtain ⟨_, heq⟩ := Option.ite_none_right_eq_some.1 h
      cases heq
      exact .cons hstart allSound_nil
    · obtain ⟨⟨us, _, rest⟩, hus, h⟩ := Option.bind_eq_some_iff.1 h
      obtain ⟨_, heq⟩ := Option.ite_none_right_eq_some.1 h
      cases heq
      exact .cons hstart (allSound_contentWith (soundInside_entityTokens entities _) hus)
  · cases h

/-! ## Declarations -/

/-- A namespace that may be declared next to others. -/
def Declarable (declared : Scope) (d : Option String × String) : Prop :=
  d.2 ≠ xmlSpace ∧ d.2 ≠ xmlnsSpace ∧
    ∀ p, d.1 = some p → QName.IsPart p ∧ p ≠ "xml" ∧ declared.find? (some p) = none

/-- Namespaces that may be declared one after the other. -/
def AllDeclarable (declared : Scope) : Scope → Prop
  | [] => True
  | d :: ds => Declarable declared d ∧ AllDeclarable (declared ++ [d]) ds

theorem AllDeclarable.isPart {declared scope : Scope} (h : AllDeclarable declared scope) :
    ∀ d ∈ scope, ∀ p, d.1 = some p → QName.IsPart p := by
  induction scope generalizing declared with
  | nil => exact fun d hd => nomatch hd
  | cons d scope ih =>
    intro d' hd' p hp
    rcases List.mem_cons.1 hd' with rfl | hd'
    · exact (h.1.2.2 p hp).1
    · exact ih h.2 d' hd' p hp

/-- What a tag declares may be declared. -/
theorem allDeclarable_of_declarations? {attrs rest : List (QName × String)}
    {declared scope : Scope} (h : declarations? attrs declared = some (scope, rest))
    (hattrs : ∀ a ∈ attrs, a.1.Proper) :
    ∃ ds, scope = declared ++ ds ∧ AllDeclarable declared ds := by
  fun_induction declarations? attrs declared generalizing rest with
  | case1 declared =>
    cases h
    exact ⟨[], (List.append_nil _).symm, trivial⟩
  | case2 => cases h
  | case3 => cases h
  | case4 => cases h
  | case5 q value attrs declared _ _ _ _ _ ih =>
    exact ih h fun a ha => hattrs a (List.mem_cons_of_mem _ ha)
  | case6 q value attrs declared hshorthand hxmlns hname hfind hxml ih =>
    obtain ⟨ds, rfl, hds⟩ := ih h fun a ha => hattrs a (List.mem_cons_of_mem _ ha)
    have hpart : QName.IsPart q.name := (hattrs (q, value) List.mem_cons_self).2
    rw [beq_iff_eq] at hxmlns hxml
    rw [beq_false_of_ne hxml, bne_iff_ne, ne_eq, Decidable.not_not, beq_eq_false_iff_ne] at hname
    rw [Option.isSome_iff_ne_none, ne_eq, Decidable.not_not] at hfind
    refine ⟨(some q.name, value) :: ds, by simp, ⟨hxml, hxmlns, ?_⟩, hds⟩
    rintro p ⟨⟩
    exact ⟨hpart, hname, hfind⟩
  | case7 => cases h
  | case8 q value attrs declared _ _ hspace ih =>
    obtain ⟨ds, rfl, hds⟩ := ih h fun a ha => hattrs a (List.mem_cons_of_mem _ ha)
    rw [Bool.or_eq_true, not_or, beq_iff_eq, beq_iff_eq] at hspace
    refine ⟨(none, value) :: ds, by simp, ⟨hspace.1, hspace.2, ?_⟩, hds⟩
    rintro p ⟨⟩
  | case9 q value attrs declared _ _ ih =>
    obtain ⟨p, hp, heq⟩ := Option.map_eq_some_iff.1 h
    cases heq
    exact ih hp fun a ha => hattrs a (List.mem_cons_of_mem _ ha)

/-! ## Documents -/

mutual

/-- All text inside a tree. -/
def Tree.textChars : Tree → List Char
  | text s => s.toList
  | element _ _ children => Tree.listTextChars children

/-- All text inside some trees. -/
def Tree.listTextChars : List Tree → List Char
  | [] => []
  | t :: ts => t.textChars ++ Tree.listTextChars ts

end

theorem Tree.listTextChars_eq_flatMap (ts : List Tree) :
    Tree.listTextChars ts = ts.flatMap Tree.textChars := by
  induction ts with
  | nil => rfl
  | cons t ts ih => rw [Tree.listTextChars, ih, List.flatMap_cons]

/-- All texts inside are made of characters that may occur. -/
def Tree.Sound (t : Tree) : Prop := AllAllowed t.textChars

/-- The children are sound, and what is declared may be declared. -/
structure Open.Sound (o : Open) : Prop where
  declarable : AllDeclarable [] o.declared
  done : ∀ t ∈ o.done, t.Sound

/-- The children are sound, and what the root declares may be declared. -/
structure Document.Sound (d : Document) : Prop where
  declarable : AllDeclarable [] d.declared
  children : ∀ t ∈ d.children, t.Sound

/-- Everything that has been built is sound. -/
structure Builder.Sound (b : Builder) : Prop where
  stack : ∀ o ∈ b.stack, o.Sound
  pending : ∀ a ∈ b.pending, a.1.Proper
  root : ∀ d, b.root = some d → d.Sound

theorem Open.Sound.tree {o : Open} (h : o.Sound) : o.tree.Sound := by
  intro c hc
  have hmem : c ∈ Tree.listTextChars o.done.reverse := hc
  rw [Tree.listTextChars_eq_flatMap] at hmem
  obtain ⟨t, ht, hct⟩ := List.mem_flatMap.1 hmem
  exact h.done t (List.mem_reverse.1 ht) c hct

theorem Open.Sound.add {o : Open} (h : o.Sound) {t : Tree} (ht : t.Sound) : (o.add t).Sound := by
  refine ⟨h.declarable, fun u hu => ?_⟩
  rcases List.mem_cons.1 hu with rfl | hu
  · exact ht
  · exact h.done u hu

theorem Open.Sound.addText {o : Open} (h : o.Sound) {s : String} (hs : AllAllowed s.toList) :
    (o.addText s).Sound := by
  unfold Open.addText
  split
  · rename_i r done _ hdone
    refine ⟨h.declarable, fun t ht => ?_⟩
    rcases List.mem_cons.1 ht with rfl | ht
    · have hr : AllAllowed r.toList := h.done (.text r) (by rw [hdone]; exact List.mem_cons_self)
      show AllAllowed (r ++ s).toList
      rw [String.toList_append]
      exact hr.append hs
    · exact h.done t (by rw [hdone]; exact List.mem_cons_of_mem _ ht)
  · refine ⟨h.declarable, fun t ht => ?_⟩
    rcases List.mem_cons.1 ht with rfl | ht
    · exact hs
    · exact h.done t ht

theorem Open.sound_of_ofTag? {scope : Scope} {q : QName} {attrs : List (QName × String)}
    {o : Open} (h : Open.ofTag? scope q attrs = some o) (hattrs : ∀ a ∈ attrs, a.1.Proper) :
    o.Sound := by
  unfold Open.ofTag? at h
  split at h
  · cases h
  · obtain ⟨⟨declared, rest⟩, hdeclared, h⟩ := Option.bind_eq_some_iff.1 h
    obtain ⟨name, _, h⟩ := Option.bind_eq_some_iff.1 h
    obtain ⟨named, _, heq⟩ := Option.bind_eq_some_iff.1 h
    cases heq
    obtain ⟨ds, hds, hdeclarable⟩ := allDeclarable_of_declarations? hdeclared hattrs
    rw [List.nil_append] at hds
    refine ⟨hds ▸ hdeclarable, fun t ht => nomatch ht⟩

namespace Builder

variable {b b' : Builder}

theorem Sound.close (h : b.Sound) {o : Open} (ho : o.Sound) : (b.close o).Sound := by
  unfold Builder.close
  split
  · refine ⟨h.stack, h.pending, fun d hd => ?_⟩
    cases hroot : b.root with
    | none =>
      rw [hroot] at hd
      cases hd
      exact ⟨ho.declarable, fun t ht => ho.done t (List.mem_reverse.1 ht)⟩
    | some d' =>
      rw [hroot] at hd
      cases hd
      exact h.root _ hroot
  · rename_i p stack hstack
    refine ⟨fun o' ho' => ?_, h.pending, h.root⟩
    rcases List.mem_cons.1 ho' with rfl | ho'
    · exact (h.stack p (by rw [hstack]; exact List.mem_cons_self)).add ho.tree
    · exact h.stack o' (by rw [hstack]; exact List.mem_cons_of_mem _ ho')

theorem Sound.change (h : b.Sound) {f : Open → Open} (hf : ∀ o, o.Sound → (f o).Sound) :
    (b.change f).Sound := by
  unfold Builder.change
  split
  · exact h
  · rename_i o stack hstack
    refine ⟨fun o' ho' => ?_, h.pending, h.root⟩
    rcases List.mem_cons.1 ho' with rfl | ho'
    · exact hf o (h.stack o (by rw [hstack]; exact List.mem_cons_self))
    · exact h.stack o' (by rw [hstack]; exact List.mem_cons_of_mem _ ho')

/-- A sound token keeps what is built sound. -/
theorem Sound.step? (h : b.Sound) {t : Token} (ht : t.Sound) (hstep : b.step? t = some b') :
    b'.Sound := by
  have hend : ∀ o : Open, o.Sound → { o with afterText := false }.Sound := fun o ho =>
    ⟨ho.declarable, ho.done⟩
  have happend : ∀ {attrs : List (QName × String)}, (∀ a ∈ attrs, a.1.Proper) →
      ∀ a ∈ b.pending ++ attrs, a.1.Proper := by
    intro attrs hattrs a ha
    rcases List.mem_append.1 ha with ha | ha
    · exact h.pending a ha
    · exact hattrs a ha
  have hcleared : { b with pending := [] }.Sound := ⟨h.stack, by simp, h.root⟩
  cases t with
  | start q attrs closed =>
    obtain ⟨o, ho, heq⟩ := Option.bind_eq_some_iff.1 hstep
    have hopen := Open.sound_of_ofTag? ho (happend ht)
    have hchanged := hcleared.change hend
    cases closed with
    | true =>
      cases heq
      exact hchanged.close hopen
    | false =>
      cases heq
      refine ⟨fun o' ho' => ?_, hchanged.pending, hchanged.root⟩
      rcases List.mem_cons.1 ho' with rfl | ho'
      · exact hopen
      · exact hchanged.stack o' ho'
  | stop q =>
    rw [Builder.step?] at hstep
    split at hstep
    · cases hstep
    · rename_i o stack hstack
      split at hstep
      · cases hstep
      · obtain ⟨_, _, hstep⟩ := Option.bind_eq_some_iff.1 hstep
        obtain ⟨_, _, heq⟩ := Option.bind_eq_some_iff.1 hstep
        cases heq
        have hrest : Builder.Sound ⟨stack, [], b.root⟩ :=
          ⟨fun o' ho' => h.stack o' (by rw [hstack]; exact List.mem_cons_of_mem _ ho'), by simp,
            h.root⟩
        exact hrest.close (h.stack o (by rw [hstack]; exact List.mem_cons_self))
  | cut q attrs =>
    obtain ⟨_, _, hstep⟩ := Option.bind_eq_some_iff.1 hstep
    dsimp only at hstep
    split at hstep
    · cases hstep
    · cases hstep
      have hpending : { b with pending := b.pending ++ attrs }.Sound :=
        ⟨h.stack, happend ht, h.root⟩
      exact hpending.change hend
  | text s =>
    cases hstep
    exact h.change fun o ho => ho.addText ht
  | gap =>
    cases hstep
    exact h.change hend

theorem Sound.run (h : b.Sound) {ts : List Token} (hts : AllSound ts)
    (hrun : ts.foldlM Builder.step? b = some b') : b'.Sound := by
  induction ts generalizing b with
  | nil =>
    cases hrun
    exact h
  | cons t ts ih =>
    obtain ⟨b₁, hstep, hrest⟩ := Option.bind_eq_some_iff.1 hrun
    exact ih (h.step? (hts t List.mem_cons_self) hstep)
      (fun u hu => hts u (List.mem_cons_of_mem _ hu)) hrest

end Builder

theorem Document.sound_of_build? {ts : List Token} {d : Document} (h : build? ts = some d)
    (hts : AllSound ts) : d.Sound := by
  obtain ⟨b, hb, h⟩ := Option.bind_eq_some_iff.1 h
  have hempty : Builder.Sound ⟨[], [], none⟩ :=
    ⟨by simp, by simp, by simp⟩
  obtain ⟨_, hroot⟩ := Option.ite_none_right_eq_some.1 h
  exact (hempty.run hts hb).root d hroot

/-- What is read from a text is sound. -/
theorem Document.sound_of_ofText? {text : String} {d : Document}
    (h : Document.ofText? text = some d) : d.Sound := by
  obtain ⟨cs, _, h⟩ := Option.bind_eq_some_iff.1 h
  obtain ⟨rest, _, h⟩ := Option.bind_eq_some_iff.1 h
  dsimp only at h
  split at h
  · obtain ⟨ts, hts, hbuild⟩ := Option.bind_eq_some_iff.1 h
    exact sound_of_build? hbuild (allSound_of_rootTokens? hts)
  · obtain ⟨⟨entities, more⟩, _, h⟩ := Option.bind_eq_some_iff.1 h
    obtain ⟨root, _, h⟩ := Option.bind_eq_some_iff.1 h
    obtain ⟨ts, hts, hbuild⟩ := Option.bind_eq_some_iff.1 h
    exact sound_of_build? hbuild (allSound_of_rootTokens? hts)

end Markup

end Slideshow

import LocalisedEnum.Proofs.Declaration.Effects
import LocalisedEnum.Proofs.Declaration.PieceEnds
import LocalisedEnum.Proofs.Token.Tiling
import Mathlib.Data.List.Basic

/-!
**Where declarations stand.**

A declaration is introduced by sections of attributes, modifiers and a keyword, and the place that
is recorded for it is that of the first of these tokens.  Sections of any target count, those of the
whole program too, because they are read together with the others.  The place of an attribute is
that of the first token of its name.  Places are lines and columns of tokens, so they tell exactly
where in the text the tokens are found.

Main definitions:

* `Introduction` — the tokens that introduce a declaration;
* `Introduction.MetBy` — the walk over a file comes to an introduction;
* `EnumDeclaration.IntroducedBy`, `TypeDeclaration.IntroducedBy` — a declaration is what the walk
  records there;
* `Attribute.WrittenIn` — the tokens of the name of an attribute.

Main results:

* `readSections_written` — **the place of an attribute** is that of its name;
* `Walk.Located.step` — each piece of a file keeps it that every declaration has been introduced;
* `tokens_and_places` — **the tokens of a text and the places of its declarations**.
-/

set_option autoImplicit false
set_option relaxedAutoImplicit false

namespace LocalisedEnum

/-! ### Attributes -/

/-- **The name of an attribute** as it is written, of which the first token is where the attribute
stands.  Type arguments may follow. -/
structure Attribute.Written (path : String) (a : Attribute) (first : Token) (others : List Token) :
    Prop where
  name : a.name = String.join ((first :: others).map Token.plain) ∨
    ∃ inside,
      a.name = String.join ((first :: others).map Token.plain) ++ "<" ++ joinTokens inside ++ ">"
  location : a.location = some (first.location path)

/-- **An attribute among some tokens**: it is read from where its name begins. -/
def Attribute.WrittenIn (path : String) (a : Attribute) (ts : List Token) : Prop :=
  ∃ front first others back rest, ts = front ++ (first :: others ++ back) ∧
    a.Written path first others ∧ readAttribute path (first :: others ++ back) = .ok (a, rest)

section Attributes

variable {path : String} {ts rest : List Token}

theorem plain_nameMark {t : Token} (h : isNameMark t = true) : t.plain = t.text := by
  rw [isNameMark, Bool.or_eq_true, beq_iff_eq, beq_iff_eq] at h
  rcases h with h | h <;> rw [Token.plain, h] <;> rfl

theorem qualifiedNameFrom_written {name result : String}
    (h : qualifiedNameFrom name ts = .ok (result, rest)) :
    ∃ used, ts = used ++ rest ∧ result = name ++ String.join (used.map Token.plain) := by
  fun_induction qualifiedNameFrom name ts with
  | case1 => cases h; exact ⟨[], rfl, by simp⟩
  | case2 => cases h
  | case3 => cases h; exact ⟨[], rfl, by simp⟩
  | case4 name mark part tail hmark ih =>
    obtain ⟨used, rfl, rfl⟩ := ih h
    refine ⟨mark :: part :: used, rfl, ?_⟩
    simp only [List.map_cons, String.join_cons, plain_nameMark hmark, String.append_assoc]
  | case5 => cases h; exact ⟨[], rfl, by simp⟩

/-- A name is what its tokens say. -/
theorem qualifiedName_written {name : String} (h : qualifiedName ts = .ok (name, rest)) :
    ∃ first others, ts = first :: (others ++ rest) ∧
      name = String.join ((first :: others).map Token.plain) := by
  cases ts with
  | nil => cases h
  | cons first ts =>
      obtain ⟨others, rfl, rfl⟩ := qualifiedNameFrom_written h
      exact ⟨first, others, rfl, by rw [List.map_cons, String.join_cons]⟩

theorem withTypeArguments_name {name result : String}
    (h : withTypeArguments name ts = .ok (result, rest)) :
    result = name ∨ ∃ inside, result = name ++ "<" ++ joinTokens inside ++ ">" := by
  rw [withTypeArguments] at h
  split at h
  · split at h
    · next inside _ _ => cases h; exact .inr ⟨inside, rfl⟩
    · cases h
  · cases h; exact .inl rfl

/-- Arguments leave the name and the place of an attribute. -/
theorem withArgument_keeps {a a' : Attribute} {argument : List Token}
    (h : a.withArgument argument = .ok a') : a'.name = a.name ∧ a'.location = a.location := by
  rw [Attribute.withArgument.eq_def] at h
  split at h
  · split at h
    · obtain ⟨_, _, heq⟩ := bind_eq_ok.1 h; cases heq; exact ⟨rfl, rfl⟩
    · split at h <;> (obtain ⟨_, _, heq⟩ := bind_eq_ok.1 h; cases heq; exact ⟨rfl, rfl⟩)
  · obtain ⟨_, _, heq⟩ := bind_eq_ok.1 h; cases heq; exact ⟨rfl, rfl⟩

theorem withArguments_keep {a a' : Attribute} {arguments : List (List Token)}
    (h : arguments.foldlM Attribute.withArgument a = .ok a') :
    a'.name = a.name ∧ a'.location = a.location := by
  induction arguments generalizing a with
  | nil => cases h; exact ⟨rfl, rfl⟩
  | cons argument arguments ih =>
      rw [List.foldlM_cons] at h
      obtain ⟨next, hnext, h⟩ := bind_eq_ok.1 h
      obtain ⟨hname, hlocation⟩ := withArgument_keeps hnext
      exact ⟨(ih h).1.trans hname, (ih h).2.trans hlocation⟩

/-- **An attribute stands where its name begins.** -/
theorem readAttribute_written {a : Attribute} (h : readAttribute path ts = .ok (a, rest)) :
    ∃ first others back, ts = first :: others ++ back ∧ a.Written path first others := by
  obtain ⟨⟨written, afterName⟩, hwritten, h⟩ := bind_eq_ok.1 h
  obtain ⟨⟨name, afterTypes⟩, hname, h⟩ := bind_eq_ok.1 h
  obtain ⟨⟨arguments, rest'⟩, _, h⟩ := bind_eq_ok.1 h
  obtain ⟨full, hfull, heq⟩ := bind_eq_ok.1 h
  cases heq
  obtain ⟨first, others, rfl, rfl⟩ := qualifiedName_written hwritten
  obtain ⟨hfullName, hfullLocation⟩ := withArguments_keep (orEscapeFault_eq_ok.1 hfull)
  refine ⟨first, others, afterName, rfl, ?_, hfullLocation⟩
  rw [hfullName]
  exact withTypeArguments_name hname

theorem readAttribute_writtenIn {a : Attribute} {all : List Token}
    (h : readAttribute path ts = .ok (a, rest)) (hts : ts <:+ all) : a.WrittenIn path all := by
  obtain ⟨front, rfl⟩ := hts
  obtain ⟨first, others, back, rfl, hwritten⟩ := readAttribute_written h
  exact ⟨front, first, others, back, rest, rfl, hwritten, h⟩

theorem Attribute.WrittenIn.of_suffix {a : Attribute} {all : List Token} (h : a.WrittenIn path ts)
    (hts : ts <:+ all) : a.WrittenIn path all := by
  obtain ⟨front, first, others, back, rest, rfl, hwritten, hread⟩ := h
  obtain ⟨more, rfl⟩ := hts
  exact ⟨more ++ front, first, others, back, rest, (List.append_assoc ..).symm, hwritten, hread⟩

theorem readSectionItems_written {items : List Attribute}
    (h : readSectionItems path ts = .ok (items, rest)) : ∀ a ∈ items, a.WrittenIn path ts := by
  fun_induction readSectionItems path ts generalizing items with
  | case1 => cases h; exact List.forall_mem_nil _
  | case2 => cases h
  | case3 => cases h
  | case4 ts _ a mid hitem more rest' hmore ih =>
    cases h
    have hmid : skip "," mid <:+ ts :=
      (skip_suffix "," mid).trans ((takesFront_readAttribute path ts).suffix hitem)
    exact List.forall_mem_cons.2 ⟨readAttribute_writtenIn hitem (List.suffix_refl ts),
      fun b hb => (ih hmore b hb).of_suffix hmid⟩

/-- **The attributes of the sections at the front** stand where their names begin. -/
theorem readSections_written {attributes : List Attribute}
    (h : readSections path ts = .ok (attributes, rest)) :
    ∀ a ∈ attributes, a.WrittenIn path ts := by
  fun_induction readSections path ts generalizing attributes with
  | case1 => cases h
  | case2 => cases h
  | case3 ts hhead items mid hitems more rest' hmore ih =>
    cases h
    have hinside : (sectionTarget (ts.drop 1)).2 <:+ ts :=
      (sectionTarget_suffix _).trans (List.drop_suffix 1 ts)
    have hmid : mid <:+ ts := ((takesFront_readSectionItems path _).suffix hitems).trans hinside
    intro a ha
    rcases List.mem_append.1 ha with ha | ha
    · have hkept : a ∈ items := by
        rw [keptItems] at ha
        split at ha
        · cases ha
        · exact ha
      exact (readSectionItems_written hitems a hkept).of_suffix hinside
    · exact (ih hmore a ha).of_suffix hmid
  | case4 => cases h; exact List.forall_mem_nil _

end Attributes

/-! ### Introductions -/

/-- **What introduces a declaration**: sections of attributes, modifiers and a keyword. -/
structure Introduction where
  sections : List Token
  modifiers : List Token
  keyword : Token

/-- The tokens of an introduction, in front of those behind the keyword. -/
def Introduction.followedBy (i : Introduction) (after : List Token) : List Token :=
  i.sections ++ (i.modifiers ++ i.keyword :: after)

/-- The first token of an introduction. -/
def Introduction.first (i : Introduction) : Token :=
  (i.sections ++ i.modifiers).headD i.keyword

/-- **The walk over the tokens `ts` comes to an introduction**, with the given attributes in its
sections and the given tokens behind its keyword.  In front of it there is nothing, or the mark with
which a piece of the file ends. -/
structure Introduction.MetBy (i : Introduction) (path : String) (ts : List Token) (w : Walk)
    (attributes : List Attribute) (after : List Token) : Prop where
  reached : Walk.Reaches path .start ts w (i.followedBy after)
  front : ∃ front, ts = front ++ i.followedBy after ∧ ∀ t ∈ front.getLast?, t.text ∈ pieceEnds
  sections : readSections path i.sections = .ok (attributes, [])
  modifiers : ∀ t ∈ i.modifiers, isModifier t = true

/-- **An enum is what the walk records at an introduction**, and its place is that of the first
token. -/
def EnumDeclaration.IntroducedBy (path : String) (ts : List Token) (e : EnumDeclaration)
    (i : Introduction) : Prop :=
  ∃ w after rest, i.MetBy path ts w e.attributes after ∧ i.keyword.text = "enum" ∧
    readEnumBody path i.first after = .ok (e.name, e.members, rest) ∧
    e = w.scope.declaredEnum path i.first e.attributes (i.modifiers.map Token.text) e.name e.members

/-- **A type is what the walk records at an introduction**, with what its body declares. -/
def TypeDeclaration.IntroducedBy (path : String) (ts : List Token) (t : TypeDeclaration)
    (i : Introduction) : Prop :=
  ∃ w after rest attributes hasBody,
    i.MetBy path ts w attributes after ∧ i.keyword.text ∈ typeKeywords ∧
    readTypeHeader i.keyword.text i.first after = .ok (⟨t.name, hasBody⟩, rest) ∧
    t = { w.scope.declaredType path i.keyword.text i.first (i.modifiers.map Token.text) t.name with
      properties := t.properties, constants := t.constants }

section Introductions

variable {path : String} {ts : List Token} {i : Introduction}

theorem Introduction.first_eq (i : Introduction) (after : List Token) :
    (i.followedBy after).head? = some i.first := by
  obtain ⟨sections, modifiers, keyword⟩ := i
  cases sections with
  | cons => rfl
  | nil => cases modifiers <;> rfl

theorem EnumDeclaration.IntroducedBy.location {e : EnumDeclaration} (h : e.IntroducedBy path ts i) :
    e.location = i.first.location path := by
  obtain ⟨w, after, rest, -, -, -, he⟩ := h
  rw [he]
  rfl

/-- The attributes of an enum stand in the sections that introduce it. -/
theorem EnumDeclaration.IntroducedBy.attributes {e : EnumDeclaration}
    (h : e.IntroducedBy path ts i) : ∀ a ∈ e.attributes, a.WrittenIn path i.sections := by
  obtain ⟨w, after, rest, hmet, -⟩ := h
  exact readSections_written hmet.sections

theorem TypeDeclaration.IntroducedBy.location {t : TypeDeclaration} (h : t.IntroducedBy path ts i) :
    t.location = i.first.location path := by
  obtain ⟨w, after, rest, attributes, hasBody, -, -, -, ht⟩ := h
  rw [ht]
  rfl

/-- What a type declares in its body does not matter for where it stands. -/
theorem TypeDeclaration.IntroducedBy.withBody {t : TypeDeclaration} (h : t.IntroducedBy path ts i)
    (properties : List PropertyDeclaration) (constants : List (String × CodeText)) :
    { t with properties := properties, constants := constants }.IntroducedBy path ts i := by
  obtain ⟨w, after, rest, attributes, hasBody, hmet, hkeyword, hread, ht⟩ := h
  refine ⟨w, after, rest, attributes, hasBody, hmet, hkeyword, hread, ?_⟩
  rw [ht]
  rfl

end Introductions

/-! ### The walk -/

/-- Every declaration in an open scope has been introduced. -/
structure Scope.Located (path : String) (ts : List Token) (s : Scope) : Prop where
  enums : ∀ e ∈ s.enums, ∃ i, e.IntroducedBy path ts i
  types : ∀ t ∈ s.types, ∃ i, t.IntroducedBy path ts i
  owner : ∀ t ∈ s.owner, ∃ i, t.IntroducedBy path ts i

/-- **The state of the walk**: it has come here, behind the end of a piece, and every declaration so
far has been introduced. -/
structure Walk.Located (path : String) (ts : List Token) (w : Walk) (rest : List Token) : Prop where
  reached : Walk.Reaches path .start ts w rest
  front : ∃ front, ts = front ++ rest ∧
    ((∀ t ∈ front.getLast?, t.text ∈ pieceEnds) ∨ headIs closingBrace rest = true)
  scope : w.scope.Located path ts
  outer : ∀ s ∈ w.outer, s.Located path ts

section Walk

variable {path : String} {ts : List Token}

theorem Walk.Reaches.snoc {w w' w'' : Walk} {mid rest : List Token}
    (h : Walk.Reaches path w ts w' mid) (hstep : Walk.Step path w' mid w'' rest) :
    Walk.Reaches path w ts w'' rest := by
  induction h with
  | refl => exact .step hstep (.refl _ _)
  | step hfirst _ ih => exact .step hfirst (ih hstep)

theorem Scope.Located.file : Scope.file.Located path ts where
  enums := List.forall_mem_nil _
  types := List.forall_mem_nil _
  owner := fun _ h => (Option.not_mem_none _ h).elim

theorem Scope.Located.closedTypes {s : Scope} (h : s.Located path ts) :
    ∀ t ∈ s.closedTypes, ∃ i, t.IntroducedBy path ts i := by
  intro t ht
  rw [Scope.closedTypes] at ht
  split at ht
  · next owner howner =>
    rcases List.mem_cons.1 ht with rfl | ht
    · obtain ⟨i, hi⟩ := h.owner owner howner
      exact ⟨i, hi.withBody _ _⟩
    · exact h.types t ht
  · exact h.types t ht

theorem Scope.Located.absorb {s inside : Scope} (h : s.Located path ts)
    (hinside : inside.Located path ts) : (s.absorb inside).Located path ts :=
  { h with
    enums := fun e he => (List.mem_append.1 he).elim (h.enums e) (hinside.enums e)
    types := fun t ht => (List.mem_append.1 ht).elim (h.types t) (hinside.closedTypes t) }

/-- **In front of a declaration** with a keyword the walk comes to an introduction. -/
theorem Walk.Located.introduction {w : Walk} {start head : Token}
    {more afterSections after : List Token} {attributes : List Attribute}
    (hw : w.Located path ts (start :: more)) (hbrace : start.text ≠ closingBrace)
    (hsections : readSections path (start :: more) = .ok (attributes, afterSections))
    (hafter : (readModifiers afterSections).2 = head :: after) (hhead : head.text ∉ leftTexts) :
    ∃ i : Introduction, i.MetBy path ts w attributes after ∧ i.keyword = head ∧ i.first = start ∧
      i.modifiers.map Token.text = (readModifiers afterSections).1 := by
  obtain ⟨sections, hused, hread⟩ := (takesFront_readSections path (start :: more)).front hsections
  have hmodifiers : ∀ t ∈ afterSections.takeWhile isModifier, isModifier t = true :=
    List.all_eq_true.1 List.all_takeWhile
  have hsplit : afterSections = afterSections.takeWhile isModifier ++ head :: after := by
    rw [← hafter]
    exact List.takeWhile_append_dropWhile.symm
  generalize hwords : afterSections.takeWhile isModifier = words at hmodifiers hsplit
  -- what stands behind the sections is not left because of what it begins with
  have hleft : BeginsWithout leftTexts afterSections := by
    rw [hsplit]
    cases words with
    | nil => exact beginsWithout_cons.2 hhead
    | cons word words =>
        have hnone : ∀ text ∈ modifierWords, text ∉ leftTexts := by decide
        exact beginsWithout_cons.2
          (hnone _ (List.contains_iff_mem.1 (hmodifiers word List.mem_cons_self)))
  have hinside := hread [] (Or.inr ⟨hleft, beginsWithout_nil _⟩)
  rw [List.append_nil] at hinside
  have htokens : start :: more = (Introduction.mk sections words head).followedBy after := by
    rw [hused, hsplit]
    rfl
  obtain ⟨front, hfront, hends⟩ := hw.front
  have hnobrace : headIs closingBrace (start :: more) ≠ true := fun h => hbrace (beq_iff_eq.1 h)
  refine ⟨⟨sections, words, head⟩,
    ⟨htokens ▸ hw.reached, ⟨front, htokens ▸ hfront, ?_⟩, hinside, hmodifiers⟩, rfl, ?_, ?_⟩
  · exact hends.resolve_right hnobrace
  · have hfirst := Introduction.first_eq ⟨sections, words, head⟩ after
    rw [← htokens] at hfirst
    exact (Option.some.inj hfirst).symm
  · rw [readModifiers, hwords]

/-- **In front of a type** the walk records one at its introduction. -/
theorem Walk.Located.declaredType {w : Walk} {start head : Token}
    {more afterSections after rest : List Token} {attributes : List Attribute} {header : TypeHeader}
    (hw : w.Located path ts (start :: more)) (hbrace : start.text ≠ closingBrace)
    (hsections : readSections path (start :: more) = .ok (attributes, afterSections))
    (hafter : (readModifiers afterSections).2 = head :: after) (hhead : head.text ∈ typeKeywords)
    (hread : readTypeHeader head.text start after = .ok (header, rest)) :
    ∃ i, (w.scope.declaredType path head.text start (readModifiers afterSections).1
      header.name).IntroducedBy path ts i := by
  have hnone : ∀ text ∈ typeKeywords, text ∉ leftTexts := by decide
  obtain ⟨i, hmet, rfl, rfl, hwords⟩ := hw.introduction hbrace hsections hafter (hnone _ hhead)
  refine ⟨i, w, after, rest, attributes, header.hasBody, hmet, hhead, hread, ?_⟩
  rw [hwords]
  rfl

/-- **A declaration** is recorded at its introduction. -/
theorem Walk.Located.effect {w w' : Walk} {start : Token} {more rest : List Token}
    (hw : w.Located path ts (start :: more)) (hbrace : start.text ≠ closingBrace)
    (h : w.DeclaredAs path (start :: more) w' rest) :
    w'.scope.Located path ts ∧ ∀ s ∈ w'.outer, s.Located path ts := by
  obtain ⟨hstart, hsections, heffect⟩ := h
  cases hstart
  have hscope := hw.scope
  generalize hafter : (readModifiers _).2 = remaining at heffect
  cases heffect with
  | importGlobally => exact ⟨hscope, hw.outer⟩
  | importLocally => exact ⟨{ hscope with }, hw.outer⟩
  | namespaceLine => exact ⟨{ hscope with }, hw.outer⟩
  | namespaceBlock => exact ⟨{ Scope.Located.file with }, List.forall_mem_cons.2 ⟨hscope, hw.outer⟩⟩
  | enum hhead hread =>
      obtain ⟨i, hmet, rfl, rfl, hwords⟩ :=
        hw.introduction hbrace hsections hafter (by rw [hhead]; decide)
      refine ⟨{ hscope with enums := fun e he => ?_ }, hw.outer⟩
      rcases List.mem_append.1 he with he | he
      · exact hscope.enums e he
      · rw [List.mem_singleton.1 he, ← hwords]
        exact ⟨i, w, _, _, hmet, hhead, hread, rfl⟩
  | typeBlock hhead hread =>
      have htype := hw.declaredType hbrace hsections hafter hhead hread
      exact ⟨{ Scope.Located.file with owner := fun t ht => Option.some.inj ht ▸ htype },
        List.forall_mem_cons.2 ⟨hscope, hw.outer⟩⟩
  | typeLine hhead hread =>
      refine ⟨{ hscope with types := fun t ht => ?_ }, hw.outer⟩
      rcases List.mem_append.1 ht with ht | ht
      · exact hscope.types t ht
      · rw [List.mem_singleton.1 ht]
        exact hw.declaredType hbrace hsections hafter hhead hread
  | delegate => exact ⟨hscope, hw.outer⟩
  | constants => exact ⟨{ hscope with }, hw.outer⟩
  | member => exact ⟨{ hscope with }, hw.outer⟩

/-- **Each piece of a file** keeps it that every declaration has been introduced. -/
theorem Walk.Located.step {w w' : Walk} {mid rest : List Token} (hw : w.Located path ts mid)
    (h : Walk.Step path w mid w' rest) : w'.Located path ts rest := by
  have hscopes : w'.scope.Located path ts ∧ ∀ s ∈ w'.outer, s.Located path ts := by
    refine h.scopes ⟨hw.scope, hw.outer⟩ Scope.Located.absorb ?_
    rintro t more rfl hbrace hdeclared
    exact hw.effect hbrace hdeclared
  refine ⟨hw.reached.snoc h, ?_, hscopes.1, hscopes.2⟩
  obtain ⟨front, rfl, -⟩ := hw.front
  obtain ⟨used, -, rfl, -⟩ := h.front
  refine ⟨front ++ used, (List.append_assoc ..).symm, h.ends.imp_left ?_⟩
  rintro ⟨more, mark, hmark, hused⟩ t ht
  have hends : used = more ++ [mark] := by
    rw [← List.append_cancel_right_eq used rest, hused, List.append_assoc, List.singleton_append]
  rw [hends, ← List.append_assoc, List.getLast?_concat] at ht
  exact Option.some.inj ht ▸ hmark

end Walk

/-! ### The whole text -/

/-- **Where the declarations of a text stand.**  Each enum and each type is recorded at the first
token of what introduces it, and each attribute of an enum at the first token of its name. -/
theorem readSource_located {path text : String} {file : SourceFile}
    (h : readSource path text = .ok file) :
    (∀ e ∈ file.enums, ∃ i, e.IntroducedBy path (tokenise text) i ∧
      e.location = i.first.location path ∧ ∀ a ∈ e.attributes, a.WrittenIn path i.sections) ∧
    ∀ t ∈ file.types,
      ∃ i, t.IntroducedBy path (tokenise text) i ∧ t.location = i.first.location path := by
  obtain ⟨w, hw, -, rfl⟩ := readSource_invariant
    (P := fun w rest => w.Located path (tokenise text) rest) ⟨.refl _ _,
      ⟨[], rfl, .inl fun t ht => (Option.not_mem_none t ht).elim⟩, .file, List.forall_mem_nil _⟩
    (fun _ _ _ _ hw hstep => hw.step hstep) h
  refine ⟨fun e he => ?_, fun t ht => ?_⟩
  · obtain ⟨i, hi⟩ := hw.scope.enums e he
    exact ⟨i, hi, hi.location, hi.attributes⟩
  · obtain ⟨i, hi⟩ := hw.scope.types t ht
    exact ⟨i, hi, hi.location⟩

/-- **The tokens of a text and the places of its declarations.**  No token is empty, the text of
each is what stands at its offset, they come one behind the other, and what stands between them, in
front of the first and behind the last is blanks, comments and directives.  So the line and the
column that are recorded for an enum, a type or an attribute tell where the tokens are found that
introduce the declaration, and the name of the attribute. -/
theorem tokens_and_places (text : String) : (∀ t ∈ tokenise text, t.Exact text.toList) ∧
    ((tokenise text).Pairwise fun s t => s.offsetBehind text.toList ≤ t.offset text.toList) ∧
    (∀ before after, tokenise text = before ++ after →
      Gap ((text.toList.take (gapEnd text.toList after)).drop (gapStart text.toList before))
        (text.toList.drop (gapEnd text.toList after))) ∧
    ∀ path file, readSource path text = .ok file →
      (∀ e ∈ file.enums, ∃ i, e.IntroducedBy path (tokenise text) i ∧
        e.location = i.first.location path ∧ ∀ a ∈ e.attributes, a.WrittenIn path i.sections) ∧
      ∀ t ∈ file.types,
        ∃ i, t.IntroducedBy path (tokenise text) i ∧ t.location = i.first.location path := by
  have htiled := tiled_tokenise text
  exact ⟨fun t ht => (htiled.exact t ht).2, htiled.ordered, fun before after hts => htiled.gaps hts,
    fun path file hread => readSource_located hread⟩

/-- An enum behind a comment over two lines, with an attribute in a line of its own. -/
def commentedText : String :=
  "/* in\nfront */ [Flags]\nenum E \x7b A \x7d // behind"

/-- What is read from this text. -/
def commentedFile : SourceFile where
  path := "E.cs"
  usings := []
  globalUsings := []
  enums :=
    [{ name := "E"
       namespaceName := ""
       accessibility := .internalLevel
       members := ["A"]
       attributes := [⟨"Flags", [], [], some ⟨"E.cs", 2, 11⟩⟩]
       containingTypes := []
       location := ⟨"E.cs", 2, 10⟩
       usings := [] }]
  types := []

/-- The enum stands at the bracket of its attribute, behind fifteen characters. -/
theorem tokens_and_places_comment :
    readSource "E.cs" commentedText = .ok commentedFile ∧
      (∀ e ∈ commentedFile.enums, ∃ i, e.IntroducedBy "E.cs" (tokenise commentedText) i ∧
        e.location = i.first.location "E.cs") ∧
      (tokenise commentedText).head?.map (Token.offset commentedText.toList) = some 15 := by
  have hread : readSource "E.cs" commentedText = .ok commentedFile := by decide +kernel
  refine ⟨hread, fun e he => ?_, by decide +kernel⟩
  obtain ⟨i, hi, hlocation, -⟩ :=
    ((tokens_and_places commentedText).2.2.2 "E.cs" commentedFile hread).1 e he
  exact ⟨i, hi, hlocation⟩

end LocalisedEnum

import LocalisedEnum.Proofs.Extension.ReadBack
import LocalisedEnum.Proofs.Pass.ReservedWords

/-!
**Names of a compilation that are identifiers.**

When the enums and types of a compilation and what is in them are called by identifiers, everything
that is generated from them is spelled out of identifiers too: the type of an enum, its namespace,
and the references to properties.  Only the method has a name of its own, which comes from the
settings or from an attribute; what an attribute asks for is an identifier, with or without a line
feed behind it.

Main definitions:

* `Compilation.IdentifierNames` — a compilation in which all names are identifiers;
* `Mapping.NamedAround` — a mapping in which all names but that of the method are names.

Main results:

* `isReference_of_stringProperty` — references to its properties are references to names;
* `SourceOf.namedAround` — **a mapping of such a compilation is well named**, but for its method;
* `SourceOf.methodName` — where the name of its method comes from.
-/

set_option autoImplicit false
set_option relaxedAutoImplicit false

namespace LocalisedEnum

/-! ### Names joined by points -/

/-- The characters of a fixed text that is made up of word characters and points. -/
theorem mem_of_all {s : String} (h : (s.toList.all fun c => isWord c || c == '.') = true) {c : Char}
    (hc : c ∈ s.toList) : isWord c = true ∨ c = '.' := by
  simpa using List.all_eq_true.1 h c hc

namespace DottedName

/-- A name behind another. -/
def append (n m : DottedName) : DottedName :=
  ⟨n.head, n.tail ++ m.head :: m.tail⟩

theorem text_append (n m : DottedName) : (n.append m).text = n.text ++ "." ++ m.text := by
  simp only [text, append, List.map_append, List.map_cons]
  rw [joinDots, ← List.cons_append, joinWith,
    String.intercalate_append_of_ne_nil (List.cons_ne_nil _ _) (List.cons_ne_nil _ _)]
  rfl

/-- Identifiers joined by points are a name. -/
theorem exists_of_identifiers {parts : List String} (hne : parts ≠ [])
    (h : ∀ part ∈ parts, isIdentifier part = true) : ∃ n : DottedName, joinDots parts = n.text := by
  obtain ⟨first, rest, rfl⟩ := List.exists_cons_of_ne_nil hne
  obtain ⟨words, hwords⟩ : ∃ words : List Word, words.map (·.text) = rest := by
    have hrest : ∀ part ∈ rest, isIdentifier part = true :=
      fun part hpart => h part (List.mem_cons_of_mem _ hpart)
    exact ⟨rest.attach.map fun part => ⟨part.1, hrest part.1 part.2⟩, by simp [Function.comp_def]⟩
  exact ⟨⟨⟨first, h first List.mem_cons_self⟩, words⟩, by rw [text, hwords]⟩

/-- The name of a type in others is one when their names are identifiers. -/
theorem exists_of_containing {outer : List String} {name : String}
    (houter : ∀ part ∈ outer, isIdentifier part = true) (hname : isIdentifier name = true) :
    ∃ n : DottedName, joinDots (outer ++ [name]) = n.text := by
  refine exists_of_identifiers (by simp) fun part hpart => ?_
  rcases List.mem_append.1 hpart with hpart | hpart
  · exact houter part hpart
  · rw [List.mem_singleton.1 hpart]
    exact hname

theorem text_ne_empty (n : DottedName) : n.text ≠ "" := by
  intro h
  have hblank := isBlankString_dotted n
  rw [h] at hblank
  cases hblank

/-- A name is made up of word characters and points. -/
theorem mem_text {n : DottedName} {c : Char} (h : c ∈ n.text.toList) :
    isWord c = true ∨ c = '.' := by
  rcases mem_joinDots h with h | ⟨part, hpart, h⟩
  · exact .inr h
  · refine .inl ?_
    rcases List.mem_cons.1 hpart with rfl | hpart
    · exact isWord_of_mem_identifier n.head.identifier h
    · obtain ⟨word, _, rfl⟩ := List.mem_map.1 hpart
      exact isWord_of_mem_identifier word.identifier h

end DottedName

/-- A name in a namespace. -/
theorem exists_qualify {namespaceName : String} (h : IsNamespace namespaceName) (n : DottedName) :
    ∃ n' : DottedName, qualify namespaceName n.text = n'.text := by
  rcases h with rfl | ⟨outer, rfl⟩
  · exact ⟨n, rfl⟩
  · exact ⟨outer.append n, by rw [qualify, if_neg outer.text_ne_empty, outer.text_append]⟩

theorem IsNamespace.mem {namespaceName : String} (h : IsNamespace namespaceName) {c : Char}
    (hc : c ∈ namespaceName.toList) : isWord c = true ∨ c = '.' := by
  rcases h with rfl | ⟨n, rfl⟩
  · cases hc
  · exact n.mem_text hc

theorem IsReference.mem {reference : String} (h : IsReference reference) {c : Char}
    (hc : c ∈ reference.toList) : isWord c = true ∨ c = '.' ∨ c = ':' := by
  obtain ⟨n, rfl⟩ := h
  rw [String.toList_append, List.mem_append] at hc
  rcases hc with hc | hc
  · have hmark : (globalMark.toList.all fun c => isWord c || c == ':') = true := by decide
    have hword := List.all_eq_true.1 hmark c hc
    rw [Bool.or_eq_true, beq_iff_eq] at hword
    exact hword.imp_right .inr
  · exact (n.mem_text hc).imp_right .inl

/-! ### Compilations -/

/-- An enum all of whose names are identifiers. -/
structure EnumDeclaration.IdentifierNames (e : EnumDeclaration) : Prop where
  name : isIdentifier e.name = true
  members : ∀ member ∈ e.members, isIdentifier member = true
  containingTypes : ∀ outer ∈ e.containingTypes, isIdentifier outer = true
  namespaceName : IsNamespace e.namespaceName

/-- A type all of whose names are identifiers. -/
structure TypeDeclaration.IdentifierNames (t : TypeDeclaration) : Prop where
  name : isIdentifier t.name = true
  properties : ∀ p ∈ t.properties, isIdentifier p.name = true
  containingTypes : ∀ outer ∈ t.containingTypes, isIdentifier outer = true
  namespaceName : IsNamespace t.namespaceName

/-- **A compilation in which all names are identifiers.** -/
structure Compilation.IdentifierNames (c : Compilation) : Prop where
  enums : ∀ e ∈ c.enums, e.IdentifierNames
  types : ∀ t ∈ c.types, t.IdentifierNames

theorem EnumDeclaration.IdentifierNames.typeReference {e : EnumDeclaration}
    (h : e.IdentifierNames) : ∃ n : DottedName, e.view.typeReference = n.text := by
  obtain ⟨n, hn⟩ : ∃ n : DottedName, e.typeReference = n.text :=
    DottedName.exists_of_containing h.containingTypes h.name
  exact ⟨n, by rw [EnumDeclaration.view, if_neg (hn ▸ n.text_ne_empty), hn]⟩

theorem TypeDeclaration.IdentifierNames.qualifiedName {t : TypeDeclaration}
    (h : t.IdentifierNames) : ∃ n : DottedName, t.qualifiedName = n.text := by
  obtain ⟨n, hn⟩ := DottedName.exists_of_containing h.containingTypes h.name
  rw [TypeDeclaration.qualifiedName, hn]
  exact exists_qualify h.namespaceName n

/-- References to string properties are references to names. -/
theorem isReference_of_stringProperty {c : Compilation} (hc : c.IdentifierNames)
    {reference : String} (h : StringProperty c reference) : IsReference reference := by
  obtain ⟨t, ht, p, hp, _, rfl⟩ := h
  obtain ⟨n, hn⟩ := (hc.types t ht).qualifiedName
  refine ⟨n.append ⟨⟨p.name, (hc.types t ht).properties p hp⟩, []⟩, ?_⟩
  have hname : ∀ w : Word, (DottedName.mk w []).text = w.text := fun w => by
    rw [DottedName.text, List.map_nil, joinDots, joinWith, String.intercalate_singleton]
  rw [n.text_append, hn, hname, String.append_assoc, String.append_assoc, String.append_assoc]

/-! ### Mappings -/

/-- A mapping in which all names but that of the method are names. -/
structure Mapping.NamedAround (m : Mapping) : Prop where
  members : m.view.members ≠ []
  enumName : isIdentifier m.view.name = true
  typeReference : ∃ n : DottedName, m.view.typeReference = n.text
  namespaceName : IsNamespace m.view.namespaceName
  bindings : ∀ b ∈ m.bindings, isIdentifier b.member = true ∧ IsReference b.reference
  fallback : ∀ reference ∈ m.defaultBinding.bound?, IsReference reference

/-- Such a mapping is well named once its method is called by a name. -/
theorem Mapping.NamedAround.wellNamed {m : Mapping} (h : m.NamedAround) (method : Segment) :
    ({ m with methodName := .ofString method.lexeme.text } : Mapping).WellNamed :=
  ⟨h.members, h.enumName, h.typeReference, h.namespaceName, ⟨method, rfl⟩, h.bindings, h.fallback⟩

section

variable {settings : Settings} {c : Compilation} {e : EnumDeclaration} {v : Variant} {a : Attribute}
  {m : Mapping} {errors : List GenerationError} {text : String}

/-- A binding of an enum is one of its values. -/
theorem member_of_attributeResult (h : attributeResult settings c e (v, a) = .ok (some m, errors))
    {b : Binding} (hb : b ∈ m.bindings) : b.member ∈ e.members := by
  obtain ⟨_, _, _, _, references, _, _, hreferences, _, _, rfl⟩ := attributeResult_eq_some h
  obtain ⟨member, hmember, heq, _⟩ :=
    exists_left_of_mem (bindMembers_eq_ok hreferences) (mem_boundMembers.1 hb)
  rw [show b.member = member from heq]
  exact hmember

/-- **A mapping of a compilation in which all names are identifiers** is well named, but for its
method. -/
theorem SourceOf.namedAround (h : SourceOf settings c e v m text) (hc : c.IdentifierNames)
    (he : e ∈ c.enums) : m.NamedAround := by
  obtain ⟨attributes, a, errors, _, _, hresult⟩ := h.resolved
  obtain ⟨_, _, hmembers, _⟩ := attributeResult_effect hresult
  have hnames := hc.enums e he
  have hreferences : ∀ reference ∈ m.writtenNames.references, IsReference reference :=
    fun reference hreference =>
      isReference_of_stringProperty hc (stringProperty_of_mem_references hresult hreference)
  refine
    ⟨?_, ?_, ?_, ?_, fun b hb => ⟨?_, hreferences _ ?_⟩, fun reference hbound => hreferences _ ?_⟩
  · rw [h.view]
    exact hmembers
  · rw [h.view]
    exact hnames.name
  · rw [h.view]
    exact hnames.typeReference
  · rw [h.view]
    exact hnames.namespaceName
  · exact hnames.members _ (member_of_attributeResult hresult hb)
  · refine List.mem_append_left _ (List.mem_map.2 ⟨_, List.mem_map.2 ⟨b, hb, rfl⟩, rfl⟩)
  · exact List.mem_append_right _ (Option.mem_toList.2 hbound)

end

/-! ### The name of the method -/

/-- A text without surrogates is the text of its characters. -/
theorem eq_ofString_of_toString? {t : CodeText} {s : String} (h : t.toString? = some s) :
    t = .ofString s := by
  obtain ⟨cs, hcs, rfl⟩ := Option.map_eq_some_iff.1 h
  rw [CodeText.ofString, String.toList_ofList]
  clear h
  induction t generalizing cs with
  | nil =>
      cases hcs
      rfl
  | cons p t ih =>
      rw [List.mapM_cons] at hcs
      obtain ⟨c, hc, hcs⟩ := Option.bind_eq_some_iff.1 hcs
      obtain ⟨cs', hcs', hcs⟩ := Option.bind_eq_some_iff.1 hcs
      cases hcs
      cases p with
      | surrogate _ _ => cases hc
      | scalar d =>
          cases hc
          rw [List.map_cons, ← ih _ hcs']

theorem isWord_of_continuesMethodName {c : Char} (h : continuesMethodName c = true) :
    isWord c = true := by
  rw [continuesMethodName, Bool.or_eq_true] at h
  rcases h with h | h
  · exact isWord_of_isWordStart h
  · have hsmall : c.toNat < 128 := by
      rw [Bool.and_eq_true, decide_eq_true_eq, decide_eq_true_eq] at h
      exact Nat.lt_of_le_of_lt (Char.le_def.1 h.2) (by decide)
    rw [isWord, if_pos hsmall, h, Bool.or_true]

theorem Segment.toList_lexeme (w : Word) (marked : Bool) :
    (Segment.mk w marked).lexeme.text.toList = (if marked then ['@'] else []) ++ w.text.toList := by
  cases marked with
  | false => rfl
  | true => exact String.toList_append

/-- An identifier that an attribute asks for is a name with or without the mark in front of it; a
line feed at its end is let through. -/
theorem exists_segment_of_isAsciiIdentifier {cs : List Char} (h : isAsciiIdentifier cs = true) :
    ∃ s : Segment, cs = s.lexeme.text.toList ∨ cs = s.lexeme.text.toList ++ ['\n'] := by
  rw [isAsciiIdentifier] at h
  split at h
  · cases h
  · next first rest hword =>
    rw [Bool.and_eq_true, List.all_eq_true] at h
    have hidentifier : isIdentifier (String.ofList (first :: rest)) = true := by
      rw [isIdentifier, String.toList_ofList]
      simp only [h.1, Bool.true_and, List.all_eq_true]
      exact fun c hc => isWord_of_continuesMethodName (h.2 c hc)
    -- What was cut off behind the word, and in front of it.
    have hbody : ∀ body, withoutFinalLineFeed body = first :: rest →
        body = first :: rest ∨ body = first :: rest ++ ['\n'] := by
      intro body hbody
      rw [withoutFinalLineFeed] at hbody
      split at hbody
      · next hlast =>
        refine .inr ?_
        rw [← hbody]
        exact (List.dropLast_append_getLast? _ hlast).symm
      · exact .inl hbody
    cases hmark : dropStart? ['@'] cs with
    | some body =>
        rw [hmark, Option.getD_some] at hword
        obtain rfl := dropStart?_eq_some_iff.1 hmark
        refine ⟨⟨⟨_, hidentifier⟩, true⟩, (hbody body hword).imp (fun hcs => ?_) fun hcs => ?_⟩
        · rw [hcs, Segment.toList_lexeme, String.toList_ofList, if_pos rfl]
        · rw [hcs, Segment.toList_lexeme, String.toList_ofList, if_pos rfl, List.append_assoc]
    | none =>
        rw [hmark, Option.getD_none] at hword
        refine ⟨⟨⟨_, hidentifier⟩, false⟩, (hbody cs hword).imp (fun hcs => ?_) fun hcs => ?_⟩
        · rw [hcs, Segment.toList_lexeme, String.toList_ofList, if_neg Bool.false_ne_true,
            List.nil_append]
        · rw [hcs, Segment.toList_lexeme, String.toList_ofList, if_neg Bool.false_ne_true,
            List.nil_append]

theorem exists_segment_of_isMethodName {t : CodeText} (h : isMethodName t = true) :
    ∃ s : Segment, t = .ofString s.lexeme.text ∨ t = .ofString (s.lexeme.text ++ "\n") := by
  rw [isMethodName] at h
  split at h
  · cases h
  · next text htext =>
    rw [Bool.and_eq_true] at h
    obtain ⟨s, hs⟩ := exists_segment_of_isAsciiIdentifier h.1
    rw [eq_ofString_of_toString? htext]
    refine ⟨s, hs.imp (fun hs => congrArg _ (String.toList_injective hs)) fun hs =>
      congrArg _ (String.toList_injective ?_)⟩
    rw [hs, String.toList_append]
    rfl

/-- What an attribute asks its method to be called can name a method. -/
theorem isMethodName_of_ofAttribute {order : KeyOrder} {v : Variant} {a : Attribute}
    {request : Request} (h : Request.ofAttribute order v a = .ok request) {name : CodeText}
    (hname : request.textOf methodNameKey = .ok (some name)) : isMethodName name = true := by
  obtain ⟨_, asked, _, _, hasked, hvalid⟩ := ofAttribute_eq_ok h
  cases hasked.symm.trans hname
  exact hvalid name rfl

/-- **Where the name of a method comes from**: it is that of the settings, or a name that an
attribute asks for. -/
theorem SourceOf.methodName {settings : Settings} {c : Compilation} {e : EnumDeclaration}
    {v : Variant} {m : Mapping} {text : String} (h : SourceOf settings c e v m text) :
    m.methodName = .ofString settings.methodName ∨
    ∃ s : Segment, m.methodName = .ofString s.lexeme.text ∨
      m.methodName = .ofString (s.lexeme.text ++ "\n") := by
  obtain ⟨attributes, a, errors, _, _, hresult⟩ := h.resolved
  obtain ⟨_, _, _, _, _, hrequest, hmethod, _, _, _, rfl⟩ := attributeResult_eq_some hresult
  obtain ⟨asked, hasked, rfl⟩ := methodName_eq_ok hmethod
  cases asked with
  | none => exact .inl rfl
  | some name =>
      exact .inr (exists_segment_of_isMethodName (isMethodName_of_ofAttribute hrequest hasked))

end LocalisedEnum

import LocalisedEnum.Proofs.Declaration.TypeParameters
import LocalisedEnum.Proofs.Pass.Identifiers

/-!
**Which declarations make up one type.**

The types of a compilation are merged by their full names.  Full names join the segments of the
namespace, the types around a declaration and its own name by points; so declarations of different
names are never merged, and declarations in different places only if the namespace of one has the
full name of a type around the other.  Type parameters are no part of a full name, and no record is
kept of them: a type and a generic type of its name make up one type, and a reference to a property
of the one may be found among those of the other.

Main definitions:

* `TypeDeclaration.scopeNames` — the names that lead to a declaration;
* `TypeDeclaration.SamePlace`, `TypeDeclaration.EntersThrough` — how the places of declarations
  compare;
* `IsEntry` — what a type has of the declarations that make it up;
* `PropertyOf` — a reference to a property of the type that a resource stands for.

Main results:

* `qualifiedName_eq_iff` — **when two declarations have one full name**;
* `SourceOf.propertyOf` — where the properties in a file come from;
* `typeIndex_parts` — **the types of a compilation and their parts**;
* `typeIndex_parts_generic` — a type whose only property is that of a generic type.
-/

set_option autoImplicit false
set_option relaxedAutoImplicit false

namespace LocalisedEnum

/-! ### Full names -/

namespace TypeDeclaration

/-- The names that lead to a declaration: the segments of its namespace, and the types around it. -/
def scopeNames (t : TypeDeclaration) : List String :=
  namespaceSegments t.namespaceName ++ t.containingTypes

/-- Two declarations in one namespace and inside the same types. -/
def SamePlace (t u : TypeDeclaration) : Prop :=
  t.namespaceName = u.namespaceName ∧ t.containingTypes = u.containingTypes

/-- The namespace of `u` has the full name of a type around `t`, and the types inside that are those
around `u`. -/
def EntersThrough (t u : TypeDeclaration) : Prop :=
  ∃ outer, outer ≠ [] ∧ t.containingTypes = outer ++ u.containingTypes ∧
    u.namespaceName = qualify t.namespaceName (joinDots outer)

end TypeDeclaration

theorem not_mem_of_isIdentifier {name : String} (h : isIdentifier name = true) :
    '.' ∉ name.toList := by
  intro hmem
  exact absurd (isWord_of_mem_identifier h hmem) (by decide)

/-- The segments of a namespace are identifiers, and make it up. -/
theorem IsNamespace.segments {namespaceName : String} (h : IsNamespace namespaceName) :
    (∀ segment ∈ namespaceSegments namespaceName, isIdentifier segment = true) ∧
      (namespaceName = "" ∧ namespaceSegments namespaceName = [] ∨
        namespaceName ≠ "" ∧ namespaceSegments namespaceName ≠ [] ∧
          namespaceName = joinDots (namespaceSegments namespaceName)) := by
  rcases h with rfl | ⟨n, rfl⟩
  · exact ⟨List.forall_mem_nil _, .inl ⟨rfl, rfl⟩⟩
  · have hsegments : namespaceSegments n.text = (n.head :: n.tail).map (·.text) := by
      rw [namespaceSegments, if_neg n.text_ne_empty, splitString_dotted]
    rw [hsegments]
    refine ⟨fun segment hsegment => ?_, .inr ⟨n.text_ne_empty, List.cons_ne_nil _ _, rfl⟩⟩
    obtain ⟨word, _, rfl⟩ := List.mem_map.1 hsegment
    exact word.identifier

theorem joinDots_append {front back : List String} (hfront : front ≠ []) (hback : back ≠ []) :
    joinDots (front ++ back) = joinDots front ++ "." ++ joinDots back := by
  rw [joinDots, joinWith, String.intercalate_append_of_ne_nil hfront hback]
  rfl

/-- Names of identifiers that are joined to one text are the same. -/
theorem joinDots_injective {names names' : List String} (hne : names ≠ []) (hne' : names' ≠ [])
    (h : ∀ name ∈ names, isIdentifier name = true) (h' : ∀ name ∈ names', isIdentifier name = true)
    (heq : joinDots names = joinDots names') : names = names' := by
  rw [← splitString_joinDots hne fun name hname => not_mem_of_isIdentifier (h name hname), heq,
    splitString_joinDots hne' fun name hname => not_mem_of_isIdentifier (h' name hname)]

/-- The segments of a namespace with names behind it. -/
theorem qualify_joinDots {namespaceName : String} (h : IsNamespace namespaceName)
    {names : List String} (hne : names ≠ []) :
    qualify namespaceName (joinDots names) =
      joinDots (namespaceSegments namespaceName ++ names) := by
  rcases h.segments.2 with ⟨rfl, hsegments⟩ | ⟨hnamespace, hsegments, hjoin⟩
  · rw [hsegments]
    rfl
  · rw [qualify, if_neg hnamespace, joinDots_append hsegments hne, ← hjoin]

section Names

variable {t u : TypeDeclaration}

theorem TypeDeclaration.IdentifierNames.qualifiedName_eq (h : t.IdentifierNames) :
    t.qualifiedName = joinDots (t.scopeNames ++ [t.name]) := by
  rw [TypeDeclaration.qualifiedName, qualify_joinDots h.namespaceName (by simp),
    TypeDeclaration.scopeNames, List.append_assoc]

theorem TypeDeclaration.IdentifierNames.scopeNames (h : t.IdentifierNames) :
    ∀ name ∈ t.scopeNames, isIdentifier name = true := by
  intro name hname
  rcases List.mem_append.1 hname with hname | hname
  · exact h.namespaceName.segments.1 name hname
  · exact h.containingTypes name hname

/-- Namespaces are the same if their segments are. -/
theorem eq_of_namespaceSegments {namespaceName namespaceName' : String}
    (h : IsNamespace namespaceName) (h' : IsNamespace namespaceName')
    (heq : namespaceSegments namespaceName = namespaceSegments namespaceName') :
    namespaceName = namespaceName' := by
  rcases h.segments.2 with ⟨hglobal, hnil⟩ | ⟨_, hne, hjoin⟩ <;>
    rcases h'.segments.2 with ⟨hglobal', hnil'⟩ | ⟨_, hne', hjoin'⟩
  · rw [hglobal, hglobal']
  · exact absurd (heq ▸ hnil) hne'
  · exact absurd (heq ▸ hnil') hne
  · rw [hjoin, hjoin', heq]

/-- Behind the segments of a namespace stand those of another that is called like a type in it. -/
theorem entersThrough_of_segments (h : t.IdentifierNames) (h' : u.IdentifierNames)
    {outer : List String} (hne : outer ≠ [])
    (hsegments : namespaceSegments u.namespaceName = namespaceSegments t.namespaceName ++ outer)
    (hcontaining : t.containingTypes = outer ++ u.containingTypes) : t.EntersThrough u := by
  refine ⟨outer, hne, hcontaining, ?_⟩
  rw [qualify_joinDots h.namespaceName hne, ← hsegments]
  rcases h'.namespaceName.segments.2 with ⟨_, hnil⟩ | ⟨_, _, hjoin⟩
  · rw [hnil] at hsegments
    exact absurd (List.append_eq_nil_iff.1 hsegments.symm).2 hne
  · exact hjoin

theorem TypeDeclaration.EntersThrough.scopeNames (h : t.IdentifierNames)
    (hthrough : t.EntersThrough u) : u.scopeNames = t.scopeNames := by
  obtain ⟨outer, hne, hcontaining, hnamespace⟩ := hthrough
  obtain ⟨hsegments, _⟩ := h.namespaceName.segments
  have hidentifiers : ∀ name ∈ namespaceSegments t.namespaceName ++ outer, '.' ∉ name.toList := by
    intro name hname
    rcases List.mem_append.1 hname with hname | hname
    · exact not_mem_of_isIdentifier (hsegments name hname)
    · exact not_mem_of_isIdentifier
        (h.containingTypes name (hcontaining ▸ List.mem_append_left _ hname))
  have hall : namespaceSegments t.namespaceName ++ outer ≠ [] :=
    List.append_ne_nil_of_right_ne_nil _ hne
  have hfull : u.namespaceName = joinDots (namespaceSegments t.namespaceName ++ outer) := by
    rw [hnamespace, qualify_joinDots h.namespaceName hne]
  have hnonempty : u.namespaceName ≠ "" := by
    intro hempty
    have hsplit := splitString_joinDots hall hidentifiers
    rw [← hfull, hempty] at hsplit
    -- the only segment of the empty text is empty, and no identifier is
    have hlast : outer.getLast hne = "" := by
      have hmem : outer.getLast hne ∈ splitString '.' "" :=
        hsplit ▸ List.mem_append_right _ (List.getLast_mem hne)
      exact List.mem_singleton.1 hmem
    have hidentifier :=
      h.containingTypes _ (hcontaining ▸ List.mem_append_left _ (List.getLast_mem hne))
    rw [hlast] at hidentifier
    cases hidentifier
  rw [TypeDeclaration.scopeNames, TypeDeclaration.scopeNames, namespaceSegments, if_neg hnonempty,
    hfull, splitString_joinDots hall hidentifiers, hcontaining, List.append_assoc]

/-- The same names lead to two declarations exactly if they are in the same place, or if the
namespace of one has the full name of a type around the other. -/
theorem scopeNames_eq_iff (h : t.IdentifierNames) (h' : u.IdentifierNames) :
    t.scopeNames = u.scopeNames ↔ t.SamePlace u ∨ t.EntersThrough u ∨ u.EntersThrough t := by
  constructor
  · intro heq
    rcases List.append_eq_append_iff.1 heq with
      ⟨outer, hsegments, hcontaining⟩ | ⟨outer, hsegments, hcontaining⟩
    · by_cases hnil : outer = []
      · rw [hnil, List.append_nil] at hsegments
        rw [hnil, List.nil_append] at hcontaining
        exact .inl
          ⟨eq_of_namespaceSegments h.namespaceName h'.namespaceName hsegments.symm, hcontaining⟩
      · exact .inr (.inl (entersThrough_of_segments h h' hnil hsegments hcontaining))
    · by_cases hnil : outer = []
      · rw [hnil, List.append_nil] at hsegments
        rw [hnil, List.nil_append] at hcontaining
        exact .inl
          ⟨eq_of_namespaceSegments h.namespaceName h'.namespaceName hsegments, hcontaining.symm⟩
      · exact .inr (.inr (entersThrough_of_segments h' h hnil hsegments hcontaining))
  · rintro (⟨hnamespace, hcontaining⟩ | hthrough | hthrough)
    · rw [TypeDeclaration.scopeNames, TypeDeclaration.scopeNames, hnamespace, hcontaining]
    · exact (hthrough.scopeNames h).symm
    · exact hthrough.scopeNames h'

/-- **Two declarations have one full name** exactly if they have the same name, and the same names
lead to them. -/
theorem qualifiedName_eq_iff (h : t.IdentifierNames) (h' : u.IdentifierNames) :
    t.qualifiedName = u.qualifiedName ↔
      t.name = u.name ∧ (t.SamePlace u ∨ t.EntersThrough u ∨ u.EntersThrough t) := by
  rw [← scopeNames_eq_iff h h', h.qualifiedName_eq, h'.qualifiedName_eq]
  constructor
  · intro heq
    have hidentifiers : ∀ {t : TypeDeclaration}, t.IdentifierNames →
        ∀ name ∈ t.scopeNames ++ [t.name], isIdentifier name = true := by
      intro t h name hname
      rcases List.mem_append.1 hname with hname | hname
      · exact h.scopeNames name hname
      · rw [List.mem_singleton.1 hname]
        exact h.name
    have hnames := joinDots_injective (by simp) (by simp) (hidentifiers h) (hidentifiers h') heq
    obtain ⟨hscope, hname⟩ := List.append_inj' hnames rfl
    exact ⟨List.singleton_inj.1 hname, hscope⟩
  · rintro ⟨hname, hscope⟩
    rw [hname, hscope]

end Names

/-! ### Types and their parts -/

/-- **What a type has of its parts**: the properties of all declarations of its full name, in order,
and each constant as the first of them has it. -/
structure IsEntry (c : Compilation) (qualifiedName : String) (t : TypeDeclaration) : Prop where
  name : t.qualifiedName = qualifiedName
  properties : t.properties = (partsOf c.types qualifiedName).flatMap (·.properties)
  constants : ∀ key, valueOf? key t.constants =
    (partsOf c.types qualifiedName).findSome? fun d => valueOf? key d.constants

theorem isEntry_of_get? {c : Compilation} {qualifiedName : String} {t : TypeDeclaration}
    (h : c.typeIndex.get? qualifiedName = some t) : IsEntry c qualifiedName t := by
  have hname := qualifiedName_of_get? h
  obtain ⟨first, parts, hparts, rfl⟩ := exists_parts_of_get? h
  refine ⟨hname, ?_, fun key => ?_⟩
  · rw [hparts, properties_foldl_merge]
  · rw [hparts, valueOf?_foldl_merge]

/-- **A property of the type that a resource of an enum stands for**: it is that of one of the
declarations of the full name of the type. -/
def PropertyOf (c : Compilation) (e : EnumDeclaration) (reference : String) : Prop :=
  ∃ a ∈ e.attributes, ∃ resource t, a.positional = [.typeOf resource] ∧
    c.findType resource e.context = some t ∧
    ∃ d ∈ partsOf c.types t.qualifiedName, ∃ p ∈ d.properties, p.isStaticString = true ∧
      reference = globalMark ++ t.qualifiedName ++ "." ++ p.name

section Sources

variable {settings : Settings} {c : Compilation} {e : EnumDeclaration} {v : Variant} {m : Mapping}
  {text : String}

theorem propertyOf_of_reference? {a : Attribute} (ha : a ∈ e.attributes)
    {resource reference : String} (hresource : a.positional = [.typeOf resource]) {name : CodeText}
    (h : (resourceMembers c e.context resource).reference? name = some reference) :
    PropertyOf c e reference := by
  obtain ⟨t, ht, p, hp, hstring, hreference⟩ := exists_of_reference? h
  obtain ⟨qualifiedName, hget⟩ := findType_eq_some ht
  have hentry := isEntry_of_get? hget
  rw [hentry.properties, ← hentry.name] at hp
  obtain ⟨d, hd, hp⟩ := List.mem_flatMap.1 hp
  exact ⟨a, ha, resource, t, hresource, ht, d, hd, p, hp, hstring, hreference⟩

/-- **The properties in a file** are those of the types that the resources of its enum stand for. -/
theorem SourceOf.propertyOf (h : SourceOf settings c e v m text) {reference : String}
    (hreference : reference ∈ m.writtenNames.references) : PropertyOf c e reference := by
  obtain ⟨attributes, a, errors, hattributes, hentry, hresult⟩ := h.resolved
  have ha : a ∈ e.attributes := mem_of_localisationAttributes hattributes hentry
  obtain ⟨request, name, hrequest, hname⟩ := exists_reference?_of_mem_references hresult hreference
  -- the constants that are bound are among the named values only
  have hresource : (bindConstants c e.context a).positional = [.typeOf request.resource] :=
    eq_singleton_of_resourceOf (resourceOf_of_ofAttribute hrequest)
  exact propertyOf_of_reference? ha hresource hname

end Sources

/-- **The types of a compilation and their parts.**  A type has the properties and the constants of
the declarations of its full name, and of no others.  Of declarations whose names are identifiers
two have one full name exactly if they have the same name and are in the same place, or the
namespace of one has the full name of a type around the other.  Each property in a source is that of
such a declaration of the type that the resource stands for.  How many type parameters a declaration
has makes no difference: a file declares the same with them as without. -/
theorem typeIndex_parts (c : Compilation) :
    (∀ qualifiedName t, c.typeIndex.get? qualifiedName = some t → IsEntry c qualifiedName t) ∧
    (∀ t ∈ c.types, ∀ u ∈ c.types, t.IdentifierNames → u.IdentifierNames →
      (t.qualifiedName = u.qualifiedName ↔
        t.name = u.name ∧ (t.SamePlace u ∨ t.EntersThrough u ∨ u.EntersThrough t))) ∧
    (∀ settings e v m text, SourceOf settings c e v m text →
      ∀ reference ∈ m.writtenNames.references, PropertyOf c e reference) ∧
    ∀ path front count params, IsTypeFront path front → IsTypeParameters count params →
      ∀ w rest, Walk.run path w (front ++ (params ++ rest)) = Walk.run path w (front ++ rest) := by
  refine ⟨fun _ _ => isEntry_of_get?, fun _ _ _ _ => qualifiedName_eq_iff, ?_, ?_⟩
  · intro settings e v m text hsource reference hreference
    exact hsource.propertyOf hreference
  · intro path front count params hfront hparams w rest
    exact run_typeParameters hfront hparams w rest

/-- A type without properties, and a generic type of its name with one. -/
def genericText : String :=
  "class S \x7b \x7d class S<T> \x7b public static string EADescription \x7b get; \x7d \x7d"

/-- What is read from this text. -/
def genericFile : SourceFile where
  path := "File0.cs"
  usings := []
  globalUsings := []
  enums := []
  types :=
    [{ name := "S"
       namespaceName := ""
       kind := "class"
       accessibility := .internalLevel
       properties := []
       containingTypes := []
       location := ⟨"File0.cs", 1, 1⟩
       constants := [] },
     { name := "S"
       namespaceName := ""
       kind := "class"
       accessibility := .internalLevel
       properties := [⟨"EADescription", "string", true⟩]
       containingTypes := []
       location := ⟨"File0.cs", 1, 13⟩
       constants := [] }]

/-- The tokens of the second declaration up to its name, its type parameters, and what follows
them. -/
def genericParts : List Token × List Token × List Token :=
  let ts := (tokenise genericText).drop 4
  (ts.take 2, (ts.drop 2).take 3, ts.drop 5)

/-- The one type that the two declarations make up has a property that only the generic one
declares. -/
theorem typeIndex_parts_generic : readSource "File0.cs" genericText = .ok genericFile ∧
    IsTypeFront "File0.cs" genericParts.1 ∧ IsTypeParameters 1 genericParts.2.1 ∧
    tokenise genericText =
      (tokenise genericText).take 4 ++ (genericParts.1 ++ (genericParts.2.1 ++ genericParts.2.2)) ∧
    ∃ t, (Compilation.mk [genericFile]).typeIndex.get? "S" = some t ∧
      IsEntry ⟨[genericFile]⟩ "S" t ∧ t.staticStringNames = ["EADescription"] := by
  obtain ⟨t, ht, hnames⟩ : ∃ t, (Compilation.mk [genericFile]).typeIndex.get? "S" = some t ∧
      t.staticStringNames = ["EADescription"] := by
    refine ⟨_, Option.eq_some_of_isSome ?_, ?_⟩ <;> decide +kernel
  refine ⟨by decide +kernel, ⟨[], [], ?_⟩, ?_, by decide +kernel, t, ht,
    (typeIndex_parts ⟨[genericFile]⟩).1 "S" t ht, hnames⟩
  · exact ⟨⟨.identifier, "class", 1, 13⟩, [], ⟨.identifier, "S", 1, 19⟩, by decide +kernel,
      by decide, by decide, by decide⟩
  · have hparams : genericParts.2.1 = ⟨.operator, "<", 1, 20⟩ :: ([⟨.identifier, "T", 1, 21⟩] ++
        [⟨.operator, ">", 1, 22⟩]) := by decide +kernel
    rw [hparams]
    exact @IsTypeParameters.intro ⟨.operator, "<", 1, 20⟩ ⟨.operator, ">", 1, 22⟩
      [⟨.identifier, "T", 1, 21⟩] rfl rfl (by decide)

end LocalisedEnum

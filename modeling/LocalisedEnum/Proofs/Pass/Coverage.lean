import LocalisedEnum.Proofs.Extension.Switch
import LocalisedEnum.Proofs.Pass.Isolation
import LocalisedEnum.Proofs.Pass.Parts

/-!
**A clean pass covers every member.**

The generated method throws for a member that has neither a property of its own nor a default.  Such
a member is known when the method is generated, and an error says so.  Hence a pass without
diagnostics has generated, for each enum with members and each variant that the enum asks for, one
source in which every member yields a reference to a static string property of a declared type; and
where a member would reach the throwing branch, or a variant has got no source, the enum has left a
diagnostic.

What a member yields is read off the lines of the method by the reader of
`LocalisedEnum.Proofs.Extension.Switch`.

Main definitions:

* `recognisedVariants` — the variants that the attributes of an enum ask for;
* `StringProperty` — references to static string properties of declared types;
* `SourceOf` — the text that an enum gets for a variant;
* `Covers` — a text in which every member yields a string property;
* `requestedSources` — the sources that the enums of a compilation ask for.

Main results:

* `exists_part_of_property` — a merged type has the properties of its parts, and no others;
* `attributeResult_effect` — a member throws only if there is an error;
* `runPass_covers` — **a clean pass covers every member**, and what is not covered is reported.
-/

set_option autoImplicit false
set_option relaxedAutoImplicit false

namespace LocalisedEnum

/-! ### The variants that an enum asks for -/

/-- The variants that the attributes of an enum ask for, in the order of the variants. -/
def recognisedVariants (e : EnumDeclaration) : List Variant :=
  Variant.all.filter fun v =>
    e.attributes.any fun a => Variant.ofAttributeName? a.shortName == some v

theorem isSome_attributeFor?_append (v w : Variant) (a : Attribute)
    (found : List (Variant × Attribute)) :
    (attributeFor? v (found ++ [(w, a)])).isSome =
      ((attributeFor? v found).isSome || some w == some v) := by
  by_cases h : w = v <;> simp [attributeFor?, List.find?_append, h]

theorem isSome_attributeFor?_collectAttribute {enumName : String} {a : Attribute}
    {found found' : List (Variant × Attribute)} {asked : Option Variant}
    (h : collectAttribute enumName found a asked = .ok found') (v : Variant) :
    (attributeFor? v found').isSome = ((attributeFor? v found).isSome || asked == some v) := by
  cases asked with
  | none =>
      cases h
      have hnone : ((none : Option Variant) == some v) = false := rfl
      rw [hnone, Bool.or_false]
  | some w =>
      simp only [collectAttribute] at h
      split at h
      · cases h
      · cases h
        exact isSome_attributeFor?_append v w a found

/-- A variant is found exactly when some attribute asks for it. -/
theorem isSome_attributeFor?_collect {enumName : String} {attributes : List Attribute}
    {found found' : List (Variant × Attribute)}
    (h : collectAttributes enumName found attributes = .ok found') (v : Variant) :
    (attributeFor? v found').isSome = ((attributeFor? v found).isSome ||
      attributes.any fun a => Variant.ofAttributeName? a.shortName == some v) := by
  induction attributes generalizing found with
  | nil =>
      cases h
      simp
  | cons a rest ih =>
      rw [collectAttributes, List.foldlM_cons] at h
      obtain ⟨next, hnext, h⟩ := bind_eq_ok.1 h
      rw [ih h, isSome_attributeFor?_collectAttribute hnext, List.any_cons, Bool.or_assoc]

theorem variants_filterMap (found : List (Variant × Attribute)) (vs : List Variant) :
    (vs.filterMap fun v => (attributeFor? v found).map (v, ·)).map Prod.fst =
      vs.filter fun v => (attributeFor? v found).isSome := by
  induction vs with
  | nil => rfl
  | cons v rest ih => cases h : attributeFor? v found <;> simp [h, ih]

theorem variants_of_localisationAttributes {e : EnumDeclaration}
    {attributes : List (Variant × Attribute)} (h : localisationAttributes e = .ok attributes) :
    attributes.map Prod.fst = recognisedVariants e := by
  obtain ⟨found, hfound, h⟩ := bind_eq_ok.1 h
  cases h
  have hsome : ∀ v, (attributeFor? v found).isSome =
      e.attributes.any fun a => Variant.ofAttributeName? a.shortName == some v :=
    fun v => isSome_attributeFor?_collect hfound v
  rw [variants_filterMap, recognisedVariants]
  exact List.filter_congr fun v _ => hsome v

/-! ### References to string properties -/

/-- A reference to a static string property of a type that is declared. -/
def StringProperty (c : Compilation) (reference : String) : Prop :=
  ∃ t ∈ c.types, ∃ p ∈ t.properties, p.isStaticString = true ∧
    reference = globalMark ++ t.qualifiedName ++ "." ++ p.name

/-- A merged type has the properties of the declarations of its name, and no others. -/
theorem exists_part_of_property {c : Compilation} {name : String} {t : TypeDeclaration}
    (h : c.typeIndex.get? name = some t) {p : PropertyDeclaration} (hp : p ∈ t.properties) :
    ∃ d ∈ c.types, d.qualifiedName = name ∧ p ∈ d.properties := by
  obtain ⟨first, parts, hparts, rfl⟩ := exists_parts_of_get? h
  rw [properties_foldl_merge, ← hparts] at hp
  obtain ⟨d, hd, hpd⟩ := List.mem_flatMap.1 hp
  obtain ⟨hd, hname⟩ := mem_partsOf.1 hd
  exact ⟨d, hd, hname, hpd⟩

theorem findType_eq_some {c : Compilation} {name : String} {context : LookupContext}
    {t : TypeDeclaration} (h : c.findType name context = some t) :
    ∃ qualifiedName, c.typeIndex.get? qualifiedName = some t := by
  simp only [Compilation.findType] at h
  split at h
  · exact ⟨_, h⟩
  · obtain ⟨candidate, _, hcandidate⟩ := List.exists_of_findSome?_eq_some h
    exact ⟨candidate, hcandidate⟩

/-- What a resource offers is a static string property of the type that it stands for. -/
theorem exists_of_reference? {c : Compilation} {context : LookupContext}
    {resource reference : String} {name : CodeText}
    (h : (resourceMembers c context resource).reference? name = some reference) :
    ∃ t, c.findType resource context = some t ∧
      ∃ p ∈ t.properties, p.isStaticString = true ∧
        reference = globalMark ++ t.qualifiedName ++ "." ++ p.name := by
  obtain ⟨property, hproperty, rfl⟩ := Option.map_eq_some_iff.1 h
  rw [ResourceMembers.property?] at hproperty
  split at hproperty
  · cases hproperty
  · have hmem := List.mem_of_find?_eq_some hproperty
    rw [resourceMembers] at hmem ⊢
    split at hmem
    · next t ht =>
      obtain ⟨p, hp, rfl⟩ := List.mem_map.1 hmem
      obtain ⟨hp, hstring⟩ := List.mem_filter.1 hp
      rw [ht]
      exact ⟨t, rfl, p, hp, hstring, rfl⟩
    · cases hmem

/-- A reference that a resource type offers is one to a static string property. -/
theorem stringProperty_of_reference? {c : Compilation} {context : LookupContext} {typeName : String}
    {name : CodeText} {reference : String}
    (h : (resourceMembers c context typeName).reference? name = some reference) :
    StringProperty c reference := by
  obtain ⟨t, ht, p, hp, hstring, rfl⟩ := exists_of_reference? h
  obtain ⟨qualifiedName, hget⟩ := findType_eq_some ht
  obtain ⟨d, hd, hname, hpd⟩ := exists_part_of_property hget hp
  exact ⟨d, hd, p, hpd, hstring, by rw [hname, qualifiedName_of_get? hget]⟩

/-! ### The bindings of a mapping -/

theorem mem_boundMembers {references : List (String × Option String)} {b : Binding} :
    b ∈ boundMembers references ↔ (b.member, some b.reference) ∈ references := by
  rw [boundMembers, List.mem_filterMap]
  constructor
  · rintro ⟨⟨member, reference⟩, hmem, h⟩
    obtain ⟨r, rfl, rfl⟩ := Option.map_eq_some_iff.1 h
    exact hmem
  · intro hmem
    exact ⟨_, hmem, rfl⟩

/-- Each member is bound to what the resource type offers under the name that the template makes. -/
theorem bindMembers_eq_ok {r : ResourceMembers} {template : CodeText} {view : EnumView}
    {references : List (String × Option String)}
    (h : bindMembers r template view = .ok references) :
    List.Forall₂ (fun member entry => entry.1 = member ∧ ∃ name, entry.2 = r.reference? name)
      view.members references := by
  refine (mapM_eq_ok h).imp ?_
  intro member entry hentry
  obtain ⟨name, _, hentry⟩ := bind_eq_ok.1 hentry
  cases hentry
  exact ⟨rfl, name, rfl⟩

theorem bound?_bindDefault {r : ResourceMembers} {property : Option CodeText} {reference : String}
    (h : (bindDefault r property).bound? = some reference) :
    ∃ name, r.reference? name = some reference := by
  rw [DefaultBinding.bound?, Option.filter_eq_some_iff] at h
  obtain ⟨name, _, hname⟩ := Option.bind_eq_some_iff.1 h.1
  exact ⟨name, hname⟩

/-- A value without a reference, and no default: that is an error. -/
theorem mappingErrors_ne_nil {enumName member : String} {methodName : CodeText} {d : DefaultBinding}
    {references : List (String × Option String)} (hmember : (member, none) ∈ references)
    (hd : d.bound? = none) : mappingErrors enumName methodName d references ≠ [] := by
  have hany : references.any (·.2.isNone) = true :=
    List.any_eq_true.2 ⟨_, hmember, rfl⟩
  simp [mappingErrors, hany, hd]

/-! ### The effect of a resolved mapping -/

section Resolved

variable {view : EnumView} {r : ResourceMembers} {template : CodeText} {property : Option CodeText}
  {references : List (String × Option String)} {m : Mapping}

/-- What a member yields is offered by the resource type; a member that yields nothing has no
reference of its own, and there is no default. -/
theorem effectOn?_of_bindMembers (hreferences : bindMembers r template view = .ok references)
    (hbindings : m.bindings = boundMembers references)
    (hdefault : m.defaultBinding = bindDefault r property) {member : String}
    (hmember : member ∈ view.members) :
    (∃ reference name, m.effectOn? member = some (.value reference) ∧
      r.reference? name = some reference) ∨
    (m.effectOn? member = some .refusal ∧ (member, none) ∈ references ∧
      (bindDefault r property).bound? = none) := by
  have hforall := bindMembers_eq_ok hreferences
  cases hfind : m.bindings.find? (fun b => m.labelOf b.member == m.labelOf member) with
  | some b =>
      have hb := List.mem_of_find?_eq_some hfind
      rw [hbindings, mem_boundMembers] at hb
      obtain ⟨_, _, _, name, hname⟩ := exists_left_of_mem hforall hb
      exact Or.inl ⟨b.reference, name, by rw [effectOn?_eq, hfind], hname.symm⟩
  | none =>
      cases hbound : (bindDefault r property).bound? with
      | some reference =>
          obtain ⟨name, hname⟩ := bound?_bindDefault hbound
          exact Or.inl ⟨reference, name, by rw [effectOn?_eq, hfind, hdefault, hbound], hname⟩
      | none =>
          refine Or.inr ⟨by rw [effectOn?_eq, hfind, hdefault, hbound], ?_, rfl⟩
          obtain ⟨⟨member', reference⟩, hmem, rfl, _⟩ := exists_right_of_mem hforall hmember
          cases reference with
          | none => exact hmem
          | some reference =>
              -- a member with a reference has a binding, and its label is its own
              have hb : Binding.mk member' reference ∈ m.bindings := by
                rw [hbindings, mem_boundMembers]
                exact hmem
              have hno := List.find?_eq_none.1 hfind _ hb
              simp at hno

/-- Without a binding and a default every member is without a reference. -/
theorem unbound_of_empty (hreferences : bindMembers r template view = .ok references)
    (hbindings : boundMembers references = []) {member : String} (hmember : member ∈ view.members) :
    (member, none) ∈ references := by
  obtain ⟨⟨member', reference⟩, hmem, rfl, _⟩ :=
    exists_right_of_mem (bindMembers_eq_ok hreferences) hmember
  cases reference with
  | none => exact hmem
  | some reference =>
      have hb : Binding.mk member' reference ∈ boundMembers references := mem_boundMembers.2 hmem
      rw [hbindings] at hb
      cases hb

end Resolved

variable {settings : Settings} {c : Compilation} {e : EnumDeclaration}

theorem variant_ofAttribute {order : KeyOrder} {v : Variant} {a : Attribute} {request : Request}
    (h : Request.ofAttribute order v a = .ok request) : request.variant = v := by
  obtain ⟨_, _, _, rfl, _⟩ := ofAttribute_eq_ok h
  rfl

/-- **The mapping of an attribute** is that of its variant and its enum; in its method each member
yields a string property, or throws although there is an error. -/
theorem attributeResult_effect {v : Variant} {a : Attribute} {m : Mapping}
    {errors : List GenerationError}
    (h : attributeResult settings c e (v, a) = .ok (some m, errors)) :
    m.variant = v ∧ m.view = e.view ∧ e.members ≠ [] ∧ ∀ member ∈ e.members,
      (∃ reference, m.effectOn? member = some (.value reference) ∧ StringProperty c reference) ∨
      (m.effectOn? member = some .refusal ∧ errors ≠ []) := by
  obtain ⟨request, template, method, property, references, hrequest, _, hreferences, hmembers, rfl,
      rfl⟩ :=
    attributeResult_eq_some h
  refine ⟨variant_ofAttribute hrequest, rfl, hmembers, fun member hmember => ?_⟩
  have heffects := effectOn?_of_bindMembers hreferences
    (m := ⟨e.view, request.variant, method, bindDefault _ property, boundMembers references⟩)
    rfl rfl hmember
  rcases heffects with ⟨reference, name, heffect, hname⟩ | ⟨heffect, hnone, hbound⟩
  · exact Or.inl ⟨reference, heffect, stringProperty_of_reference? hname⟩
  · exact Or.inr ⟨heffect, mappingErrors_ne_nil hnone hbound⟩

/-- An attribute that leads to no mapping leaves an error, unless the enum has no members. -/
theorem errors_of_no_mapping {v : Variant} {a : Attribute} {errors : List GenerationError}
    (h : attributeResult settings c e (v, a) = .ok (none, errors)) (hmembers : e.members ≠ []) :
    errors ≠ [] := by
  obtain ⟨_, _, hresolve⟩ := attributeResult_eq_ok h
  obtain ⟨template, method, property, references, _, _, hreferences, rfl, hm⟩ :=
    resolve_eq_ok hresolve
  split at hm
  · next hempty =>
    rw [Bool.or_eq_true, Bool.and_eq_true, List.isEmpty_iff, List.isEmpty_iff,
      Option.isNone_iff_eq_none] at hempty
    rcases hempty with hempty | ⟨hbindings, hbound⟩
    · exact absurd hempty hmembers
    · obtain ⟨member, hmember⟩ := List.exists_mem_of_ne_nil _ hmembers
      exact mappingErrors_ne_nil (unbound_of_empty hreferences hbindings hmember) hbound
  · cases hm

/-! ### The sources of an enum -/

/-- A text that an enum has got for a variant: it is written from the mapping that an attribute of
the enum resolves to. -/
structure SourceOf (settings : Settings) (c : Compilation) (e : EnumDeclaration) (v : Variant)
    (m : Mapping) (text : String) : Prop where
  resolved : ∃ attributes a errors, localisationAttributes e = .ok attributes ∧
    (v, a) ∈ attributes ∧ attributeResult settings c e (v, a) = .ok (some m, errors)
  variant : m.variant = v
  view : m.view = e.view
  written : m.sourceText = .ok text

/-- A text for a variant of an enum in which every member yields a string property. -/
def Covers (settings : Settings) (c : Compilation) (e : EnumDeclaration) (v : Variant)
    (text : String) : Prop :=
  ∃ m, SourceOf settings c e v m text ∧ ∀ member ∈ e.members,
    ∃ reference, m.effectOn? member = some (.value reference) ∧ StringProperty c reference

theorem errors_eq_nil {results : List (Option Mapping × List GenerationError)}
    {diagnostics : List Diagnostic} {R : GenerationError → Diagnostic → Prop}
    (h : List.Forall₂ R (results.flatMap (·.2)) diagnostics) (hd : diagnostics = [])
    {result : Option Mapping × List GenerationError} (hresult : result ∈ results) :
    result.2 = [] := by
  rw [hd] at h
  exact List.flatMap_eq_nil_iff.1 (List.forall₂_nil_right_iff.1 h) result hresult

/-- Without errors each attribute of an enum with members has got a text that covers the enum. -/
theorem forall₂_covers {all attributes : List (Variant × Attribute)}
    {results : List (Option Mapping × List GenerationError)} {texts : List String}
    (hall : localisationAttributes e = .ok all) (hsub : ∀ entry ∈ attributes, entry ∈ all)
    (hresults : AllResolve settings c e attributes results) (hmembers : e.members ≠ [])
    (herrors : ∀ result ∈ results, result.2 = [])
    (htexts : List.Forall₂ (fun m text => m.sourceText = .ok text)
      (results.filterMap (·.1)) texts) :
    List.Forall₂ (fun v text => Covers settings c e v text) (attributes.map Prod.fst) texts := by
  induction hresults generalizing texts with
  | nil =>
      cases htexts
      exact .nil
  | @cons entry result restAttributes restResults hentry _ ih =>
      obtain ⟨v, a⟩ := entry
      obtain ⟨mapping, errors⟩ := result
      have hnone : errors = [] := herrors _ List.mem_cons_self
      cases mapping with
      | none => exact absurd hnone (errors_of_no_mapping hentry hmembers)
      | some m =>
          cases htexts with
          | @cons _ text _ _ htext hrest =>
          obtain ⟨hvariant, hview, _, heffect⟩ := attributeResult_effect hentry
          refine .cons ⟨m, ⟨?_, hvariant, hview, htext⟩, ?_⟩ ?_
          · exact ⟨all, a, errors, hall, hsub _ List.mem_cons_self, hentry⟩
          · intro member hmember
            exact (heffect member hmember).resolve_right fun h => h.2 hnone
          · exact ih (fun entry h => hsub entry (List.mem_cons_of_mem _ h))
              (fun result h => herrors result (List.mem_cons_of_mem _ h)) hrest

/-- The variants for which an enum is to get a text: all it asks for, provided it has members. -/
def requestedVariants (e : EnumDeclaration) : List Variant :=
  if e.members.isEmpty then [] else recognisedVariants e

/-- An enum without members gets no text. -/
theorem texts_eq_nil {attributes : List (Variant × Attribute)}
    {results : List (Option Mapping × List GenerationError)}
    (hresults : AllResolve settings c e attributes results) (hmembers : e.members = []) :
    results.filterMap (·.1) = [] := by
  refine List.filterMap_eq_nil_iff.2 ?_
  rintro ⟨mapping, errors⟩ hresult
  cases mapping with
  | none => rfl
  | some m =>
      obtain ⟨⟨v, a⟩, _, hentry⟩ := exists_left_of_mem hresults hresult
      exact absurd hmembers (attributeResult_effect hentry).2.2.1

/-- **An enum without diagnostics** has got one text for each variant it asks for, and each of them
covers it. -/
theorem IsBlock.covers {block : EnumBlock} (h : IsBlock settings c e block)
    (hd : block.diagnostics = []) :
    List.Forall₂ (fun v text => Covers settings c e v text) (requestedVariants e) block.texts := by
  cases h with
  | failed => cases hd
  | @resolved attributes results diagnostics texts hall hresults hdiagnostics htexts =>
      cases hmembers : e.members with
      | nil =>
          rw [texts_eq_nil hresults hmembers] at htexts
          cases htexts
          simp [requestedVariants, hmembers]
      | cons member rest =>
          -- no diagnostics, no errors: each attribute has got a mapping, and so a text
          have hne : e.members ≠ [] := by simp [hmembers]
          have hcovers := forall₂_covers hall (fun _ h => h) hresults hne
            (fun _ => errors_eq_nil hdiagnostics hd) htexts
          rw [variants_of_localisationAttributes hall] at hcovers
          simpa [requestedVariants, hmembers] using hcovers

/-- Each text of an enum is the source of a variant, and where a member throws in it the enum has
left a diagnostic. -/
theorem IsBlock.refusal {block : EnumBlock} (h : IsBlock settings c e block) {text : String}
    (htext : text ∈ block.texts) :
    ∃ v m, SourceOf settings c e v m text ∧
      ((∃ member ∈ e.members, m.effectOn? member = some .refusal) → block.diagnostics ≠ []) := by
  cases h with
  | failed => cases htext
  | @resolved attributes results diagnostics texts hall hresults hdiagnostics htexts =>
      obtain ⟨m, hm, hwritten⟩ := exists_left_of_mem htexts htext
      obtain ⟨⟨_, errors⟩, hresult, rfl⟩ := List.mem_filterMap.1 hm
      obtain ⟨⟨v, a⟩, hentry, hv⟩ := exists_left_of_mem hresults hresult
      obtain ⟨hvariant, hview, _, heffect⟩ := attributeResult_effect hv
      refine ⟨v, m, ⟨⟨attributes, a, errors, hall, hentry, hv⟩, hvariant, hview, hwritten⟩, ?_⟩
      rintro ⟨member, hmember, hrefusal⟩ hd
      rcases heffect member hmember with ⟨reference, hvalue, _⟩ | ⟨_, herrors⟩
      · rw [hvalue] at hrefusal
        cases hrefusal
      · exact herrors (errors_eq_nil hdiagnostics hd hresult)

/-! ### The sources of a pass -/

/-- The sources that the enums of a compilation ask for, in order. -/
def requestedSources (c : Compilation) : List (EnumDeclaration × Variant) :=
  c.enums.flatMap fun e => (requestedVariants e).map (e, ·)

theorem requestedVariants_eq_nil (h : e.attributes.isEmpty = true) : requestedVariants e = [] := by
  simp [requestedVariants, recognisedVariants, List.isEmpty_iff.1 h, Variant.all]

/-- Enums without attributes ask for nothing. -/
theorem requestedSources_eq (c : Compilation) :
    requestedSources c = (candidateEnums c).flatMap fun e => (requestedVariants e).map (e, ·) := by
  rw [requestedSources, candidateEnums]
  induction c.enums with
  | nil => rfl
  | cons e rest ih =>
      rw [List.flatMap_cons, ih]
      cases he : e.attributes.isEmpty <;> simp [he, requestedVariants_eq_nil]

theorem forall₂_flatMap {es : List EnumDeclaration} {f : EnumDeclaration → List Variant}
    {g : EnumDeclaration → List String} {R : EnumDeclaration → Variant → String → Prop}
    (h : ∀ e ∈ es, List.Forall₂ (R e) (f e) (g e)) :
    List.Forall₂ (fun q text => R q.1 q.2 text) (es.flatMap fun e => (f e).map (e, ·))
      (es.flatMap g) := by
  induction es with
  | nil => exact .nil
  | cons e rest ih =>
      rw [List.flatMap_cons, List.flatMap_cons]
      refine List.rel_append ?_ (ih fun e he => h e (List.mem_cons_of_mem _ he))
      exact List.forall₂_map_left_iff.2 (h e List.mem_cons_self)

/-- **A clean pass covers every member.**  Without diagnostics the enums have got exactly one source
for each variant that they ask for, and in it every member yields a static string property of a
declared type.  And with or without: where a member throws in a source of an enum, or a variant that
an enum with members asks for has got no source, the enum has left a diagnostic. -/
theorem runPass_covers (settings : Settings) (c : Compilation) : ∃ extensions,
    (runPass settings c).sources = leadingSources settings c ++ extensions ∧
    extensions.map (·.text) =
      (candidateEnums c).flatMap (fun e => (processEnum settings c e).sources.map (·.text)) ∧
    ((runPass settings c).diagnostics.items = [] →
      List.Forall₂ (fun q s => Covers settings c q.1 q.2 s.text) (requestedSources c) extensions) ∧
    ∀ e ∈ candidateEnums c,
      (processEnum settings c e).diagnostics ⊆ (runPass settings c).diagnostics.items ∧
      (∀ s ∈ (processEnum settings c e).sources, ∃ v m, SourceOf settings c e v m s.text ∧
        ((∃ member ∈ e.members, m.effectOn? member = some .refusal) →
          (processEnum settings c e).diagnostics ≠ [])) ∧
      (e.members ≠ [] →
        ∀ v ∈ recognisedVariants e,
          (¬∃ s ∈ (processEnum settings c e).sources, ∃ m, SourceOf settings c e v m s.text) →
            (processEnum settings c e).diagnostics ≠ []) := by
  obtain ⟨extensions, hsources, htexts⟩ := runPass_texts settings c
  have hblock := isBlock_processEnum settings c
  refine ⟨extensions, hsources, htexts, ?_, ?_⟩
  · intro hclean
    rw [runPass_diagnostics, List.flatMap_eq_nil_iff] at hclean
    have hcovers := forall₂_flatMap fun e he => (hblock e).covers (hclean e he)
    simp only [EnumOutcome.block] at hcovers
    rw [← requestedSources_eq, ← htexts] at hcovers
    exact List.forall₂_map_right_iff.1 hcovers
  · intro e he
    refine ⟨?_, ?_, ?_⟩
    · rw [runPass_diagnostics]
      exact fun d hd => List.mem_flatMap.2 ⟨e, he, hd⟩
    · intro s hs
      exact (hblock e).refusal (List.mem_map_of_mem hs)
    · intro hmembers v hv hno hd
      -- without a diagnostic each variant that is asked for would have got its text
      have hrequested : v ∈ requestedVariants e := by
        rw [requestedVariants, if_neg (by simpa using hmembers)]
        exact hv
      obtain ⟨text, htext, m, hm, _⟩ := exists_right_of_mem ((hblock e).covers hd) hrequested
      obtain ⟨s, hs, rfl⟩ := List.mem_map.1 htext
      exact hno ⟨s, hs, m, hm⟩

end LocalisedEnum

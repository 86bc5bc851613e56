import LocalisedEnum.Proofs.Pass.Outcomes
import LocalisedEnum.Proofs.Pass.Parts
import Mathlib.Data.List.Flatten

/-!
**More strings only help.**

Static string properties are added to the types of a compilation, and nothing else is changed.  Then
every name leads to the type that it led to, which has the properties that it had and perhaps more;
the constants are the same.  So what has failed fails again, for the same reason; what was bound
stays bound, to the same property; and an error that is gone is one that there is a property for
now.

Main definitions:

* `AddsStrings`, `MoreProperties` — lists of properties, and compilations, to which static string
  properties are added;
* `MoreContents` — two types of which the second has the strings of the first;
* `Mapping.GrowsTo`, `Mapping.MethodKept` — a mapping with the bindings of another, and a method
  with its cases.

Main results:

* `MoreProperties.lookupRel` — **the types that names lead to**;
* `resolve_mono` — a request that may use more properties;
* `processEnum_mono` — **what an enum leaves** in either compilation;
* `runPass_mono` — **what a pass leaves**.
-/

set_option autoImplicit false
set_option relaxedAutoImplicit false

namespace LocalisedEnum

/-! ### Compilations with more properties -/

/-- **Properties to which static string properties are added**, anywhere among them. -/
inductive AddsStrings : List PropertyDeclaration → List PropertyDeclaration → Prop
  | nil : AddsStrings [] []
  | keep {p : PropertyDeclaration} {ps ps' : List PropertyDeclaration} (h : AddsStrings ps ps') :
      AddsStrings (p :: ps) (p :: ps')
  | add {p : PropertyDeclaration} {ps ps' : List PropertyDeclaration} (hp : p.isStaticString = true)
      (h : AddsStrings ps ps') : AddsStrings ps (p :: ps')

/-- A type to which static string properties are added. -/
structure TypeDeclaration.MoreProperties (t t' : TypeDeclaration) : Prop where
  properties : AddsStrings t.properties t'.properties
  rest : t' = { t with properties := t'.properties }

/-- A file to whose types static string properties are added. -/
structure SourceFile.MoreProperties (f f' : SourceFile) : Prop where
  types : List.Forall₂ TypeDeclaration.MoreProperties f.types f'.types
  rest : f' = { f with types := f'.types }

/-- **A compilation to whose types static string properties are added**. -/
def MoreProperties (c c' : Compilation) : Prop :=
  List.Forall₂ SourceFile.MoreProperties c.files c'.files

theorem AddsStrings.sublist {ps ps' : List PropertyDeclaration} (h : AddsStrings ps ps') :
    ps.Sublist ps' := by
  induction h with
  | nil => exact .slnil
  | keep _ ih => exact ih.cons_cons _
  | add _ _ ih => exact ih.cons _

/-- The second type has the strings of the first, and the same constants. -/
structure MoreContents (t t' : TypeDeclaration) : Prop where
  qualifiedName : t.qualifiedName = t'.qualifiedName
  properties : ∀ p ∈ t.staticStringNames, p ∈ t'.staticStringNames
  constants : ∀ name, valueOf? name t.constants = valueOf? name t'.constants

namespace TypeDeclaration.MoreProperties

variable {t t' : TypeDeclaration} (h : t.MoreProperties t')
include h

theorem qualifiedName_eq : t'.qualifiedName = t.qualifiedName := by
  rw [h.rest]
  rfl

theorem constants_eq : t'.constants = t.constants := by
  rw [h.rest]

end TypeDeclaration.MoreProperties

/-- The parts of a name are the same, but for the properties that are added. -/
theorem forall₂_partsOf {ts ts' : List TypeDeclaration}
    (h : List.Forall₂ TypeDeclaration.MoreProperties ts ts') (name : String) :
    List.Forall₂ TypeDeclaration.MoreProperties (partsOf ts name) (partsOf ts' name) := by
  induction h with
  | nil => exact .nil
  | @cons t t' _ _ ht _ ih =>
      rw [partsOf, partsOf, List.filter_cons, List.filter_cons, ht.qualifiedName_eq]
      split
      · exact .cons ht ih
      · exact ih

/-- What parts make together has the strings of what they made before. -/
theorem moreContents_foldl_merge {t t' : TypeDeclaration} {parts parts' : List TypeDeclaration}
    (h : List.Forall₂ TypeDeclaration.MoreProperties (t :: parts) (t' :: parts')) :
    MoreContents (parts.foldl TypeDeclaration.merge t) (parts'.foldl TypeDeclaration.merge t') where
  qualifiedName := by
    rw [qualifiedName_foldl_merge, qualifiedName_foldl_merge,
      (List.forall₂_cons.1 h).1.qualifiedName_eq]
  properties := by
    intro name hname
    obtain ⟨p, hp, rfl⟩ := List.mem_map.1 hname
    obtain ⟨hp, hstring⟩ := List.mem_filter.1 hp
    rw [properties_foldl_merge] at hp
    obtain ⟨part, hpart, hp⟩ := List.mem_flatMap.1 hp
    obtain ⟨part', hpart', hmore⟩ := exists_right_of_mem h hpart
    refine List.mem_map_of_mem (List.mem_filter.2 ⟨?_, hstring⟩)
    rw [properties_foldl_merge]
    exact List.mem_flatMap.2 ⟨part', hpart', hmore.properties.sublist.mem hp⟩
  constants := by
    intro name
    have hsame : (t :: parts).map (·.constants) = (t' :: parts').map (·.constants) := by
      refine List.forall₂_eq_eq_eq ▸ List.forall₂_map_left_iff.2 (List.forall₂_map_right_iff.2 ?_)
      exact h.imp fun _ _ hmore => hmore.constants_eq.symm
    have hfind := congrArg (List.findSome? (valueOf? name)) hsame
    rw [List.findSome?_map, List.findSome?_map] at hfind
    rw [valueOf?_foldl_merge, valueOf?_foldl_merge]
    exact hfind

theorem flatMap_eq_of_forall₂ {α β γ : Type} {R : α → β → Prop} {xs : List α} {ys : List β}
    {f : α → List γ} {g : β → List γ} (h : List.Forall₂ R xs ys) (hfg : ∀ x y, R x y → f x = g y) :
    xs.flatMap f = ys.flatMap g := by
  induction h with
  | nil => rfl
  | cons hxy _ ih => rw [List.flatMap_cons, List.flatMap_cons, hfg _ _ hxy, ih]

namespace MoreProperties

variable {c c' : Compilation} (h : MoreProperties c c')
include h

theorem candidateEnums_eq : candidateEnums c = candidateEnums c' := by
  have henums : c.enums = c'.enums := flatMap_eq_of_forall₂ h fun _ _ hfile => by rw [hfile.rest]
  rw [candidateEnums, candidateEnums, henums]

/-- **A name leads to the type that it led to**, which has the strings that it had and the same
constants. -/
theorem lookupRel : LookupRel MoreContents c c' where
  types name := by
    have htypes : List.Forall₂ TypeDeclaration.MoreProperties c.types c'.types :=
      List.rel_flatMap h fun _ _ hfile => hfile.types
    have hparts := forall₂_partsOf htypes name
    rw [get?_typeIndex, get?_typeIndex]
    generalize partsOf c.types name = parts, partsOf c'.types name = parts' at hparts
    cases hparts with
    | nil => exact .none
    | cons ht hrest => exact .some (moreContents_foldl_merge (.cons ht hrest))
  globalUsings := by
    have husings : c.files.flatMap (·.globalUsings) = c'.files.flatMap (·.globalUsings) :=
      flatMap_eq_of_forall₂ h fun _ _ hfile => by rw [hfile.rest]
    rw [Compilation.globalUsings, Compilation.globalUsings, husings]

end MoreProperties

/-! ### Outcomes that fail alike -/

/-- Two outcomes are failures for the same reason, or two successes in a relation. -/
inductive FailAlike {α β : Type} (R : α → β → Prop) : Except Failure α → Except Failure β → Prop
  | failed (f : Failure) : FailAlike R (.error f) (.error f)
  | ok {a : α} {b : β} (h : R a b) : FailAlike R (.ok a) (.ok b)

namespace FailAlike

variable {α β γ δ : Type} {R : α → β → Prop} {S : γ → δ → Prop}

theorem refl (x : Except Failure α) : FailAlike Eq x x := by
  cases x with
  | error f => exact .failed f
  | ok a => exact .ok rfl

theorem bind {x : Except Failure α} {y : Except Failure β} {f : α → Except Failure γ}
    {g : β → Except Failure δ} (h : FailAlike R x y)
    (hfg : ∀ a b, R a b → FailAlike S (f a) (g b)) : FailAlike S (x >>= f) (y >>= g) := by
  cases h with
  | failed failure => exact .failed failure
  | ok hab => exact hfg _ _ hab

/-- A step that is the same in both. -/
theorem bind_same (x : Except Failure α) {f : α → Except Failure γ} {g : α → Except Failure δ}
    (hfg : ∀ a, FailAlike S (f a) (g a)) : FailAlike S (x >>= f) (x >>= g) :=
  (refl x).bind fun a _ hab => hab ▸ hfg a

theorem mapM {ι : Type} {f : ι → Except Failure α} {g : ι → Except Failure β} (xs : List ι)
    (hfg : ∀ x, FailAlike R (f x) (g x)) : FailAlike (List.Forall₂ R) (xs.mapM f) (xs.mapM g) := by
  induction xs with
  | nil => exact .ok .nil
  | cons x xs ih =>
      rw [List.mapM_cons, List.mapM_cons]
      exact (hfg x).bind fun a b hab => ih.bind fun as bs hrest => .ok (.cons hab hrest)

end FailAlike

/-! ### References -/

/-- The second type has the properties of the first. -/
structure ResourceMembers.Within (r r' : ResourceMembers) : Prop where
  qualifiedName : r.qualifiedName = r'.qualifiedName
  properties : ∀ p ∈ r.properties, p ∈ r'.properties

theorem resourceMembers_within {c c' : Compilation} (h : LookupRel MoreContents c c')
    (context : LookupContext) (typeName : String) :
    (resourceMembers c context typeName).Within (resourceMembers c' context typeName) := by
  have htype := h.findType typeName context
  rw [resourceMembers, resourceMembers]
  generalize c.findType typeName context = found, c'.findType typeName context = found' at htype
  cases htype with
  | none => exact ⟨rfl, fun _ hp => hp⟩
  | some hmore => exact ⟨hmore.qualifiedName, hmore.properties⟩

section References

variable {r r' : ResourceMembers} (h : r.Within r')
include h

/-- **A name that is there leads to the property that it led to.** -/
theorem reference?_mono {name : CodeText} {reference : String}
    (href : r.reference? name = some reference) : r'.reference? name = some reference := by
  obtain ⟨property, hproperty, rfl⟩ := Option.map_eq_some_iff.1 href
  rw [ResourceMembers.property?] at hproperty
  split at hproperty
  · cases hproperty
  · next hblank =>
    have hname := List.find?_some hproperty
    have hmem := h.properties property (List.mem_of_find?_eq_some hproperty)
    have hsome : (r'.properties.find? fun p => CodeText.ofString p == name).isSome = true :=
      List.find?_isSome.2 ⟨property, hmem, hname⟩
    obtain ⟨found, hfound⟩ := Option.isSome_iff_exists.1 hsome
    have hfoundName := List.find?_some hfound
    have hsame : found = property :=
      CodeText.ofString_injective ((beq_iff_eq.1 hfoundName).trans (beq_iff_eq.1 hname).symm)
    rw [ResourceMembers.reference?, ResourceMembers.property?, if_neg hblank, hfound,
      Option.map_some, hsame, ResourceMembers.reference, ResourceMembers.reference, h.qualifiedName]

theorem bound?_mono {property : Option CodeText} {reference : String}
    (hbound : (bindDefault r property).bound? = some reference) :
    (bindDefault r' property).bound? = some reference := by
  rw [DefaultBinding.bound?, Option.filter_eq_some_iff] at hbound ⊢
  obtain ⟨name, hname, href⟩ := Option.bind_eq_some_iff.1 hbound.1
  exact ⟨Option.bind_eq_some_iff.2 ⟨name, hname, reference?_mono h href⟩, hbound.2⟩

/-- A value with its reference, beside the same value with the same reference, or with one that it
had not. -/
def EntryKept (entry entry' : String × Option String) : Prop :=
  entry'.1 = entry.1 ∧ ∀ reference, entry.2 = some reference → entry'.2 = some reference

theorem bindMembers_mono (template : CodeText) (e : EnumView) :
    FailAlike (List.Forall₂ EntryKept) (bindMembers r template e) (bindMembers r' template e) :=
  .mapM e.members fun member => .bind_same (formatName template e.name member) fun _ =>
    .ok ⟨rfl, fun _ href => reference?_mono h href⟩

end References

section Entries

variable {references references' : List (String × Option String)}
  (h : List.Forall₂ EntryKept references references')
include h

theorem boundMembers_mono : (boundMembers references).Sublist (boundMembers references') := by
  induction h with
  | nil => exact .slnil
  | @cons entry entry' _ _ hentry _ ih =>
      obtain ⟨member, reference⟩ := entry
      obtain ⟨member', reference'⟩ := entry'
      obtain ⟨rfl, hkept⟩ : member' = member ∧ _ := hentry
      cases reference with
      | none =>
          cases reference' with
          | none => exact ih
          | some reference' => exact ih.cons _
      | some reference =>
          obtain rfl : reference' = some reference := hkept reference rfl
          exact ih.cons_cons _

theorem any_isNone_mono (hany : references'.any (·.2.isNone) = true) :
    references.any (·.2.isNone) = true := by
  obtain ⟨entry', hmem', hnone⟩ := List.any_eq_true.1 hany
  obtain ⟨entry, hmem, -, hkept⟩ := exists_left_of_mem h hmem'
  refine List.any_eq_true.2 ⟨entry, hmem, ?_⟩
  cases href : entry.2 with
  | none => rfl
  | some reference =>
      rw [hkept reference href] at hnone
      cases hnone

end Entries

/-! ### Mappings -/

/-- **A mapping with the bindings of another**, and perhaps more. -/
structure Mapping.GrowsTo (m m' : Mapping) : Prop where
  view : m'.view = m.view
  variant : m'.variant = m.variant
  bindings : m.bindings.Sublist m'.bindings
  default : ∀ reference, m.defaultBinding.bound? = some reference →
    m'.defaultBinding.bound? = some reference

/-- **The method of the second mapping has the cases of the first**, each with its effect, and
yields the same default if the first yields one. -/
structure Mapping.MethodKept (m m' : Mapping) : Prop where
  cases : (switchCases m.variant m.methodLines).Sublist (switchCases m'.variant m'.methodLines)
  default : ∀ reference,
    (defaultBody? m.methodLines).bind (branchEffect? m.variant) = some (.value reference) →
      (defaultBody? m'.methodLines).bind (branchEffect? m'.variant) = some (.value reference)

theorem Mapping.GrowsTo.methodKept {m m' : Mapping} (h : m.GrowsTo m') : m.MethodKept m' where
  cases := by
    have hlabel : m'.labelOf = m.labelOf := by
      funext member
      rw [Mapping.labelOf, Mapping.labelOf, h.view]
    rw [switchCases_methodLines, switchCases_methodLines, hlabel]
    exact h.bindings.map _
  default := by
    intro reference href
    rw [defaultBody?_effect] at href ⊢
    split at href
    · next found hbound =>
      rw [h.default found hbound]
      exact href
    · cases href

/-- What a request leads to, beside what it leads to with more properties: the errors are some of
those that there were, and a mapping has grown. -/
def ResultKept (result result' : Option Mapping × List GenerationError) : Prop :=
  result'.2.Sublist result.2 ∧ ∀ m ∈ result.1, ∃ m' ∈ result'.1, m.GrowsTo m'

section Requests

variable {r r' : ResourceMembers} (h : r.Within r')
include h

/-- **An error that is there with more properties** was there before. -/
theorem mappingErrors_mono {references references' : List (String × Option String)}
    (hreferences : List.Forall₂ EntryKept references references') (enumName : String)
    (methodName : CodeText) (property : Option CodeText) :
    (mappingErrors enumName methodName (bindDefault r' property) references').Sublist
      (mappingErrors enumName methodName (bindDefault r property) references) := by
  rw [mappingErrors, mappingErrors]
  cases hbound : (bindDefault r property).bound? with
  | some reference =>
      rw [bound?_mono h hbound]
      simp
  | none =>
      refine List.Sublist.append ?_ ?_
      · cases property with
        | none => exact .slnil
        | some name =>
            cases (bindDefault r' (some name)).bound? with
            | none => exact .refl _
            | some reference => exact List.nil_sublist _
      · split
        · next hmissing =>
          rw [Bool.and_eq_true] at hmissing
          rw [any_isNone_mono hreferences hmissing.1]
          exact .refl _
        · exact List.nil_sublist _

/-- **A request that may use more properties** fails alike, or leads to some of the errors and to
more bindings. -/
theorem resolve_mono (view : EnumView) (request : Request) (nameFormat methodName : String) :
    FailAlike ResultKept (Mapping.resolve view request r nameFormat methodName)
      (Mapping.resolve view request r' nameFormat methodName) := by
  rw [Mapping.resolve, Mapping.resolve]
  refine .bind_same _ fun template => .bind_same _ fun method => ?_
  refine (bindMembers_mono h template view).bind fun references references' hreferences => ?_
  refine .bind_same _ fun property => ?_
  have herrors := mappingErrors_mono h hreferences view.name method property
  simp only
  split
  · split
    · exact .ok ⟨herrors, fun _ hm => (Option.not_mem_none _ hm).elim⟩
    · exact .ok ⟨herrors, fun _ hm => (Option.not_mem_none _ hm).elim⟩
  · next hfull =>
    split
    · next hempty =>
      -- what binds nothing with more properties binds nothing with fewer
      refine absurd ?_ hfull
      rw [Bool.or_eq_true, Bool.and_eq_true, List.isEmpty_iff] at hempty ⊢
      refine hempty.imp_right fun hnothing => ?_
      obtain ⟨hbindings, hbound⟩ := hnothing
      refine ⟨?_, ?_⟩
      · rw [List.isEmpty_iff] at hbindings ⊢
        exact List.sublist_nil.1 (hbindings ▸ boundMembers_mono hreferences)
      · cases hsome : (bindDefault r property).bound? with
        | none => rfl
        | some reference =>
            rw [bound?_mono h hsome] at hbound
            cases hbound
    · refine .ok ⟨herrors, ?_⟩
      rintro _ ⟨⟩
      exact ⟨_, rfl, rfl, rfl, boundMembers_mono hreferences, fun _ hbound => bound?_mono h hbound⟩

end Requests

/-! ### Lists of which one has grown -/

section Lists

variable {α β γ δ : Type} {R : α → β → Prop}

theorem sublistForall₂_append {as cs : List α} {bs ds : List β} (h : List.SublistForall₂ R as bs)
    (h' : List.SublistForall₂ R cs ds) : List.SublistForall₂ R (as ++ cs) (bs ++ ds) := by
  obtain ⟨kept, hkept, hsub⟩ := List.sublistForall₂_iff.1 h
  obtain ⟨kept', hkept', hsub'⟩ := List.sublistForall₂_iff.1 h'
  exact List.sublistForall₂_iff.2 ⟨kept ++ kept', List.rel_append hkept hkept', hsub.append hsub'⟩

theorem sublistForall₂_flatMap {ι : Type} (xs : List ι) {f : ι → List α} {g : ι → List β}
    (h : ∀ x, List.SublistForall₂ R (f x) (g x)) :
    List.SublistForall₂ R (xs.flatMap f) (xs.flatMap g) := by
  induction xs with
  | nil => exact .nil
  | cons x xs ih => exact sublistForall₂_append (h x) ih

/-- Lists beside two of which one has grown. -/
theorem sublistForall₂_beside {P : α → γ → Prop} {Q : β → δ → Prop} {as : List α} {bs : List β}
    {cs : List γ} {ds : List δ} (h : List.SublistForall₂ R as bs) (hleft : List.Forall₂ P as cs)
    (hright : List.Forall₂ Q bs ds) :
    List.SublistForall₂ (fun c d => ∃ a b, P a c ∧ Q b d ∧ R a b) cs ds := by
  induction h generalizing cs ds with
  | nil =>
      cases hleft
      exact .nil
  | cons hab _ ih =>
      cases hleft with
      | cons hac hleft =>
        cases hright with
        | cons hbd hright => exact .cons ⟨_, _, hac, hbd, hab⟩ (ih hleft hright)
  | cons_right _ ih =>
      cases hright with
      | cons _ hright => exact .cons_right (ih hleft hright)

end Lists

/-! ### Enums -/

section Enum

variable {settings : Settings} {c c' : Compilation} (h : LookupRel MoreContents c c')
include h

theorem attributeResult_mono (e : EnumDeclaration) (entry : Variant × Attribute) :
    FailAlike ResultKept (attributeResult settings c e entry)
      (attributeResult settings c' e entry) := by
  have hbind : bindConstants c e.context entry.2 = bindConstants c' e.context entry.2 :=
    bindConstants_congr fun _ reference _ =>
      h.constantValue (fun _ _ hmore => hmore.constants) e.context reference
  rw [attributeResult, attributeResult, processAttribute, processAttribute, hbind]
  cases Request.ofAttribute settings.keyOrder entry.1 (bindConstants c' e.context entry.2) with
  | error f => exact .failed f
  | ok request =>
      exact resolve_mono (resourceMembers_within h e.context request.resource) e.view request _ _

/-- What several attributes lead to, beside what they lead to with more properties. -/
def ResultsKept (results results' : List Mapping × List GenerationError) : Prop :=
  results'.2.Sublist results.2 ∧ List.SublistForall₂ Mapping.GrowsTo results.1 results'.1

theorem processAttributes_mono (e : EnumDeclaration) (attributes : List (Variant × Attribute)) :
    FailAlike ResultsKept (processAttributes settings c e attributes).2
      (processAttributes settings c' e attributes).2 := by
  induction attributes with
  | nil => exact .ok ⟨.slnil, .nil⟩
  | cons entry rest ih =>
      have hfirst := @attributeResult_mono settings _ _ h e entry
      rw [attributeResult, attributeResult] at hfirst
      obtain ⟨v, a⟩ := entry
      rw [processAttributes, processAttributes]
      cases hone : processAttribute settings c e v a with
      | mk log one =>
      cases hone' : processAttribute settings c' e v a with
      | mk log' one' =>
      rw [hone, hone'] at hfirst
      cases hfirst with
      | failed f => exact .failed f
      | @ok result result' hresult =>
          obtain ⟨mapping, errors⟩ := result
          obtain ⟨mapping', errors'⟩ := result'
          obtain ⟨herrors, hmapping⟩ : errors'.Sublist errors ∧ _ := hresult
          have hfront : List.SublistForall₂ Mapping.GrowsTo mapping.toList mapping'.toList := by
            cases mapping with
            | none => exact .nil
            | some m =>
                obtain ⟨m', hm', hgrows⟩ := hmapping m rfl
                obtain rfl : mapping' = some m' := hm'
                exact .cons hgrows .nil
          simp only
          generalize (processAttributes settings c e rest).2 = others,
            (processAttributes settings c' e rest).2 = others' at ih
          cases ih with
          | failed f => exact .failed f
          | ok hrest => exact .ok ⟨herrors.append hrest.1, sublistForall₂_append hfront hrest.2⟩

theorem enumResult_mono (e : EnumDeclaration) :
    FailAlike ResultsKept (enumResult settings c e) (enumResult settings c' e) :=
  .bind_same _ fun attributes => processAttributes_mono h e attributes

/-- A source of an enum beside one for the same enum and variant, in which the method is kept. -/
def SourceKept (settings : Settings) (c c' : Compilation) (s s' : EnumSource) : Prop :=
  s'.enum = s.enum ∧ s'.variant = s.variant ∧
    ∃ m ∈ handedMappings settings c s.enum, ∃ m' ∈ handedMappings settings c' s.enum,
      m.sourceText = .ok s.text ∧ m'.sourceText = .ok s'.text ∧ m.MethodKept m'

/-- **What an enum leaves in either compilation**: some of the diagnostics, and sources for the
variants that it had sources for, with the methods kept. -/
theorem processEnum_mono (e : EnumDeclaration) :
    (processEnum settings c' e).diagnostics.Sublist (processEnum settings c e).diagnostics ∧
    List.SublistForall₂ (SourceKept settings c c') (enumSources settings c e)
      (enumSources settings c' e) := by
  have hresult := @enumResult_mono settings _ _ h e
  constructor
  · rw [diagnostics_processEnum, diagnostics_processEnum]
    generalize enumResult settings c e = result, enumResult settings c' e = result' at hresult
    cases hresult with
    | failed f => exact .refl _
    | ok hkept => exact hkept.1.filterMap _
  · have hgrow : List.SublistForall₂ Mapping.GrowsTo (handedMappings settings c e)
        (handedMappings settings c' e) := by
      generalize hone : enumResult settings c e = result, htwo : enumResult settings c' e =
        result' at hresult
      cases hresult with
      | failed f => rw [handedMappings_of_error hone, handedMappings_of_error htwo]; exact .nil
      | ok hkept => rw [handedMappings_of_ok hone, handedMappings_of_ok htwo]; exact hkept.2
    have hleft :=
      forall₂_imp_of_mem (@forall₂_enumSources settings c e) fun m hm s hs => And.intro hm hs
    have hright :=
      forall₂_imp_of_mem (@forall₂_enumSources settings c' e) fun m hm s hs => And.intro hm hs
    refine (List.sublistForall₂_iff.2 ?_)
    obtain ⟨kept, hkept, hsub⟩ :=
      List.sublistForall₂_iff.1 (sublistForall₂_beside hgrow hleft hright)
    refine ⟨kept, hkept.imp ?_, hsub⟩
    rintro s s' ⟨m, m', ⟨hm, henum, hvariant, htext⟩, ⟨hm', henum', hvariant', htext'⟩, hgrows⟩
    refine ⟨henum'.trans henum.symm, ?_, m, ?_, m', ?_, htext, htext', hgrows.methodKept⟩
    · rw [hvariant', hvariant, hgrows.variant]
    · rw [henum]
      exact hm
    · rw [henum]
      exact hm'

end Enum

/-! ### Passes -/

/-- **More strings only help.**  With static string properties added to the types of a compilation,
a pass leaves some of the diagnostics that it left, in order.  Each source of an enum has its
counterpart, in order and for the same variant; in its method every case of the other stands, with
the reference that it yields, and a default that yields a reference yields it still. -/
theorem runPass_mono (settings : Settings) {c c' : Compilation} (h : MoreProperties c c') :
    candidateEnums c = candidateEnums c' ∧
      (runPass settings c').diagnostics.items.Sublist (runPass settings c).diagnostics.items ∧
      ∃ named named', PassProduces settings c named ∧ PassProduces settings c' named' ∧
        List.SublistForall₂ (fun s s' => SourceKept settings c c' s.1 s'.1) named named' := by
  have hlookup := h.lookupRel
  obtain ⟨named, hproduces, -⟩ := exists_passProduces settings c
  obtain ⟨named', hproduces', -⟩ := exists_passProduces settings c'
  refine ⟨h.candidateEnums_eq, ?_, named, named', hproduces, hproduces', ?_⟩
  · rw [runPass_diagnostics, runPass_diagnostics, h.candidateEnums_eq]
    exact List.Sublist.flatMap_right _ fun e _ => (processEnum_mono hlookup e).1
  · have hkept := sublistForall₂_flatMap (candidateEnums c) fun e =>
      (@processEnum_mono settings _ _ hlookup e).2
    rw [← hproduces.enums, h.candidateEnums_eq, ← hproduces'.enums,
      List.sublistForall₂_map_left_iff, List.sublistForall₂_map_right_iff] at hkept
    exact hkept

/-- The event file with another value in its enum, for which its type has no string. -/
def silentFile : SourceFile :=
  { eventFile with enums := [{ eventEnum with members := ["A", "B"] }] }

/-- This file with a string for the value in the type. -/
def voicedFile : SourceFile :=
  { silentFile with
    types := silentFile.types.map fun t =>
      { t with properties := t.properties ++ [⟨"EBDescription", "string", true⟩] } }

/-- A string for a value that had none takes away the diagnostic about it. -/
theorem runPass_mono_voiced :
    MoreProperties ⟨[silentFile]⟩ ⟨[voicedFile]⟩ ∧
      (runPass quietSettings ⟨[silentFile]⟩).diagnostics.items.map (·.id) = ["ESG0001"] ∧
      (runPass quietSettings ⟨[voicedFile]⟩).diagnostics.items = [] ∧
      (runPass quietSettings ⟨[voicedFile]⟩).diagnostics.items.Sublist
        (runPass quietSettings ⟨[silentFile]⟩).diagnostics.items := by
  have hmore : MoreProperties ⟨[silentFile]⟩ ⟨[voicedFile]⟩ :=
    .cons ⟨.cons ⟨.keep (.add rfl .nil), rfl⟩ .nil, rfl⟩ .nil
  exact ⟨hmore, by decide +kernel, by decide +kernel, (runPass_mono quietSettings hmore).2.1⟩

end LocalisedEnum

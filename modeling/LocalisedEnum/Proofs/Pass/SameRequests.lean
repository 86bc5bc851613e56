import LocalisedEnum.Proofs.Declaration.Unplaced
import LocalisedEnum.Proofs.Pass.Blocks
import Mathlib.Data.List.Induction

/-!
**Enums that ask for the same.**

Of its attributes an enum uses those that ask for a variant, and of these the requests that they
make.  Its place goes into the places of its diagnostics and nowhere else.  So an enum whose
attributes make the same requests leaves the same sources, wherever it stands, and the same
diagnostics at its own place.

Main definitions:

* `SameRequest`, `SameRequests` — attributes that make the same requests, and enums that have such
  attributes;
* `Diagnostic.movedTo`, `Diagnostic.unplaced` — a diagnostic at another place, and at none.

Main results:

* `processEnum_sameRequests` — **what an enum leaves** that asks for the same;
* `runPass_sources_sameRequests`, `runPass_diagnostics_sameRequests` — **what a pass leaves** whose
  enums do;
* `sameMeaning_of_unplaced` — names mean the same where types differ in their places only.
-/

set_option autoImplicit false
set_option relaxedAutoImplicit false

namespace LocalisedEnum

/-! ### Attributes that make the same requests -/

/-- Two attributes that ask for the same variant, and make the same request if they do. -/
structure SameRequest (c : Compilation) (context : LookupContext) (a a' : Attribute) : Prop where
  variant : Variant.ofAttributeName? a'.shortName = Variant.ofAttributeName? a.shortName
  request : ∀ v, Variant.ofAttributeName? a.shortName = some v →
    ∀ order, Request.ofAttribute order v (bindConstants c context a') =
      Request.ofAttribute order v (bindConstants c context a)

/-- A request is made by the values of an attribute alone. -/
theorem ofAttribute_congr (order : KeyOrder) (v : Variant) {a a' : Attribute}
    (hpositional : a'.positional = a.positional) (hnamed : a'.named = a.named) :
    Request.ofAttribute order v a' = Request.ofAttribute order v a := by
  rw [Request.ofAttribute, Request.ofAttribute, hpositional, hnamed]

/-- An enum whose attributes make the same requests, at whatever place. -/
inductive SameRequests (c : Compilation) (e : EnumDeclaration) : EnumDeclaration → Prop
  | intro {attributes : List Attribute} {location : SourceLocation}
      (h : List.Forall₂ (SameRequest c e.context) e.attributes attributes) :
      SameRequests c e { e with attributes := attributes, location := location }

theorem SameRequests.refl (c : Compilation) (e : EnumDeclaration) : SameRequests c e e :=
  .intro (List.forall₂_same.2 fun _ _ => ⟨rfl, fun _ _ _ => rfl⟩)

/-- Attributes found for one variant that make the same request. -/
def SameEntry (c : Compilation) (context : LookupContext) (entry entry' : Variant × Attribute) :
    Prop :=
  entry'.1 = entry.1 ∧
    ∀ order, Request.ofAttribute order entry.1 (bindConstants c context entry'.2) =
      Request.ofAttribute order entry.1 (bindConstants c context entry.2)

/-- Two outcomes: the same failure, or results that are related. -/
inductive SameOutcome {α : Type} (R : α → α → Prop) : Except Failure α → Except Failure α → Prop
  | ok {a a' : α} (h : R a a') : SameOutcome R (.ok a) (.ok a')
  | error (f : Failure) : SameOutcome R (.error f) (.error f)

theorem SameOutcome.bind {α β : Type} {R : α → α → Prop} {S : β → β → Prop} {x y : Except Failure α}
    {f g : α → Except Failure β} (h : SameOutcome R x y)
    (hfg : ∀ a a', R a a' → SameOutcome S (f a) (g a')) : SameOutcome S (x >>= f) (y >>= g) := by
  cases h with
  | ok h => exact hfg _ _ h
  | error f => exact .error f

section

variable {c : Compilation} {context : LookupContext} {found found' : List (Variant × Attribute)}

theorem attributeFor?_sameEntry (h : List.Forall₂ (SameEntry c context) found found')
    (v : Variant) :
    Option.Rel (fun a a' => SameEntry c context (v, a) (v, a')) (attributeFor? v found)
      (attributeFor? v found') := by
  induction h with
  | nil => exact .none
  | @cons entry entry' rest rest' hentry _ ih =>
      obtain ⟨w, a⟩ := entry
      obtain ⟨w', a'⟩ := entry'
      obtain ⟨rfl, hrequest⟩ := hentry
      rw [attributeFor?, attributeFor?, List.find?_cons, List.find?_cons]
      cases hw : w' == v with
      | true =>
          cases beq_iff_eq.1 hw
          exact .some ⟨rfl, hrequest⟩
      | false => exact ih

theorem collectAttributes_sameRequest (enumName : String) {attributes attributes' : List Attribute}
    (h : List.Forall₂ (SameRequest c context) attributes attributes')
    (hfound : List.Forall₂ (SameEntry c context) found found') :
    SameOutcome (List.Forall₂ (SameEntry c context)) (collectAttributes enumName found attributes)
      (collectAttributes enumName found' attributes') := by
  induction h generalizing found found' with
  | nil => exact .ok hfound
  | @cons a a' rest rest' ha _ ih =>
      rw [collectAttributes, collectAttributes, List.foldlM_cons, List.foldlM_cons]
      refine SameOutcome.bind ?_ fun next next' hnext => ih hnext
      rw [ha.variant]
      cases hvariant : Variant.ofAttributeName? a.shortName with
      | none => exact .ok hfound
      | some v =>
          rw [collectAttribute, collectAttribute,
            isSome_eq_of_rel (attributeFor?_sameEntry hfound v)]
          split
          · exact .error _
          · exact .ok (List.rel_append hfound (.cons ⟨rfl, ha.request v hvariant⟩ .nil))

/-- **The attributes that ask for a variant** make the same requests. -/
theorem localisationAttributes_sameRequests {e e' : EnumDeclaration} (h : SameRequests c e e') :
    SameOutcome (List.Forall₂ (SameEntry c e.context)) (localisationAttributes e)
      (localisationAttributes e') := by
  cases h with
  | intro hattributes =>
      refine (collectAttributes_sameRequest e.name hattributes .nil).bind fun found found' hfound =>
        .ok ?_
      induction Variant.all with
      | nil => exact .nil
      | cons v vs ih =>
          rw [List.filterMap_cons, List.filterMap_cons]
          match attributeFor? v found, attributeFor? v found', attributeFor?_sameEntry hfound v with
          | _, _, .none => exact ih
          | _, _, .some hentry => exact .cons hentry ih

end

/-! ### Places -/

/-- A mapping of an enum that stands at another place. -/
def Mapping.movedTo (l : SourceLocation) (m : Mapping) : Mapping :=
  { m with view := { m.view with location := some l } }

/-- A diagnostic at another place, if it has one. -/
def Diagnostic.movedTo (l : SourceLocation) (d : Diagnostic) : Diagnostic :=
  { d with location := d.location.map fun _ => l }

/-- A diagnostic without its line and its column. -/
def Diagnostic.unplaced (d : Diagnostic) : Diagnostic :=
  { d with location := d.location.map SourceLocation.unplaced }

/-- What the attribute of an enum resolves to that stands at another place. -/
def resultMovedTo (l : SourceLocation) (result : Option Mapping × List GenerationError) :
    Option Mapping × List GenerationError :=
  (result.1.map (Mapping.movedTo l), result.2)

theorem resolve_movedTo (l : SourceLocation) (view : EnumView) (request : Request)
    (r : ResourceMembers) (nameFormat methodName : String) :
    Mapping.resolve { view with location := some l } request r nameFormat methodName =
      (Mapping.resolve view request r nameFormat methodName).map (resultMovedTo l) := by
  have hmembers : ∀ template,
      bindMembers r template { view with location := some l } = bindMembers r template view :=
    fun _ => rfl
  simp only [Mapping.resolve, hmembers]
  cases request.nameFormat nameFormat with
  | error f => rfl
  | ok template =>
      cases request.methodName methodName with
      | error f => rfl
      | ok method =>
          simp only [bind, Except.bind]
          cases bindMembers r template view with
          | error f => rfl
          | ok references =>
              cases request.defaultProperty with
              | error f => rfl
              | ok property =>
                  simp only
                  split <;> rfl

theorem diagnoseAll_movedTo (errors : List GenerationError) (l l' : SourceLocation) :
    diagnoseAll errors (some l') = (diagnoseAll errors (some l)).map (Diagnostic.movedTo l') := by
  have hone : ∀ error : GenerationError, (error.diagnose (some l')).toOption =
      (error.diagnose (some l)).toOption.map (Diagnostic.movedTo l') := by
    rintro ⟨enumName, code, details⟩
    cases code <;> rfl
  rw [diagnoseAll, diagnoseAll, List.map_filterMap]
  simp only [hone]

/-! ### One enum -/

section

variable {settings : Settings} {c : Compilation} {e : EnumDeclaration} {attributes : List Attribute}
  {location : SourceLocation}

theorem processAttribute_sameEntry {v : Variant} {a a' : Attribute}
    (h : SameEntry c e.context (v, a) (v, a')) :
    processAttribute settings c { e with attributes := attributes, location := location } v a' =
      Prod.map id (Except.map (resultMovedTo location)) (processAttribute settings c e v a) := by
  have hrequest : Request.ofAttribute settings.keyOrder v (bindConstants c e.context a') =
      Request.ofAttribute settings.keyOrder v (bindConstants c e.context a) := h.2 _
  have hcontext :
      ({ e with attributes := attributes, location := location } : EnumDeclaration).context =
        e.context :=
    rfl
  simp only [processAttribute, hcontext, hrequest]
  cases Request.ofAttribute settings.keyOrder v (bindConstants c e.context a) with
  | error f => rfl
  | ok request => exact congrArg (Prod.mk _) (resolve_movedTo location e.view request _ _ _)

theorem processAttributes_sameEntries {entries entries' : List (Variant × Attribute)}
    (h : List.Forall₂ (SameEntry c e.context) entries entries') :
    processAttributes settings c { e with attributes := attributes, location := location }
        entries' = Prod.map id (Except.map fun p => (p.1.map (Mapping.movedTo location), p.2))
      (processAttributes settings c e entries) := by
  induction h with
  | nil => rfl
  | @cons entry entry' rest rest' hentry _ ih =>
      obtain ⟨v, a⟩ := entry
      obtain ⟨v', a'⟩ := entry'
      obtain ⟨rfl, hrequest⟩ := hentry
      have hfirst : processAttribute settings c
            { e with attributes := attributes, location := location } v' a' =
          Prod.map id (Except.map (resultMovedTo location)) (processAttribute settings c e v' a) :=
        processAttribute_sameEntry ⟨rfl, hrequest⟩
      simp only [processAttributes, ih, hfirst]
      rcases processAttribute settings c e v' a with ⟨log, f | ⟨mapping, errors⟩⟩
      · rfl
      · rcases processAttributes settings c e rest with ⟨moreLog, f | ⟨mappings, moreErrors⟩⟩
        · rfl
        · cases mapping <;> rfl

end

/-- **What an enum leaves** that asks for the same: the same sources, and the same diagnostics at
its place. -/
theorem processEnum_sameRequests (settings : Settings) {c : Compilation} {e e' : EnumDeclaration}
    (h : SameRequests c e e') :
    (processEnum settings c e').sources = (processEnum settings c e).sources ∧
      (processEnum settings c e').diagnostics =
        (processEnum settings c e).diagnostics.map (Diagnostic.movedTo e'.location) := by
  have hattributes := localisationAttributes_sameRequests h
  generalize hfound : localisationAttributes e = found at hattributes
  generalize hfound' : localisationAttributes e' = found' at hattributes
  cases h with
  | @intro attributes location _ =>
      cases hattributes with
      | error f =>
          simp only [processEnum, hfound, hfound']
          exact ⟨rfl, rfl⟩
      | ok hentries =>
          simp only [processEnum, hfound, hfound', processAttributes_sameEntries hentries]
          rcases processAttributes settings c e _ with ⟨log, f | ⟨mappings, errors⟩⟩
          · exact ⟨rfl, rfl⟩
          · have hsources : (mappings.map (Mapping.movedTo location)).mapM Mapping.source =
                mappings.mapM Mapping.source := by
              rw [List.mapM_map]
              rfl
            simp only [Prod.map, Except.map, hsources]
            cases mappings.mapM Mapping.source with
            | error f => exact ⟨rfl, rfl⟩
            | ok sources => exact ⟨rfl, diagnoseAll_movedTo errors e.location location⟩

/-- The diagnostics of an enum stand at its place, if they have one. -/
theorem map_movedTo_diagnostics (settings : Settings) (c : Compilation) (e : EnumDeclaration) :
    (processEnum settings c e).diagnostics.map (Diagnostic.movedTo e.location) =
      (processEnum settings c e).diagnostics :=
  (processEnum_sameRequests settings (.refl c e)).2.symm

/-! ### A pass -/

section

variable {settings : Settings} {c c' : Compilation}

/-- The enums that carry attributes are those that did. -/
theorem candidateEnums_related {R : EnumDeclaration → EnumDeclaration → Prop}
    (hR : ∀ e e', R e e' → SameRequests c e e') (henums : List.Forall₂ R c.enums c'.enums) :
    List.Forall₂ R (candidateEnums c) (candidateEnums c') := by
  refine List.rel_filter ?_ henums
  intro e e' h
  cases hR e e' h with
  | intro hattributes =>
      simp only [Bool.not_eq_true', List.isEmpty_eq_false_iff, ← List.length_pos_iff,
        hattributes.length_eq]

variable (hmeaning : SameMeaning c c')
include hmeaning

/-- What an enum that asks for the same leaves in a compilation in which names mean the same. -/
theorem processEnum_alike {e e' : EnumDeclaration} (h : SameRequests c e e') :
    (processEnum settings c' e').sources = (processEnum settings c e).sources ∧
      (processEnum settings c' e').diagnostics =
        (processEnum settings c e).diagnostics.map (Diagnostic.movedTo e'.location) := by
  rw [← processEnum_sameMeaning hmeaning e']
  exact processEnum_sameRequests settings h

/-- **The sources of a pass** whose enums ask for the same. -/
theorem runPass_sources_sameRequests (henums : List.Forall₂ (SameRequests c) c.enums c'.enums) :
    (runPass settings c').sources = (runPass settings c).sources := by
  have hcandidates := candidateEnums_related (fun _ _ h => h) henums
  have hpairs := hcandidates.imp (S := fun e e' => e'.namespaceName = e.namespaceName ∧
      (processEnum settings c' e').sources = (processEnum settings c e).sources) fun e e' h => by
    refine ⟨?_, (processEnum_alike hmeaning h).1⟩
    cases h
    rfl
  have hempty : (candidateEnums c').isEmpty = (candidateEnums c).isEmpty := by
    rw [Bool.eq_iff_iff, List.isEmpty_iff_length_eq_zero, List.isEmpty_iff_length_eq_zero,
      hcandidates.length_eq]
  simp only [runPass, hempty]
  split
  · rfl
  · exact absorbAll_sources_congr hpairs rfl

/-- **The diagnostics of a pass** whose enums ask for the same, as far as they do not depend on
places that differ. -/
theorem runPass_diagnostics_sameRequests {β : Type} {f : Diagnostic → β}
    (henums : List.Forall₂
      (fun e e' => SameRequests c e e' ∧
        ∀ d : Diagnostic, f (d.movedTo e'.location) = f (d.movedTo e.location)) c.enums c'.enums) :
    (runPass settings c').diagnostics.items.map f =
      (runPass settings c).diagnostics.items.map f := by
  rw [runPass_diagnostics, runPass_diagnostics]
  have hcandidates := candidateEnums_related (fun _ _ h => h.1) henums
  generalize candidateEnums c = es, candidateEnums c' = es' at hcandidates
  induction hcandidates with
  | nil => rfl
  | @cons e e' _ _ hpair _ ih =>
      obtain ⟨hrequests, hplace⟩ := hpair
      have hone : (processEnum settings c' e').diagnostics.map f =
          (processEnum settings c e).diagnostics.map f := by
        rw [(processEnum_alike hmeaning hrequests).2, List.map_map]
        conv_rhs => rw [← map_movedTo_diagnostics settings c e, List.map_map]
        exact List.map_congr_left fun d _ => hplace d
      rw [List.flatMap_cons, List.flatMap_cons, List.map_append, List.map_append, hone, ih]

end

/-! ### Types without places -/

theorem get?_unplaced (types : List TypeDeclaration) (name : String) :
    (TypeIndex.ofTypes (types.map TypeDeclaration.unplaced)).get? name =
      ((TypeIndex.ofTypes types).get? name).map TypeDeclaration.unplaced := by
  induction types using List.reverseRecOn with
  | nil => rfl
  | append_singleton types t ih =>
      rw [List.map_append, TypeIndex.ofTypes, TypeIndex.ofTypes, List.foldl_append,
        List.foldl_append]
      change ((TypeIndex.ofTypes (types.map TypeDeclaration.unplaced)).add t.unplaced).get? name =
        (((TypeIndex.ofTypes types).add t).get? name).map TypeDeclaration.unplaced
      rw [TypeIndex.get?_add, TypeIndex.get?_add, ih]
      have hname : t.unplaced.qualifiedName = t.qualifiedName := rfl
      rw [hname]
      split
      · cases (TypeIndex.ofTypes types).get? name <;> rfl
      · rfl

/-- **Names mean the same** where types differ in their places only. -/
theorem sameMeaning_of_unplaced {c c' : Compilation}
    (htypes : c'.types.map TypeDeclaration.unplaced = c.types.map TypeDeclaration.unplaced)
    (hglobalUsings : c'.globalUsings = c.globalUsings) : SameMeaning c c' where
  globalUsings := hglobalUsings.symm
  types name := by
    have hfound : (c'.typeIndex.get? name).map TypeDeclaration.unplaced =
        (c.typeIndex.get? name).map TypeDeclaration.unplaced := by
      rw [Compilation.typeIndex, Compilation.typeIndex, ← get?_unplaced, ← get?_unplaced, htypes]
    generalize c.typeIndex.get? name = found, c'.typeIndex.get? name = found' at hfound
    cases found with
    | none =>
        cases found' with
        | none => exact .none
        | some t' => cases hfound
    | some t =>
        cases found' with
        | none => cases hfound
        | some t' =>
            have hsame : t'.unplaced = t.unplaced := Option.some.inj hfound
            have hcontents : SameContents t.unplaced t'.unplaced := hsame ▸ .refl _
            exact .some ⟨hcontents.qualifiedName, hcontents.properties, hcontents.constants⟩

end LocalisedEnum

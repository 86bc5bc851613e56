import LocalisedEnum.Proofs.Pass.Resolution
import Mathlib.Data.Option.Defs

/-!
**What an enum reads of a compilation.**

While an enum is processed the compilation is only asked for types by name, and of a type that is
found only its full name, the static string properties that it has and the values of its constants
matter.  The order of the properties does not, nor does anything else of the declaration.  So two
compilations in which every name that an enum uses leads to such a look-alike leave the enum with
the same sources, the same diagnostics and the same log.

Main definitions:

* `SameContents` — two types that no request can tell apart;
* `LookupRel`, `SameMeaning` — two compilations in which every name leads to types in a relation, or
  to such types;
* `SameUse` — two compilations in which the names that an enum uses do.

Main results:

* `findType_sameMeaning` — a name used at a place leads to types that cannot be told apart;
* `resolve_congr` — a request reads the references that its resource type offers, and nothing else
  of it;
* `processEnum_sameUse` — **what an enum leaves** is the same where the names that it uses mean the
  same;
* `processEnum_sameMeaning` — in particular where every name does.
-/

set_option autoImplicit false
set_option relaxedAutoImplicit false

namespace LocalisedEnum

/-- Two types that no request can tell apart. -/
structure SameContents (t t' : TypeDeclaration) : Prop where
  qualifiedName : t.qualifiedName = t'.qualifiedName
  properties : ∀ p, p ∈ t.staticStringNames ↔ p ∈ t'.staticStringNames
  constants : ∀ name, valueOf? name t.constants = valueOf? name t'.constants

theorem SameContents.refl (t : TypeDeclaration) : SameContents t t :=
  ⟨rfl, fun _ => Iff.rfl, fun _ => rfl⟩

/-- Two compilations in which every name leads to types that no request can tell apart. -/
structure SameMeaning (c c' : Compilation) : Prop where
  types : ∀ name, Option.Rel SameContents (c.typeIndex.get? name) (c'.typeIndex.get? name)
  globalUsings : c.globalUsings = c'.globalUsings

/-! ### Searches that go side by side -/

theorem rel_findSome? {α β γ : Type} {R : β → γ → Prop} {f : α → Option β} {g : α → Option γ}
    {xs : List α} (h : ∀ a ∈ xs, Option.Rel R (f a) (g a)) :
    Option.Rel R (xs.findSome? f) (xs.findSome? g) := by
  induction xs with
  | nil => exact .none
  | cons a xs ih =>
      have hrest := ih fun x hx => h x (List.mem_cons_of_mem _ hx)
      rw [List.findSome?_cons, List.findSome?_cons]
      match f a, g a, h a List.mem_cons_self with
      | _, _, .some hbc => exact .some hbc
      | _, _, .none => exact hrest

theorem isSome_eq_of_rel {α β : Type} {R : α → β → Prop} {x : Option α} {y : Option β}
    (h : Option.Rel R x y) : x.isSome = y.isSome := by
  cases h <;> rfl

theorem bind_eq_of_rel {α β γ : Type} {R : α → β → Prop} {x : Option α} {y : Option β}
    {f : α → Option γ} {g : β → Option γ} (h : Option.Rel R x y) (hfg : ∀ a b, R a b → f a = g b) :
    x.bind f = y.bind g := by
  cases h with
  | some hab => exact hfg _ _ hab
  | none => rfl

/-- A search for the one item that there can be does not depend on the order of the items. -/
theorem find?_eq_of_mem_iff {α : Type} {p : α → Bool} {xs ys : List α} (hmem : ∀ a, a ∈ xs ↔ a ∈ ys)
    (hunique : ∀ a b, p a → p b → a = b) : xs.find? p = ys.find? p := by
  cases hx : xs.find? p with
  | none =>
      refine (List.find?_eq_none.2 fun a ha => ?_).symm
      exact List.find?_eq_none.1 hx a ((hmem a).2 ha)
  | some a =>
      have hpa := List.find?_some hx
      cases hy : ys.find? p with
      | none =>
          have ha := (hmem a).1 (List.mem_of_find?_eq_some hx)
          exact absurd hpa (List.find?_eq_none.1 hy a ha)
      | some b => rw [hunique a b hpa (List.find?_some hy)]

/-! ### Names -/

/-- Two compilations in which every full name leads to types in a relation, and which import the
same for every file. -/
structure LookupRel (R : TypeDeclaration → TypeDeclaration → Prop) (c c' : Compilation) : Prop where
  types : ∀ name, Option.Rel R (c.typeIndex.get? name) (c'.typeIndex.get? name)
  globalUsings : c.globalUsings = c'.globalUsings

section

variable {R : TypeDeclaration → TypeDeclaration → Prop} {c c' : Compilation} (h : LookupRel R c c')
include h

/-- A name used at a place leads to types in the relation. -/
theorem LookupRel.findType (name : String) (context : LookupContext) :
    Option.Rel R (c.findType name context) (c'.findType name context) := by
  simp only [Compilation.findType, h.globalUsings]
  split
  · exact h.types _
  · exact rel_findSome? fun other _ => h.types other

variable
  (hconstants : ∀ t t', R t t' → ∀ name, valueOf? name t.constants = valueOf? name t'.constants)
include hconstants

theorem LookupRel.containingConstant (context : LookupContext) (name : String) :
    LocalisedEnum.containingConstant c context name =
      LocalisedEnum.containingConstant c' context name := by
  have hstep : ∀ outer, (c.typeIndex.get? outer).bind (fun t => valueOf? name t.constants) =
      (c'.typeIndex.get? outer).bind fun t => valueOf? name t.constants :=
    fun outer => bind_eq_of_rel (h.types outer) fun t t' ht => hconstants t t' ht name
  simp only [LocalisedEnum.containingConstant, Option.bind_eq_bind, hstep]

/-- A reference stands for the same constant, if types in the relation have the same constants. -/
theorem LookupRel.constantValue (context : LookupContext) (reference : String) :
    LocalisedEnum.constantValue c context reference =
      LocalisedEnum.constantValue c' context reference := by
  have htype : ∀ typeName name : String,
      (c.findType typeName context).bind (fun t => valueOf? name t.constants) =
        (c'.findType typeName context).bind fun t => valueOf? name t.constants :=
    fun typeName name =>
      bind_eq_of_rel (h.findType typeName context) fun t t' ht => hconstants t t' ht name
  simp only [LocalisedEnum.constantValue, h.containingConstant hconstants, htype]

end

section

variable {c c' : Compilation} (h : SameMeaning c c')
include h

theorem SameMeaning.lookupRel : LookupRel SameContents c c' :=
  ⟨h.types, h.globalUsings⟩

theorem findType_sameMeaning (name : String) (context : LookupContext) :
    Option.Rel SameContents (c.findType name context) (c'.findType name context) :=
  h.lookupRel.findType name context

theorem constantValue_sameMeaning (context : LookupContext) (reference : String) :
    constantValue c context reference = constantValue c' context reference :=
  h.lookupRel.constantValue (fun _ _ ht => ht.constants) context reference

end

/-! ### The names that an enum uses -/

/-- Two compilations in which the types that the attributes of an enum name cannot be told apart,
and their references stand for the same constants. -/
structure SameUse (c c' : Compilation) (e : EnumDeclaration) : Prop where
  types : ∀ a ∈ e.attributes, ∀ name, .typeOf name ∈ a.positional →
    Option.Rel SameContents (c.findType name e.context) (c'.findType name e.context)
  constants : ∀ a ∈ e.attributes, ∀ key reference, (key, .raw reference) ∈ a.named →
    constantValue c e.context reference = constantValue c' e.context reference

theorem SameMeaning.sameUse {c c' : Compilation} (h : SameMeaning c c') (e : EnumDeclaration) :
    SameUse c c' e where
  types _ _ name _ := findType_sameMeaning h name e.context
  constants _ _ _ reference _ := constantValue_sameMeaning h e.context reference

section

variable {c c' : Compilation} {context : LookupContext}

theorem bindConstants_congr {a : Attribute} (h : ∀ key reference, (key, .raw reference) ∈ a.named →
    constantValue c context reference = constantValue c' context reference) :
    bindConstants c context a = bindConstants c' context a := by
  refine congrArg (fun named => { a with named := named })
    (List.map_congr_left fun entry hentry => ?_)
  obtain ⟨key, value⟩ := entry
  cases value with
  | raw reference => simp only [bindConstant, h key reference hentry]
  | _ => rfl

theorem reference?_of_rel {typeName : String}
    (htype : Option.Rel SameContents (c.findType typeName context) (c'.findType typeName context))
    (name : CodeText) :
    (resourceMembers c context typeName).reference? name =
      (resourceMembers c' context typeName).reference? name := by
  simp only [ResourceMembers.reference?, ResourceMembers.property?, resourceMembers]
  cases hc : c.findType typeName context with
  | none =>
      rw [hc] at htype
      cases hc' : c'.findType typeName context with
      | none => rfl
      | some t' => rw [hc'] at htype; cases htype
  | some t =>
      rw [hc] at htype
      cases hc' : c'.findType typeName context with
      | none => rw [hc'] at htype; cases htype
      | some t' =>
          rw [hc', Option.rel_some_some] at htype
          have hfind := find?_eq_of_mem_iff (p := fun p => CodeText.ofString p == name)
            htype.properties fun p q hp hq =>
              CodeText.ofString_injective ((beq_iff_eq.1 hp).trans (beq_iff_eq.1 hq).symm)
          have hreference : (ResourceMembers.mk t.qualifiedName t.staticStringNames).reference =
              (ResourceMembers.mk t'.qualifiedName t'.staticStringNames).reference := by
            funext property
            simp only [ResourceMembers.reference, htype.qualifiedName]
          simp only [hfind, hreference]

theorem resourceLog_of_rel {e : EnumDeclaration} {resource : String}
    (htype :
      Option.Rel SameContents (c.findType resource e.context) (c'.findType resource e.context)) :
    resourceLog c e resource = resourceLog c' e resource := by
  rw [resourceLog, isSome_eq_of_rel htype]
  rfl

end

/-! ### Requests -/

/-- A request reads the references that its resource type offers, and nothing else of it. -/
theorem resolve_congr {r r' : ResourceMembers} (h : ∀ name, r.reference? name = r'.reference? name)
    (view : EnumView) (request : Request) (nameFormat methodName : String) :
    Mapping.resolve view request r nameFormat methodName =
      Mapping.resolve view request r' nameFormat methodName := by
  have hmembers : bindMembers r = bindMembers r' := by
    funext template view
    simp only [bindMembers, h]
  have hdefault : bindDefault r = bindDefault r' := by
    funext property
    rw [bindDefault, funext h]
    rfl
  rw [Mapping.resolve, hmembers, hdefault]
  rfl

section

variable {settings : Settings} {c c' : Compilation} {e : EnumDeclaration} (h : SameUse c c' e)
include h

theorem processAttribute_sameUse (v : Variant) {a : Attribute} (ha : a ∈ e.attributes) :
    processAttribute settings c e v a = processAttribute settings c' e v a := by
  simp only [processAttribute, bindConstants_congr (h.constants a ha)]
  cases hrequest : Request.ofAttribute settings.keyOrder v (bindConstants c' e.context a) with
  | error failure => rfl
  | ok request =>
      have halone := eq_singleton_of_resourceOf (resourceOf_of_ofAttribute hrequest)
      change a.positional = _ at halone
      have htype := h.types a ha request.resource (by rw [halone]; exact List.mem_cons_self)
      simp only [resourceLog_of_rel htype, resolve_congr (reference?_of_rel htype)]

theorem processAttributes_sameUse {attributes : List (Variant × Attribute)}
    (hattributes : ∀ entry ∈ attributes, entry.2 ∈ e.attributes) :
    processAttributes settings c e attributes = processAttributes settings c' e attributes := by
  induction attributes with
  | nil => rfl
  | cons entry rest ih =>
      obtain ⟨v, a⟩ := entry
      have hfirst : processAttribute settings c e v a = processAttribute settings c' e v a :=
        processAttribute_sameUse h v (hattributes (v, a) List.mem_cons_self)
      simp only [processAttributes, hfirst,
        ih fun entry hentry => hattributes entry (List.mem_cons_of_mem _ hentry)]

/-- **What an enum leaves** is the same in compilations in which the names that it uses mean the
same. -/
theorem processEnum_sameUse : processEnum settings c e = processEnum settings c' e := by
  rw [processEnum, processEnum]
  cases hattributes : localisationAttributes e with
  | error failure => rfl
  | ok attributes =>
      simp only [processAttributes_sameUse h fun _ hentry =>
        mem_of_localisationAttributes hattributes hentry]

end

/-- **What an enum leaves** is the same in compilations in which every name means the same. -/
theorem processEnum_sameMeaning {settings : Settings} {c c' : Compilation} (h : SameMeaning c c')
    (e : EnumDeclaration) : processEnum settings c e = processEnum settings c' e :=
  processEnum_sameUse (h.sameUse e)

end LocalisedEnum

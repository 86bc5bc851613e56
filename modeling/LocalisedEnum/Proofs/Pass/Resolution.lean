import LocalisedEnum.Declaration.Fault
import LocalisedEnum.Pass
import Mathlib.Data.List.Forall2

/-!
**What the attributes of an enum resolve to.**

An enum is processed attribute by attribute, and the first that fails ends it.  Where none fails,
the mappings and the errors of the enum are those of its attributes, one after the other.

Main definitions:

* `attributeResult` — what one attribute of an enum resolves to;
* `AllResolve` — every attribute of an enum resolves.

Main results:

* `mapM_eq_ok`, `mapM_eq_error`, `exists_mapM_eq_ok` — a step taken for each item of a list;
* `resolve_eq_ok` — what a request resolves to, in the parts it is made of;
* `attributeResult_eq_some` — the mapping that an attribute resolves to, in its parts;
* `processAttributes_eq_ok`, `processAttributes_eq_error` — the attributes of an enum, together;
* `code_of_attributeResult` — the errors of an attribute are the two that a mapping may have.
-/

set_option autoImplicit false
set_option relaxedAutoImplicit false

namespace LocalisedEnum

/-! ### A step for each item -/

theorem mapM_eq_ok {ε α β : Type} {f : α → Except ε β} {xs : List α} {ys : List β}
    (h : xs.mapM f = .ok ys) : List.Forall₂ (fun x y => f x = .ok y) xs ys := by
  induction xs generalizing ys with
  | nil =>
      cases h
      exact .nil
  | cons x rest ih =>
      rw [List.mapM_cons] at h
      obtain ⟨y, hy, h⟩ := bind_eq_ok.1 h
      obtain ⟨more, hmore, h⟩ := bind_eq_ok.1 h
      cases h
      exact .cons hy (ih hmore)

theorem mapM_of_forall₂ {ε α β : Type} {f : α → Except ε β} {xs : List α} {ys : List β}
    (h : List.Forall₂ (fun x y => f x = .ok y) xs ys) : xs.mapM f = .ok ys := by
  induction h with
  | nil => rfl
  | cons hx _ ih =>
      rw [List.mapM_cons, hx, ih]
      rfl

theorem mapM_eq_error {ε α β : Type} {f : α → Except ε β} {xs : List α} {e : ε}
    (h : xs.mapM f = .error e) : ∃ x ∈ xs, f x = .error e := by
  induction xs with
  | nil => cases h
  | cons x rest ih =>
      rw [List.mapM_cons] at h
      cases hx : f x with
      | error e' =>
          rw [hx] at h
          cases h
          exact ⟨x, List.mem_cons_self, hx⟩
      | ok y =>
          cases hrest : rest.mapM f with
          | ok more =>
              rw [hx, hrest] at h
              cases h
          | error e' =>
              rw [hx, hrest] at h
              cases h
              obtain ⟨found, hmem, hfound⟩ := ih hrest
              exact ⟨found, List.mem_cons_of_mem _ hmem, hfound⟩

/-- Steps that can be taken for each item can be taken for all of them. -/
theorem exists_mapM_eq_ok {ε α β : Type} {f : α → Except ε β} {xs : List α}
    (h : ∀ x ∈ xs, ∃ y, f x = .ok y) : ∃ ys, xs.mapM f = .ok ys := by
  cases hxs : xs.mapM f with
  | ok ys => exact ⟨ys, rfl⟩
  | error e =>
      obtain ⟨x, hx, he⟩ := mapM_eq_error hxs
      obtain ⟨y, hy⟩ := h x hx
      cases hy.symm.trans he

/-- What follows of the items on the left and their partners holds of two lists beside each
other. -/
theorem forall₂_imp_of_mem {α β : Type} {R S : α → β → Prop} {xs : List α} {ys : List β}
    (h : List.Forall₂ R xs ys) (himp : ∀ x ∈ xs, ∀ y, R x y → S x y) : List.Forall₂ S xs ys := by
  induction h with
  | nil => exact .nil
  | cons hxy _ ih =>
      exact .cons (himp _ List.mem_cons_self _ hxy)
        (ih fun x hx => himp x (List.mem_cons_of_mem _ hx))

/-- Of two lists beside each other, each item on the left has its partner on the right. -/
theorem exists_right_of_mem {α β : Type} {R : α → β → Prop} {xs : List α} {ys : List β}
    (h : List.Forall₂ R xs ys) {x : α} (hx : x ∈ xs) : ∃ y ∈ ys, R x y := by
  induction h with
  | nil => cases hx
  | @cons x' y' _ _ hxy _ ih =>
      rcases List.mem_cons.1 hx with rfl | hx
      · exact ⟨y', List.mem_cons_self, hxy⟩
      · obtain ⟨y, hy, hR⟩ := ih hx
        exact ⟨y, List.mem_cons_of_mem _ hy, hR⟩

theorem exists_left_of_mem {α β : Type} {R : α → β → Prop} {xs : List α} {ys : List β}
    (h : List.Forall₂ R xs ys) {y : β} (hy : y ∈ ys) : ∃ x ∈ xs, R x y :=
  exists_right_of_mem h.flip hy

/-- Steps that can be taken for all items of one list can be taken for all of another that has no
others. -/
theorem exists_mapM_of_subset {ε α β : Type} {f : α → Except ε β} {xs xs' : List α} {ys : List β}
    (h : xs.mapM f = .ok ys) (hsubset : xs' ⊆ xs) : ∃ ys', xs'.mapM f = .ok ys' := by
  refine exists_mapM_eq_ok fun x hx => ?_
  obtain ⟨y, _, hy⟩ := exists_right_of_mem (mapM_eq_ok h) (hsubset hx)
  exact ⟨y, hy⟩

/-! ### The order of named values -/

theorem textLe_trans {s t u : String} (hst : textLe s t = true) (htu : textLe t u = true) :
    textLe s u = true := by
  simp only [textLe, Bool.not_eq_true', decide_eq_false_iff_not, String.not_lt] at hst htu ⊢
  exact String.le_trans hst htu

theorem textLe_total (s t : String) : (textLe s t || textLe t s) = true := by
  simp only [textLe, Bool.or_eq_true, Bool.not_eq_true', decide_eq_false_iff_not, String.not_lt]
  exact String.le_total s t

/-- Sorting named values by their names keeps those of one name in order. -/
theorem filter_sortNamed {α : Type} (key : String) (values : List (String × α)) :
    (sortNamed values).filter (·.1 == key) = values.filter (·.1 == key) := by
  let le : String × α → String × α → Bool := fun a b => textLe a.1 b.1
  have hsorted : (values.filter (·.1 == key)).Pairwise fun a b => le a b = true := by
    rw [List.pairwise_iff_forall_sublist]
    intro a b hab
    have ha := (List.mem_filter.1 (hab.subset List.mem_cons_self)).2
    have hb := (List.mem_filter.1 (hab.subset (List.mem_cons_of_mem _ List.mem_cons_self))).2
    show textLe a.1 b.1 = true
    rw [beq_iff_eq.1 ha, beq_iff_eq.1 hb]
    simpa using textLe_total key key
  have htrans : ∀ a b d, le a b = true → le b d = true → le a d = true := fun _ _ _ => textLe_trans
  have htotal : ∀ a b, (le a b || le b a) = true := fun a b => textLe_total a.1 b.1
  have hsub : (values.filter (·.1 == key)).Sublist (values.mergeSort le) :=
    List.sublist_mergeSort htrans htotal hsorted List.filter_sublist
  have hkept : (values.filter (·.1 == key)).Sublist
      ((values.mergeSort le).filter (·.1 == key)) := by
    have h := hsub.filter (·.1 == key)
    simpa only [List.filter_filter, Bool.and_self] using h
  have hlength := ((List.mergeSort_perm values le).filter (·.1 == key)).length_eq
  exact (hkept.eq_of_length hlength.symm).symm

/-- Each name has the same value among the sorted values. -/
theorem valueOf?_sortNamed {α : Type} (key : String) (values : List (String × α)) :
    valueOf? key (sortNamed values) = valueOf? key values := by
  rw [valueOf?, valueOf?, ← List.head?_filter, ← List.head?_filter, filter_sortNamed]

/-! ### One attribute -/

/-- **A request that an attribute makes** is for the variant, for the type that the positional
arguments name and with the values of the attribute in the order of their names; what it asks the
method to be called can name a method. -/
theorem ofAttribute_eq_ok {order : KeyOrder} {v : Variant} {a : Attribute} {request : Request}
    (h : Request.ofAttribute order v a = .ok request) :
    ∃ resource asked, resourceOf v a.positional = .ok resource ∧
      request = ⟨v, resource, sortNamed a.named⟩ ∧ request.textOf methodNameKey = .ok asked ∧
      ∀ name ∈ asked, isMethodName name = true := by
  obtain ⟨resource, hresource, h⟩ := bind_eq_ok.1 h
  simp only at h
  split at h
  · cases h
  · obtain ⟨_, _, h⟩ := bind_eq_ok.1 h
    obtain ⟨asked, hasked, h⟩ := bind_eq_ok.1 h
    cases asked with
    | none =>
        cases h
        refine ⟨resource, none, hresource, rfl, hasked, ?_⟩
        rintro _ ⟨⟩
    | some name =>
        simp only at h
        split at h
        · next hname =>
          cases h
          refine ⟨resource, some name, hresource, rfl, hasked, ?_⟩
          rintro _ ⟨⟩
          exact hname
        · cases h

/-- A request is for the type that the positional arguments name. -/
theorem resourceOf_of_ofAttribute {order : KeyOrder} {v : Variant} {a : Attribute}
    {request : Request} (h : Request.ofAttribute order v a = .ok request) :
    resourceOf v a.positional = .ok request.resource := by
  obtain ⟨resource, _, hresource, rfl, _⟩ := ofAttribute_eq_ok h
  exact hresource

/-- That type stands alone among the positional arguments. -/
theorem eq_singleton_of_resourceOf {v : Variant} {values : List ArgumentValue} {resource : String}
    (h : resourceOf v values = .ok resource) : values = [.typeOf resource] := by
  rw [resourceOf.eq_def] at h
  split at h <;> cases h
  rfl

theorem mem_of_collectAttributes {enumName : String} {attributes : List Attribute}
    {found found' : List (Variant × Attribute)}
    (h : collectAttributes enumName found attributes = .ok found') {entry : Variant × Attribute}
    (hentry : entry ∈ found') : entry ∈ found ∨ entry.2 ∈ attributes := by
  induction attributes generalizing found with
  | nil =>
      cases h
      exact .inl hentry
  | cons a rest ih =>
      rw [collectAttributes, List.foldlM_cons] at h
      obtain ⟨next, hnext, h⟩ := bind_eq_ok.1 h
      have hstep : next = found ∨ ∃ v, next = found ++ [(v, a)] := by
        generalize Variant.ofAttributeName? a.shortName = asked at hnext
        cases asked with
        | none => exact .inl (Except.ok.inj hnext).symm
        | some v =>
            rw [collectAttribute] at hnext
            split at hnext
            · cases hnext
            · exact .inr ⟨v, (Except.ok.inj hnext).symm⟩
      rcases ih h with hmem | hmem
      · rcases hstep with rfl | ⟨v, rfl⟩
        · exact .inl hmem
        · rcases List.mem_append.1 hmem with hmem | hmem
          · exact .inl hmem
          · rw [List.mem_singleton.1 hmem]
            exact .inr List.mem_cons_self
      · exact .inr (List.mem_cons_of_mem _ hmem)

/-- What asks for a variant is an attribute of the enum. -/
theorem mem_of_localisationAttributes {e : EnumDeclaration}
    {attributes : List (Variant × Attribute)} (h : localisationAttributes e = .ok attributes)
    {entry : Variant × Attribute} (hentry : entry ∈ attributes) : entry.2 ∈ e.attributes := by
  obtain ⟨found, hfound, h⟩ := bind_eq_ok.1 h
  cases h
  obtain ⟨v, _, hv⟩ := List.mem_filterMap.1 hentry
  obtain ⟨a, ha, rfl⟩ := Option.map_eq_some_iff.1 hv
  obtain ⟨entry, hfind, rfl⟩ := Option.map_eq_some_iff.1 ha
  exact (mem_of_collectAttributes hfound (List.mem_of_find?_eq_some hfind)).resolve_left
    List.not_mem_nil

/-- A method is called by the name that the request gives, or by the one that stands in for it. -/
theorem methodName_eq_ok {request : Request} {fallback : String} {method : CodeText}
    (h : request.methodName fallback = .ok method) :
    ∃ asked, request.textOf methodNameKey = .ok asked ∧
      method = asked.getD (.ofString fallback) := by
  obtain ⟨asked, hasked, h⟩ := bind_eq_ok.1 h
  cases h
  exact ⟨asked, hasked, rfl⟩

/-- What a request resolves to, in the parts it is made of. -/
theorem resolve_eq_ok {view : EnumView} {request : Request} {r : ResourceMembers}
    {nameFormat methodName : String} {mapping : Option Mapping} {errors : List GenerationError}
    (h : Mapping.resolve view request r nameFormat methodName = .ok (mapping, errors)) :
    ∃ template method property references, request.methodName methodName = .ok method ∧
      request.defaultProperty = .ok property ∧ bindMembers r template view = .ok references ∧
      errors = mappingErrors view.name method (bindDefault r property) references ∧
      mapping = if view.members.isEmpty ||
          ((boundMembers references).isEmpty && (bindDefault r property).bound?.isNone) then none
        else some
          ⟨view, request.variant, method, bindDefault r property, boundMembers references⟩ := by
  obtain ⟨template, _, h⟩ := bind_eq_ok.1 h
  obtain ⟨method, hmethod, h⟩ := bind_eq_ok.1 h
  obtain ⟨references, hreferences, h⟩ := bind_eq_ok.1 h
  obtain ⟨property, hproperty, h⟩ := bind_eq_ok.1 h
  refine ⟨template, method, property, references, hmethod, hproperty, hreferences, ?_⟩
  -- the errors are the same whether there is a mapping or not
  simp only at h
  split at h <;> rename_i hempty <;> cases h
  · exact ⟨rfl, (if_pos hempty).symm⟩
  · exact ⟨rfl, (if_neg hempty).symm⟩

/-- What an attribute of an enum resolves to: a mapping, if there is one, and errors. -/
def attributeResult (settings : Settings) (c : Compilation) (e : EnumDeclaration)
    (entry : Variant × Attribute) : Except Failure (Option Mapping × List GenerationError) :=
  (processAttribute settings c e entry.1 entry.2).2

section

variable {settings : Settings} {c : Compilation} {e : EnumDeclaration} {v : Variant} {a : Attribute}
  {errors : List GenerationError}

/-- An attribute resolves to what its request does, among the members of the type that this is
for. -/
theorem attributeResult_eq_ok {mapping : Option Mapping}
    (h : attributeResult settings c e (v, a) = .ok (mapping, errors)) :
    ∃ request, Request.ofAttribute settings.keyOrder v (bindConstants c e.context a) = .ok request ∧
      Mapping.resolve e.view request (resourceMembers c e.context request.resource)
          settings.nameFormat settings.methodName =
        .ok (mapping, errors) := by
  rw [attributeResult, processAttribute] at h
  split at h
  · cases h
  · next request hrequest => exact ⟨request, hrequest, h⟩

/-- **The mapping that an attribute resolves to**, in the parts it is made of. -/
theorem attributeResult_eq_some {m : Mapping}
    (h : attributeResult settings c e (v, a) = .ok (some m, errors)) :
    ∃ request template method property references,
      Request.ofAttribute settings.keyOrder v (bindConstants c e.context a) = .ok request ∧
      request.methodName settings.methodName = .ok method ∧
      bindMembers (resourceMembers c e.context request.resource) template e.view = .ok references ∧
      e.members ≠ [] ∧
      errors = mappingErrors e.name method
        (bindDefault (resourceMembers c e.context request.resource) property) references ∧
      m = ⟨e.view, request.variant, method,
        bindDefault (resourceMembers c e.context request.resource) property,
        boundMembers references⟩ := by
  obtain ⟨request, hrequest, hresolve⟩ := attributeResult_eq_ok h
  obtain ⟨template, method, property, references, hmethod, _, hreferences, herrors, hm⟩ :=
    resolve_eq_ok hresolve
  split at hm
  · cases hm
  · next hempty =>
    cases hm
    have hmembers : e.members ≠ [] := fun hnil => hempty (by rw [EnumDeclaration.view, hnil]; rfl)
    exact ⟨request, template, method, property, references, hrequest, hmethod, hreferences,
      hmembers, herrors, rfl⟩

end

/-- Each attribute of an enum resolves, to the result beside it. -/
def AllResolve (settings : Settings) (c : Compilation) (e : EnumDeclaration)
    (attributes : List (Variant × Attribute))
    (results : List (Option Mapping × List GenerationError)) : Prop :=
  List.Forall₂ (fun entry result => attributeResult settings c e entry = .ok result)
    attributes results

theorem allResolve_unique {settings : Settings} {c : Compilation} {e : EnumDeclaration}
    {attributes : List (Variant × Attribute)}
    {results results' : List (Option Mapping × List GenerationError)}
    (h : AllResolve settings c e attributes results)
    (h' : AllResolve settings c e attributes results') : results = results' := by
  induction h generalizing results' with
  | nil =>
      cases h'
      rfl
  | cons hentry _ ih =>
      cases h' with
      | cons hentry' hrest' =>
          rw [hentry] at hentry'
          cases hentry'
          rw [ih hrest']

/-! ### Several attributes -/

variable {settings : Settings} {c : Compilation} {e : EnumDeclaration}

theorem processAttributes_eq_ok {attributes : List (Variant × Attribute)} {log : List LogEntry}
    {mappings : List Mapping} {errors : List GenerationError}
    (h : processAttributes settings c e attributes = (log, .ok (mappings, errors))) :
    ∃ results, AllResolve settings c e attributes results ∧
      mappings = results.filterMap (·.1) ∧ errors = results.flatMap (·.2) := by
  induction attributes generalizing log mappings errors with
  | nil =>
      cases h
      exact ⟨[], .nil, rfl, rfl⟩
  | cons entry rest ih =>
      simp only [processAttributes] at h
      split at h
      · cases h
      · next firstLog mapping firstErrors hfirst =>
        -- the rest has to succeed as well, or the whole would not
        cases hrest : processAttributes settings c e rest with
        | mk restLog others =>
            rw [hrest] at h
            cases others with
            | error f => cases h
            | ok others =>
                cases h
                obtain ⟨results, hresults, hmappings, herrors⟩ := ih hrest
                refine ⟨(mapping, firstErrors) :: results, .cons ?_ hresults, ?_, ?_⟩
                · rw [attributeResult, hfirst]
                · rw [hmappings]
                  cases mapping <;> rfl
                · rw [herrors]
                  rfl

theorem processAttributes_eq_error {attributes : List (Variant × Attribute)} {log : List LogEntry}
    {f : Failure} (h : processAttributes settings c e attributes = (log, .error f)) :
    ∃ entry ∈ attributes, attributeResult settings c e entry = .error f := by
  induction attributes generalizing log with
  | nil => cases h
  | cons entry rest ih =>
      simp only [processAttributes] at h
      split at h
      · next hfirst =>
        cases h
        exact ⟨entry, List.mem_cons_self, by rw [attributeResult, hfirst]⟩
      · cases hrest : processAttributes settings c e rest with
        | mk restLog others =>
            rw [hrest] at h
            cases others with
            | ok others => cases h
            | error f' =>
                cases h
                obtain ⟨found, hmem, hfound⟩ := ih hrest
                exact ⟨found, List.mem_cons_of_mem _ hmem, hfound⟩

/-! ### The errors of an attribute -/

/-- An error of a mapping is one of the two that a mapping may have. -/
theorem code_of_mem_mappingErrors {enumName : String} {methodName : CodeText} {d : DefaultBinding}
    {references : List (String × Option String)} {error : GenerationError}
    (h : error ∈ mappingErrors enumName methodName d references) :
    error.code = .missingDefault ∨ error.code = .invalidDefault := by
  rw [mappingErrors] at h
  rcases List.mem_append.1 h with h | h
  · split at h
    · rw [List.mem_singleton.1 h]
      exact Or.inr rfl
    · cases h
  · split at h
    · rw [List.mem_singleton.1 h]
      exact Or.inl rfl
    · cases h

theorem code_of_attributeResult {entry : Variant × Attribute} {mapping : Option Mapping}
    {errors : List GenerationError} (h : attributeResult settings c e entry = .ok (mapping, errors))
    {error : GenerationError} (herror : error ∈ errors) :
    error.code = .missingDefault ∨ error.code = .invalidDefault := by
  obtain ⟨_, _, hresolve⟩ := attributeResult_eq_ok h
  obtain ⟨_, _, _, _, _, _, _, rfl, _⟩ := resolve_eq_ok hresolve
  exact code_of_mem_mappingErrors herror

end LocalisedEnum

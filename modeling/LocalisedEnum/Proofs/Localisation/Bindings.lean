import LocalisedEnum.Proofs.Localisation.TemplateFaults

/-!
**What a request leads to.**

The values of a request whose names the resource type has are bound to these properties, in the
order of the enum.  The others need the default; a default that is asked for and not there is one
error, and a value that needs one and has none is another.  The mapping is left out when it would
bind nothing, whatever the errors are.

Main definitions:

* `Request.given?`, `Request.TextsOrNull` — the texts that a request gives;
* `ResourceMembers.Offers`, `ResourceMembers.referenceText` — the names that a type has, and the
  references to them;
* `IsResolution` — the mapping and the errors that a request leads to.

Main results:

* `resolve_of_names` — **a request leads to the mapping and the errors described**, if the template
  makes names;
* `resolve_outcome` — this, and **which failure there is** if the template makes none.
-/

set_option autoImplicit false
set_option relaxedAutoImplicit false

namespace LocalisedEnum

/-! ### What a request gives -/

namespace Request

/-- The text that a request gives under a name: that of the first value of the name, unless it is
blank. -/
def given? (r : Request) (key : String) : Option CodeText :=
  match valueOf? key r.named with
  | some (.text t) => if t.isBlankText then none else some t
  | _ => none

/-- **The named values of a request are texts or null.** -/
def TextsOrNull (r : Request) : Prop :=
  ∀ entry ∈ r.named, entry.2 = .null ∨ ∃ t, entry.2 = .text t

theorem textOf_of_textsOrNull {r : Request} (h : r.TextsOrNull) (key : String) :
    r.textOf key = .ok (r.given? key) := by
  rw [textOf, given?]
  cases hvalue : valueOf? key r.named with
  | none => rfl
  | some value =>
      obtain ⟨entry, hentry, rfl⟩ := Option.map_eq_some_iff.1 hvalue
      rcases h entry (List.mem_of_find?_eq_some hentry) with hnull | ⟨t, ht⟩
      · rw [hnull]
      · rw [ht]

end Request

/-! ### What a type offers -/

namespace ResourceMembers

/-- **A type offers a name** that is one of its properties and not blank. -/
def Offers (r : ResourceMembers) (name : CodeText) : Prop :=
  name.isBlankText = false ∧ ∃ property ∈ r.properties, CodeText.ofString property = name

instance (r : ResourceMembers) (name : CodeText) : Decidable (r.Offers name) :=
  inferInstanceAs (Decidable (_ ∧ _))

/-- The reference to a name, as a text. -/
def referenceText (r : ResourceMembers) (name : CodeText) : CodeText :=
  .ofString (globalMark ++ r.qualifiedName ++ ".") ++ name

variable {r : ResourceMembers} {name : CodeText}

theorem reference?_of_offers (h : r.Offers name) : ∃ reference, r.reference? name = some reference ∧
    CodeText.ofString reference = r.referenceText name ∧ reference ≠ "" := by
  obtain ⟨hblank, property, hmem, hname⟩ := h
  have hfound : (r.properties.find? fun p => CodeText.ofString p == name).isSome = true :=
    List.find?_isSome.2 ⟨property, hmem, beq_iff_eq.2 hname⟩
  obtain ⟨found, hfind⟩ := Option.isSome_iff_exists.1 hfound
  have hfoundName : CodeText.ofString found = name := by
    have hkept := List.find?_some hfind
    exact beq_iff_eq.1 hkept
  refine ⟨r.reference found, ?_, ?_, ?_⟩
  · rw [reference?, property?, hblank, if_neg Bool.false_ne_true, hfind, Option.map_some]
  · rw [reference, referenceText, ← hfoundName]
    simp only [CodeText.ofString, String.toList_append, List.map_append, List.append_assoc]
  · intro hempty
    have hlength := congrArg String.length hempty
    rw [reference, String.length_append, String.length_append, String.length_append] at hlength
    have hdot : ".".length = 1 := rfl
    rw [hdot, String.length_empty] at hlength
    omega

theorem reference?_of_not_offers (h : ¬ r.Offers name) : r.reference? name = none := by
  rw [reference?, Option.map_eq_none_iff, property?]
  split
  · rfl
  · next hblank =>
    rw [List.find?_eq_none]
    intro property hmem hname
    exact h ⟨Bool.not_eq_true _ ▸ hblank, property, hmem, beq_iff_eq.1 hname⟩

theorem isSome_reference?_iff : (r.reference? name).isSome = true ↔ r.Offers name := by
  constructor
  · intro h
    by_contra hnot
    rw [reference?_of_not_offers hnot] at h
    cases h
  · intro h
    obtain ⟨reference, hreference, -⟩ := reference?_of_offers h
    rw [hreference]
    rfl

end ResourceMembers

/-! ### The bindings -/

section Bindings

variable {r : ResourceMembers} {e : EnumView} {names : String → CodeText}

theorem bindMembers_of_names {template : CodeText}
    (hnames : ∀ member ∈ e.members, formatName template e.name member = .ok (names member)) :
    bindMembers r template e =
      .ok (e.members.map fun member => (member, r.reference? (names member))) := by
  refine mapM_of_forall₂ (List.forall₂_map_right_iff.2 (List.forall₂_same.2 fun member hmem => ?_))
  rw [hnames member hmem]
  rfl

/-- **The values with a property of their own are bound to it**, in their order. -/
theorem boundMembers_map (members : List String) :
    (boundMembers (members.map fun member => (member, r.reference? (names member)))).map
        (fun b => (b.member, CodeText.ofString b.reference)) =
      (members.filter fun member => r.Offers (names member)).map
        fun member => (member, r.referenceText (names member)) := by
  induction members with
  | nil => rfl
  | cons member members ih =>
      by_cases hoffers : r.Offers (names member)
      · obtain ⟨reference, hreference, htext, -⟩ := ResourceMembers.reference?_of_offers hoffers
        have hkept : boundMembers
              ((member :: members).map fun member => (member, r.reference? (names member))) =
            ⟨member, reference⟩ ::
              boundMembers (members.map fun member => (member, r.reference? (names member))) := by
          rw [List.map_cons, hreference]
          rfl
        rw [hkept, List.filter_cons, if_pos (decide_eq_true hoffers), List.map_cons, List.map_cons,
          ih, htext]
      · have hdropped : boundMembers
              ((member :: members).map fun member => (member, r.reference? (names member))) =
            boundMembers (members.map fun member => (member, r.reference? (names member))) := by
          rw [List.map_cons, ResourceMembers.reference?_of_not_offers hoffers]
          rfl
        rw [hdropped, List.filter_cons, if_neg (fun h => hoffers (of_decide_eq_true h)), ih]

/-- **The default is bound** exactly if it is asked for and there, and then to the property of its
name. -/
theorem bound?_bindDefault_map (property : Option CodeText) :
    (bindDefault r property).bound?.map CodeText.ofString =
      (property.filter fun name => r.Offers name).map r.referenceText := by
  cases property with
  | none => rfl
  | some name =>
      by_cases hoffers : r.Offers name
      · obtain ⟨reference, hreference, htext, hne⟩ := ResourceMembers.reference?_of_offers hoffers
        rw [DefaultBinding.bound?, bindDefault, Option.bind_some, hreference, Option.filter_some,
          if_pos (bne_iff_ne.2 hne), Option.filter_some, if_pos (decide_eq_true hoffers),
          Option.map_some, Option.map_some, htext]
      · rw [DefaultBinding.bound?, bindDefault, Option.bind_some,
          ResourceMembers.reference?_of_not_offers hoffers, Option.filter_none, Option.filter_some,
          if_neg (fun h => hoffers (of_decide_eq_true h)), Option.map_none, Option.map_none]

theorem isNone_bound?_bindDefault_iff (property : Option CodeText) :
    (bindDefault r property).bound?.isNone = true ↔ ¬ ∃ name ∈ property, r.Offers name := by
  have hmap := bound?_bindDefault_map (r := r) property
  rw [Option.isNone_iff_eq_none, ← Option.map_eq_none_iff (f := CodeText.ofString), hmap,
    Option.map_eq_none_iff, Option.filter_eq_none_iff]
  constructor
  · rintro h ⟨name, hname, hoffers⟩
    exact h name hname (decide_eq_true hoffers)
  · intro h name hname hoffers
    exact h ⟨name, hname, of_decide_eq_true hoffers⟩

end Bindings

/-! ### What a request leads to -/

/-- **The mapping and the errors that a request leads to**, for a default that is perhaps asked for,
the name of the method, and the names that the template makes of the values. -/
structure IsResolution (e : EnumView) (variant : Variant) (r : ResourceMembers)
    (default : Option CodeText) (method : CodeText) (names : String → CodeText)
    (mapping : Option Mapping) (errors : List GenerationError) : Prop where
  /-- The errors: a default that is not there, and then a value that needs one. -/
  errors_eq : errors = (default.toList.filter fun name => ¬ r.Offers name).map
      (GenerationError.invalidDefault e.name · method) ++
    if (∃ member ∈ e.members, ¬ r.Offers (names member)) ∧ ¬ ∃ name ∈ default, r.Offers name then
        [GenerationError.missingDefault e.name method]
      else []
  /-- There is no mapping for an enum without values, nor where nothing would be bound. -/
  mapping_eq_none_iff : mapping = none ↔ e.members = [] ∨
    (∀ member ∈ e.members, ¬ r.Offers (names member)) ∧ ¬ ∃ name ∈ default, r.Offers name
  /-- The mapping is for the enum, the variant and the method. -/
  head_eq : ∀ m ∈ mapping, m.view = e ∧ m.variant = variant ∧ m.methodName = method
  /-- The values that are bound are those whose names are there, each to the property of its
  name. -/
  bindings_eq : ∀ m ∈ mapping, m.bindings.map (fun b => (b.member, CodeText.ofString b.reference)) =
    (e.members.filter fun member => r.Offers (names member)).map fun member =>
      (member, r.referenceText (names member))
  /-- The default is bound exactly if it is asked for and there. -/
  default_eq : ∀ m ∈ mapping, m.defaultBinding.requested = default ∧
    m.defaultBinding.bound?.map CodeText.ofString =
      (default.filter fun name => r.Offers name).map r.referenceText

section Resolution

variable {e : EnumView} {r : ResourceMembers} {names : String → CodeText}

/-- The errors of a request. -/
theorem mappingErrors_of_names (property : Option CodeText) (method : CodeText) : mappingErrors
    e.name method (bindDefault r property)
    (e.members.map fun member => (member, r.reference? (names member))) =
  (property.toList.filter fun name => ¬ r.Offers name).map
      (GenerationError.invalidDefault e.name · method) ++
    if (∃ member ∈ e.members, ¬ r.Offers (names member)) ∧ ¬ ∃ name ∈ property, r.Offers name then
          [GenerationError.missingDefault e.name method]
        else [] := by
  have hany :
      (e.members.map fun member => (member, r.reference? (names member))).any (·.2.isNone) = true ↔
        ∃ member ∈ e.members, ¬ r.Offers (names member) := by
    rw [List.any_map, List.any_eq_true]
    refine exists_congr fun member => and_congr_right fun _ => ?_
    rw [← ResourceMembers.isSome_reference?_iff, Function.comp_apply, Bool.not_eq_true,
      Option.isSome_eq_false_iff]
  rw [mappingErrors]
  congr 1
  · cases property with
    | none => rfl
    | some name =>
        have hnone := isNone_bound?_bindDefault_iff (r := r) (some name)
        by_cases hoffers : r.Offers name
        · have hbound : ((bindDefault r (some name)).bound?).isSome = true := by
            rw [← Option.not_isNone, Bool.not_eq_true', ← Bool.not_eq_true, hnone]
            exact not_not.2 ⟨name, rfl, hoffers⟩
          obtain ⟨reference, hreference⟩ := Option.isSome_iff_exists.1 hbound
          rw [hreference]
          simp [bindDefault, hoffers]
        · have hbound : (bindDefault r (some name)).bound? = none := by
            rw [← Option.isNone_iff_eq_none, hnone]
            rintro ⟨_, ⟨⟩, h⟩
            exact hoffers h
          rw [hbound]
          simp [bindDefault, hoffers]
  · refine if_congr ?_ rfl rfl
    rw [Bool.and_eq_true, hany, isNone_bound?_bindDefault_iff]

/-- No value is bound exactly if none has a property. -/
theorem isEmpty_boundMembers_iff (members : List String) :
    (boundMembers (members.map fun member => (member, r.reference? (names member)))).isEmpty =
        true ↔
      ∀ member ∈ members, ¬ r.Offers (names member) := by
  have hmap := @boundMembers_map r names members
  rw [List.isEmpty_iff,
    ← List.map_eq_nil_iff (f := fun b => (b.member, CodeText.ofString b.reference)), hmap,
    List.map_eq_nil_iff, List.filter_eq_nil_iff]
  exact forall₂_congr fun member _ => not_congr decide_eq_true_iff

variable {request : Request} {nameFormat methodName : String}

/-- The template that a request is resolved with. -/
def Request.template (request : Request) (nameFormat : String) : CodeText :=
  (request.given? nameFormatKey).getD (.ofString nameFormat)

/-- The name of the method that a request is resolved with. -/
def Request.method (request : Request) (methodName : String) : CodeText :=
  (request.given? methodNameKey).getD (.ofString methodName)

/-- A request of texts is resolved once its values are bound. -/
theorem resolve_eq (hnamed : request.TextsOrNull) :
    Mapping.resolve e request r nameFormat methodName =
      (bindMembers r (request.template nameFormat) e).bind fun references =>
        let d := bindDefault r (request.given? defaultPropertyKey)
        let errors := mappingErrors e.name (request.method methodName) d references
        .ok (if e.members.isEmpty || ((boundMembers references).isEmpty && d.bound?.isNone) then
            (none, errors)
          else
            (some ⟨e, request.variant, request.method methodName, d, boundMembers references⟩,
              errors)) := by
  rw [Mapping.resolve, Request.nameFormat, Request.methodName, Request.defaultProperty,
    Request.textOf_of_textsOrNull hnamed, Request.textOf_of_textsOrNull hnamed,
    Request.textOf_of_textsOrNull hnamed]
  change (bindMembers r (request.template nameFormat) e >>= fun references =>
    if (_ : Bool) = true then Except.ok (none, _) else Except.ok (some _, _)) = _
  cases bindMembers r (request.template nameFormat) e with
  | error f => rfl
  | ok references =>
      change (if _ then Except.ok _ else Except.ok _) = Except.ok _
      split
      · rfl
      · rfl

/-- **A request leads to the mapping and the errors described**, if the template makes names of the
values. -/
theorem resolve_of_names (hnamed : request.TextsOrNull)
    (hnames : ∀ member ∈ e.members,
      formatName (request.template nameFormat) e.name member = .ok (names member)) :
    ∃ mapping errors, Mapping.resolve e request r nameFormat methodName = .ok (mapping, errors) ∧
      IsResolution e request.variant r (request.given? defaultPropertyKey)
        (request.method methodName) names mapping errors := by
  have hnothing : (e.members.isEmpty || ((boundMembers (e.members.map fun member =>
      (member, r.reference? (names member)))).isEmpty &&
        (bindDefault r (request.given? defaultPropertyKey)).bound?.isNone)) = true ↔
      e.members = [] ∨ (∀ member ∈ e.members, ¬ r.Offers (names member)) ∧
        ¬ ∃ name ∈ request.given? defaultPropertyKey, r.Offers name := by
    rw [Bool.or_eq_true, Bool.and_eq_true, isEmpty_boundMembers_iff, isNone_bound?_bindDefault_iff,
      List.isEmpty_iff]
  have herrors := @mappingErrors_of_names e r names (request.given? defaultPropertyKey)
    (request.method methodName)
  rw [resolve_eq hnamed, bindMembers_of_names hnames]
  simp only [Except.bind]
  split
  · next h =>
    refine ⟨none, _, rfl, ?_⟩
    exact { errors_eq := herrors, mapping_eq_none_iff := ⟨fun _ => hnothing.1 h, fun _ => rfl⟩,
            head_eq := fun _ hm => (Option.not_mem_none _ hm).elim,
            bindings_eq := fun _ hm => (Option.not_mem_none _ hm).elim,
            default_eq := fun _ hm => (Option.not_mem_none _ hm).elim }
  · next h =>
    refine ⟨some _, _, rfl, ?_⟩
    refine { errors_eq := herrors,
             mapping_eq_none_iff := ⟨by rintro ⟨⟩, fun hno => absurd (hnothing.2 hno) h⟩,
             head_eq := ?_, bindings_eq := ?_, default_eq := ?_ }
    · rintro _ ⟨⟩
      exact ⟨rfl, rfl, rfl⟩
    · rintro _ ⟨⟩
      exact boundMembers_map _
    · rintro _ ⟨⟩
      exact ⟨rfl, bound?_bindDefault_map _⟩

/-- A request of texts fails exactly if its values are not bound. -/
theorem resolve_eq_error_iff (hnamed : request.TextsOrNull)
    (hshort : ShortDigitRuns (request.template nameFormat)) {failure : Failure} :
    Mapping.resolve e request r nameFormat methodName = .error failure ↔ e.members ≠ [] ∧
      ∃ f, FirstFault (request.template nameFormat) f ∧
        failure = .template (request.template nameFormat) f := by
  rw [resolve_eq hnamed, ← bindMembers_eq_error_iff hshort r e]
  cases bindMembers r (request.template nameFormat) e with
  | error f =>
      simp only [Except.bind, Except.error.injEq]
  | ok references => exact iff_of_false (ok_ne_error _ _) (ok_ne_error _ _)

/-- A request of texts fails in one of some categories exactly if its template does. -/
theorem exists_resolve_eq_error_iff (hnamed : request.TextsOrNull)
    (hshort : ShortDigitRuns (request.template nameFormat)) (P : FailureCategory → Prop) :
    (∃ f, Mapping.resolve e request r nameFormat methodName = .error f ∧ P f.category) ↔
      e.members ≠ [] ∧
      ∃ f, FirstFault (request.template nameFormat) f ∧
        P (Failure.template (request.template nameFormat) f).category := by
  simp only [resolve_eq_error_iff hnamed hshort]
  constructor
  · rintro ⟨_, ⟨hne, f, hf, rfl⟩, hP⟩
    exact ⟨hne, f, hf, hP⟩
  · rintro ⟨hne, f, hf, hP⟩
    exact ⟨_, ⟨hne, f, hf, rfl⟩, hP⟩

/-- **What a request of texts leads to.**  If the template makes names of all values, to the mapping
and the errors described.  Otherwise the failure is one of bad data exactly if the enum has a value
and the first thing wrong with the template is a stray brace or an index above 1; a template that is
malformed or refers to an index above 1 has such a place, but a width past all bounds may stand in
front of it, and fails in another category. -/
theorem resolve_outcome (e : EnumView) (request : Request) (r : ResourceMembers)
    (nameFormat methodName : String) (hnamed : request.TextsOrNull) :
    (∀ names : String → CodeText,
      (∀ member ∈ e.members,
          formatName (request.template nameFormat) e.name member = .ok (names member)) →
        ∃ mapping errors,
          Mapping.resolve e request r nameFormat methodName = .ok (mapping, errors) ∧
          IsResolution e request.variant r (request.given? defaultPropertyKey)
            (request.method methodName) names mapping errors) ∧
    (ShortDigitRuns (request.template nameFormat) →
      ((∃ f, Mapping.resolve e request r nameFormat methodName = .error f ∧
          f.category = .attributeData) ↔
        e.members ≠ [] ∧ FirstFaulty (request.template nameFormat)) ∧
      ((∃ f, Mapping.resolve e request r nameFormat methodName = .error f ∧
          f.category ≠ .attributeData) ↔
        e.members ≠ [] ∧ FirstWide (request.template nameFormat)) ∧
      (NoWideItem (request.template nameFormat) →
        ((∃ f, Mapping.resolve e request r nameFormat methodName = .error f ∧
            f.category = .attributeData) ↔ e.members ≠ [] ∧
          (¬ WellFormedTemplate (request.template nameFormat) ∨
            RefersAbove (request.template nameFormat))))) := by
  refine ⟨fun names hnames => resolve_of_names hnamed hnames, fun hshort => ?_⟩
  have hbad : (∃ f, Mapping.resolve e request r nameFormat methodName = .error f ∧
        f.category = .attributeData) ↔
      e.members ≠ [] ∧ FirstFaulty (request.template nameFormat) := by
    rw [exists_resolve_eq_error_iff hnamed hshort (· = .attributeData),
      firstFault_attributeData_iff]
  refine ⟨hbad, ?_, fun hwide => ?_⟩
  · rw [exists_resolve_eq_error_iff hnamed hshort (· ≠ .attributeData), firstFault_width_iff]
  · rw [hbad, malformed_or_refersAbove_iff]
    refine and_congr_right fun _ => ⟨?_, ?_⟩
    · rintro ⟨parts, rest, ht, -, hfaulty⟩
      exact ⟨parts, rest, ht, hfaulty⟩
    · rintro ⟨parts, rest, ht, hfaulty⟩
      exact firstFaulty_of_noWideItem hwide ht hfaulty

end Resolution

/-- An item with the first argument, and a width past all machine integers. -/
def wideItem : WrittenItem where
  index := .ofString "0"
  alignment := some
    { blanks := [], toLeft := false, width := .ofString "9223372036854775808",
      blank := List.forall_mem_nil _, digits := ⟨List.cons_ne_nil _ _, by decide⟩ }
  format := none
  digits := ⟨List.cons_ne_nil _ _, by decide⟩
  plain := fun _ hf => (Option.not_mem_none _ hf).elim

/-- An item with an argument that is not there. -/
def thirdItem : WrittenItem where
  index := .ofString "2"
  alignment := none
  format := none
  digits := ⟨List.cons_ne_nil _ _, by decide⟩
  plain := fun _ hf => (Option.not_mem_none _ hf).elim

/-- A request with both items in its template. -/
def wideRequest : Request where
  variant := .literal
  resource := "R"
  named := [(nameFormatKey, .text (writeTemplate [.item wideItem, .item thirdItem]))]

/-- A template that refers to an index above 1 may fail for a width in front of it. -/
theorem resolve_outcome_wide : RefersAbove (wideRequest.template "") ∧
    ∃ f,
      Mapping.resolve ⟨"E", "", .publicLevel, ["A"], "E", none⟩ wideRequest ⟨"R", []⟩ "" "" =
        .error f ∧ f.category ≠ .attributeData := by
  have hnamed : wideRequest.TextsOrNull := by
    intro entry hentry
    rw [List.mem_singleton.1 hentry]
    exact .inr ⟨_, rfl⟩
  have htemplate : wideRequest.template "" = writeTemplate [.item wideItem, .item thirdItem] := by
    decide
  have hshort : ShortDigitRuns (wideRequest.template "") := by
    intro run _ hrun
    refine hrun.length_le.trans ?_
    rw [htemplate]
    decide
  have hwide : FirstWide (wideRequest.template "") := by
    refine ⟨[], wideItem, (TemplatePart.item thirdItem).text, htemplate, List.forall_mem_nil _, ?_,
      _, rfl, ?_⟩
    · decide
    · decide
  refine ⟨⟨[.item wideItem], thirdItem, [], htemplate, by decide⟩, ?_⟩
  obtain ⟨-, houtcome⟩ :=
    resolve_outcome ⟨"E", "", .publicLevel, ["A"], "E", none⟩ wideRequest ⟨"R", []⟩ "" "" hnamed
  obtain ⟨-, hother, -⟩ := houtcome hshort
  exact hother.2 ⟨List.cons_ne_nil _ _, hwide⟩

end LocalisedEnum

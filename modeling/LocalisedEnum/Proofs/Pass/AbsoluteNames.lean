import LocalisedEnum.Declaration.Walk
import LocalisedEnum.Proofs.Pass.Parts
import LocalisedEnum.Proofs.Pass.Resolution

/-!
**Absolute names of resource types.**

A name with the mark of absolute names is to be looked up as it is written, and the lookup of types
keeps to that when it gets the mark to see.  It does not get to see it in `typeof(…)`: the value of
such an argument is the name without the mark, which from then on is a name like any other.  So the
types around the enum are tried first, and the imported namespaces last.

Main definitions:

* `AbsoluteArgument` — an attribute that gives the type of an absolute name as an argument;
* `Declared` — a qualified name that is declared;
* `nearerNames`, `importedNames` — what is tried before and after the name as it is written;
* `Captured` — another type is in the way of the one that the name was written for.

Main results:

* `resource_of_absoluteArgument` — the request of such an attribute is for the name without the
  mark;
* `findType_eq_get?_iff` — **a name finds the type of just that name** unless another one is in the
  way;
* `processAttribute_absolute` — the resource type of an absolute name.
-/

set_option autoImplicit false
set_option relaxedAutoImplicit false

namespace LocalisedEnum

/-! ### Absolute names as arguments -/

/-- An attribute that gives the type of an absolute name as an argument. -/
inductive AbsoluteArgument (ts : List Token) (name : String) : Prop
  | mk {written full : String} {afterName afterTypes rest argument inside : List Token}
      {arguments : List (List Token)} (hname : qualifiedName ts = .ok (written, afterName))
      (htypes : withTypeArguments written afterName = .ok (full, afterTypes))
      (harguments : readArgumentList afterTypes = .ok (arguments, rest))
      (hargument : argument ∈ arguments) (hoperand : operand? "typeof" argument = some inside)
      (hmark : joinTokens inside = globalMark ++ name)

/-- The value of the type of an absolute name is the name without the mark. -/
theorem evaluate_absolute {argument inside : List Token} {name : String}
    (hoperand : operand? "typeof" argument = some inside)
    (hmark : joinTokens inside = globalMark ++ name) : evaluate argument = .ok (.typeOf name) := by
  have hname : withoutStart globalMark (globalMark ++ name) = name := by
    rw [withoutStart, afterStart?, String.toList_append, dropStart?_append, Option.map_some,
      Option.getD_some, String.ofList_toList]
  have htype : typeOperand? argument = some name := by
    rw [typeOperand?, hoperand, Option.map_some, hmark, hname]
  unfold evaluate
  rw [htype]

/-- Such an argument is a positional one. -/
theorem withArgument_absolute (a : Attribute) {argument inside : List Token} {name : String}
    (hoperand : operand? "typeof" argument = some inside)
    (hmark : joinTokens inside = globalMark ++ name) :
    a.withArgument argument = .ok { a with positional := a.positional ++ [.typeOf name] } := by
  have hvalue := evaluate_absolute hoperand hmark
  match argument, hoperand with
  | t :: opening :: rest, hoperand =>
      rw [operand?] at hoperand
      split at hoperand
      · next hshape =>
        obtain ⟨_, hopening, _⟩ := hshape
        have hequals : ¬ (t.kind = .identifier ∧ opening.text = "=") := by simp [hopening]
        have hcolon : ¬ (t.kind = .identifier ∧ opening.text = ":") := by simp [hopening]
        rw [Attribute.withArgument, if_neg hequals, if_neg hcolon, hvalue]
        rfl
      · cases hoperand

/-- An argument leaves the positional ones in front of it. -/
theorem positional_withArgument {a a' : Attribute} {argument : List Token}
    (h : a.withArgument argument = .ok a') {value : ArgumentValue} (hvalue : value ∈ a.positional) :
    value ∈ a'.positional := by
  rw [Attribute.withArgument.eq_def] at h
  split at h
  · split at h
    · obtain ⟨_, _, h⟩ := bind_eq_ok.1 h
      cases h
      exact hvalue
    · split at h <;>
      · obtain ⟨_, _, h⟩ := bind_eq_ok.1 h
        cases h
        exact List.mem_append_left _ hvalue
  · obtain ⟨_, _, h⟩ := bind_eq_ok.1 h
    cases h
    exact List.mem_append_left _ hvalue

theorem positional_withArguments {a a' : Attribute} {arguments : List (List Token)}
    (h : arguments.foldlM Attribute.withArgument a = .ok a') {value : ArgumentValue}
    (hvalue : value ∈ a.positional) : value ∈ a'.positional := by
  induction arguments generalizing a with
  | nil =>
      cases h
      exact hvalue
  | cons argument arguments ih =>
      rw [List.foldlM_cons] at h
      obtain ⟨next, hnext, h⟩ := bind_eq_ok.1 h
      exact ih h (positional_withArgument hnext hvalue)

theorem typeOf_mem_withArguments {a a' : Attribute} {arguments : List (List Token)}
    (h : arguments.foldlM Attribute.withArgument a = .ok a') {argument inside : List Token}
    {name : String} (hargument : argument ∈ arguments)
    (hoperand : operand? "typeof" argument = some inside)
    (hmark : joinTokens inside = globalMark ++ name) : .typeOf name ∈ a'.positional := by
  induction arguments generalizing a with
  | nil => cases hargument
  | cons first arguments ih =>
      rw [List.foldlM_cons] at h
      obtain ⟨next, hnext, h⟩ := bind_eq_ok.1 h
      rcases List.mem_cons.1 hargument with rfl | hargument
      · rw [withArgument_absolute a hoperand hmark] at hnext
        cases hnext
        exact positional_withArguments h (List.mem_append_right _ (List.mem_singleton_self _))
      · exact ih h hargument

theorem typeOf_mem_of_absoluteArgument {path : String} {ts rest : List Token} {a : Attribute}
    {name : String} (hread : readAttribute path ts = .ok (a, rest))
    (habsolute : AbsoluteArgument ts name) : .typeOf name ∈ a.positional := by
  obtain ⟨hname, htypes, harguments, hargument, hoperand, hmark⟩ := habsolute
  simp only [readAttribute, hname, htypes, harguments, bind, Except.bind] at hread
  split at hread
  · cases hread
  · next full hfull =>
    cases hread
    rw [orEscapeFault_eq_ok] at hfull
    exact typeOf_mem_withArguments hfull hargument hoperand hmark

/-- **The request** of an attribute that gives the type of an absolute name is for the name without
the mark. -/
theorem resource_of_absoluteArgument {path : String} {ts rest : List Token} {a : Attribute}
    {name : String} (hread : readAttribute path ts = .ok (a, rest))
    (habsolute : AbsoluteArgument ts name) {c : Compilation} {context : LookupContext}
    {order : KeyOrder} {v : Variant} {request : Request}
    (hrequest : Request.ofAttribute order v (bindConstants c context a) = .ok request) :
    request.resource = name := by
  have hmem := typeOf_mem_of_absoluteArgument hread habsolute
  have halone := eq_singleton_of_resourceOf (resourceOf_of_ofAttribute hrequest)
  change a.positional = _ at halone
  rw [halone, List.mem_singleton] at hmem
  cases hmem
  rfl

/-! ### Names in the way -/

/-- A qualified name that is declared. -/
def Declared (c : Compilation) (name : String) : Prop :=
  ∃ t ∈ c.types, t.qualifiedName = name

theorem isSome_get?_iff {c : Compilation} {name : String} :
    (c.typeIndex.get? name).isSome ↔ Declared c name := by
  rw [get?_typeIndex]
  cases hparts : partsOf c.types name with
  | nil =>
      refine ⟨fun h => (nomatch h), ?_⟩
      rintro ⟨t, ht⟩
      exact absurd (hparts ▸ mem_partsOf.2 ht) List.not_mem_nil
  | cons t parts =>
      have ht : t ∈ partsOf c.types name := hparts ▸ List.mem_cons_self
      exact ⟨fun _ => ⟨t, mem_partsOf.1 ht⟩, fun _ => rfl⟩

theorem get?_eq_none_iff {c : Compilation} {name : String} :
    c.typeIndex.get? name = none ↔ ¬ Declared c name := by
  rw [← isSome_get?_iff, Option.not_isSome_iff_eq_none]

/-- What a name is tried as before it is taken as it is written. -/
def nearerNames (name : String) (context : LookupContext) : List String :=
  (outwards context.containingTypes).map
      (fun outer => joinDots (namespacePart context.namespaceName ++ outer ++ [name])) ++
    (outwards (namespaceSegments context.namespaceName)).map
      (fun outer => joinDots (outer ++ [name]))

/-- What a name is tried as after it has been taken as it is written. -/
def importedNames (c : Compilation) (name : String) (context : LookupContext) : List String :=
  (context.usings ++ c.globalUsings).eraseDups.map (· ++ "." ++ name)

theorem joinDots_concat {segments : List String} (h : segments ≠ []) (name : String) :
    joinDots (segments ++ [name]) = joinDots segments ++ "." ++ name := by
  rw [joinDots, joinWith, String.intercalate_append_of_ne_nil h (List.cons_ne_nil _ _),
    String.intercalate_singleton]
  rfl

theorem ne_nil_of_mem_outwards {α : Type} {xs outer : List α} (h : outer ∈ outwards xs) :
    outer ≠ [] := by
  induction xs generalizing outer with
  | nil => cases h
  | cons x xs ih =>
      rcases List.mem_append.1 h with h | h
      · obtain ⟨rest, _, rfl⟩ := List.mem_map.1 h
        exact List.cons_ne_nil _ _
      · rw [List.mem_singleton.1 h]
        exact List.cons_ne_nil _ _

theorem exists_lead_of_mem_nearerNames {name other : String} {context : LookupContext}
    (h : other ∈ nearerNames name context) : ∃ lead, other = lead ++ "." ++ name := by
  rcases List.mem_append.1 h with h | h
  · obtain ⟨outer, houter, rfl⟩ := List.mem_map.1 h
    exact ⟨_,
      joinDots_concat (List.append_ne_nil_of_right_ne_nil _ (ne_nil_of_mem_outwards houter)) name⟩
  · obtain ⟨outer, houter, rfl⟩ := List.mem_map.1 h
    exact ⟨_, joinDots_concat (ne_nil_of_mem_outwards houter) name⟩

theorem append_ne_self {lead name : String} (h : lead ≠ "") : lead ++ name ≠ name := by
  intro hname
  exact h (by simpa using congrArg String.length hname)

/-- **Another type is in the way**: one that is tried before the name as it is written, or, where
nothing is declared under the name itself, one of an imported namespace.  A name that has the mark
once more stands for something else in any case. -/
inductive Captured (c : Compilation) (context : LookupContext) (name : String) : Prop
  | nearer {other : String} (hmark : afterStart? globalMark name = none)
      (hother : other ∈ nearerNames name context) (hdeclared : Declared c other) :
      Captured c context name
  | imported {other : String} (hmark : afterStart? globalMark name = none)
      (hundeclared : ¬ Declared c name) (hother : other ∈ importedNames c name context)
      (hdeclared : Declared c other) : Captured c context name
  | marked {absolute : String} (hmark : afterStart? globalMark name = some absolute)
      (hdeclared : Declared c absolute ∨ Declared c name) : Captured c context name

theorem eq_append_of_afterStart? {opening s rest : String} (h : afterStart? opening s = some rest) :
    s = opening ++ rest := by
  obtain ⟨tail, htail, rfl⟩ := Option.map_eq_some_iff.1 h
  rw [dropStart?_eq_some_iff] at htail
  rw [← String.toList_inj, htail, String.toList_append, String.toList_ofList]

/-- A name without the mark is tried with what is nearer, as it is written, and with what is
imported. -/
theorem findType_of_unmarked (c : Compilation) {name : String} (context : LookupContext)
    (hmark : afterStart? globalMark name = none) :
    c.findType name context = ((nearerNames name context).findSome? c.typeIndex.get?).or
      ((c.typeIndex.get? name).or ((importedNames c name context).findSome? c.typeIndex.get?)) := by
  simp only [Compilation.findType, hmark, candidateNames, nearerNames, importedNames,
    List.findSome?_append, List.findSome?_singleton, Option.or_assoc]

theorem findSome?_get?_eq_none {c : Compilation} {names : List String}
    (h : ∀ other ∈ names, ¬ Declared c other) : names.findSome? c.typeIndex.get? = none :=
  List.findSome?_eq_none_iff.2 fun other hother => get?_eq_none_iff.2 (h other hother)

theorem exists_findSome?_get? {c : Compilation} {names : List String} {other : String}
    (hother : other ∈ names) (hdeclared : Declared c other) :
    ∃ found t, found ∈ names ∧ names.findSome? c.typeIndex.get? = some t ∧
      t.qualifiedName = found := by
  cases hfind : names.findSome? c.typeIndex.get? with
  | none =>
      exact absurd hdeclared (get?_eq_none_iff.1 (List.findSome?_eq_none_iff.1 hfind other hother))
  | some t =>
      obtain ⟨found, hfound, ht⟩ := List.exists_of_findSome?_eq_some hfind
      exact ⟨found, t, hfound, rfl, qualifiedName_of_get? ht⟩

/-- Where another type is in the way, a name does not find the type of just that name. -/
theorem findType_of_captured {c : Compilation} {context : LookupContext} {name : String}
    (h : Captured c context name) : c.findType name context ≠ c.typeIndex.get? name := by
  intro hfind
  cases h with
  | nearer hmark hother hdeclared =>
      obtain ⟨found, t, hfound, ht, htname⟩ := exists_findSome?_get? hother hdeclared
      obtain ⟨lead, hlead⟩ := exists_lead_of_mem_nearerNames hfound
      rw [findType_of_unmarked c context hmark, ht, Option.some_or] at hfind
      have hname := htname.symm.trans (qualifiedName_of_get? hfind.symm)
      exact append_ne_self (by simp) (hlead.symm.trans hname)
  | imported hmark hundeclared hother hdeclared =>
      obtain ⟨found, t, hfound, ht, htname⟩ := exists_findSome?_get? hother hdeclared
      rw [findType_of_unmarked c context hmark, get?_eq_none_iff.2 hundeclared, Option.none_or,
        ht] at hfind
      cases (Option.or_eq_none_iff.1 hfind).2
  | @marked absolute hmark hdeclared =>
      have hname : name = globalMark ++ absolute := eq_append_of_afterStart? hmark
      have hsame : c.typeIndex.get? absolute = c.typeIndex.get? name := by
        simpa only [Compilation.findType, hmark] using hfind
      have hsome : (c.typeIndex.get? name).isSome := by
        rcases hdeclared with hdeclared | hdeclared
        · rw [← hsame]
          exact isSome_get?_iff.2 hdeclared
        · exact isSome_get?_iff.2 hdeclared
      obtain ⟨t, ht⟩ := Option.isSome_iff_exists.1 hsome
      have hnames := (qualifiedName_of_get? (hsame.trans ht)).symm.trans (qualifiedName_of_get? ht)
      exact append_ne_self (by decide) (hname.symm.trans hnames.symm)

/-- **A name finds the type of just that name**, or none where there is none, unless another one is
in the way. -/
theorem findType_eq_get?_iff (c : Compilation) (context : LookupContext) (name : String) :
    c.findType name context = c.typeIndex.get? name ↔ ¬ Captured c context name := by
  refine ⟨fun hfind hcaptured => findType_of_captured hcaptured hfind, fun hfree => ?_⟩
  cases hmark : afterStart? globalMark name with
  | some absolute =>
      have habsolute : ¬ Declared c absolute := fun h => hfree (.marked hmark (.inl h))
      have hname : ¬ Declared c name := fun h => hfree (.marked hmark (.inr h))
      simp only [Compilation.findType, hmark, get?_eq_none_iff.2 habsolute,
        get?_eq_none_iff.2 hname]
  | none =>
      rw [findType_of_unmarked c context hmark,
        findSome?_get?_eq_none fun other hother hdeclared => hfree (.nearer hmark hother hdeclared),
        Option.none_or]
      by_cases hname : Declared c name
      · obtain ⟨t, ht⟩ := Option.isSome_iff_exists.1 (isSome_get?_iff.2 hname)
        rw [ht, Option.some_or]
      · rw [findSome?_get?_eq_none fun other hother hdeclared =>
            hfree (.imported hmark hname hother hdeclared), Option.or_none]

/-! ### The resource type of an absolute name -/

/-- **The resource type of an absolute name.**  An attribute that gives the type of an absolute name
is processed with the members of the type that the name without the mark finds at the enum.  That is
the type of just that name, or none where nothing of that name is declared, exactly when no other
type is in the way. -/
theorem processAttribute_absolute {path : String} {ts rest : List Token} {a : Attribute}
    {name : String} (hread : readAttribute path ts = .ok (a, rest))
    (habsolute : AbsoluteArgument ts name) (settings : Settings) (c : Compilation)
    (e : EnumDeclaration) {v : Variant} {request : Request}
    (hrequest : Request.ofAttribute settings.keyOrder v (bindConstants c e.context a) =
      .ok request) :
    (processAttribute settings c e v a).2 = Mapping.resolve e.view request
      (resourceMembers c e.context name) settings.nameFormat settings.methodName ∧
    (c.findType name e.context = c.typeIndex.get? name ↔ ¬ Captured c e.context name) := by
  refine ⟨?_, findType_eq_get?_iff c e.context name⟩
  simp only [processAttribute, hrequest, resource_of_absoluteArgument hread habsolute hrequest]

/-- An enum for an absolute name, and a type of the same simple name in the namespace of the
enum. -/
def shadowText : String :=
  "namespace N \x7b [WithLiteralLocalisation(typeof(global::R))] public enum E \x7b A \x7d " ++
    "public class R \x7b public static string EADescription \x7b get; \x7d \x7d \x7d " ++
    "public class R \x7b \x7d"

/-- The tokens of the attribute in this text. -/
def shadowTokens : List Token :=
  [⟨.identifier, "WithLiteralLocalisation", 1, 16⟩, ⟨.operator, "(", 1, 39⟩,
    ⟨.identifier, "typeof", 1, 40⟩, ⟨.operator, "(", 1, 46⟩, ⟨.identifier, "global", 1, 47⟩,
    ⟨.operator, "::", 1, 53⟩, ⟨.identifier, "R", 1, 55⟩, ⟨.operator, ")", 1, 56⟩,
    ⟨.operator, ")", 1, 57⟩]

/-- The attribute of the enum in this text. -/
def shadowAttribute : Attribute :=
  ⟨"WithLiteralLocalisation", [.typeOf "R"], [], some ⟨"File0.cs", 1, 16⟩⟩

/-- The enum in this text. -/
def shadowEnum : EnumDeclaration where
  name := "E"
  namespaceName := "N"
  accessibility := .publicLevel
  members := ["A"]
  attributes := [shadowAttribute]
  containingTypes := []
  location := ⟨"File0.cs", 1, 15⟩
  usings := []

/-- The type in the namespace of the enum. -/
def nearType : TypeDeclaration where
  name := "R"
  namespaceName := "N"
  kind := "class"
  accessibility := .publicLevel
  properties := [⟨"EADescription", "string", true⟩]
  containingTypes := []
  location := ⟨"File0.cs", 1, 80⟩
  constants := []

/-- The declarations of this text. -/
def shadowFile : SourceFile where
  path := "File0.cs"
  usings := []
  globalUsings := []
  enums := [shadowEnum]
  types := [nearType,
    { nearType with namespaceName := "", properties := [], location := ⟨"File0.cs", 1, 145⟩ }]

/-- The type in the namespace of the enum is in the way: its string is taken, and it is not asked
whether the type of the name as it is written has one. -/
theorem processAttribute_absolute_shadow : readSource shadowFile.path shadowText = .ok shadowFile ∧
    ((tokenise shadowText).drop 4).take 9 = shadowTokens ∧
    readAttribute shadowFile.path shadowTokens = .ok (shadowAttribute, []) ∧
    AbsoluteArgument shadowTokens "R" ∧
    Request.ofAttribute .listed .literal
        (bindConstants ⟨[shadowFile]⟩ shadowEnum.context shadowAttribute) =
      .ok ⟨.literal, "R", []⟩ ∧
    (processAttribute .standard ⟨[shadowFile]⟩ shadowEnum .literal shadowAttribute).2 =
      Mapping.resolve shadowEnum.view ⟨.literal, "R", []⟩ ⟨"N.R", ["EADescription"]⟩
        Settings.standard.nameFormat Settings.standard.methodName ∧
    Captured ⟨[shadowFile]⟩ shadowEnum.context "R" ∧
    Compilation.findType ⟨[shadowFile]⟩ "R" shadowEnum.context ≠
      (Compilation.typeIndex ⟨[shadowFile]⟩).get? "R" := by
  have hread : readAttribute shadowFile.path shadowTokens = .ok (shadowAttribute, []) := by
    decide +kernel
  have habsolute : AbsoluteArgument shadowTokens "R" :=
    @AbsoluteArgument.mk _ _ "WithLiteralLocalisation" "WithLiteralLocalisation"
      (shadowTokens.drop 1) (shadowTokens.drop 1) [] ((shadowTokens.drop 2).take 6)
      ((shadowTokens.drop 4).take 3) [(shadowTokens.drop 2).take 6] (by decide +kernel)
      (by decide +kernel) (by decide +kernel) (List.mem_singleton_self _) (by decide +kernel)
      (by decide +kernel)
  have hrequest : Request.ofAttribute .listed .literal
        (bindConstants ⟨[shadowFile]⟩ shadowEnum.context shadowAttribute) =
      .ok ⟨.literal, "R", []⟩ := by
    decide +kernel
  have hcaptured : Captured ⟨[shadowFile]⟩ shadowEnum.context "R" :=
    @Captured.nearer _ _ _ "N.R" (by decide) (by decide) ⟨nearType, List.mem_cons_self, rfl⟩
  have hmembers : resourceMembers ⟨[shadowFile]⟩ shadowEnum.context "R" =
      ⟨"N.R", ["EADescription"]⟩ := by
    decide +kernel
  obtain ⟨hprocess, hfind⟩ :=
    processAttribute_absolute hread habsolute .standard ⟨[shadowFile]⟩ shadowEnum hrequest
  rw [hmembers] at hprocess
  exact ⟨by decide +kernel, by decide +kernel, hread, habsolute, hrequest, hprocess, hcaptured,
    fun h => hfind.1 h hcaptured⟩

end LocalisedEnum

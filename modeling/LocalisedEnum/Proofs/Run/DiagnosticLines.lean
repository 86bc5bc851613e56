import LocalisedEnum.Proofs.Localisation.OneLine
import LocalisedEnum.Proofs.Pass.Outcomes
import LocalisedEnum.Proofs.Run.Generation

/-!
**One line for each diagnostic.**

A pass prints each diagnostic with a line feed behind it, and whoever reads the output takes it
apart at the ends of its lines.  The diagnostics come back exactly if none of them ends a line on
its own.  That is up to the texts that the messages show openly, among them the name of a default
property that is not there, which an attribute may write with a line feed in it.  Names of methods
and templates are quoted where they are found fault with, and do no harm there.

Main definitions:

* `CodeText.lines` — the lines of a text, as they are read;
* `shownTexts` — what the diagnostics of an enum show openly;
* `SaysOneLine` — nothing that an enum says ends a line.

Main results:

* `lines_diagnosticLines_iff` — a pass is **read as its diagnostics** exactly if they are on one
  line each;
* `SaysOneLine.shownTexts` — where nothing that an enum says ends a line, its diagnostics show
  nothing that does;
* `runPass_lines` — **which diagnostics of a pass are on one line**, and when its output is read as
  they are.
-/

set_option autoImplicit false
set_option relaxedAutoImplicit false

namespace LocalisedEnum

/-! ### Lines of a text -/

namespace CodeText

/-- Puts a code point in front of the first line; without one it is a line of its own. -/
def extendFirst (p : CodePoint) : List CodeText → List CodeText
  | [] => [[p]]
  | line :: rest => (p :: line) :: rest

/-- The lines of a text, without their ends.  A carriage return in front of a line feed ends no line
of its own, and what stands behind the last end is a line only if there is something. -/
def lines : CodeText → List CodeText
  | [] => []
  | p :: rest =>
    if p = .scalar '\r' ∧ rest.head? = some (.scalar '\n') then lines rest
    else if p.isLineEnd then [] :: lines rest
    else extendFirst p (lines rest)

/-- No line ends before its end. -/
theorem oneLine_of_mem_lines {t line : CodeText} (h : line ∈ lines t) : CodeText.OneLine line := by
  induction t generalizing line with
  | nil => cases h
  | cons p rest ih =>
      rw [lines] at h
      split at h
      · exact ih h
      · split at h
        · rcases List.mem_cons.1 h with rfl | h
          · exact List.forall_mem_nil _
          · exact ih h
        · next hp =>
          rw [Bool.not_eq_true] at hp
          cases hlines : lines rest with
          | nil =>
              rw [hlines] at h
              rw [List.mem_singleton.1 h]
              exact List.forall_mem_singleton.2 hp
          | cons first others =>
              rw [hlines] at h ih
              rcases List.mem_cons.1 h with rfl | h
              · exact List.forall_mem_cons.2 ⟨hp, ih List.mem_cons_self⟩
              · exact ih (List.mem_cons_of_mem _ h)

/-- A text on one line is the line in front of the line feed behind it. -/
theorem lines_append_lineFeed {t : CodeText} (h : CodeText.OneLine t) (rest : CodeText) :
    lines (t ++ ofString "\n" ++ rest) = t :: lines rest := by
  rw [List.append_assoc]
  induction t with
  | nil => rfl
  | cons p t ih =>
      obtain ⟨hp, ht⟩ := List.forall_mem_cons.1 h
      have hreturn : ¬
          (p = .scalar '\r' ∧ (t ++ (ofString "\n" ++ rest)).head? = some (.scalar '\n')) := by
        rintro ⟨rfl, -⟩
        exact absurd hp (by decide)
      rw [List.cons_append, lines, if_neg hreturn, if_neg (by rw [hp]; exact Bool.false_ne_true),
        ih ht]
      rfl

/-- Texts on one line each, each with a line feed behind it, are read as they are. -/
theorem lines_flatMap_lineFeed {ts : List CodeText} (h : ∀ t ∈ ts, CodeText.OneLine t) :
    lines (ts.flatMap fun t => t ++ ofString "\n") = ts := by
  induction ts with
  | nil => rfl
  | cons t ts ih =>
      rw [List.flatMap_cons, lines_append_lineFeed (h t List.mem_cons_self),
        ih fun t ht => h t (List.mem_cons_of_mem _ ht)]

end CodeText

/-- **A pass is read as its diagnostics** exactly if they are on one line each. -/
theorem lines_diagnosticLines_iff (r : PassResult) :
    CodeText.lines (diagnosticLines r) = r.diagnostics.sorted.map Diagnostic.text ↔
      ∀ d ∈ r.diagnostics.items, CodeText.OneLine d.text := by
  have hmem : ∀ d, d ∈ r.diagnostics.sorted ↔ d ∈ r.diagnostics.items := fun d => List.mem_mergeSort
  constructor
  · intro h d hd
    have hline : d.text ∈ CodeText.lines (diagnosticLines r) := by
      rw [h]
      exact List.mem_map_of_mem ((hmem d).2 hd)
    exact CodeText.oneLine_of_mem_lines hline
  · intro h
    have hall : ∀ t ∈ r.diagnostics.sorted.map Diagnostic.text, CodeText.OneLine t :=
      List.forall_mem_map.2 fun d hd => h d ((hmem d).1 hd)
    have hlines := CodeText.lines_flatMap_lineFeed hall
    rwa [List.flatMap_map] at hlines

/-! ### What the diagnostics of an enum show -/

variable {settings : Settings} {c : Compilation} {e : EnumDeclaration}

/-- The texts that the diagnostics of an enum show as they are, for each diagnostic. -/
def shownTexts (settings : Settings) (c : Compilation) (e : EnumDeclaration) :
    List (List CodeText) :=
  match enumResult settings c e with
  | .error f => [f.shown]
  | .ok (_, errors) => errors.map GenerationError.shown

/-- What is wrong with an enum that is processed is what is wrong with one of its attributes. -/
theorem exists_attribute_of_mem_errors {mappings : List Mapping} {errors : List GenerationError}
    (h : enumResult settings c e = .ok (mappings, errors)) {error : GenerationError}
    (herror : error ∈ errors) :
    ∃ entry mapping more, entry.2 ∈ e.attributes ∧
      attributeResult settings c e entry = .ok (mapping, more) ∧ error ∈ more := by
  obtain ⟨attributes, hattributes, h⟩ := bind_eq_ok.1 h
  obtain ⟨results, hresults, -, rfl⟩ := processAttributes_eq_ok (Prod.ext rfl h)
  obtain ⟨result, hresult, herror⟩ := List.mem_flatMap.1 herror
  obtain ⟨entry, hmem, hentry⟩ := exists_left_of_mem hresults hresult
  exact ⟨entry, result.1, result.2, mem_of_localisationAttributes hattributes hmem, hentry, herror⟩

/-- **A diagnostic of an enum is on one line** exactly if what it shows openly is. -/
theorem forall₂_shownTexts (hpath : OneLine e.location.path) :
    List.Forall₂ (fun shown d => CodeText.OneLine d.text ↔ ∀ t ∈ shown, CodeText.OneLine t)
      (shownTexts settings c e) (processEnum settings c e).diagnostics := by
  rw [diagnostics_processEnum, shownTexts]
  cases hresult : enumResult settings c e with
  | error f =>
      have hinternal : (GenerationError.internal e.name f.description).diagnose none =
          .ok (internalDiagnostic f) :=
        rfl
      have htext := GenerationError.oneLine_text_iff hinternal (by rintro _ ⟨⟩)
      have hshown : (GenerationError.internal e.name f.description).shown = [f.description] := rfl
      rw [hshown, List.forall_mem_singleton, f.oneLine_description_iff] at htext
      exact .cons htext .nil
  | ok result =>
      obtain ⟨mappings, errors⟩ := result
      have hcodes : ∀ error ∈ errors, error.code = .missingDefault ∨
          error.code = .invalidDefault := by
        intro error herror
        obtain ⟨_, _, _, _, hentry, herror⟩ := exists_attribute_of_mem_errors hresult herror
        exact code_of_attributeResult hentry herror
      refine List.forall₂_map_left_iff.2 ((forall₂_diagnoseAll hcodes).imp ?_)
      rintro error d ⟨hd, -⟩
      exact GenerationError.oneLine_text_iff hd fun l hl => by cases hl; exact hpath

/-! ### Enums that say nothing that ends a line -/

theorem exists_mem_of_valueOf? {α : Type} {name : String} {values : List (String × α)} {value : α}
    (h : valueOf? name values = some value) : ∃ entry ∈ values, entry.2 = value := by
  obtain ⟨entry, hentry, rfl⟩ := Option.map_eq_some_iff.1 h
  exact ⟨entry, List.mem_of_find?_eq_some hentry, rfl⟩

/-- The names that a request may give values to are on one line. -/
theorem oneLine_requestKeys : ∀ key ∈ requestKeys, OneLine key := by
  decide

namespace Request

/-- The values that a request gives are shown on one line. -/
def SaysOneLine (r : Request) : Prop :=
  ∀ entry ∈ r.named, ∀ shown ∈ entry.2.display?, CodeText.OneLine shown

variable {r : Request} {key : String}

theorem SaysOneLine.of_textOf (h : r.SaysOneLine) {t : CodeText}
    (ht : r.textOf key = .ok (some t)) : CodeText.OneLine t := by
  rw [textOf] at ht
  split at ht
  · cases ht
  · cases ht
  · next given hgiven =>
    obtain ⟨entry, hentry, hvalue⟩ := exists_mem_of_valueOf? hgiven
    split at ht
    · cases ht
    · cases ht
      exact h entry hentry t (by rw [hvalue]; rfl)
  · cases ht

theorem SaysOneLine.shown_of_textOf (h : r.SaysOneLine) (hkey : key ∈ requestKeys) {f : Failure}
    (hf : r.textOf key = .error f) : ∀ t ∈ f.shown, CodeText.OneLine t := by
  rw [textOf] at hf
  split at hf
  · cases hf
  · cases hf
  · cases hf
  · next value _ _ hgiven =>
    obtain ⟨entry, hentry, hvalue⟩ := exists_mem_of_valueOf? hgiven
    cases hf
    intro t ht
    obtain ⟨shown, hshown, ht⟩ := List.mem_flatMap.1 ht
    rw [List.mem_cons, List.mem_singleton] at ht
    rcases ht with rfl | rfl
    · exact CodeText.oneLine_ofString_iff.2 (oneLine_requestKeys key hkey)
    · exact h entry hentry t (by rw [hvalue]; exact Option.mem_toList.1 hshown)

end Request

/-- **Nothing that an enum says ends a line**: its name, the names that its attributes give values
to, and the values as they are shown, with the constants that they refer to put in. -/
structure SaysOneLine (c : Compilation) (e : EnumDeclaration) : Prop where
  name : OneLine e.name
  keys : ∀ a ∈ e.attributes, ∀ entry ∈ a.named, OneLine entry.1
  positional : ∀ a ∈ e.attributes,
    ∀ value ∈ a.positional, ∀ shown ∈ value.display?, CodeText.OneLine shown
  named : ∀ a ∈ e.attributes, ∀ entry ∈ (bindConstants c e.context a).named,
    ∀ shown ∈ entry.2.display?, CodeText.OneLine shown

/-- Attributes that cannot be told apart are reported under the name of the enum. -/
theorem shown_of_collectAttributes {enumName : String} {found : List (Variant × Attribute)}
    {attributes : List Attribute} {f : Failure}
    (hf : collectAttributes enumName found attributes = .error f) :
    f.shown = [.ofString enumName] := by
  induction attributes generalizing found with
  | nil => cases hf
  | cons a rest ih =>
      rw [collectAttributes, List.foldlM_cons] at hf
      rcases bind_eq_error.1 hf with hf | ⟨next, _, hf⟩
      · generalize Variant.ofAttributeName? a.shortName = asked at hf
        cases asked with
        | none => cases hf
        | some v =>
            rw [collectAttribute] at hf
            split at hf <;> cases hf
            rfl
      · exact ih hf

theorem shown_of_resourceOf {v : Variant} {values : List ArgumentValue}
    (hvalues : ∀ value ∈ values, ∀ shown ∈ value.display?, CodeText.OneLine shown) {f : Failure}
    (hf : resourceOf v values = .error f) : ∀ t ∈ f.shown, CodeText.OneLine t := by
  rw [resourceOf.eq_def] at hf
  split at hf
  · cases hf
    exact List.forall_mem_nil _
  · cases hf
  · cases hf
    exact List.forall_mem_nil _
  · cases hf
    intro t ht
    exact hvalues _ List.mem_cons_self t (Option.mem_toList.1 ht)

theorem shown_of_ofAttribute {order : KeyOrder} {v : Variant} {a : Attribute}
    (hkeys : ∀ entry ∈ a.named, OneLine entry.1)
    (hvalues : ∀ value ∈ a.positional, ∀ shown ∈ value.display?, CodeText.OneLine shown)
    (hnamed : ∀ entry ∈ a.named, ∀ shown ∈ entry.2.display?, CodeText.OneLine shown) {f : Failure}
    (hf : Request.ofAttribute order v a = .error f) : ∀ t ∈ f.shown, CodeText.OneLine t := by
  rcases bind_eq_error.1 hf with hf | ⟨resource, _, hf⟩
  · exact shown_of_resourceOf hvalues hf
  · simp only at hf
    have hquiet : (Request.mk v resource (sortNamed a.named)).SaysOneLine := fun entry hentry =>
      hnamed entry (List.mem_mergeSort.1 hentry)
    split at hf
    · cases hf
      intro t ht
      obtain ⟨name, hname, rfl⟩ := List.mem_map.1 ht
      obtain ⟨entry, hentry, rfl⟩ :=
        List.mem_map.1 (List.mem_filter.1 (List.mem_mergeSort.1 hname)).1
      exact CodeText.oneLine_ofString_iff.2 (hkeys entry hentry)
    · rcases bind_eq_error.1 hf with hf | ⟨_, _, hf⟩
      · obtain ⟨key, hkey, hf⟩ := mapM_eq_error hf
        exact hquiet.shown_of_textOf (order.mem_keys.1 hkey) hf
      rcases bind_eq_error.1 hf with hf | ⟨asked, _, hf⟩
      · exact hquiet.shown_of_textOf (by decide) hf
      -- the name of a method that cannot be one is quoted
      split at hf
      · split at hf <;> cases hf
        exact List.forall_mem_nil _
      · cases hf

theorem shown_of_formatName {template : CodeText} {enumName valueName : String} {f : Failure}
    (hf : formatName template enumName valueName = .error f) : f.shown = [] := by
  rw [formatName] at hf
  split at hf
  · cases hf
  · cases hf
    rfl

theorem shown_of_bindMembers {r : ResourceMembers} {template : CodeText} {view : EnumView}
    {f : Failure} (hf : bindMembers r template view = .error f) : f.shown = [] := by
  obtain ⟨member, _, hf⟩ := mapM_eq_error hf
  rcases bind_eq_error.1 hf with hf | ⟨_, _, hf⟩
  · exact shown_of_formatName hf
  · cases hf

/-- What a request gives under a name, or what stands in for it, is on one line. -/
theorem Request.SaysOneLine.getD_textOf {request : Request} (h : request.SaysOneLine)
    {key fallback : String} (hfallback : OneLine fallback) {given : Option CodeText}
    (hgiven : request.textOf key = .ok given) :
    CodeText.OneLine (given.getD (.ofString fallback)) := by
  cases given with
  | none => exact CodeText.oneLine_ofString_iff.2 hfallback
  | some t => exact h.of_textOf hgiven

theorem shown_of_mem_mappingErrors {enumName : String} {methodName : CodeText} {d : DefaultBinding}
    {references : List (String × Option String)} (hname : OneLine enumName)
    (hmethod : CodeText.OneLine methodName) (hproperty : ∀ t ∈ d.requested, CodeText.OneLine t)
    {error : GenerationError} (h : error ∈ mappingErrors enumName methodName d references) :
    ∀ t ∈ error.shown, CodeText.OneLine t := by
  have hname := CodeText.oneLine_ofString_iff.2 hname
  have hmethod : CodeText.OneLine
      (if methodName = [] then .ofString "GetDescription" else methodName) := by
    split
    · exact CodeText.oneLine_ofString_iff.2 (by decide)
    · exact hmethod
  rw [mappingErrors] at h
  rcases List.mem_append.1 h with h | h
  · split at h
    · next property hrequested _ =>
      rw [List.mem_singleton.1 h, GenerationError.shown_invalidDefault]
      exact List.forall_mem_cons.2 ⟨hname, List.forall_mem_cons.2 ⟨hproperty property hrequested,
        List.forall_mem_singleton.2 hmethod⟩⟩
    · cases h
  · split at h
    · rw [List.mem_singleton.1 h, GenerationError.shown_missingDefault]
      exact List.forall_mem_cons.2 ⟨hname, List.forall_mem_singleton.2 hmethod⟩
    · cases h

section Resolution

variable {view : EnumView} {request : Request} {r : ResourceMembers}
  {nameFormat methodName : String}

theorem shown_of_resolve_error (hquiet : request.SaysOneLine) {f : Failure}
    (hf : Mapping.resolve view request r nameFormat methodName = .error f) :
    ∀ t ∈ f.shown, CodeText.OneLine t := by
  rcases bind_eq_error.1 hf with hf | ⟨_, _, hf⟩
  · rcases bind_eq_error.1 hf with hf | ⟨_, _, hf⟩
    · exact hquiet.shown_of_textOf (by decide) hf
    · cases hf
  rcases bind_eq_error.1 hf with hf | ⟨_, _, hf⟩
  · rcases bind_eq_error.1 hf with hf | ⟨_, _, hf⟩
    · exact hquiet.shown_of_textOf (by decide) hf
    · cases hf
  rcases bind_eq_error.1 hf with hf | ⟨_, _, hf⟩
  · rw [shown_of_bindMembers hf]
    exact List.forall_mem_nil _
  rcases bind_eq_error.1 hf with hf | ⟨_, _, hf⟩
  · exact hquiet.shown_of_textOf (by decide) hf
  simp only at hf
  split at hf <;> cases hf

theorem shown_of_resolve_ok (hview : OneLine view.name) (hmethod : OneLine methodName)
    (hquiet : request.SaysOneLine) {mapping : Option Mapping} {errors : List GenerationError}
    (h : Mapping.resolve view request r nameFormat methodName = .ok (mapping, errors)) :
    ∀ error ∈ errors, ∀ t ∈ error.shown, CodeText.OneLine t := by
  obtain ⟨_, method, property, references, hgiven, hproperty, _, herrors, _⟩ := resolve_eq_ok h
  have hmethod : CodeText.OneLine method := by
    obtain ⟨asked, hasked, rfl⟩ := methodName_eq_ok hgiven
    exact hquiet.getD_textOf hmethod hasked
  have hproperty : ∀ t ∈ (bindDefault r property).requested, CodeText.OneLine t := by
    rintro t ht
    obtain rfl : property = some t := ht
    exact hquiet.of_textOf hproperty
  intro error herror
  rw [herrors] at herror
  exact shown_of_mem_mappingErrors hview hmethod hproperty herror

end Resolution

/-- What an attribute of an enum comes to shows nothing that ends a line. -/
theorem SaysOneLine.shown_of_attributeResult (h : SaysOneLine c e)
    (hmethod : OneLine settings.methodName) {entry : Variant × Attribute}
    (hentry : entry.2 ∈ e.attributes) :
    match attributeResult settings c e entry with
    | .error f => ∀ t ∈ f.shown, CodeText.OneLine t
    | .ok (_, errors) => ∀ error ∈ errors, ∀ t ∈ error.shown, CodeText.OneLine t := by
  have hkeys : ∀ value ∈ (bindConstants c e.context entry.2).named, OneLine value.1 := by
    intro value hvalue
    obtain ⟨given, hgiven, rfl⟩ := List.mem_map.1 hvalue
    exact h.keys entry.2 hentry given hgiven
  rw [attributeResult, processAttribute]
  cases hrequest : Request.ofAttribute settings.keyOrder entry.1 (bindConstants c e.context entry.2)
    with
  | error f =>
      exact shown_of_ofAttribute hkeys (h.positional entry.2 hentry) (h.named entry.2 hentry)
        hrequest
  | ok request =>
      have hquiet : request.SaysOneLine := by
        obtain ⟨resource, _, _, rfl, _⟩ := ofAttribute_eq_ok hrequest
        exact fun given hgiven => h.named entry.2 hentry given (List.mem_mergeSort.1 hgiven)
      simp only
      split
      · next hf => exact shown_of_resolve_error hquiet hf
      · next hok => exact shown_of_resolve_ok h.name hmethod hquiet hok

/-- **Where nothing that an enum says ends a line**, its diagnostics show nothing that does. -/
theorem SaysOneLine.shownTexts (h : SaysOneLine c e) (hmethod : OneLine settings.methodName) :
    ∀ shown ∈ shownTexts settings c e, ∀ t ∈ shown, CodeText.OneLine t := by
  intro shown hshown
  rw [LocalisedEnum.shownTexts] at hshown
  split at hshown
  · next f hresult =>
    rw [List.mem_singleton.1 hshown]
    rcases bind_eq_error.1 hresult with hf | ⟨attributes, hattributes, hf⟩
    · rcases bind_eq_error.1 hf with hf | ⟨_, _, hf⟩
      · rw [shown_of_collectAttributes hf]
        exact List.forall_mem_singleton.2 (CodeText.oneLine_ofString_iff.2 h.name)
      · cases hf
    · obtain ⟨entry, hmem, hentry⟩ := processAttributes_eq_error (Prod.ext rfl hf)
      have hattribute :=
        h.shown_of_attributeResult hmethod (mem_of_localisationAttributes hattributes hmem)
      rw [hentry] at hattribute
      exact hattribute
  · next errors hresult =>
    obtain ⟨error, herror, rfl⟩ := List.mem_map.1 hshown
    obtain ⟨entry, mapping, more, hmem, hentry, herror⟩ :=
      exists_attribute_of_mem_errors hresult herror
    have hattribute := h.shown_of_attributeResult hmethod hmem
    rw [hentry] at hattribute
    exact hattribute error herror

/-! ### The output of a pass -/

/-- **Which diagnostics of a pass are on one line**, under any settings, if the paths of the sources
are.

* A diagnostic is on one line exactly if the texts are that its message shows openly, which are
  those of the errors of its enum or of the failure in it.
* The output of the pass is read as its diagnostics, one line for each, exactly if that is so for
  all of them.
* It is where no enum says anything that ends a line and the usual name of the method does not
  either. -/
theorem runPass_lines (settings : Settings) (c : Compilation)
    (hpaths : ∀ e ∈ c.enums, OneLine e.location.path) :
    List.Forall₂ (fun shown d => CodeText.OneLine d.text ↔ ∀ t ∈ shown, CodeText.OneLine t)
      ((candidateEnums c).flatMap (shownTexts settings c)) (runPass settings c).diagnostics.items ∧
    (CodeText.lines (diagnosticLines (runPass settings c)) =
        (runPass settings c).diagnostics.sorted.map Diagnostic.text ↔
      ∀ e ∈ candidateEnums c, ∀ shown ∈ shownTexts settings c e, ∀ t ∈ shown, CodeText.OneLine t) ∧
    (OneLine settings.methodName → (∀ e ∈ candidateEnums c, SaysOneLine c e) →
      CodeText.lines (diagnosticLines (runPass settings c)) =
        (runPass settings c).diagnostics.sorted.map Diagnostic.text) := by
  have heach : List.Forall₂
      (fun shown d => CodeText.OneLine d.text ↔ ∀ t ∈ shown, CodeText.OneLine t)
      ((candidateEnums c).flatMap (shownTexts settings c))
      (runPass settings c).diagnostics.items := by
    have hsame : List.Forall₂ (fun e e' => e = e' ∧ e ∈ candidateEnums c) (candidateEnums c)
        (candidateEnums c) :=
      List.forall₂_same.2 fun e he => ⟨rfl, he⟩
    rw [runPass_diagnostics]
    refine List.rel_flatMap hsame ?_
    rintro e _ ⟨rfl, he⟩
    exact forall₂_shownTexts (hpaths e (List.mem_filter.1 he).1)
  have hlines : CodeText.lines (diagnosticLines (runPass settings c)) =
        (runPass settings c).diagnostics.sorted.map Diagnostic.text ↔ ∀ e ∈ candidateEnums c,
      ∀ shown ∈ shownTexts settings c e, ∀ t ∈ shown, CodeText.OneLine t := by
    rw [lines_diagnosticLines_iff]
    constructor
    · intro h e he shown hshown
      obtain ⟨d, hd, hiff⟩ := exists_right_of_mem heach (List.mem_flatMap.2 ⟨e, he, hshown⟩)
      exact hiff.1 (h d hd)
    · intro h d hd
      obtain ⟨shown, hshown, hiff⟩ := exists_left_of_mem heach hd
      obtain ⟨e, he, hshown⟩ := List.mem_flatMap.1 hshown
      exact hiff.2 (h e he shown hshown)
  exact ⟨heach, hlines, fun hmethod hquiet => hlines.2 fun e he => (hquiet e he).shownTexts hmethod⟩

/-- An enum whose attribute asks for a default property, and a type without it. -/
def defaultText (written : String) : String :=
  "[WithLiteralLocalisation(typeof(R), DefaultPropertyName = \"" ++ written ++ "\")]\n"
    ++ "enum E \x7b A \x7d\n"
    ++ "class R \x7b public static string EADescription \x7b get; \x7d \x7d\n"

/-- What is read from this text. -/
def defaultFile (property : CodeText) : SourceFile where
  path := "E.cs"
  usings := []
  globalUsings := []
  enums :=
    [{ name := "E"
       namespaceName := ""
       accessibility := .internalLevel
       members := ["A"]
       attributes :=
        [⟨"WithLiteralLocalisation", [.typeOf "R"], [("DefaultPropertyName", .text property)],
          some ⟨"E.cs", 1, 2⟩⟩]
       containingTypes := []
       location := ⟨"E.cs", 1, 1⟩
       usings := [] }]
  types :=
    [{ name := "R"
       namespaceName := ""
       kind := "class"
       accessibility := .internalLevel
       properties := [⟨"EADescription", "string", true⟩]
       containingTypes := []
       location := ⟨"E.cs", 3, 1⟩
       constants := [] }]

/-- A default property with the escape of a line feed in its name breaks the line of its diagnostic;
without it the diagnostic stays on one. -/
theorem runPass_lines_default :
    readSource "E.cs" (defaultText "a\\nb") = .ok (defaultFile (.ofString "a\nb")) ∧
    (runPass .standard ⟨[defaultFile (.ofString "a\nb")]⟩).diagnostics.ids = ["ESG0002"] ∧
    CodeText.lines (diagnosticLines (runPass .standard ⟨[defaultFile (.ofString "a\nb")]⟩)) ≠
      (runPass .standard ⟨[defaultFile (.ofString "a\nb")]⟩).diagnostics.sorted.map
        Diagnostic.text ∧
    CodeText.lines (diagnosticLines (runPass .standard ⟨[defaultFile (.ofString "ab")]⟩)) =
      (runPass .standard ⟨[defaultFile (.ofString "ab")]⟩).diagnostics.sorted.map
        Diagnostic.text := by
  have hpaths : ∀ property,
      ∀ e ∈ Compilation.enums ⟨[defaultFile property]⟩, OneLine e.location.path := by
    intro property e he
    have hpath : OneLine "E.cs" := by decide
    obtain rfl := List.mem_singleton.1 he
    exact hpath
  refine ⟨by decide +kernel, by decide +kernel, fun hread => ?_, ?_⟩
  · have hall := (runPass_lines .standard ⟨[defaultFile (.ofString "a\nb")]⟩ (hpaths _)).2.1.1 hread
    have hbroken : ¬ ∀ e ∈ candidateEnums ⟨[defaultFile (.ofString "a\nb")]⟩,
        ∀ shown ∈ shownTexts .standard ⟨[defaultFile (.ofString "a\nb")]⟩ e,
          ∀ t ∈ shown, CodeText.OneLine t := by
      decide +kernel
    exact hbroken hall
  · refine (runPass_lines .standard ⟨[defaultFile (.ofString "ab")]⟩ (hpaths _)).2.2
      (by decide +kernel) ?_
    intro e he
    obtain rfl := List.mem_singleton.1 he
    exact ⟨by decide, by decide, by decide, by decide⟩

end LocalisedEnum

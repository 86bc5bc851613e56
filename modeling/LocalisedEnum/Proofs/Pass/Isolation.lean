import LocalisedEnum.Proofs.Pass.Blocks
import LocalisedEnum.Proofs.Pass.Resolution

/-!
**All or nothing, one enum at a time.**

Anything may go wrong while an enum is processed: an attribute may be repeated, a constant may be no
text, a template may be malformed.  The pass goes on with the next enum, and what the failing enum
had achieved is dropped: its block is one internal error without a place, and no source.  An enum in
which nothing goes wrong leaves exactly what its attributes resolve to.

Main definitions:

* `FailsWith` — some step of an enum fails;
* `EnumBlock`, `IsBlock` — the two shapes of a block.

Main results:

* `isBlock_processEnum` — **every enum leaves a block of one of the two shapes**;
* `IsBlock.of_failsWith` — where a step fails, nothing else is left;
* `runPass_isolated_blocks` — the blocks of a pass, each a function of its enum, the settings, the
  types and the global imports.
-/

set_option autoImplicit false
set_option relaxedAutoImplicit false

namespace LocalisedEnum

/-! ### The steps of an enum -/

/-- A step of an enum fails: its attributes cannot be told apart, one of them does not resolve, or a
mapping cannot be written. -/
inductive FailsWith (settings : Settings) (c : Compilation) (e : EnumDeclaration) : Failure → Prop
  | recognition {f : Failure} (h : localisationAttributes e = .error f) : FailsWith settings c e f
  | resolution {attributes : List (Variant × Attribute)} {entry : Variant × Attribute} {f : Failure}
      (h : localisationAttributes e = .ok attributes) (hentry : entry ∈ attributes)
      (hf : attributeResult settings c e entry = .error f) : FailsWith settings c e f
  | emission {attributes : List (Variant × Attribute)}
      {results : List (Option Mapping × List GenerationError)} {m : Mapping} {f : Failure}
      (h : localisationAttributes e = .ok attributes)
      (hresults : AllResolve settings c e attributes results)
      (hm : m ∈ results.filterMap (·.1)) (hf : m.sourceText = .error f) : FailsWith settings c e f

/-! ### The two shapes of a block -/

/-- What an enum leaves in a pass, the names of its sources apart. -/
structure EnumBlock where
  diagnostics : List Diagnostic
  texts : List String

/-- The diagnostic that stands for the failure of a whole enum.  It has no place. -/
def internalDiagnostic (f : Failure) : Diagnostic where
  id := "ESG0000"
  title := diagnosticTitle
  message := .ofString "Unexpected error generating extension helpers; error is " ++ f.description
  severity := .error
  location := none

/-- The block of an enum: an internal error alone, or the errors of all its attributes at its place
together with the text of every mapping. -/
inductive IsBlock (settings : Settings) (c : Compilation) (e : EnumDeclaration) : EnumBlock → Prop
  | failed {f : Failure} (hf : FailsWith settings c e f) :
      IsBlock settings c e ⟨[internalDiagnostic f], []⟩
  | resolved {attributes : List (Variant × Attribute)}
      {results : List (Option Mapping × List GenerationError)} {diagnostics : List Diagnostic}
      {texts : List String} (h : localisationAttributes e = .ok attributes)
      (hresults : AllResolve settings c e attributes results)
      (hdiagnostics : List.Forall₂
        (fun error d => error.diagnose (some e.location) = .ok d ∧ d.location = some e.location)
        (results.flatMap (·.2)) diagnostics)
      (htexts : List.Forall₂ (fun m text => m.sourceText = .ok text)
        (results.filterMap (·.1)) texts) :
      IsBlock settings c e ⟨diagnostics, texts⟩

/-! ### Diagnostics of what an attribute resolves to -/

/-- The two errors of a mapping have a diagnostic, at whatever place. -/
theorem diagnose_eq_ok {error : GenerationError}
    (h : error.code = .missingDefault ∨ error.code = .invalidDefault)
    (location : Option SourceLocation) :
    ∃ d, error.diagnose location = .ok d ∧ d.location = location := by
  obtain ⟨enumName, code, details⟩ := error
  rcases h with h | h <;> cases h <;> exact ⟨_, rfl, rfl⟩

theorem forall₂_diagnoseAll {errors : List GenerationError} {location : SourceLocation}
    (h : ∀ error ∈ errors, error.code = .missingDefault ∨ error.code = .invalidDefault) :
    List.Forall₂
      (fun error d => error.diagnose (some location) = .ok d ∧ d.location = some location)
      errors (diagnoseAll errors (some location)) := by
  induction errors with
  | nil => exact .nil
  | cons error rest ih =>
      obtain ⟨d, hd, hlocation⟩ := diagnose_eq_ok (h error List.mem_cons_self) (some location)
      have hstep : diagnoseAll (error :: rest) (some location) =
          d :: diagnoseAll rest (some location) := by
        simp [diagnoseAll, hd, Except.toOption]
      rw [hstep]
      exact .cons ⟨hd, hlocation⟩ (ih fun error h' => h error (List.mem_cons_of_mem _ h'))

/-! ### Sources of mappings -/

theorem source_eq_ok {m : Mapping} {s : GeneratedSource} (h : m.source = .ok s) :
    m.sourceText = .ok s.text ∧ s.hintName = m.fileName := by
  obtain ⟨text, htext, h⟩ := bind_eq_ok.1 h
  cases h
  exact ⟨htext, rfl⟩

theorem source_eq_error {m : Mapping} {f : Failure} (h : m.source = .error f) :
    m.sourceText = .error f := by
  cases htext : m.sourceText with
  | ok text =>
      rw [Mapping.source, htext] at h
      cases h
  | error f' =>
      rw [Mapping.source, htext] at h
      cases h
      rfl

/-! ### The block of an enum -/

/-- What an enum leaves, as a block. -/
def EnumOutcome.block (o : EnumOutcome) : EnumBlock :=
  ⟨o.diagnostics, o.sources.map (·.text)⟩

variable {settings : Settings} {c : Compilation} {e : EnumDeclaration}

/-- An enum that fails leaves the internal error alone, whatever there was to log before. -/
theorem block_failed (e : EnumDeclaration) (log : List LogEntry) (f : Failure) :
    (processEnum.failed e log f).block = ⟨[internalDiagnostic f], []⟩ := rfl

theorem isBlock_of_sources {attributes : List (Variant × Attribute)}
    {results : List (Option Mapping × List GenerationError)} {sources : List GeneratedSource}
    (h : localisationAttributes e = .ok attributes)
    (hresults : AllResolve settings c e attributes results)
    (hsources : (results.filterMap (·.1)).mapM Mapping.source = .ok sources) :
    IsBlock settings c e
      ⟨diagnoseAll (results.flatMap (·.2)) (some e.location), sources.map (·.text)⟩ := by
  refine .resolved h hresults (forall₂_diagnoseAll ?_) ?_
  · intro error herror
    obtain ⟨result, hresult, herror⟩ := List.mem_flatMap.1 herror
    obtain ⟨entry, _, hentry⟩ := exists_left_of_mem hresults hresult
    exact code_of_attributeResult hentry herror
  · rw [List.forall₂_map_right_iff]
    exact (mapM_eq_ok hsources).imp fun _ _ hm => (source_eq_ok hm).1

/-- **Every enum leaves a block of one of the two shapes.** -/
theorem isBlock_processEnum (settings : Settings) (c : Compilation) (e : EnumDeclaration) :
    IsBlock settings c e (processEnum settings c e).block := by
  cases hattributes : localisationAttributes e with
  | error f =>
      simp only [processEnum, hattributes, block_failed]
      exact .failed (.recognition hattributes)
  | ok attributes =>
      simp only [processEnum, hattributes]
      split
      · next log f hf =>
        obtain ⟨entry, hmem, hentry⟩ := processAttributes_eq_error hf
        rw [block_failed]
        exact .failed (.resolution hattributes hmem hentry)
      · next log mappings errors hok =>
        obtain ⟨results, hresults, rfl, rfl⟩ := processAttributes_eq_ok hok
        split
        · next f hf =>
          obtain ⟨m, hmem, hm⟩ := mapM_eq_error hf
          rw [block_failed]
          exact .failed (.emission hattributes hresults hmem (source_eq_error hm))
        · next sources hsources => exact isBlock_of_sources hattributes hresults hsources

/-- Where a step of an enum fails, its block is an internal error and nothing else. -/
theorem IsBlock.of_failsWith {block : EnumBlock} {f : Failure} (h : IsBlock settings c e block)
    (hf : FailsWith settings c e f) : ∃ f', block = ⟨[internalDiagnostic f'], []⟩ := by
  cases h with
  | @failed f' _ => exact ⟨f', rfl⟩
  | @resolved attributes results diagnostics texts hattributes hresults _ htexts =>
      -- with every step a success there is none left to fail
      exfalso
      cases hf with
      | recognition h =>
          rw [hattributes] at h
          cases h
      | @resolution _ entry _ h hentry hf =>
          rw [hattributes] at h
          cases h
          obtain ⟨result, _, hresult⟩ := exists_right_of_mem hresults hentry
          rw [hf] at hresult
          cases hresult
      | @emission _ results' m _ h hresults' hm hf =>
          rw [hattributes] at h
          cases h
          obtain rfl := allResolve_unique hresults hresults'
          obtain ⟨text, _, htext⟩ := exists_right_of_mem htexts hm
          rw [hf] at htext
          cases htext

/-! ### The blocks of a pass -/

/-- **A pass is the concatenation of isolated blocks**, one for each enum that carries attributes.
The block of an enum is a function of the enum, the settings, and the types and global imports of
the compilation; it is either one internal error or everything that the attributes of the enum
resolve to, and never the latter where some step of the enum fails. -/
theorem runPass_isolated_blocks :
    ∃ block : Settings → List TypeDeclaration → List String → EnumDeclaration → EnumBlock,
      ∀ (settings : Settings) (c : Compilation),
        (runPass settings c).diagnostics.items = (candidateEnums c).flatMap
            (fun e => (block settings c.types c.globalUsings e).diagnostics) ∧
        (∃ extensions, (runPass settings c).sources = leadingSources settings c ++ extensions ∧
          extensions.map (·.text) = (candidateEnums c).flatMap
            (fun e => (block settings c.types c.globalUsings e).texts)) ∧
        ∀ e, IsBlock settings c e (block settings c.types c.globalUsings e) ∧
          ((∃ f, FailsWith settings c e f) →
            ∃ f, block settings c.types c.globalUsings e = ⟨[internalDiagnostic f], []⟩) := by
  refine ⟨fun settings types globalUsings e =>
    (processEnum settings (.ofTypes types globalUsings) e).block, ?_⟩
  intro settings c
  -- the small compilation of the types and imports stands in for the whole one
  have hsame : ∀ e, processEnum settings (.ofTypes c.types c.globalUsings) e =
      processEnum settings c e :=
    fun e => (processEnum_congr (sameLookup_ofTypes c) e).symm
  simp only [hsame]
  refine ⟨runPass_diagnostics settings c, runPass_texts settings c, ?_⟩
  intro e
  refine ⟨isBlock_processEnum settings c e, ?_⟩
  rintro ⟨f, hf⟩
  exact (isBlock_processEnum settings c e).of_failsWith hf

end LocalisedEnum

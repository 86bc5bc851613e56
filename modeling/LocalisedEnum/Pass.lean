import LocalisedEnum.Diagnostic
import LocalisedEnum.Extension.AttributeClass
import LocalisedEnum.Extension.Source
import LocalisedEnum.Localisation.Constants
import LocalisedEnum.Settings

/-!
**A generation pass.**

A pass goes over the enums that carry attributes, in order.  Each is processed on its own: it leaves
either its errors and its sources, or, when anything in it fails, a single error that stands for the
whole enum.  Sources get distinct names; the first that asks for a name gets it.

Main definitions:

* `GeneratedSource`, `PassResult` — what a pass produces;
* `processEnum` — what one enum leaves;
* `freshName` — a name that no earlier source has;
* `runPass` — the pass.
-/

set_option autoImplicit false
set_option relaxedAutoImplicit false

namespace LocalisedEnum

/-! ### Sources -/

/-- A generated file. -/
structure GeneratedSource where
  hintName : String
  text : String
  deriving DecidableEq, Repr

/-- A generated file in one line. -/
def GeneratedSource.summary (s : GeneratedSource) : String :=
  s.hintName ++ " (" ++ toString s.text.length ++ " chars)"

/-! ### One enum -/

/-- What there is to log about the type that holds the strings of an enum: that it is not
declared. -/
def resourceLog (c : Compilation) (e : EnumDeclaration) (resource : String) : List LogEntry :=
  if (c.findType resource e.context).isSome then []
  else [.resourceNotFound resource e.qualifiedName]

/-- What the attribute of one variant leaves: the mapping, if there is one, and its errors, behind
what there is to log. -/
def processAttribute (settings : Settings) (c : Compilation) (e : EnumDeclaration)
    (variant : Variant) (a : Attribute) :
    List LogEntry × Except Failure (Option Mapping × List GenerationError) :=
  match Request.ofAttribute settings.keyOrder variant (bindConstants c e.context a) with
  | .error failure => ([], .error failure)
  | .ok request =>
    let members := resourceMembers c e.context request.resource
    (resourceLog c e request.resource,
      Mapping.resolve e.view request members settings.nameFormat settings.methodName)

/-- What the attributes of an enum leave, up to the first that fails. -/
def processAttributes (settings : Settings) (c : Compilation) (e : EnumDeclaration) :
    List (Variant × Attribute) →
      List LogEntry × Except Failure (List Mapping × List GenerationError)
  | [] => ([], .ok ([], []))
  | (variant, a) :: rest =>
    match processAttribute settings c e variant a with
    | (log, .error failure) => (log, .error failure)
    | (log, .ok (mapping, errors)) =>
      let (moreLog, others) := processAttributes settings c e rest
      (log ++ moreLog, others.map fun (mappings, moreErrors) =>
        (mapping.toList ++ mappings, errors ++ moreErrors))

/-- The file of a mapping. -/
def Mapping.source (m : Mapping) : Except Failure GeneratedSource := do
  return ⟨m.fileName, ← m.sourceText⟩

/-- What one enum leaves. -/
structure EnumOutcome where
  sources : List GeneratedSource
  diagnostics : List Diagnostic
  log : List LogEntry
  deriving DecidableEq, Repr

/-- The diagnostics of errors at a place. -/
def diagnoseAll (errors : List GenerationError) (location : Option SourceLocation) :
    List Diagnostic :=
  errors.filterMap fun e => (e.diagnose location).toOption

/-- What one enum leaves: its sources and errors, or the one error that stands for its failure. -/
def processEnum (settings : Settings) (c : Compilation) (e : EnumDeclaration) : EnumOutcome :=
  match localisationAttributes e with
  | .error failure => failed [] failure
  | .ok attributes =>
    match processAttributes settings c e attributes with
    | (log, .error failure) => failed log failure
    | (log, .ok (mappings, errors)) =>
      match mappings.mapM Mapping.source with
      | .error failure => failed log failure
      | .ok sources => ⟨sources, diagnoseAll errors (some e.location), log⟩
where
  /-- What an enum leaves that fails. -/
  failed (log : List LogEntry) (failure : Failure) : EnumOutcome :=
    ⟨[], diagnoseAll [.internal e.name failure.description] none, log⟩

/-! ### Names of sources -/

/-- The names that a source may get when its own is taken: the namespace in front of it, then a
number between the two. -/
def spareName (namespaceName hintName : String) (attempt : Nat) : String :=
  let lead := if namespaceName = "" then "global" else namespaceName
  if attempt = 0 then lead ++ "." ++ hintName
  else lead ++ "." ++ toString (attempt + 1) ++ "." ++ hintName

/-- A name that is not taken: the name asked for, or the first spare one.  Of one more spare name
than there are names taken, one is free. -/
def freshName (taken : List String) (namespaceName hintName : String) : String :=
  if taken.contains hintName then
    (((List.range (taken.length + 1)).map (spareName namespaceName hintName)).find?
      (!taken.contains ·)).getD hintName
  else hintName

/-- Sources with names that neither an earlier source nor another of them has. -/
def renameSources (taken : List String) (namespaceName : String) :
    List GeneratedSource → List GeneratedSource
  | [] => []
  | s :: rest =>
    let name := freshName taken namespaceName s.hintName
    ⟨name, s.text⟩ :: renameSources (taken ++ [name]) namespaceName rest

/-! ### The pass -/

/-- What a pass produces. -/
structure PassResult where
  sources : List GeneratedSource
  diagnostics : DiagnosticBag
  log : List LogEntry
  deriving DecidableEq, Repr

namespace PassResult

/-- The names of the sources. -/
def hintNames (r : PassResult) : List String :=
  r.sources.map (·.hintName)

/-- The source with a given name. -/
def source? (r : PassResult) (hintName : String) : Option GeneratedSource :=
  r.sources.find? (·.hintName == hintName)

/-- The result in one line. -/
def summary (r : PassResult) : String :=
  "GeneratorResult(" ++ toString r.sources.length ++ " sources, "
    ++ toString r.diagnostics.errorCount ++ " errors)"

/-- The result with what one more enum leaves. -/
def absorb (r : PassResult) (namespaceName : String) (o : EnumOutcome) : PassResult where
  sources := r.sources ++ renameSources r.hintNames namespaceName o.sources
  diagnostics := ⟨r.diagnostics.items ++ o.diagnostics⟩
  log := r.log ++ o.log

end PassResult

/-- The sources of the attribute classes, in the order of the variants. -/
def attributeSources (settings : Settings) : List GeneratedSource :=
  Variant.all.map fun variant =>
    ⟨attributeFileName variant, attributeText variant settings.attributeNamespace⟩

/-- The enums of a pass: those that carry attributes. -/
def candidateEnums (c : Compilation) : List EnumDeclaration :=
  c.enums.filter (!·.attributes.isEmpty)

/-- The pass over a compilation.  Without an enum that carries attributes it produces nothing. -/
def runPass (settings : Settings) (c : Compilation) : PassResult :=
  let candidates := candidateEnums c
  if candidates.isEmpty then ⟨[], .empty, []⟩
  else
    let start : PassResult :=
      ⟨if settings.emitAttributes then attributeSources settings else [], .empty, []⟩
    let done := candidates.foldl
      (fun r e => r.absorb e.namespaceName (processEnum settings c e)) start
    { done with log := done.log ++
        [.generated done.sources.length candidates.length done.diagnostics.errorCount] }

end LocalisedEnum

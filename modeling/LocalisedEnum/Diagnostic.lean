import LocalisedEnum.Localisation.Mapping

/-!
**Diagnostics.**

An error about an enum is shown to the user as a diagnostic: an identifier that never changes, a
message, and the place of the enum.  The failure of a whole enum has no place, since nothing at the
declaration would mend it.

Main definitions:

* `Severity`, `Diagnostic` — a diagnostic and its line;
* `ErrorCode.id?` — the identifier of a kind of error;
* `GenerationError.diagnose` — the diagnostic of an error;
* `DiagnosticBag` — the diagnostics of a pass, in the order in which they were reported;
* `DiagnosticBag.sorted` — the same by place.
-/

set_option autoImplicit false
set_option relaxedAutoImplicit false

namespace LocalisedEnum

/-! ### Diagnostics -/

/-- How grave a diagnostic is. -/
inductive Severity where
  | error
  | warning
  | info
  deriving DecidableEq, Repr

/-- The name of a severity. -/
def Severity.name : Severity → String
  | error => "error"
  | warning => "warning"
  | info => "info"

/-- The severity with a given name. -/
def Severity.ofName? (s : String) : Option Severity :=
  [error, warning, info].find? (·.name == s)

/-- A diagnostic. -/
structure Diagnostic where
  id : String
  title : String
  message : CodeText
  severity : Severity
  location : Option SourceLocation
  deriving DecidableEq, Repr

/-- The name under which the tool speaks when there is no place. -/
def toolName : String := "enum-string-gen"

/-- A diagnostic as a line: the place, the severity, the identifier and the message. -/
def Diagnostic.text (d : Diagnostic) : CodeText :=
  let origin := (d.location.map SourceLocation.text).getD toolName
  .ofString (origin ++ ": " ++ d.severity.name ++ " " ++ d.id ++ ": ") ++ d.message

/-! ### Diagnostics of errors -/

/-- A code of error that is not recognised has neither a diagnostic nor an identifier. -/
inductive CodeFault where
  | unrecognised (number : Int)
  | noIdentifier
  deriving DecidableEq, Repr

/-- The text of a fault in a code. -/
def CodeFault.message : CodeFault → String
  | unrecognised number => "Unrecognised error type " ++ toString number
  | noIdentifier => "'int' object has no attribute 'id'"

/-- The code with a given number. -/
def ErrorCode.ofNumber (n : Int) : ErrorCode :=
  if n = 0 then internal
  else if n = 1 then missingDefault
  else if n = 2 then invalidDefault
  else unrecognised n

/-- The identifier of a kind of error. -/
def ErrorCode.id : ErrorCode → Except CodeFault String
  | internal => .ok "ESG0000"
  | missingDefault => .ok "ESG0001"
  | invalidDefault => .ok "ESG0002"
  | unrecognised _ => .error .noIdentifier

/-- The title of every diagnostic of an error. -/
def diagnosticTitle : String := "String Generator"

namespace GenerationError

/-- An error in one line. -/
def summary (e : GenerationError) : Except CodeFault String := do
  return "GenerationError(" ++ (← e.code.id) ++ " " ++ e.enumName ++ ")"

/-- What is known of an error under a name. -/
def detail (e : GenerationError) (key fallback : String) : CodeText :=
  (valueOf? key e.details).getD (.ofString fallback)

/-- The method that an error is about. -/
def method (e : GenerationError) : CodeText :=
  e.detail methodKey "GetDescription"

/-- The message of an error. -/
def message (e : GenerationError) : Except CodeFault CodeText :=
  match e.code with
  | .internal =>
    .ok (.ofString "Unexpected error generating extension helpers; error is "
      ++ e.detail descriptionKey "")
  | .missingDefault =>
    .ok (.ofString ("Enum type " ++ e.enumName ++ " requires a default string for ") ++ e.method
      ++ .ofString (" and none is available; a method has been generated anyway but will likely "
        ++ "result in runtime errors"))
  | .invalidDefault =>
    .ok (.ofString ("Enum type " ++ e.enumName ++ " was given a default property of ")
      ++ e.detail requestedPropertyKey "" ++ .ofString " for " ++ e.method
      ++ .ofString ", but that property wasn't found")
  | .unrecognised number => .error (.unrecognised number)

/-- The diagnostic of an error at a place.  The failure of a whole enum drops the place. -/
def diagnose (e : GenerationError) (location : Option SourceLocation) :
    Except CodeFault Diagnostic := do
  let message ← e.message
  let id ← e.code.id
  return ⟨id, diagnosticTitle, message, .error, if e.code = .internal then none else location⟩

/-- Whether two errors say the same, in whatever order their details are kept. -/
def same (e f : GenerationError) : Bool :=
  e.enumName == f.enumName && e.code == f.code
    && e.details.all (fun (key, value) => valueOf? key f.details == some value)
    && f.details.all (fun (key, value) => valueOf? key e.details == some value)

end GenerationError

/-! ### Bags -/

/-- The diagnostics of a pass, in the order in which they were reported. -/
structure DiagnosticBag where
  items : List Diagnostic
  deriving DecidableEq, Repr

namespace DiagnosticBag

/-- The bag without diagnostics. -/
def empty : DiagnosticBag := ⟨[]⟩

/-- The bag with one more diagnostic. -/
def report (bag : DiagnosticBag) (d : Diagnostic) : DiagnosticBag :=
  ⟨bag.items ++ [d]⟩

/-- The bag with the diagnostic of an error. -/
def reportError (bag : DiagnosticBag) (e : GenerationError) (location : Option SourceLocation) :
    Except CodeFault DiagnosticBag := do
  return bag.report (← e.diagnose location)

/-- The number of diagnostics that are errors. -/
def errorCount (bag : DiagnosticBag) : Nat :=
  bag.items.countP (·.severity == .error)

/-- Whether some diagnostic is an error. -/
def hasErrors (bag : DiagnosticBag) : Bool :=
  0 < bag.errorCount

/-- The identifiers of the diagnostics. -/
def ids (bag : DiagnosticBag) : List String :=
  bag.items.map (·.id)

end DiagnosticBag

/-! ### Order -/

/-- What the order of diagnostics goes by: path, line, column, identifier and message, each as a
list of numbers.  Without a place the path is empty and the numbers are zero. -/
def Diagnostic.sortKey (d : Diagnostic) : List (List Nat) :=
  let codes (s : String) := s.toList.map Char.toNat
  let place := match d.location with
    | some l => [codes l.path, [l.line], [l.column]]
    | none => [[], [0], [0]]
  place ++ [codes d.id, d.message.map CodePoint.value]

/-- The order of diagnostics. -/
def Diagnostic.le (d e : Diagnostic) : Bool :=
  !(e.sortKey < d.sortKey)

/-- The diagnostics by place; those that the order does not tell apart stay as reported. -/
def DiagnosticBag.sorted (bag : DiagnosticBag) : List Diagnostic :=
  bag.items.mergeSort Diagnostic.le

end LocalisedEnum

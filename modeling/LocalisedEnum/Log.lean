import LocalisedEnum.Text.Quoted

/-!
**The log of a run.**

Main definitions:

* `LogEntry`, `LogEntry.text` — the events that are logged, and the lines they leave.
-/

set_option autoImplicit false
set_option relaxedAutoImplicit false

namespace LocalisedEnum

/-- An event that is logged. -/
inductive LogEntry where
  | unrecognisedFlag (value : String)
  | loaded (files enums types : Nat)
  | resourceNotFound (typeName enumName : String)
  | generated (sources enums errors : Nat)
  | wrote (path : String)
  | removedStale (path : String)
  deriving DecidableEq, Repr

/-- The level of an event. -/
def LogEntry.level : LogEntry → String
  | unrecognisedFlag _ => "WARNING"
  | resourceNotFound _ _ => "WARNING"
  | _ => "INFO"

/-- The message of an event. -/
def LogEntry.message : LogEntry → String
  | unrecognisedFlag value =>
    "Ignoring unrecognised ESG_EMIT_ATTRIBUTES value: " ++ quotedString value
  | loaded files enums types =>
    "Loaded " ++ toString files ++ " files (" ++ toString enums ++ " enums, " ++ toString types
      ++ " types)"
  | resourceNotFound typeName enumName =>
    "Resource type " ++ typeName ++ " used by " ++ enumName ++ " was not found in the compilation"
  | generated sources enums errors =>
    "Generated " ++ toString sources ++ " source(s) for " ++ toString enums
      ++ " annotated enum(s); " ++ toString errors ++ " error(s)"
  | wrote path => "Wrote " ++ path
  | removedStale path => "Removed stale " ++ path

/-- The line that an event leaves. -/
def LogEntry.text (e : LogEntry) : String :=
  "[" ++ e.level ++ "] " ++ e.message

end LocalisedEnum

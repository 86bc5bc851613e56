import LocalisedEnum.Discovery
import LocalisedEnum.Text.CodePoint

/-!
**Runs.**

A run changes files, prints lines and logs events until it ends or fails.  What it has done up to a
failure stays done.

Main definitions:

* `Progress` — what a run has done so far;
* `RunError` — why a run fails, and whether the failure is reported to the user;
* `Run` — the steps of a run.
-/

set_option autoImplicit false
set_option relaxedAutoImplicit false

namespace LocalisedEnum

/-! ### Progress -/

/-- The files as a run has left them, and what it has printed and logged. -/
structure Progress where
  tree : FileTree
  output : String
  errors : CodeText
  log : List LogEntry
  deriving DecidableEq, Repr

/-- The progress of a run that has not begun. -/
def Progress.start (t : FileTree) : Progress :=
  ⟨t, "", [], []⟩

/-! ### Errors -/

/-- Why a generated file cannot be written. -/
inductive WriteFault where
  | file (e : FileError)
  | coding (e : CodingError)
  deriving DecidableEq, Repr

/-- The text of a fault. -/
def WriteFault.message : WriteFault → String
  | file e => e.message
  | coding e => e.message

/-- Why a run fails. -/
inductive RunError where
  | source (e : SourceError)
  | refused (e : FileError)
  | unwritable (directory : Path) (fault : WriteFault)
  | unremovable (directory : Path) (e : FileError)
  | undecodable (e : CodingError)
  | encoding (fault : EncodingFault)
  deriving DecidableEq, Repr

namespace RunError

/-- The text of an error. -/
def message : RunError → String
  | source e => e.message
  | refused e => e.message
  | unwritable directory fault =>
    "Cannot write generated sources to " ++ directory.text ++ ": " ++ fault.message
  | unremovable directory e =>
    "Cannot remove stale sources from " ++ directory.text ++ ": " ++ e.message
  | undecodable e => e.message
  | encoding fault => fault.message

/-- Whether an error is reported to the user as the result of the run.  Every other one breaks the
run off. -/
def isReported : RunError → Bool
  | source (.malformed (.escape _)) => false
  | source (.refused e) => e.cause != .nullCharacter
  | source _ => true
  | refused e => e.cause != .nullCharacter
  | unwritable _ _ => true
  | unremovable _ _ => true
  | undecodable _ => false
  | encoding _ => false

end RunError

/-! ### Steps -/

/-- A step of a run. -/
abbrev Run : Type → Type := ExceptT RunError (StateM Progress)

namespace Run

/-- What a step makes of the progress before it. -/
def result {α : Type} (step : Run α) (p : Progress) : Except RunError α × Progress :=
  (ExceptT.run step).run p

/-- A failure with an error. -/
def fail {α : Type} (e : RunError) : Run α :=
  throw e

/-- The value that was found, or a failure. -/
def orFail {ε α : Type} (f : ε → RunError) : Except ε α → Run α
  | .ok a => pure a
  | .error e => fail (f e)

/-- The files. -/
def tree : Run FileTree := do
  return (← get).tree

/-- Leaves other files. -/
def setTree (t : FileTree) : Run Unit :=
  modify fun p => { p with tree := t }

/-- Prints a line. -/
def say (line : String) : Run Unit :=
  modify fun p => { p with output := p.output ++ line ++ "\n" }

/-- Prints a line among the errors. -/
def complain (line : CodeText) : Run Unit :=
  modify fun p => { p with errors := p.errors ++ line ++ .ofString "\n" }

/-- Logs events. -/
def note (entries : List LogEntry) : Run Unit :=
  modify fun p => { p with log := p.log ++ entries }

end Run

end LocalisedEnum

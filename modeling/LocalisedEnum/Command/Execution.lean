import LocalisedEnum.Command
import LocalisedEnum.OutputDirectory

/-!
**Executing commands.**

A command loads the source files, goes through a pass, and shows what it found.  It ends with an
exit code: zero if all went well, one if the pass reported errors, two if it could not do its work.

Main definitions:

* `Command.steps` — the run of a command;
* `Outcome`, `Command.execute` — how a command ends, and what it leaves.
-/

set_option autoImplicit false
set_option relaxedAutoImplicit false

namespace LocalisedEnum

open Run

/-! ### Passes -/

/-- The settings of a command: those of the environment, with what its options override. -/
def readSettings (env : Environment) (o : Overrides) : Run Settings := do
  let (settings, log) := Settings.ofEnvironment env
  note log
  return settings.override o

/-- Goes through a pass over the source files that paths stand for. -/
def passOver (settings : Settings) (excluded : List FullName) (paths : List String) :
    Run PassResult := do
  let c ← orFail .source (loadCompilation (← tree) excluded (paths.map Path.ofString))
  note [c.loadedEntry]
  let result := runPass settings c
  note result.log
  return result

/-- Shows the diagnostics of a pass, in order. -/
def showDiagnostics (result : PassResult) : Run Unit :=
  result.diagnostics.sorted.forM fun d => complain d.text

/-- The exit code after a pass. -/
def exitCode (result : PassResult) : Nat :=
  if result.diagnostics.hasErrors then 1 else 0

/-- The number of errors of a pass, as summaries show it. -/
def errorText (result : PassResult) : String :=
  toString result.diagnostics.errorCount ++ " error(s)"

/-! ### Commands -/

/-- Generates the files for the source files that paths stand for.  The output directory is never
read back as input. -/
def generateFiles (codecs : Codecs) (settings : Settings) (paths : List String) (output : String) :
    Run Nat := do
  let directory := Path.ofString output
  let excluded ← orFail .refused ((← tree).fullName directory)
  let result ← passOver settings [excluded] paths
  showDiagnostics result
  let removed ← removeStale directory (settings.codec codecs) result.hintNames
  let written ← writeSources directory (settings.codec codecs) result.sources
  say (toString result.sources.length ++ " file(s) generated, " ++ toString written ++ " written, "
    ++ toString removed ++ " removed, " ++ errorText result)
  return exitCode result

/-- The names of the sources of a pass that are not attribute classes. -/
def extensionNames (result : PassResult) : List String :=
  result.hintNames.filter (!(Variant.all.map attributeFileName).contains ·)

/-- Shows what would be generated, and writes nothing. -/
def checkFiles (settings : Settings) (paths : List String) : Run Nat := do
  let result ← passOver settings [] paths
  showDiagnostics result
  let names := extensionNames result
  names.forM fun name => say ("  would generate " ++ name)
  say (toString names.length ++ " extension file(s), " ++ errorText result)
  return exitCode result

/-- Writes the files of the attribute classes. -/
def writeAttributes (codecs : Codecs) (settings : Settings) (output : String) : Run Nat := do
  let written ← writeSources (.ofString output) (settings.codec codecs) (attributeSources settings)
  say (toString written ++ " attribute file(s) written to " ++ output)
  return 0

/-- The run of a command. -/
def Command.steps (env : Environment) : Command → Run Nat
  | generate paths output overrides => do
    generateFiles env.codecs (← readSettings env overrides) paths output
  | check paths => do
    checkFiles (← readSettings env ⟨none, none, none, none, none⟩) paths
  | attributes output overrides => do
    writeAttributes env.codecs (← readSettings env overrides) output

/-! ### Outcomes -/

/-- How a command ends: with an exit code, or broken off by an error. -/
inductive Ending where
  | exit (code : Nat)
  | brokenOff (e : RunError)
  deriving DecidableEq, Repr

/-- How a command ends, and what it leaves. -/
structure Outcome where
  ending : Ending
  progress : Progress
  deriving DecidableEq, Repr

/-- The outcome of a run: an error that is reported is shown, with exit code two. -/
def outcomeOf : Except RunError Nat × Progress → Outcome
  | (.ok code, p) => ⟨.exit code, p⟩
  | (.error e, p) =>
    if e.isReported then
      ⟨.exit 2, { p with errors := p.errors ++ .ofString ("Error: " ++ e.message ++ "\n") }⟩
    else ⟨.brokenOff e, p⟩

/-- Executes a command on files. -/
def Command.execute (c : Command) (env : Environment) (t : FileTree) : Outcome :=
  outcomeOf ((c.steps env).result (.start t))

end LocalisedEnum

import LocalisedEnum.Command.Execution

/-!
**The program.**

The files that a command may look at are read into a tree, the command is executed on the tree, and
what it changed is written back.

Main definitions:

* `takeFiles` — the tree of the files that a command may look at;
* `giveBack` — writing back what changed;
* `main` — the program.
-/

set_option autoImplicit false
set_option relaxedAutoImplicit false

namespace LocalisedEnum

/-! ### Reading files -/

/-- A full name as the system takes it. -/
def systemName (name : FullName) : String :=
  "/" ++ joinWith "/" name

/-- The tree with the file that stands under a full name. -/
def takeFile (t : FileTree) (name : FullName) : IO FileTree := do
  return t.put name (.file (← IO.FS.readBinFile (systemName name)).toList)

/-- The tree with the directories and source files below a directory, down to a depth. -/
def takeBelow (depth : Nat) (t : FileTree) (name : FullName) : IO FileTree := do
  match depth with
  | 0 => return t
  | depth + 1 =>
    let place := (← IO.currentDir) / systemName name
    (← place.readDir).toList.foldlM (fun t entry => do
      let below := name ++ [entry.fileName]
      if ← entry.path.isDir then takeBelow depth (t.put below .directory) below
      else if isSourceName entry.fileName then takeFile t below
      else return t) t

/-- The tree with what stands under a full name and everything above it. -/
def takeAlong (depth : Nat) (t : FileTree) (name : FullName) : IO FileTree := do
  let t ← if name = [] then takeBelow depth t [] else pure t
  (List.range name.length).foldlM (fun t n => do
    let here := name.take (n + 1)
    let place := (← IO.currentDir) / systemName here
    if (t.node? here).isSome && n + 1 < name.length then return t
    else if ← place.isDir then
      let t := t.put here .directory
      if n + 1 = name.length then takeBelow depth t here else return t
    else if ← place.pathExists then takeFile t here
    else return t) t

/-- The tree with what a path leads to, and everything above it. -/
def takePath (depth : Nat) (t : FileTree) (path : String) : IO FileTree :=
  match t.fullName (.ofString path) with
  | .ok name => takeAlong depth t name
  | .error _ => return t

/-- The depth down to which directories of source files are read. -/
def greatestDepth : Nat := 4096

/-- The source files and directories that a command is given. -/
def Command.paths : Command → List String
  | generate paths _ _ => paths
  | check paths => paths
  | attributes _ _ => []

/-- The directory that a command writes to. -/
def Command.output? : Command → Option String
  | generate _ output _ => some output
  | check _ => none
  | attributes output _ => some output

/-- The tree of the files that a command may look at. -/
def takeFiles (c : Command) : IO FileTree := do
  let here := (Path.ofString (← IO.currentDir).toString).parts
  let t ← takeAlong 0 ⟨[], here⟩ here
  let t ← c.output?.toList.foldlM (takePath 1) t
  c.paths.foldlM (takePath greatestDepth) t

/-! ### Writing files -/

/-- Writes what stands under a full name. -/
def giveNode (name : FullName) : Node → IO Unit
  | .directory => IO.FS.createDirAll (systemName name)
  | .file octets => IO.FS.writeBinFile (systemName name) ⟨octets.toArray⟩

/-- Writes back what changed. -/
def giveBack (before after : FileTree) : IO Unit := do
  before.entries.forM fun (name, _) => do
    if (after.node? name).isNone then IO.FS.removeFile (systemName name)
  after.entries.forM fun (name, node) => do
    if before.node? name != some node then giveNode name node

/-! ### The command line -/

/-- The variables that settings are read from. -/
def settingVariables : List String :=
  ["ESG_ATTRIBUTE_NAMESPACE", "ESG_EMIT_ATTRIBUTES", "ESG_NAME_FORMAT", "ESG_METHOD_NAME",
    "ESG_ENCODING"]

/-- The settings in the environment. -/
def readEnvironment : IO Environment := do
  let entries ← settingVariables.filterMapM fun name => do
    return (← IO.getEnv name).map (name, ·)
  return .ofVariables entries

/-- How the program is used. -/
def usageText : String :=
  unlines ["usage: enum-string-gen [-h] [--debug] COMMAND ...",
    "",
    "commands:",
    "  generate PATH... [--output DIR] [--no-attributes] [--attribute-namespace NS]",
    "           [--encoding ENC] [--name-format FMT] [--method-name NAME]",
    "  check PATH...",
    "  attributes [--output DIR] [--attribute-namespace NS] [--encoding ENC]"]

/-- Executes a command and returns the exit code. -/
def perform (c : Command) : IO UInt32 := do
  let before ← takeFiles c
  let outcome := c.execute (← readEnvironment) before
  let p := outcome.progress
  giveBack before p.tree
  p.log.forM fun entry => IO.eprintln entry.text
  IO.eprint p.errors.toScalars
  IO.print p.output
  match outcome.ending with
  | .exit code => return .ofNat code
  | .brokenOff e => do
    IO.eprintln e.message
    return 1

end LocalisedEnum

open LocalisedEnum in
/-- The program. -/
def main (arguments : List String) : IO UInt32 := do
  match Invocation.ofArguments arguments with
  | .command c => perform c
  | .help => do
    IO.println usageText
    return 0
  | .nothing => do
    IO.println usageText
    return 0
  | .mistake => do
    IO.eprintln usageText
    return 2

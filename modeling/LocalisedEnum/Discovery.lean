import LocalisedEnum.Compilation
import LocalisedEnum.Declaration.Walk
import LocalisedEnum.Encoding.Codec
import LocalisedEnum.FileTree
import LocalisedEnum.Log
import LocalisedEnum.Text.Lines
import LocalisedEnum.Text.LowerCase

/-!
**Finding and loading source files.**

A pass is given files and directories.  A file is taken as it is.  A directory stands for the source
files below it, without those in hidden directories or directories of build results, without files
that are generated, and without what is excluded.  The files found are loaded in the order of their
paths, so that a pass over the same files always sees the same compilation.

Main definitions:

* `SourceError` — why the source files cannot be loaded;
* `collectSources` — the files that paths stand for;
* `loadSource`, `loadCompilation` — reading them.

Main results:

* `nodup_collectSources` — no file is collected twice.
-/

set_option autoImplicit false
set_option relaxedAutoImplicit false

namespace LocalisedEnum

/-! ### Errors -/

/-- Why source files cannot be loaded. -/
inductive SourceError where
  | notFound (path : Path)
  | refused (e : FileError)
  | unreadable (path : Path) (e : FileError)
  | malformed (e : ParseError)
  deriving DecidableEq, Repr

/-- The text of an error. -/
def SourceError.message : SourceError → String
  | notFound path => "Source path not found: " ++ path.text
  | refused e => e.message
  | unreadable path e => "Cannot read source file " ++ path.text ++ ": " ++ e.message
  | malformed e => e.message

/-- An error that counts as an error in what the paths stand for. -/
def orRefused {α : Type} : Except FileError α → Except SourceError α
  | .ok a => .ok a
  | .error e => .error (.refused e)

/-! ### Finding files -/

/-- The names of directories of build results. -/
def buildDirectories : List String := ["bin", "obj"]

/-- A directory that is passed over: a hidden one, or one of build results. -/
def isSkippedDirectory (name : String) : Bool :=
  (afterStart? "." name).isSome || buildDirectories.contains (lowerCase name)

/-- A name that ends as the names of source files do. -/
def isSourceName (name : String) : Bool :=
  (beforeEnd? ".cs" name).isSome

/-- A name that ends as the names of generated files do. -/
def isGeneratedName (name : String) : Bool :=
  let name := lowerCase name
  (beforeEnd? ".g.cs" name).isSome || (beforeEnd? ".generated.cs" name).isSome

/-- Whether something below a directory counts as a source file, by the names from the directory
on. -/
def isSourceBelow (names : List String) : Bool :=
  let name := names.getLastD ""
  isSourceName name && !isGeneratedName name && !names.dropLast.any isSkippedDirectory

/-- The source files below a directory, without what lies under an excluded name. -/
def sourcesBelow (t : FileTree) (excluded : List FullName) (p : Path) (here : FullName) :
    List Path :=
  (t.descendants here).filterMap fun (names, _) =>
    if isSourceBelow names && !excluded.any (·.isPrefixOf (here ++ names)) then some (p.below names)
    else none

/-- The source files that a path stands for. -/
def sourcesOf (t : FileTree) (excluded : List FullName) (p : Path) :
    Except SourceError (List Path) := do
  match ← orRefused (t.find? p) with
  | none => throw (.notFound p)
  | some (.file _) => return [p]
  | some .directory => return sourcesBelow t excluded p (← orRefused (t.follow p))

/-- The source files that paths stand for, each once, in the order of their paths. -/
def collectSources (t : FileTree) (excluded : List FullName) (paths : List Path) :
    Except SourceError (List Path) := do
  return sortPaths (← paths.mapM (sourcesOf t excluded)).flatten

theorem nodup_collectSources {t : FileTree} {excluded : List FullName} {paths found : List Path}
    (h : collectSources t excluded paths = .ok found) : found.Nodup := by
  simp only [collectSources, bind_eq_ok] at h
  obtain ⟨lists, -, hfound⟩ := h
  cases hfound
  exact nodup_sortPaths _

/-! ### Loading files -/

/-- The text of a source file: UTF-8 with or without a byte order mark, whatever its line ends.
Octets that denote nothing are read as the replacement character. -/
def sourceFileText (octets : Octets) : String :=
  String.ofList (unifyLineEnds (lenientText (Encoding.utf8Marked.read octets).pieces))

/-- The declarations of the file that a path leads to. -/
def loadSource (t : FileTree) (p : Path) : Except SourceError SourceFile :=
  match t.readFile p with
  | .error e => .error (if e.cause = .nullCharacter then .refused e else .unreadable p e)
  | .ok octets =>
    match readSource p.text (sourceFileText octets) with
    | .error e => .error (.malformed e)
    | .ok file => .ok file

/-- The compilation of the source files that paths stand for. -/
def loadCompilation (t : FileTree) (excluded : List FullName) (paths : List Path) :
    Except SourceError Compilation := do
  let files ← collectSources t excluded paths
  return ⟨← files.mapM (loadSource t)⟩

/-- What there is to log about a compilation that has been loaded. -/
def Compilation.loadedEntry (c : Compilation) : LogEntry :=
  .loaded c.files.length c.enums.length c.types.length

end LocalisedEnum

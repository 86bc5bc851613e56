import LocalisedEnum.Extension.Layout
import LocalisedEnum.Pass
import LocalisedEnum.Run

/-!
**The directory of the generated files.**

Generated files are written into one directory.  A file that says the same already is left alone.
Files of extension classes that an earlier run left and that are no longer produced are removed,
provided that they begin as generated files do.

Main definitions:

* `writeSources` — writing generated files, and how many were written;
* `removeStale` — removing what is no longer produced, and how many files were removed.
-/

set_option autoImplicit false
set_option relaxedAutoImplicit false

namespace LocalisedEnum

open Run

/-! ### Writing -/

/-- A refused operation while files are written to a directory. -/
def whileWriting (directory : Path) (e : FileError) : RunError :=
  if e.cause = .nullCharacter then .refused e else .unwritable directory (.file e)

/-- The text of the file that a path leads to. -/
def textOfFile (directory : Path) (codec : NamedCodec) (p : Path) : Run CodeText := do
  let octets ← orFail (whileWriting directory) ((← tree).readFile p)
  let text ← orFail (.unwritable directory ∘ .coding) ((← orFail .encoding codec).decode octets)
  return text.unifyLineEnds

/-- Whether the file at a path is there and says the given text. -/
def alreadySays (directory : Path) (codec : NamedCodec) (p : Path) (text : String) : Run Bool := do
  if ← orFail (whileWriting directory) ((← tree).isFile p) then
    return (← textOfFile directory codec p) == .ofString text
  else return false

/-- Refuses a name of an encoding that has a null character, which no file is opened under. -/
def acceptName (codec : NamedCodec) : Run Unit :=
  match codec with
  | .error .nullCharacter => fail (.encoding .nullCharacter)
  | _ => pure ()

/-- Writes a text to the file at a path.  The file is emptied first, and stays empty when the text
cannot be encoded. -/
def overwrite (directory : Path) (codec : NamedCodec) (p : Path) (text : String) : Run Unit := do
  acceptName codec
  let (t, name) ← orFail (whileWriting directory) ((← tree).openForWriting p)
  setTree t
  let octets ← orFail (.unwritable directory ∘ .coding)
    ((← orFail .encoding codec).encode text.toList)
  setTree (t.put name (.file octets))

/-- Writes a generated file unless it is there already; says whether it was written. -/
def writeSource (directory : Path) (codec : NamedCodec) (s : GeneratedSource) : Run Bool := do
  let p := directory.join s.hintName
  if ← alreadySays directory codec p s.text then return false
  else
    overwrite directory codec p s.text
    note [.wrote p.text]
    return true

/-- Writes generated files to a directory, which is made if need be; says how many were written. -/
def writeSources (directory : Path) (codec : NamedCodec) (sources : List GeneratedSource) :
    Run Nat := do
  let (t, outcome) := (← tree).makeDirectories directory
  setTree t
  orFail (whileWriting directory) outcome
  let written ← sources.mapM (writeSource directory codec)
  return written.countP id

/-! ### Removing -/

/-- The mark in the names of the files of extension classes. -/
def extensionMark : String := "LocalizationExtensions"

/-- A name that the file of an extension class may have. -/
def isExtensionFileName (name : String) : Bool :=
  match beforeEnd? ".cs" name with
  | some stem => occursIn extensionMark.toList stem.toList
  | none => false

/-- The files of extension classes in a directory that are not among those produced, in order. -/
def staleCandidates (t : FileTree) (here : FullName) (produced : List String) : List String :=
  sortTexts <| (t.descendants here).filterMap fun (names, _) =>
    match names with
    | [name] => if isExtensionFileName name && !produced.contains name then some name else none
    | _ => none

/-- Whether a text begins as generated files do. -/
def beginsAsGenerated (text : CodeText) : Bool :=
  (CodeText.ofString generatedHeader).isPrefixOf text

/-- Removes the file at a path if it begins as generated files do; says whether it was removed. -/
def removeIfGenerated (directory : Path) (codec : NamedCodec) (p : Path) : Run Bool := do
  let t ← tree
  if ← orFail (.unremovable directory) (t.isFile p) then
    let octets ← orFail (.unremovable directory) (t.readFile p)
    let text ← orFail .undecodable ((← orFail .encoding codec).decodeLeniently octets)
    if beginsAsGenerated text then
      setTree (← orFail (.unremovable directory) (t.remove p))
      note [.removedStale p.text]
      return true
    else return false
  else return false

/-- Removes the files of extension classes that are no longer produced from a directory; says how
many were removed. -/
def removeStale (directory : Path) (codec : NamedCodec) (produced : List String) : Run Nat := do
  let t ← tree
  if ← orFail .refused (t.isDirectory directory) then
    let here ← orFail .refused (t.follow directory)
    let removed ← (staleCandidates t here produced).mapM fun name =>
      removeIfGenerated directory codec (directory.below [name])
    return removed.countP id
  else return 0

end LocalisedEnum

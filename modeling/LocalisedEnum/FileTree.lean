import LocalisedEnum.Encoding.Piece
import LocalisedEnum.FileTree.Path
import LocalisedEnum.Text.Quoted

/-!
**Files and directories.**

A file tree says what stands under each full name, that is, under each list of names from the root
down.  A path is followed part by part: every part but the last has to lead to a directory, and
double points lead back to the directory above.

Main definitions:

* `Node`, `FileTree` — files and directories by full name;
* `FileCause`, `FileError` — why the system refuses an operation on a path;
* `FileTree.follow` — where a path leads;
* `FileTree.isFile`, `FileTree.isDirectory`, `FileTree.isPresent` — what it leads to;
* `FileTree.readFile`, `FileTree.openForWriting`, `FileTree.makeDirectories`, `FileTree.remove` —
  the operations.

Main results:

* `FileTree.node?_put_self` — what is put under a name stands there.
-/

set_option autoImplicit false
set_option relaxedAutoImplicit false

namespace LocalisedEnum

/-! ### Trees -/

/-- A file with its octets, or a directory. -/
inductive Node where
  | file (octets : Octets)
  | directory
  deriving DecidableEq, Repr

/-- A full name: the names from the root down. -/
abbrev FullName : Type := List String

/-- What stands under each full name, and the full name of the working directory.  The root is
always a directory. -/
structure FileTree where
  entries : List (FullName × Node)
  workingDirectory : FullName
  deriving DecidableEq, Repr

namespace FileTree

/-- What stands under a full name. -/
def node? (t : FileTree) (name : FullName) : Option Node :=
  if name = [] then some .directory else t.entries.lookup name

/-- Puts a node under a full name, in the place of what stood there. -/
def putEntry (name : FullName) (node : Node) : List (FullName × Node) → List (FullName × Node)
  | [] => [(name, node)]
  | (n, old) :: rest =>
    if n = name then (n, node) :: rest else (n, old) :: putEntry name node rest

/-- The tree with a node under a full name. -/
def put (t : FileTree) (name : FullName) (node : Node) : FileTree :=
  { t with entries := putEntry name node t.entries }

/-- The tree without what stands under a full name and below it. -/
def erase (t : FileTree) (name : FullName) : FileTree :=
  { t with entries := t.entries.filter (!name.isPrefixOf ·.1) }

/-- What stands below a full name, by the names from there on. -/
def descendants (t : FileTree) (name : FullName) : List (List String × Node) :=
  t.entries.filterMap fun (n, node) =>
    if name.isPrefixOf n && n != name then some (n.drop name.length, node) else none

theorem lookup_putEntry (name : FullName) (node : Node) (entries : List (FullName × Node)) :
    (putEntry name node entries).lookup name = some node := by
  induction entries with
  | nil => simp [putEntry]
  | cons entry rest ih =>
    obtain ⟨n, old⟩ := entry
    simp only [putEntry]
    split
    · next h => simp [h]
    · next h =>
      have : (name == n) = false := by simpa using Ne.symm h
      simp [List.lookup_cons, this, ih]

theorem node?_put_self (t : FileTree) {name : FullName} (node : Node) (h : name ≠ []) :
    (t.put name node).node? name = some node := by
  simp [node?, put, h, lookup_putEntry]

end FileTree

/-! ### Errors -/

/-- Why an operation on a path is refused.  A path with a null character is refused before the
system sees it. -/
inductive FileCause where
  | nullCharacter
  | missing
  | alreadyThere
  | notADirectory
  | isADirectory
  | nameTooLong
  deriving DecidableEq, Repr

/-- A refused operation on a path. -/
structure FileError where
  cause : FileCause
  path : Path
  deriving DecidableEq, Repr

/-- The text of an error of the system: its number, what it means, and the path. -/
def systemMessage (number : Nat) (meaning : String) (p : Path) : String :=
  "[Errno " ++ toString number ++ "] " ++ meaning ++ ": " ++ quotedString p.text

/-- The text of an error. -/
def FileError.message (e : FileError) : String :=
  match e.cause with
  | .nullCharacter => "embedded null byte"
  | .missing => systemMessage 2 "No such file or directory" e.path
  | .alreadyThere => systemMessage 17 "File exists" e.path
  | .notADirectory => systemMessage 20 "Not a directory" e.path
  | .isADirectory => systemMessage 21 "Is a directory" e.path
  | .nameTooLong => systemMessage 36 "File name too long" e.path

/-! ### Following paths -/

/-- Whether a path has a null character in it. -/
def Path.hasNull (p : Path) : Bool :=
  p.parts.any (·.toList.contains (Char.ofNat 0))

namespace FileTree

/-- The largest number of octets of a name. -/
def greatestNameSize : Nat := 255

/-- The largest number of octets of a path. -/
def greatestPathSize : Nat := 4095

/-- Where one part of a path leads from a full name. -/
def step (t : FileTree) (here : FullName) (part : String) : Except FileCause FullName :=
  match t.node? here with
  | none => .error .missing
  | some (.file _) => .error .notADirectory
  | some .directory =>
    if part = ".." then .ok here.dropLast
    else if greatestNameSize < part.utf8ByteSize then .error .nameTooLong
    else if (t.node? (here ++ [part])).isSome then .ok (here ++ [part])
    else .error .missing

/-- The full name at which a path starts. -/
def start (t : FileTree) (p : Path) : FullName :=
  if p.anchor = .workingDirectory then t.workingDirectory else []

/-- The full name to which the parts of a path lead. -/
def followParts (t : FileTree) (p : Path) (parts : List String) : Except FileError FullName :=
  if p.hasNull then .error ⟨.nullCharacter, p⟩
  else if greatestPathSize < p.text.utf8ByteSize then .error ⟨.nameTooLong, p⟩
  else (parts.foldlM t.step (t.start p)).mapError fun cause => ⟨cause, p⟩

/-- The full name to which a path leads. -/
def follow (t : FileTree) (p : Path) : Except FileError FullName :=
  t.followParts p p.parts

/-- The full name that a path has when every part but the last is a directory, whether or not it is
there. -/
def fullName (t : FileTree) (p : Path) : Except FileError FullName :=
  if p.hasNull then .error ⟨.nullCharacter, p⟩
  else .ok <| p.parts.foldl
    (fun here part => if part = ".." then here.dropLast else here ++ [part]) (t.start p)

/-- What a path leads to, if anything.  A path that is too long leads to an error. -/
def find? (t : FileTree) (p : Path) : Except FileError (Option Node) :=
  match t.follow p with
  | .ok name => .ok (t.node? name)
  | .error e => if e.cause = .nameTooLong then .error e else .ok none

/-- Whether a path leads to a file. -/
def isFile (t : FileTree) (p : Path) : Except FileError Bool := do
  match ← t.find? p with
  | some (.file _) => return true
  | _ => return false

/-- Whether a path leads to a directory. -/
def isDirectory (t : FileTree) (p : Path) : Except FileError Bool := do
  return (← t.find? p) == some .directory

/-! ### Operations -/

/-- The octets of the file that a path leads to. -/
def readFile (t : FileTree) (p : Path) : Except FileError Octets := do
  match t.node? (← t.follow p) with
  | some (.file octets) => return octets
  | _ => throw ⟨.isADirectory, p⟩

/-- The full name that a path has or would get: all but the last part of the path have to be
there. -/
def target (t : FileTree) (p : Path) : Except FileError (FullName × Option Node) := do
  let parent ← t.followParts p p.parts.dropLast
  match p.parts.getLast? with
  | none => return (parent, some .directory)
  | some part =>
    match t.step parent part with
    | .ok name => return (name, t.node? name)
    | .error .missing => return (parent ++ [part], none)
    | .error cause => throw ⟨cause, p⟩

/-- The tree with an empty file at a path, and its full name. -/
def openForWriting (t : FileTree) (p : Path) : Except FileError (FileTree × FullName) := do
  match ← t.target p with
  | (_, some .directory) => throw ⟨.isADirectory, p⟩
  | (name, _) => return (t.put name (.file []), name)

/-- The tree with a new directory at a path. -/
def makeDirectory (t : FileTree) (p : Path) : Except FileError FileTree := do
  match ← t.target p with
  | (_, some _) => throw ⟨.alreadyThere, p⟩
  | (name, none) => return t.put name .directory

/-- The tree with a directory at a path, which may be there already. -/
def ensureDirectory (t : FileTree) (p : Path) : Except FileError FileTree :=
  match t.makeDirectory p with
  | .ok t => .ok t
  | .error e =>
    match t.isDirectory p with
    | .ok true => .ok t
    | .ok false => .error e
    | .error e => .error e

/-- The tree with a directory at each beginning of a path, as far as that is possible, and what went
wrong.  `reversed` are the parts, the last one first. -/
def makeDirectoriesAt (anchor : Anchor) : (reversed : List String) → FileTree →
    FileTree × Except FileError Unit
  | [], t =>
    match t.ensureDirectory ⟨anchor, []⟩ with
    | .ok t => (t, .ok ())
    | .error e => (t, .error e)
  | part :: rest, t =>
    let p : Path := ⟨anchor, (part :: rest).reverse⟩
    match t.ensureDirectory p with
    | .ok t => (t, .ok ())
    | .error e =>
      if e.cause = .missing then
        match makeDirectoriesAt anchor rest t with
        | (t, .error e) => (t, .error e)
        | (t, .ok ()) =>
          match t.ensureDirectory p with
          | .ok t => (t, .ok ())
          | .error e => (t, .error e)
      else (t, .error e)

/-- The tree with a directory at a path and at each beginning of it, as far as that is possible, and
what went wrong. -/
def makeDirectories (t : FileTree) (p : Path) : FileTree × Except FileError Unit :=
  makeDirectoriesAt p.anchor p.parts.reverse t

/-- The tree without the file at a path. -/
def remove (t : FileTree) (p : Path) : Except FileError FileTree := do
  return t.erase (← t.follow p)

end FileTree

end LocalisedEnum

import LocalisedEnum.Declaration

/-!
**All declarations of a pass, and how a name finds its type.**

Several declarations may share a qualified name: they are the parts of one type, whose properties
are those of all parts and whose constants are those of the first part that has them.  A name used
inside a declaration is looked for next to each containing type from the innermost outwards, then in
each enclosing namespace, then as written, then in each imported namespace.

Main definitions:

* `Compilation` — the files of a pass;
* `Compilation.append`, `Compilation.insert`, `Compilation.remove` — files coming and going;
* `TypeIndex` — the merged types by qualified name;
* `candidateNames` — the qualified names that a name may stand for, nearest first;
* `Compilation.findType` — the type that a name stands for.

Main results:

* `TypeIndex.get?_add` — adding a part changes just the entry of its name.
-/

set_option autoImplicit false
set_option relaxedAutoImplicit false

namespace LocalisedEnum

/-! ### Files -/

/-- The files of a pass, in order. -/
structure Compilation where
  files : List SourceFile
  deriving DecidableEq, Repr

namespace Compilation

/-- Every enum, in order. -/
def enums (c : Compilation) : List EnumDeclaration :=
  c.files.flatMap (·.enums)

/-- Every declaration of a type, in order. -/
def types (c : Compilation) : List TypeDeclaration :=
  c.files.flatMap (·.types)

/-- The namespaces that some file imports for every file, in the order of first mention. -/
def globalUsings (c : Compilation) : List String :=
  (c.files.flatMap (·.globalUsings)).eraseDups

/-- The compilation with one more file behind the others. -/
def append (c : Compilation) (file : SourceFile) : Compilation :=
  ⟨c.files ++ [file]⟩

/-- The place that an index means among `count` items: a negative index counts from the end, and an
index outside means the nearer end. -/
def placeOf (count : Nat) (index : Int) : Nat :=
  if index < 0 then (count + index).toNat else min index.toNat count

/-- The compilation with one more file in front of the file that an index means. -/
def insert (c : Compilation) (index : Int) (file : SourceFile) : Compilation :=
  let place := placeOf c.files.length index
  ⟨c.files.take place ++ file :: c.files.drop place⟩

/-- The compilation without the files of a path. -/
def remove (c : Compilation) (path : String) : Compilation :=
  ⟨c.files.filter (·.path != path)⟩

end Compilation

/-! ### Parts of one type -/

/-- Puts a value under a name that has none yet. -/
def assignNew {α : Type} (name : String) (value : α) (values : List (String × α)) :
    List (String × α) :=
  if (valueOf? name values).isSome then values else values ++ [(name, value)]

/-- A type with one more part. -/
def TypeDeclaration.merge (t part : TypeDeclaration) : TypeDeclaration :=
  { t with
    properties := t.properties ++ part.properties
    constants := part.constants.foldl (fun acc (name, value) => assignNew name value acc)
      t.constants }

@[simp] theorem TypeDeclaration.qualifiedName_merge (t part : TypeDeclaration) :
    (t.merge part).qualifiedName = t.qualifiedName :=
  rfl

/-! ### The index -/

/-- Merged types, one for each qualified name, in the order of their first parts. -/
structure TypeIndex where
  entries : List TypeDeclaration

namespace TypeIndex

/-- The index without types. -/
def empty : TypeIndex := ⟨[]⟩

/-- The type with a qualified name. -/
def get? (index : TypeIndex) (name : String) : Option TypeDeclaration :=
  index.entries.find? (·.qualifiedName == name)

/-- Adds a part to the entry of its name, or makes it the entry. -/
def addEntry (part : TypeDeclaration) : List TypeDeclaration → List TypeDeclaration
  | [] => [part]
  | t :: rest =>
    if t.qualifiedName = part.qualifiedName then t.merge part :: rest else t :: addEntry part rest

/-- The index with one more part. -/
def add (index : TypeIndex) (part : TypeDeclaration) : TypeIndex :=
  ⟨addEntry part index.entries⟩

/-- The index of some declarations. -/
def ofTypes (types : List TypeDeclaration) : TypeIndex :=
  types.foldl add empty

theorem get?_add (index : TypeIndex) (part : TypeDeclaration) (name : String) :
    (index.add part).get? name =
      if part.qualifiedName = name then
        some (match index.get? name with
          | some t => t.merge part
          | none => part)
      else index.get? name := by
  obtain ⟨entries⟩ := index
  simp only [add, get?]
  induction entries with
  | nil => by_cases h : part.qualifiedName = name <;> simp [addEntry, h]
  | cons t rest ih =>
    simp only [addEntry]
    by_cases ht : t.qualifiedName = part.qualifiedName
    · by_cases h : part.qualifiedName = name
      · simp [ht, h]
      · simp [ht, h]
    · simp only [ht, if_false, List.find?_cons]
      by_cases h : part.qualifiedName = name
      · have hn : (t.qualifiedName == name) = false := by
          simpa [← h] using ht
        simp only [hn, ih]
      · simp only [ih, h, if_false]

end TypeIndex

/-- The merged types of a compilation. -/
def Compilation.typeIndex (c : Compilation) : TypeIndex :=
  .ofTypes c.types

/-! ### Lookup -/

/-- The initial parts of a list that are not empty, longest first. -/
def outwards {α : Type} : List α → List (List α)
  | [] => []
  | a :: rest => (outwards rest).map (a :: ·) ++ [[a]]

/-- The segments of a namespace; the global namespace has none. -/
def namespaceSegments (namespaceName : String) : List String :=
  if namespaceName = "" then [] else splitString '.' namespaceName

/-- The namespace as a list of at most one name. -/
def namespacePart (namespaceName : String) : List String :=
  if namespaceName = "" then [] else [namespaceName]

/-- The qualified names that `name` may stand for in a declaration, nearest first. -/
def candidateNames (name namespaceName : String) (usings containingTypes : List String) :
    List String :=
  (outwards containingTypes).map
      (fun outer => joinDots (namespacePart namespaceName ++ outer ++ [name])) ++
    (outwards (namespaceSegments namespaceName)).map (fun outer => joinDots (outer ++ [name])) ++
    [name] ++ usings.map (· ++ "." ++ name)

/-- Where a name is used: the namespace, its imports, and the containing types from the outermost
inwards. -/
structure LookupContext where
  namespaceName : String
  usings : List String
  containingTypes : List String
  deriving DecidableEq, Repr

/-- The place of an enum. -/
def EnumDeclaration.context (e : EnumDeclaration) : LookupContext :=
  ⟨e.namespaceName, e.usings, e.containingTypes⟩

/-- The type that a name stands for.  An absolute name stands for the type of just that name. -/
def Compilation.findType (c : Compilation) (name : String) (context : LookupContext) :
    Option TypeDeclaration :=
  match afterStart? globalMark name with
  | some absolute => c.typeIndex.get? absolute
  | none =>
    let imported := (context.usings ++ c.globalUsings).eraseDups
    (candidateNames name context.namespaceName imported context.containingTypes).findSome?
      c.typeIndex.get?

end LocalisedEnum

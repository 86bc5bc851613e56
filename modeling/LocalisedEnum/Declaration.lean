import LocalisedEnum.Accessibility
import LocalisedEnum.Expression

/-!
**Declarations.**

What the generator knows of a source file: its enums with their attributes, its types with their
properties and string constants, and the namespaces it imports.

Main definitions:

* `SourceLocation` — where a declaration stands;
* `Attribute`, `EnumDeclaration`, `PropertyDeclaration`, `TypeDeclaration`, `SourceFile`;
* `assign` — a value under a name, in the order of first assignment;
* `Attribute.shortName`, `EnumDeclaration.qualifiedName`, `PropertyDeclaration.isStaticString` —
  what is derived from a declaration.
-/

set_option autoImplicit false
set_option relaxedAutoImplicit false

namespace LocalisedEnum

/-! ### Named values -/

/-- Puts a value under a name.  A name that is there already keeps its place and gets the new
value. -/
def assign {α : Type} (name : String) (value : α) : List (String × α) → List (String × α)
  | [] => [(name, value)]
  | (n, v) :: rest => if n = name then (n, value) :: rest else (n, v) :: assign name value rest

/-- Puts several values under their names, one after the other. -/
def assignAll {α : Type} (values : List (String × α)) (into : List (String × α)) :
    List (String × α) :=
  values.foldl (fun acc (name, value) => assign name value acc) into

/-- Named values from a list of assignments. -/
def ofAssignments {α : Type} (values : List (String × α)) : List (String × α) :=
  assignAll values []

/-- The value under a name. -/
def valueOf? {α : Type} (name : String) (values : List (String × α)) : Option α :=
  (values.find? (·.1 == name)).map Prod.snd

/-! ### Locations -/

/-- A place in a source file; lines and columns are counted from one. -/
structure SourceLocation where
  path : String
  line : Nat
  column : Nat
  deriving DecidableEq, Repr

/-- A location as diagnostics show it. -/
def SourceLocation.text (l : SourceLocation) : String :=
  l.path ++ "(" ++ toString l.line ++ "," ++ toString l.column ++ ")"

/-- The location of a token in a file. -/
def Token.location (path : String) (t : Token) : SourceLocation :=
  ⟨path, t.line, t.column⟩

/-! ### Attributes -/

/-- An attribute applied to a declaration, with the values of its arguments. -/
structure Attribute where
  name : String
  positional : List ArgumentValue
  named : List (String × ArgumentValue)
  location : Option SourceLocation
  deriving DecidableEq, Repr

/-- The ending that the name of an attribute may leave out. -/
def attributeEnding : String := "Attribute"

/-- The name by which an attribute is recognised: its last segment, without the mark of an absolute
name and without the ending that may be left out. -/
def shortAttributeName (name : String) : String :=
  let short := withoutStart globalMark (lastSegment '.' name)
  if short = attributeEnding then short else (beforeEnd? attributeEnding short).getD short

/-- The name by which an attribute is recognised. -/
def Attribute.shortName (a : Attribute) : String :=
  shortAttributeName a.name

/-! ### Enums -/

/-- An enum.  Its containing types are listed from the outermost inwards. -/
structure EnumDeclaration where
  name : String
  namespaceName : String
  accessibility : Accessibility
  members : List String
  attributes : List Attribute
  containingTypes : List String
  location : SourceLocation
  usings : List String
  deriving DecidableEq, Repr

/-- A name inside a namespace, which may be the global one. -/
def qualify (namespaceName name : String) : String :=
  if namespaceName = "" then name else namespaceName ++ "." ++ name

/-- How an enum is referred to inside its namespace. -/
def EnumDeclaration.typeReference (e : EnumDeclaration) : String :=
  joinDots (e.containingTypes ++ [e.name])

/-- The full name of an enum. -/
def EnumDeclaration.qualifiedName (e : EnumDeclaration) : String :=
  qualify e.namespaceName e.typeReference

/-- An enum in one line. -/
def EnumDeclaration.summary (e : EnumDeclaration) : String :=
  "enum " ++ e.qualifiedName ++ " (" ++ toString e.members.length ++ " members)"

/-! ### Types -/

/-- A property of a type. -/
structure PropertyDeclaration where
  name : String
  typeName : String
  isStatic : Bool
  deriving DecidableEq, Repr

/-- The ways to write the type of strings. -/
def stringTypeNames : List String :=
  ["string", "String", "System.String", "global::System.String"]

/-- A static property of the type of strings, nullable or not. -/
def PropertyDeclaration.isStaticString (p : PropertyDeclaration) : Bool :=
  p.isStatic &&
    stringTypeNames.contains (String.ofList (dropEndWhile (· == '?') p.typeName.toList))

/-- A class, struct, record or interface. -/
structure TypeDeclaration where
  name : String
  namespaceName : String
  kind : String
  accessibility : Accessibility
  properties : List PropertyDeclaration
  containingTypes : List String
  location : SourceLocation
  constants : List (String × CodeText)
  deriving DecidableEq, Repr

/-- The full name of a type. -/
def TypeDeclaration.qualifiedName (t : TypeDeclaration) : String :=
  qualify t.namespaceName (joinDots (t.containingTypes ++ [t.name]))

/-- The names of the static string properties of a type, in order. -/
def TypeDeclaration.staticStringNames (t : TypeDeclaration) : List String :=
  (t.properties.filter (·.isStaticString)).map (·.name)

/-! ### Files -/

/-- What is declared in a source file. -/
structure SourceFile where
  path : String
  usings : List String
  enums : List EnumDeclaration
  types : List TypeDeclaration
  globalUsings : List String
  deriving DecidableEq, Repr

end LocalisedEnum

import LocalisedEnum.Declaration.Walk
import LocalisedEnum.Proofs.Declaration.Nested

/-!
**Trees of declarations.**

A file is a sequence of imports, namespaces, enums and types; a namespace is such a sequence again,
and a type holds enums, types, properties, string constants and methods.  The trees below have just
these shapes, with everything in them that a file may have there: modifiers, the underlying type and
the member attributes of an enum, initialisers, accessors and expression bodies, the attributes and
the bases of a type.  A tree is written as tokens, and it declares a file; neither knows how
declarations are read.

Main definitions:

* `Word`, `Name`, `DottedName` — words and names;
* `EnumSyntax`, `TypeSyntax`, `PropertySyntax`, `ConstantSyntax`, `MethodSyntax` — single
  declarations;
* `TypeBody`, `Declarations` — **the trees**, with `TypeBody.lexemes` and `Declarations.lexemes`,
  the tokens they are written as;
* `Declarations.file` — **the file** that a tree declares.
-/

set_option autoImplicit false
set_option relaxedAutoImplicit false

namespace LocalisedEnum

/-! ### Words and names -/

/-- The words that begin a declaration or stand in front of one. -/
def declarationWords : List String :=
  modifierWords ++ typeKeywords ++ ["global", "using", "namespace", "enum", "delegate", "event"]

/-- A name: a word that cannot be taken for the beginning of a declaration. -/
structure Name extends Word where
  ordinary : text ∉ declarationWords

/-- A word that stands in front of a declaration. -/
structure Modifier where
  text : String
  isModifier : text ∈ modifierWords

theorem public_isModifier : "public" ∈ modifierWords := by
  decide

theorem internal_isModifier : "internal" ∈ modifierWords := by
  decide

/-- A modifier as a token. -/
def Modifier.lexeme (m : Modifier) : Lexeme :=
  have hwords : ∀ text ∈ modifierWords, isIdentifier text = true := by decide
  .word m.text (hwords m.text m.isModifier)

/-- A comma. -/
def comma : Lexeme := .operator "," (by decide)

/-- A colon. -/
def colon : Lexeme := .operator ":" (by decide)

/-- A semicolon. -/
def semicolon : Lexeme := .operator ";" (by decide)

/-- An equals sign. -/
def equals : Lexeme := .operator "=" (by decide)

/-- Names joined by points. -/
structure DottedName where
  head : Word
  tail : List Word

namespace DottedName

/-- The tokens of the names. -/
def lexemes (n : DottedName) : List Lexeme :=
  n.head.lexeme :: n.tail.flatMap fun part => [dot, part.lexeme]

/-- The names as one. -/
def text (n : DottedName) : String :=
  joinDots (n.head.text :: n.tail.map (·.text))

end DottedName

/-- A namespace that can be imported: the name does not begin with the word that imports the members
of a type. -/
structure ImportedName extends DottedName where
  namespaceOnly : head.text ≠ "static"

/-! ### Attributes of enum members -/

/-- An opening angle bracket. -/
def openingAngle : Lexeme := .operator "<" (by decide)

/-- A closing angle bracket. -/
def closingAngle : Lexeme := .operator ">" (by decide)

/-- What stands between angle brackets, in which they are balanced again. -/
inductive TypeArguments where
  | nil
  | leaf (t : Lexeme) (h : t.text ∉ ["<", ">"]) (rest : TypeArguments)
  | group (inside rest : TypeArguments)

/-- The tokens of type arguments. -/
def TypeArguments.lexemes : TypeArguments → List Lexeme
  | nil => []
  | leaf t _ rest => t :: rest.lexemes
  | group inside rest => openingAngle :: (inside.lexemes ++ closingAngle :: rest.lexemes)

/-- An attribute: a name, type arguments, and arguments between parentheses. -/
structure AttributeSyntax where
  head : Word
  tail : List (NameMark × Word)
  typeArguments : Option TypeArguments
  arguments : Option Nested

namespace AttributeSyntax

/-- The tokens of the name. -/
def nameLexemes (a : AttributeSyntax) : List Lexeme :=
  a.head.lexeme :: a.tail.flatMap fun part => [part.1.lexeme, part.2.lexeme]

/-- The tokens of the type arguments. -/
def typeLexemes (a : AttributeSyntax) : List Lexeme :=
  match a.typeArguments with
  | none => []
  | some types => openingAngle :: (types.lexemes ++ [closingAngle])

/-- The tokens of the arguments. -/
def argumentLexemes (a : AttributeSyntax) : List Lexeme :=
  match a.arguments with
  | none => []
  | some arguments => Bracket.round.opening :: (arguments.lexemes ++ [Bracket.round.closing])

/-- The tokens of an attribute. -/
def lexemes (a : AttributeSyntax) : List Lexeme :=
  a.nameLexemes ++ a.typeLexemes ++ a.argumentLexemes

end AttributeSyntax

/-- A section of attributes, which may name its target. -/
structure SectionSyntax where
  target : Option Word
  first : AttributeSyntax
  others : List AttributeSyntax

/-- The tokens of a section. -/
def SectionSyntax.lexemes (s : SectionSyntax) : List Lexeme :=
  Bracket.square.opening ::
    ((s.target.toList.flatMap fun target => [target.lexeme, colon])
      ++ s.first.lexemes ++ (s.others.flatMap fun a => comma :: a.lexemes)
      ++ [Bracket.square.closing])

/-! ### Enums -/

/-- The initialiser of an enum member: its commas stand inside brackets, and so do its braces. -/
structure Initialiser where
  value : Nested
  inside : ∀ text ∈ initialiserEnds, text ∉ value.top

/-- A member of an enum. -/
structure EnumMember where
  sections : List SectionSyntax
  name : Name
  initialiser : Option Initialiser

/-- The tokens of a member. -/
def EnumMember.lexemes (m : EnumMember) : List Lexeme :=
  m.sections.flatMap SectionSyntax.lexemes ++ m.name.lexeme ::
    m.initialiser.toList.flatMap fun i => equals :: i.value.lexemes

/-- The members of an enum with the commas between them; one may follow the last. -/
def memberLexemes (trailingComma : Bool) : List EnumMember → List Lexeme
  | [] => []
  | [m] => m.lexemes ++ (if trailingComma then [comma] else [])
  | m :: next :: rest => m.lexemes ++ comma :: memberLexemes trailingComma (next :: rest)

/-- The underlying type of an enum. -/
structure UnderlyingType where
  lexemes : List Lexeme
  plain : ∀ t ∈ lexemes, t.text ≠ openingBrace

/-- An enum. -/
structure EnumSyntax where
  modifiers : List Modifier
  name : Name
  underlying : Option UnderlyingType
  members : List EnumMember
  trailingComma : Bool

/-- The tokens of an enum. -/
def EnumSyntax.lexemes (e : EnumSyntax) : List Lexeme :=
  e.modifiers.map Modifier.lexeme ++ .word "enum" (by decide) :: e.name.lexeme ::
    ((e.underlying.toList.flatMap fun u => colon :: u.lexemes)
      ++ Bracket.curly.opening ::
        (memberLexemes e.trailingComma e.members ++ [Bracket.curly.closing]))

/-! ### Members of types -/

/-- The words with which no type of a property begins. -/
def noTypeWords : List String :=
  modifierWords ++ typeKeywords ++ ["enum", "delegate", "event"]

theorem string_ordinary : "string" ∉ noTypeWords := by
  decide

/-- The texts that do not occur in the type of a property. -/
def noTypeTexts : List String :=
  ["(", "=", "event", ";", openingBrace, "=>", closingBrace]

/-- The type of a property: a word, with what may follow it, such as more segments of the name, type
arguments or the ranks of arrays. -/
structure PropertyType where
  head : Word
  head_ordinary : head.text ∉ noTypeWords
  suffix : Nested
  plain : ∀ t ∈ suffix.lexemes, t.text ∉ noTypeTexts
  complete : ∀ t ∈ suffix.lexemes.getLast?, t.text ≠ "." ∧ t.text ≠ "::"

/-- The tokens of the type of a property. -/
def PropertyType.lexemes (t : PropertyType) : List Lexeme :=
  t.head.lexeme :: t.suffix.lexemes

/-- The body of a property: accessors in braces, or an expression. -/
inductive PropertyBody where
  | accessors (inside : Nested)
  | expression (value : Nested) (h : ";" ∉ value.top)

/-- The tokens of the body of a property. -/
def PropertyBody.lexemes : PropertyBody → List Lexeme
  | accessors inside => Bracket.curly.opening :: (inside.lexemes ++ [Bracket.curly.closing])
  | expression value _ => .operator "=>" (by decide) :: (value.lexemes ++ [semicolon])

/-- A property. -/
structure PropertySyntax where
  modifiers : List Modifier
  noConst : ∀ m ∈ modifiers, m.text ≠ "const"
  type : PropertyType
  name : Name
  body : PropertyBody

/-- The tokens of a property. -/
def PropertySyntax.lexemes (p : PropertySyntax) : List Lexeme :=
  p.modifiers.map Modifier.lexeme ++ (p.type.lexemes ++ p.name.lexeme :: p.body.lexemes)

/-- A string literal and the text that it denotes. -/
structure TextLiteral where
  lexeme : Lexeme
  isString : lexeme.kind.isStringLiteral = true
  value : CodeText
  denotes : lexeme.token.literalValue = .ok (some value)

/-- A string constant.  Other modifiers may stand on both sides of the one that makes it a
constant. -/
structure ConstantSyntax where
  before : List Modifier
  after : List Modifier
  name : Name
  literal : TextLiteral

/-- The modifiers of a constant. -/
def ConstantSyntax.modifiers (k : ConstantSyntax) : List Modifier :=
  k.before ++ ⟨"const", by decide⟩ :: k.after

theorem isIdentifier_string : isIdentifier "string" = true := by
  decide

/-- The tokens of a constant. -/
def ConstantSyntax.lexemes (k : ConstantSyntax) : List Lexeme :=
  k.modifiers.map Modifier.lexeme
    ++ [.word "string" isIdentifier_string, k.name.lexeme, equals, k.literal.lexeme, semicolon]

/-- A method or a constructor: a header with parameters, and a body in braces. -/
structure MethodSyntax where
  modifiers : List Modifier
  noConst : ∀ m ∈ modifiers, m.text ≠ "const"
  head : Word
  head_ordinary : head.text ∉ noTypeWords
  suffix : Nested
  parameters : "(" ∈ suffix.top
  open_ended : ∀ text ∈ headerEnds, text ∉ suffix.top
  noDefaults : ∀ t ∈ suffix.lexemes, t.text ≠ "="
  body : Nested

/-- The tokens of a method. -/
def MethodSyntax.lexemes (m : MethodSyntax) : List Lexeme :=
  m.modifiers.map Modifier.lexeme ++ m.head.lexeme :: (m.suffix.lexemes
    ++ Bracket.curly.opening :: (m.body.lexemes ++ [Bracket.curly.closing]))

/-! ### Types -/

/-- What a type is declared as. -/
inductive TypeKeyword where
  | classType
  | structType
  | interfaceType
  | recordType
  | recordClass
  | recordStruct

namespace TypeKeyword

/-- The kind that a type is recorded with. -/
def kind : TypeKeyword → String
  | classType => "class"
  | structType => "struct"
  | interfaceType => "interface"
  | _ => "record"

/-- The keywords as tokens. -/
def lexemes (k : TypeKeyword) : List Lexeme :=
  .word k.kind (by cases k <;> decide) ::
    match k with
    | recordClass => [.word "class" (by decide)]
    | recordStruct => [.word "struct" (by decide)]
    | _ => []

end TypeKeyword

/-- The texts that do not occur in the bases of a type. -/
def noBaseTexts : List String :=
  ["(", "<", "[", ")", ">", "]", ";", openingBrace]

/-- The bases of a type. -/
structure BaseTypes where
  lexemes : List Lexeme
  plain : ∀ t ∈ lexemes, t.text ∉ noBaseTexts

/-- A type without its body. -/
structure TypeSyntax where
  sections : List SectionSyntax
  modifiers : List Modifier
  keyword : TypeKeyword
  name : Name
  bases : Option BaseTypes

/-- The tokens of a type in front of its body. -/
def TypeSyntax.lexemes (t : TypeSyntax) : List Lexeme :=
  t.sections.flatMap SectionSyntax.lexemes
    ++ (t.modifiers.map Modifier.lexeme ++ (t.keyword.lexemes ++ t.name.lexeme ::
      ((t.bases.toList.flatMap fun b => colon :: b.lexemes) ++ [Bracket.curly.opening])))

/-! ### Trees -/

/-- The body of a type. -/
inductive TypeBody where
  | nil
  | enum (e : EnumSyntax) (rest : TypeBody)
  | type (head : TypeSyntax) (body rest : TypeBody)
  | property (p : PropertySyntax) (rest : TypeBody)
  | constant (k : ConstantSyntax) (rest : TypeBody)
  | method (m : MethodSyntax) (rest : TypeBody)

/-- The declarations of a file or of a namespace. -/
inductive Declarations where
  | nil
  | directive (n : ImportedName) (rest : Declarations)
  | block (n : DottedName) (body rest : Declarations)
  | enum (e : EnumSyntax) (rest : Declarations)
  | type (head : TypeSyntax) (body : TypeBody) (rest : Declarations)

/-- The tokens of the body of a type. -/
def TypeBody.lexemes : TypeBody → List Lexeme
  | nil => []
  | enum e rest => e.lexemes ++ rest.lexemes
  | type head body rest => head.lexemes ++ (body.lexemes ++ Bracket.curly.closing :: rest.lexemes)
  | property p rest => p.lexemes ++ rest.lexemes
  | constant k rest => k.lexemes ++ rest.lexemes
  | method m rest => m.lexemes ++ rest.lexemes

/-- The tokens of declarations. -/
def Declarations.lexemes : Declarations → List Lexeme
  | nil => []
  | directive n rest => .word "using" (by decide) :: (n.lexemes ++ semicolon :: rest.lexemes)
  | block n body rest =>
    .word "namespace" (by decide) :: (n.lexemes ++ Bracket.curly.opening ::
      (body.lexemes ++ Bracket.curly.closing :: rest.lexemes))
  | enum e rest => e.lexemes ++ rest.lexemes
  | type head body rest => head.lexemes ++ (body.lexemes ++ Bracket.curly.closing :: rest.lexemes)

/-! ### What a tree declares -/

/-- What surrounds a declaration: the joined namespaces, the types from the outermost inwards, and
the imports made so far in the scopes around it. -/
structure Surroundings where
  path : String
  namespaceName : String
  containingTypes : List String
  usings : List String

namespace Surroundings

/-- No place in the file. -/
def location (s : Surroundings) : SourceLocation :=
  ⟨s.path, 0, 0⟩

/-- Inside a namespace. -/
def inNamespace (s : Surroundings) (n : DottedName) : Surroundings :=
  { s with namespaceName := qualify s.namespaceName n.text }

/-- Inside a type. -/
def inType (s : Surroundings) (head : TypeSyntax) : Surroundings :=
  { s with containingTypes := s.containingTypes ++ [head.name.text] }

/-- Behind an import of a namespace. -/
def behindDirective (s : Surroundings) (n : ImportedName) : Surroundings :=
  { s with usings := s.usings ++ [n.text] }

end Surroundings

/-- The accessibility that modifiers give a declaration, which is nested when it stands in a
type. -/
def declaredAccessibility (s : Surroundings) (modifiers : List Modifier) : Accessibility :=
  .ofModifiers (modifiers.map (·.text)) (!s.containingTypes.isEmpty)

/-- The enum that is declared. -/
def EnumSyntax.declaration (e : EnumSyntax) (s : Surroundings) : EnumDeclaration where
  name := e.name.text
  namespaceName := s.namespaceName
  accessibility := declaredAccessibility s e.modifiers
  members := e.members.map (·.name.text)
  attributes := []
  containingTypes := s.containingTypes
  location := s.location
  usings := s.usings

/-- The property that is declared. -/
def PropertySyntax.declaration (p : PropertySyntax) : PropertyDeclaration where
  name := p.name.text
  typeName := joinTokens (tokensOf p.type.lexemes)
  isStatic := (p.modifiers.map (·.text)).contains "static"

namespace TypeBody

/-- The properties that a body declares itself. -/
def properties : TypeBody → List PropertyDeclaration
  | nil => []
  | enum _ rest => rest.properties
  | type _ _ rest => rest.properties
  | property p rest => p.declaration :: rest.properties
  | constant _ rest => rest.properties
  | method _ rest => rest.properties

/-- The constants that a body declares itself, one after the other. -/
def constants : TypeBody → List (String × CodeText)
  | nil => []
  | enum _ rest => rest.constants
  | type _ _ rest => rest.constants
  | property _ rest => rest.constants
  | constant k rest => (k.name.text, k.literal.value) :: rest.constants
  | method _ rest => rest.constants

end TypeBody

/-- The type that is declared with a body. -/
def TypeSyntax.declaration (head : TypeSyntax) (body : TypeBody) (s : Surroundings) :
    TypeDeclaration where
  name := head.name.text
  namespaceName := s.namespaceName
  kind := head.keyword.kind
  accessibility := declaredAccessibility s head.modifiers
  properties := body.properties
  containingTypes := s.containingTypes
  location := s.location
  constants := ofAssignments body.constants

namespace TypeBody

/-- The enums in a body, in the order of the text. -/
def enums (s : Surroundings) : TypeBody → List EnumDeclaration
  | nil => []
  | enum e rest => e.declaration s :: rest.enums s
  | type head body rest => body.enums (s.inType head) ++ rest.enums s
  | property _ rest => rest.enums s
  | constant _ rest => rest.enums s
  | method _ rest => rest.enums s

/-- The types in a body, in the order of the text. -/
def types (s : Surroundings) : TypeBody → List TypeDeclaration
  | nil => []
  | enum _ rest => rest.types s
  | type head body rest => head.declaration body s :: (body.types (s.inType head) ++ rest.types s)
  | property _ rest => rest.types s
  | constant _ rest => rest.types s
  | method _ rest => rest.types s

end TypeBody

namespace Declarations

/-- The imports of declarations themselves, without those of the namespaces inside. -/
def usings : Declarations → List String
  | nil => []
  | directive n rest => n.text :: rest.usings
  | block _ _ rest => rest.usings
  | enum _ rest => rest.usings
  | type _ _ rest => rest.usings

/-- The enums in declarations, in the order of the text. -/
def enums (s : Surroundings) : Declarations → List EnumDeclaration
  | nil => []
  | directive n rest => rest.enums (s.behindDirective n)
  | block n body rest => body.enums (s.inNamespace n) ++ rest.enums s
  | enum e rest => e.declaration s :: rest.enums s
  | type head body rest => body.enums (s.inType head) ++ rest.enums s

/-- The types in declarations, in the order of the text. -/
def types (s : Surroundings) : Declarations → List TypeDeclaration
  | nil => []
  | directive n rest => rest.types (s.behindDirective n)
  | block n body rest => body.types (s.inNamespace n) ++ rest.types s
  | enum _ rest => rest.types s
  | type head body rest => head.declaration body s :: (body.types (s.inType head) ++ rest.types s)

/-- **The file** that a tree declares, without places. -/
def file (path : String) (d : Declarations) : SourceFile where
  path := path
  usings := d.usings
  enums := d.enums ⟨path, "", [], []⟩
  types := d.types ⟨path, "", [], []⟩
  globalUsings := []

end Declarations

end LocalisedEnum

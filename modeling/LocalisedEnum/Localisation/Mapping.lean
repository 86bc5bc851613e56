import LocalisedEnum.Localisation.Request

/-!
**From values to properties.**

The strings of an enum are the static string properties of a resource type.  A value whose name, put
into the naming template, gives the name of a property is bound to that property; every other value
needs the default property.  A request that binds nothing leads to no mapping.

Main definitions:

* `EnumView` — what the mapping needs to know of an enum;
* `ResourceMembers` — the string properties of a type, and references to them;
* `GenerationError` — the two ways in which a mapping may be incomplete, and the failure of a whole
  enum;
* `Mapping`, `Mapping.resolve` — the bindings of a request.
-/

set_option autoImplicit false
set_option relaxedAutoImplicit false

namespace LocalisedEnum

/-! ### Enums -/

/-- An enum as the mapping sees it; `typeReference` is how it is referred to in its namespace. -/
structure EnumView where
  name : String
  namespaceName : String
  accessibility : Accessibility
  members : List String
  typeReference : String
  location : Option SourceLocation
  deriving DecidableEq, Repr

/-- The view of a declared enum. -/
def EnumDeclaration.view (e : EnumDeclaration) : EnumView where
  name := e.name
  namespaceName := e.namespaceName
  accessibility := e.accessibility.normalise
  members := e.members
  typeReference := if e.typeReference = "" then e.name else e.typeReference
  location := some e.location

/-- The name of the class that holds the generated method. -/
def EnumView.extensionClassName (e : EnumView) : String :=
  e.name ++ "LocalizationExtensions"

/-- The full name of an enum. -/
def EnumView.qualifiedName (e : EnumView) : String :=
  qualify e.namespaceName e.typeReference

/-! ### Resource types -/

/-- The static string properties that a resource type offers. -/
structure ResourceMembers where
  qualifiedName : String
  properties : List String
  deriving DecidableEq, Repr

namespace ResourceMembers

/-- The property with a given name.  A blank name is the name of none. -/
def property? (r : ResourceMembers) (name : CodeText) : Option String :=
  if name.isBlankText then none else r.properties.find? fun p => CodeText.ofString p == name

/-- How generated code refers to a property. -/
def reference (r : ResourceMembers) (property : String) : String :=
  globalMark ++ r.qualifiedName ++ "." ++ property

/-- How generated code refers to the property with a given name, if there is one. -/
def reference? (r : ResourceMembers) (name : CodeText) : Option String :=
  (r.property? name).map r.reference

end ResourceMembers

/-- The string properties of the type that a name stands for.  A type that is not declared has
none. -/
def resourceMembers (c : Compilation) (context : LookupContext) (typeName : String) :
    ResourceMembers :=
  match c.findType typeName context with
  | some t => ⟨t.qualifiedName, t.staticStringNames⟩
  | none => ⟨typeName, []⟩

/-! ### Errors -/

/-- The kinds of error, and numbers that are no kind. -/
inductive ErrorCode where
  | internal
  | missingDefault
  | invalidDefault
  | unrecognised (number : Int)
  deriving DecidableEq, Repr

/-- An error about an enum, with what is known of it under fixed names. -/
structure GenerationError where
  enumName : String
  code : ErrorCode
  details : List (String × CodeText)
  deriving DecidableEq, Repr

namespace GenerationError

/-- The name under which the default property of an error is kept. -/
def requestedPropertyKey : String := "OriginalDefaultPropertyName"

/-- The name under which the method of an error is kept. -/
def methodKey : String := "MethodName"

/-- The name under which the description of a failure is kept. -/
def descriptionKey : String := "ExceptionMessage"

/-- The method of an error, which is left out when it has no name. -/
def methodDetail (methodName : CodeText) : List (String × CodeText) :=
  if methodName = [] then [] else [(methodKey, methodName)]

/-- Some value has no property, and there is no default. -/
def missingDefault (enumName : String) (methodName : CodeText) : GenerationError :=
  ⟨enumName, .missingDefault, methodDetail methodName⟩

/-- The default property is not there. -/
def invalidDefault (enumName : String) (property methodName : CodeText) : GenerationError :=
  ⟨enumName, .invalidDefault, (requestedPropertyKey, property) :: methodDetail methodName⟩

/-- The enum could not be processed. -/
def internal (enumName : String) (description : CodeText) : GenerationError :=
  ⟨enumName, .internal, [(descriptionKey, description)]⟩

end GenerationError

/-! ### Mappings -/

/-- The default of a mapping: the name that was asked for, and the reference that it led to. -/
structure DefaultBinding where
  requested : Option CodeText
  reference : Option String
  deriving DecidableEq, Repr

/-- The reference of a default that has one; an empty reference is none. -/
def DefaultBinding.bound? (d : DefaultBinding) : Option String :=
  d.reference.filter (· != "")

/-- An enum value and the reference that it is bound to. -/
structure Binding where
  member : String
  reference : String
  deriving DecidableEq, Repr

/-- The bindings of a request.  Values without one of their own fall to the default. -/
structure Mapping where
  view : EnumView
  variant : Variant
  methodName : CodeText
  defaultBinding : DefaultBinding
  bindings : List Binding
  deriving DecidableEq, Repr

/-- A mapping in one line. -/
def Mapping.summary (m : Mapping) : String :=
  "ResolvedMapping(" ++ m.view.qualifiedName ++ " [" ++ m.variant.name ++ "] "
    ++ toString m.bindings.length ++ "/" ++ toString m.view.members.length ++ " bound, default="
    ++ (if m.defaultBinding.bound?.isSome then "yes" else "no") ++ ")"

/-- The reference that the template gives each value of an enum. -/
def bindMembers (r : ResourceMembers) (template : CodeText) (e : EnumView) :
    Except Failure (List (String × Option String)) :=
  e.members.mapM fun member => do
    return (member, r.reference? (← formatName template e.name member))

/-- The values that have a reference of their own. -/
def boundMembers (references : List (String × Option String)) : List Binding :=
  references.filterMap fun (member, reference) => reference.map (Binding.mk member)

/-- The default of a request. -/
def bindDefault (r : ResourceMembers) (property : Option CodeText) : DefaultBinding :=
  ⟨property, property.bind r.reference?⟩

/-- The errors of a request: a default that is not there, and values without a reference. -/
def mappingErrors (enumName : String) (methodName : CodeText) (d : DefaultBinding)
    (references : List (String × Option String)) : List GenerationError :=
  let invalid := match d.requested, d.bound? with
    | some property, none => [GenerationError.invalidDefault enumName property methodName]
    | _, _ => []
  let missing :=
    if references.any (·.2.isNone) && d.bound?.isNone then
      [GenerationError.missingDefault enumName methodName]
    else []
  invalid ++ missing

/-- The mapping of a request, if it binds anything, and its errors.  `nameFormat` and `methodName`
stand in for what the request does not give. -/
def Mapping.resolve (e : EnumView) (request : Request) (r : ResourceMembers)
    (nameFormat methodName : String) : Except Failure (Option Mapping × List GenerationError) := do
  let template ← request.nameFormat nameFormat
  let method ← request.methodName methodName
  let references ← bindMembers r template e
  let d := bindDefault r (← request.defaultProperty)
  let bindings := boundMembers references
  let errors := mappingErrors e.name method d references
  if e.members.isEmpty || (bindings.isEmpty && d.bound?.isNone) then return (none, errors)
  else return (some ⟨e, request.variant, method, d, bindings⟩, errors)

end LocalisedEnum

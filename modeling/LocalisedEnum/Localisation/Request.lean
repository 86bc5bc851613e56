import LocalisedEnum.Compilation
import LocalisedEnum.Keyword
import LocalisedEnum.Localisation.RequestKey
import LocalisedEnum.Localisation.Template
import LocalisedEnum.Text.Word

/-!
**What an attribute asks for.**

An attribute of either variant names the type that holds the strings, and may name a default
property, a naming template and a method.  A value that is null or blank counts as not given.

Main definitions:

* `Request` — a request with its named values;
* `localisationAttributes` — the attributes of an enum that ask for a variant;
* `Request.ofAttribute` — the request that an attribute makes;
* `Request.defaultProperty`, `Request.nameFormat`, `Request.methodName` — its parts.
-/

set_option autoImplicit false
set_option relaxedAutoImplicit false

namespace LocalisedEnum

/-! ### Attributes of an enum -/

/-- The attribute found for a variant. -/
def attributeFor? (variant : Variant) (found : List (Variant × Attribute)) : Option Attribute :=
  (found.find? (·.1 == variant)).map Prod.snd

/-- The attributes found so far with one more, which asks for the given variant if for any; asking
twice for one variant is a failure. -/
def collectAttribute (enumName : String) (found : List (Variant × Attribute)) (a : Attribute) :
    Option Variant → Except Failure (List (Variant × Attribute))
  | none => .ok found
  | some variant =>
    if (attributeFor? variant found).isSome then .error (.repeated variant enumName)
    else .ok (found ++ [(variant, a)])

/-- The attributes that ask for a variant, in the order of the declaration, behind those found
before. -/
def collectAttributes (enumName : String) (found : List (Variant × Attribute))
    (attributes : List Attribute) : Except Failure (List (Variant × Attribute)) :=
  attributes.foldlM
    (fun found a => collectAttribute enumName found a (Variant.ofAttributeName? a.shortName)) found

/-- The attributes of an enum that ask for a variant, in the order of the variants. -/
def localisationAttributes (e : EnumDeclaration) : Except Failure (List (Variant × Attribute)) := do
  let found ← collectAttributes e.name [] e.attributes
  return Variant.all.filterMap fun variant => (attributeFor? variant found).map (variant, ·)

/-! ### Requests -/

/-- What one attribute asks for: a variant, the type that holds the strings, and named values. -/
structure Request where
  variant : Variant
  resource : String
  named : List (String × ArgumentValue)
  deriving DecidableEq, Repr

namespace Request

/-- The text given under a name.  Null and blank texts count as not given. -/
def textOf (r : Request) (key : String) : Except Failure (Option CodeText) :=
  match valueOf? key r.named with
  | none => .ok none
  | some .null => .ok none
  | some (.text t) => .ok (if t.isBlankText then none else some t)
  | some value => .error (.notAText r.variant key value)

/-- The default property, if one is given. -/
def defaultProperty (r : Request) : Except Failure (Option CodeText) :=
  r.textOf defaultPropertyKey

/-- The naming template, or the fallback. -/
def nameFormat (r : Request) (fallback : String) : Except Failure CodeText := do
  return (← r.textOf nameFormatKey).getD (.ofString fallback)

/-- The name of the method, or the fallback. -/
def methodName (r : Request) (fallback : String) : Except Failure CodeText := do
  return (← r.textOf methodNameKey).getD (.ofString fallback)

end Request

/-! ### Names of methods -/

/-- A character that continues a method name: an ASCII letter, digit or low line. -/
def continuesMethodName (c : Char) : Bool :=
  isWordStart c || ('0' ≤ c && c ≤ '9')

/-- An identifier in ASCII, with or without an at sign.  A line feed at the end is let through. -/
def isAsciiIdentifier (cs : List Char) : Bool :=
  match withoutFinalLineFeed ((dropStart? ['@'] cs).getD cs) with
  | [] => false
  | c :: rest => isWordStart c && rest.all continuesMethodName

/-- A text that can name a method: an identifier that is not a reserved word. -/
def isMethodName (t : CodeText) : Bool :=
  match t.toString? with
  | none => false
  | some s => isAsciiIdentifier s.toList && (s.toList.head? == some '@' || !keywords.contains s)

/-! ### The request of an attribute -/

/-- The order of texts by their characters. -/
def textLe (s t : String) : Bool :=
  !(t < s)

/-- Texts in increasing order. -/
def sortTexts (xs : List String) : List String :=
  xs.mergeSort textLe

/-- Named values in the order of their names. -/
def sortNamed {α : Type} (xs : List (String × α)) : List (String × α) :=
  xs.mergeSort fun a b => textLe a.1 b.1

/-- The type that the arguments name. -/
def resourceOf (variant : Variant) : List ArgumentValue → Except Failure String
  | [] => .error (.missingResource variant)
  | [.typeOf name] => .ok name
  | .typeOf _ :: rest => .error (.tooManyArguments variant (rest.length + 1))
  | value :: _ => .error (.notAType variant value)

/-- The request that an attribute makes for a variant, if it is used correctly.  Its values are read
in the given order, and the first that is no text is the failure. -/
def Request.ofAttribute (order : KeyOrder) (variant : Variant) (a : Attribute) :
    Except Failure Request := do
  let resource ← resourceOf variant a.positional
  let unknown := (a.named.map Prod.fst).filter (!requestKeys.contains ·)
  if !unknown.isEmpty then .error (.unknownProperties variant (sortTexts unknown))
  else
    let request : Request := ⟨variant, resource, sortNamed a.named⟩
    let _ ← order.keys.mapM request.textOf
    match ← request.textOf methodNameKey with
    | some name => if isMethodName name then return request else .error (.notAName name)
    | none => return request

end LocalisedEnum

import LocalisedEnum.Localisation.Variant
import LocalisedEnum.Expression
import LocalisedEnum.Text.Quoted

/-!
**Why an enum cannot be localised.**

Localising an enum fails as a whole when one of its attributes is used wrongly, when a naming
template breaks the rules, or when a number in either is too large to be handled.  A failure belongs
to a category that the diagnostic names in front of the cause.

Main definitions:

* `TemplateFault` — what is wrong with a naming template;
* `Failure`, `Failure.category`, `Failure.message` — the failures, their categories and texts.
-/

set_option autoImplicit false
set_option relaxedAutoImplicit false

namespace LocalisedEnum

/-! ### Categories -/

/-- The categories of failures. -/
inductive FailureCategory where
  | attributeData
  | emission
  | value
  | overflow
  | memory
  deriving DecidableEq, Repr

/-- The name of a category. -/
def FailureCategory.name : FailureCategory → String
  | attributeData => "AttributeDataError"
  | emission => "EmitterError"
  | value => "ValueError"
  | overflow => "OverflowError"
  | memory => "MemoryError"

/-! ### Failures -/

/-- What is wrong with a naming template. -/
inductive TemplateFault where
  | strayBrace
  | unknownArgument (index : Nat)
  | numberTooLong (digits : Nat)
  | widthPastMachineInteger
  | widthPastMemory
  deriving DecidableEq, Repr

/-- Why an enum cannot be localised. -/
inductive Failure where
  | repeated (variant : Variant) (enumName : String)
  | missingResource (variant : Variant)
  | notAType (variant : Variant) (value : ArgumentValue)
  | tooManyArguments (variant : Variant) (count : Nat)
  | unknownProperties (variant : Variant) (names : List String)
  | notAText (variant : Variant) (key : String) (value : ArgumentValue)
  | notAName (methodName : CodeText)
  | template (format : CodeText) (fault : TemplateFault)
  | emptyEnum (methodName : CodeText) (enumName : String)
  deriving DecidableEq, Repr

/-- The category of a failure that is about a value, unless the value cannot be shown. -/
def categoryShowing (value : ArgumentValue) : FailureCategory :=
  if value.display?.isSome then .attributeData else .value

/-- The category of a failure. -/
def Failure.category : Failure → FailureCategory
  | notAType _ value => categoryShowing value
  | notAText _ _ value => categoryShowing value
  | template _ (.numberTooLong _) => .value
  | template _ .widthPastMachineInteger => .overflow
  | template _ .widthPastMemory => .memory
  | emptyEnum _ _ => .emission
  | _ => .attributeData

/-- The limit on the digits of a decimal integer, as messages state it. -/
def digitLimitText : String :=
  "Exceeds the limit (" ++ toString decimalLimit ++ " digits) for integer string conversion"

/-- The advice that follows `digitLimitText` in messages. -/
def digitLimitAdvice : String :=
  "; use sys.set_int_max_str_digits() to increase the limit"

/-- A message that ends with a value, unless the value cannot be shown. -/
def messageShowing (lead : String) (value : ArgumentValue) : CodeText :=
  match value.display? with
  | some shown => .ofString lead ++ shown
  | none => .ofString (digitLimitText ++ digitLimitAdvice)

/-- A number or a text between braces, as messages show an argument of a template. -/
def inBraces (s : String) : String :=
  "\x7b" ++ s ++ "\x7d"

/-- The message about a faulty template. -/
def TemplateFault.message (template : CodeText) : TemplateFault → String
  | strayBrace => "Resource name format " ++ quoted template ++ " is not a valid format string"
  | unknownArgument index =>
    "Resource name format " ++ quoted template ++ " refers to argument " ++
      inBraces (toString index) ++ "; only " ++ inBraces "0" ++ " (enum type) and " ++
      inBraces "1" ++ " (value name) are available"
  | numberTooLong digits =>
    digitLimitText ++ ": value has " ++ toString digits ++ " digits" ++ digitLimitAdvice
  | widthPastMachineInteger => "Python int too large to convert to C ssize_t"
  | widthPastMemory => ""

/-- The message of a failure. -/
def Failure.message : Failure → CodeText
  | repeated variant enumName =>
    .ofString (variant.attributeName ++ " is applied more than once to " ++ enumName)
  | missingResource variant =>
    .ofString (variant.attributeName ++ " requires a resource type argument")
  | notAType variant value =>
    messageShowing
      (variant.attributeName ++ " expects typeof(ResourceType) as its first argument, got ") value
  | tooManyArguments variant count =>
    .ofString (variant.attributeName ++ " takes one constructor argument, got " ++ toString count)
  | unknownProperties variant names =>
    .ofString (variant.attributeName ++ " has no settable propert"
      ++ (if names.length = 1 then "y" else "ies") ++ " " ++ joinWith ", " names)
  | notAText variant key value =>
    messageShowing (variant.attributeName ++ "." ++ key ++ " must be a constant string, got ") value
  | notAName methodName =>
    .ofString ("MethodName " ++ quoted methodName ++ " is not a valid C# identifier")
  | template format fault => .ofString (fault.message format)
  | emptyEnum methodName enumName =>
    .ofString "Cannot generate " ++ methodName ++ .ofString (" for empty enum " ++ enumName)

/-- A failure as a diagnostic describes it: the category and the message. -/
def Failure.description (f : Failure) : CodeText :=
  .ofString (f.category.name ++ ": ") ++ f.message

end LocalisedEnum

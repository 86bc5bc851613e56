import LocalisedEnum.Extension.Layout
import LocalisedEnum.Localisation.Mapping

/-!
**The source of an extension class.**

A mapping becomes a class with one method: a switch over the value, with a case for each value that
has a property of its own and a branch for all others.  The literal variant returns the string of
the property.  The formatted variant takes a detail as well and puts it into the string.

Main definitions:

* `Mapping.methodText` — the method;
* `Mapping.sourceText` — the file;
* `Mapping.fileName` — the name of the file.

Main results:

* `splitString_typeText` — a type is written segment by segment.
-/

set_option autoImplicit false
set_option relaxedAutoImplicit false

namespace LocalisedEnum

/-! ### Names -/

/-- The parameter that holds the value. -/
def valueParameter : String := "valueToLookup"

/-- The parameter that holds the detail. -/
def detailParameter : String := "detail"

/-- How generated code refers to the type of an enum: every segment as it is written. -/
def EnumView.typeText (e : EnumView) : String :=
  joinDots ((splitString '.' e.typeReference).map escapeName)

/-- The segments of a type as it is written are those of its name, each as it is written. -/
theorem splitString_typeText (e : EnumView) :
    splitString '.' e.typeText = (splitString '.' e.typeReference).map escapeName := by
  have hne : (splitString '.' e.typeReference).map escapeName ≠ [] := by
    simp [splitString_ne_nil]
  refine splitString_joinDots hne ?_
  intro part hpart hmem
  obtain ⟨segment, hsegment, rfl⟩ := List.mem_map.1 hpart
  rcases mem_escapeName hmem with heq | hmem
  · exact absurd heq (by decide)
  · exact not_mem_of_mem_splitString hsegment hmem

/-- The words that make the class of an enum as accessible as the enum. -/
def accessibilityText : Accessibility → String
  | .publicLevel => "public "
  | .internalLevel => "internal "
  | _ => ""

/-! ### The method -/

/-- The lines that take the string from a reference. -/
def branchLines (variant : Variant) (reference : String) : List String :=
  match variant with
  | .literal => [margin 3 ++ "return " ++ reference ++ ";"]
  | .formatted => [margin 3 ++ "discoveredValue = " ++ reference ++ ";", margin 3 ++ "break;"]

/-- The case of a value that has a property of its own. -/
def caseLines (variant : Variant) (typeText : String) (b : Binding) : List String :=
  (margin 2 ++ "case " ++ typeText ++ "." ++ escapeName b.member ++ ":")
    :: branchLines variant b.reference

/-- The line that refuses a value without a string. -/
def refusalLine : String :=
  margin 3 ++ "throw new global::System.ArgumentOutOfRangeException(nameof(" ++ valueParameter ++
    "), " ++ valueParameter ++ ", \"Provided value was invalid\");"

/-- The branch of all values without a property of their own. -/
def defaultLines (variant : Variant) (d : DefaultBinding) : List String :=
  (margin 2 ++ "default:") ::
    match d.bound? with
    | some reference => branchLines variant reference
    | none => [refusalLine]

namespace Mapping

/-- The name of the method as it is written.  What is written is ordinary text, and so is every name
that a request or the settings can give. -/
def writtenMethod (m : Mapping) : String :=
  m.methodName.toScalars

theorem writtenMethod_of_eq {m : Mapping} {name : String} (h : m.methodName = .ofString name) :
    m.writtenMethod = name := by
  rw [writtenMethod, h, CodeText.toScalars_ofString]

/-- The first line of the method. -/
def signature (m : Mapping) : String :=
  let detail := if m.variant.hasDetail then ", string " ++ detailParameter else ""
  "public static string " ++ m.writtenMethod ++ "(this " ++ m.view.typeText ++ " " ++ valueParameter
    ++ detail ++ ")"

theorem signature_eq (m : Mapping) :
    m.signature = "public static string " ++ m.writtenMethod ++ "(this " ++ m.view.typeText ++ " "
      ++ valueParameter ++ (if m.variant.hasDetail then ", string " ++ detailParameter else "")
      ++ ")" := rfl

/-- The lines of the method. -/
def methodLines (m : Mapping) : List String :=
  [m.signature, "\x7b"]
    ++ (if m.variant.hasDetail then [margin 1 ++ "string discoveredValue;"] else [])
    ++ [margin 1 ++ "switch (" ++ valueParameter ++ ")", margin 1 ++ "\x7b"]
    ++ m.bindings.flatMap (caseLines m.variant m.view.typeText)
    ++ defaultLines m.variant m.defaultBinding
    ++ [margin 1 ++ "\x7d"]
    ++ (if m.variant.hasDetail then
        [margin 1 ++ "return string.Format(discoveredValue, " ++ detailParameter ++ ");"]
      else [])
    ++ ["\x7d"]

/-- The method. -/
def methodText (m : Mapping) : String :=
  unlines m.methodLines

/-! ### The file -/

/-- The class that holds the method. -/
def classText (m : Mapping) : String :=
  inBlock
    (accessibilityText m.view.accessibility ++ "static partial class " ++ m.view.extensionClassName)
    m.methodText

/-- The file of a mapping.  An enum without values has none. -/
def sourceText (m : Mapping) : Except Failure String :=
  if m.view.members.isEmpty then .error (.emptyEnum m.methodName m.view.name)
  else .ok (LocalisedEnum.sourceText m.view.namespaceName m.classText)

/-- The name of the file of a mapping. -/
def fileName (m : Mapping) : String :=
  m.view.extensionClassName ++ (if m.variant.hasDetail then ".Formatted" else "") ++ ".cs"

end Mapping

end LocalisedEnum

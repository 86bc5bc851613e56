import LocalisedEnum.Extension.Layout
import LocalisedEnum.Localisation.Variant

/-!
**The sources of the attribute classes.**

The attributes that ask for localisation are declared in sources of their own, so that enums can
carry them without further ado.

Main definitions:

* `attributeFileName`, `attributeText` — the file that declares the attribute of a variant.
-/

set_option autoImplicit false
set_option relaxedAutoImplicit false

namespace LocalisedEnum

/-- The name of the class of a variant's attribute. -/
def attributeClassName (variant : Variant) : String :=
  variant.attributeName ++ "Attribute"

/-- The name of the file that declares the attribute of a variant. -/
def attributeFileName (variant : Variant) : String :=
  attributeClassName variant ++ ".cs"

/-- The method that an attribute asks for, as its documentation shows it. -/
def methodHint : Variant → String
  | .literal => "<c>GetDescription(this TEnum value)</c>"
  | .formatted => "<c>GetDescription(this TEnum value, string detail)</c>"

/-- A property of an attribute class with the given accessors. -/
def accessorLine (typeName name accessors : String) : String :=
  margin 1 ++ "public " ++ typeName ++ " " ++ name ++ " \x7b " ++ accessors ++ " \x7d"

/-- The lines of the class of a variant's attribute. -/
def attributeLines (variant : Variant) : List String :=
  let name := attributeClassName variant
  ["/// <summary>",
    "/// Generates a " ++ methodHint variant
      ++ " extension method for the annotated enum, looking up",
    "/// each value on <see cref=\"ResourceManager\"/> by the name",
    "/// <c>string.Format(ResourceNameFormat, enumTypeName, valueName)</c>.",
    "/// </summary>",
    "[global::System.AttributeUsage(global::System.AttributeTargets.Enum, AllowMultiple = false, "
      ++ "Inherited = true)]",
    "internal sealed class " ++ name ++ " : global::System.Attribute",
    "\x7b",
    margin 1 ++ "public " ++ name ++ "(global::System.Type resourceManager)",
    margin 1 ++ "\x7b",
    margin 2 ++ "ResourceManager = resourceManager;",
    margin 1 ++ "\x7d",
    "",
    accessorLine "global::System.Type" "ResourceManager" "get;",
    accessorLine "string" "DefaultPropertyName" "get; set;",
    accessorLine "string" "ResourceNameFormat" "get; set;",
    accessorLine "string" "MethodName" "get; set;",
    "\x7d"]

/-- The file that declares the attribute of a variant in a namespace. -/
def attributeText (variant : Variant) (namespaceName : String) : String :=
  sourceText namespaceName (unlines (attributeLines variant))

end LocalisedEnum

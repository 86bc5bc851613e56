/-!
**The two variants of a localised enum.**

The literal variant returns the resource string of a value as it is.  The formatted variant takes a
detail and puts it into the resource string.  Each is asked for by an attribute of its own.

Main definitions:

* `Variant` — the variants, their names and attributes.
-/

set_option autoImplicit false
set_option relaxedAutoImplicit false

namespace LocalisedEnum

/-- A variant of localisation. -/
inductive Variant where
  | literal
  | formatted
  deriving DecidableEq, Repr

namespace Variant

/-- The variants, in the order in which their sources are generated. -/
def all : List Variant := [literal, formatted]

/-- The name of a variant. -/
def name : Variant → String
  | literal => "literal"
  | formatted => "formatted"

/-- The variant with a given name. -/
def ofName? (s : String) : Option Variant :=
  all.find? (·.name == s)

/-- The short name of the attribute that asks for a variant. -/
def attributeName : Variant → String
  | literal => "WithLiteralLocalisation"
  | formatted => "WithFormattedLocalisation"

/-- The variant that the attribute with a given short name asks for. -/
def ofAttributeName? (s : String) : Option Variant :=
  all.find? (·.attributeName == s)

/-- Whether the generated method takes a detail. -/
def hasDetail : Variant → Bool
  | literal => false
  | formatted => true

end Variant

end LocalisedEnum

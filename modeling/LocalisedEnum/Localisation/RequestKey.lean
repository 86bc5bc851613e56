/-!
**The names of values in a request.**

An attribute may give values to three names.  They are looked at one after the other, and a value
that is no text ends the reading.  Which of several such values is met first is left open: every
process goes through the names in an order of its own.

Main definitions:

* `requestKeys` — the names;
* `KeyOrder` — an order of the names.
-/

set_option autoImplicit false
set_option relaxedAutoImplicit false

namespace LocalisedEnum

/-- The name of the value that names the default property. -/
def defaultPropertyKey : String := "DefaultPropertyName"

/-- The name of the value that gives the naming template. -/
def nameFormatKey : String := "ResourceNameFormat"

/-- The name of the value that names the method. -/
def methodNameKey : String := "MethodName"

/-- The names that a request may give values to. -/
def requestKeys : List String := [defaultPropertyKey, nameFormatKey, methodNameKey]

/-- An order of these names, in which a process goes through them. -/
structure KeyOrder where
  keys : List String
  perm : keys.Perm requestKeys
  deriving DecidableEq, Repr

/-- The order in which the names are listed. -/
def KeyOrder.listed : KeyOrder := ⟨requestKeys, .refl _⟩

theorem KeyOrder.mem_keys (order : KeyOrder) {key : String} :
    key ∈ order.keys ↔ key ∈ requestKeys :=
  order.perm.mem_iff

end LocalisedEnum

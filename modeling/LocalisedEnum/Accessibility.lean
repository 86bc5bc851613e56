/-!
**Accessibility.**

Who may use a type is declared by its modifiers.  Two pairs of modifiers have a meaning of their
own; without any, a type is internal, or private inside another type.

Main definitions:

* `Accessibility`, `Accessibility.text` — the levels and their names;
* `Accessibility.ofModifiers` — the level that modifiers declare.
-/

set_option autoImplicit false
set_option relaxedAutoImplicit false

namespace LocalisedEnum

/-- A level of accessibility; `notApplicable` is none at all. -/
inductive Accessibility where
  | publicLevel
  | internalLevel
  | protectedLevel
  | privateLevel
  | protectedInternal
  | privateProtected
  | notApplicable
  deriving DecidableEq, Repr

namespace Accessibility

/-- Every level. -/
def all : List Accessibility :=
  [.publicLevel, .internalLevel, .protectedLevel, .privateLevel, .protectedInternal,
    .privateProtected, .notApplicable]

/-- The name of a level. -/
def text : Accessibility → String
  | .publicLevel => "public"
  | .internalLevel => "internal"
  | .protectedLevel => "protected"
  | .privateLevel => "private"
  | .protectedInternal => "protected internal"
  | .privateProtected => "private protected"
  | .notApplicable => ""

/-- The level with a given name. -/
def ofText? (s : String) : Option Accessibility :=
  all.find? (·.text == s)

/-- The level declared by modifiers, in any order and with repetitions, on a type that is nested in
another or is not. -/
def ofModifiers (modifiers : List String) (nested : Bool) : Accessibility :=
  let has (m : String) := modifiers.contains m
  if has "public" then .publicLevel
  else if has "protected" && has "internal" then .protectedInternal
  else if has "private" && has "protected" then .privateProtected
  else if has "internal" then .internalLevel
  else if has "protected" then .protectedLevel
  else if has "private" then .privateLevel
  else if nested then .privateLevel
  else .internalLevel

/-- The level as generated code knows it: the combined and the protected levels have no
counterpart. -/
def normalise : Accessibility → Accessibility
  | .publicLevel => .publicLevel
  | .internalLevel => .internalLevel
  | .privateLevel => .privateLevel
  | _ => .notApplicable

end Accessibility

end LocalisedEnum

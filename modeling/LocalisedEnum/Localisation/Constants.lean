import LocalisedEnum.Localisation.Request

/-!
**Constants as values of a request.**

A named value may refer to a string constant: by the name of its type and its own name, or by its
own name alone when a type around the enum declares it.  A reference that leads nowhere stays as it
is.

Main definitions:

* `isMemberAccess` — names joined by points and double colons;
* `constantValue` — the constant that a reference stands for;
* `bindConstants` — an attribute with the constants put in.

Main results:

* `keys_bindConstants` — names and their order stay as they are.
-/

set_option autoImplicit false
set_option relaxedAutoImplicit false

namespace LocalisedEnum

/-! ### References -/

/-- What follows the mark between two names. -/
def afterNameMark? : List Char → Option (List Char)
  | '.' :: rest => some rest
  | ':' :: ':' :: rest => some rest
  | _ => none

/-- What follows the name at the front. -/
def afterName? (cs : List Char) : Option (List Char) :=
  match (dropStart? ['@'] cs).getD cs with
  | [] => none
  | c :: rest => if isWordStart c then some (rest.dropWhile isWord) else none

theorem afterNameMark?_length_lt {cs rest : List Char} (h : afterNameMark? cs = some rest) :
    rest.length < cs.length := by
  match cs with
  | [] => cases h
  | c :: tail =>
    simp only [afterNameMark?] at h
    split at h
    · next heq => cases h; cases heq; exact Nat.lt_succ_self _
    · next heq => cases h; cases heq; simp only [List.length_cons]; omega
    · cases h

theorem afterName?_length_le {cs rest : List Char} (h : afterName? cs = some rest) :
    rest.length ≤ cs.length := by
  have hle : ((dropStart? ['@'] cs).getD cs).length ≤ cs.length := by
    cases hd : dropStart? ['@'] cs with
    | none => exact Nat.le_refl _
    | some tail => rw [dropStart?_eq_some_iff.1 hd]; simp
  simp only [afterName?] at h
  split at h
  · cases h
  · next c tail heq =>
    split at h
    · cases h
      rw [heq] at hle
      have := (List.dropWhile_sublist isWord : (tail.dropWhile isWord).Sublist tail).length_le
      simp only [List.length_cons] at hle
      omega
    · cases h

/-- Names joined by points and double colons. -/
def isMemberAccess (cs : List Char) : Bool :=
  match _h1 : afterName? cs with
  | none => false
  | some [] => true
  | some (c :: tail) =>
    match _h2 : afterNameMark? (c :: tail) with
    | none => false
    | some rest => isMemberAccess rest
  termination_by cs.length
  decreasing_by exact Nat.lt_of_lt_of_le (afterNameMark?_length_lt _h2) (afterName?_length_le _h1)

/-- A text at its last point: what precedes it and what follows it.  Without a point nothing
precedes. -/
def splitAtLastPoint (s : String) : String × String :=
  let segments := splitString '.' s
  (joinDots segments.dropLast, segments.getLastD "")

/-! ### Constants -/

/-- The value of a constant of a type around an enum, the innermost that declares it. -/
def containingConstant (c : Compilation) (context : LookupContext) (name : String) :
    Option CodeText :=
  (outwards context.containingTypes).findSome? fun outer => do
    let t ← c.typeIndex.get? (joinDots (namespacePart context.namespaceName ++ outer))
    valueOf? name t.constants

/-- The string constant that a reference stands for where an enum is declared. -/
def constantValue (c : Compilation) (context : LookupContext) (reference : String) :
    Option CodeText :=
  if isMemberAccess reference.toList then
    let (typeName, memberName) := splitAtLastPoint reference
    let name := String.ofList (memberName.toList.dropWhile (· == '@'))
    if typeName = "" then containingConstant c context name
    else (c.findType typeName context).bind fun t => valueOf? name t.constants
  else none

/-- A value with the constant that it refers to, if it refers to one, put in its place. -/
def bindConstant (c : Compilation) (context : LookupContext) : ArgumentValue → ArgumentValue
  | .raw reference => ((constantValue c context reference).map .text).getD (.raw reference)
  | value => value

/-- An attribute with the constants that its named values refer to put in their places. -/
def bindConstants (c : Compilation) (context : LookupContext) (a : Attribute) : Attribute :=
  { a with named := a.named.map fun (name, value) => (name, bindConstant c context value) }

theorem keys_bindConstants (c : Compilation) (context : LookupContext) (a : Attribute) :
    (bindConstants c context a).named.map Prod.fst = a.named.map Prod.fst := by
  simp [bindConstants, Function.comp_def]

end LocalisedEnum

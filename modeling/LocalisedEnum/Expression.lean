import LocalisedEnum.Literal
import LocalisedEnum.Number.Numeral

/-!
**Constant expressions.**

Arguments of attributes and initialisers of constants are expressions.  A few shapes have a value:
literals, a type or a name quoted by its operator, a negative number, and a sum of string literals.
Every other expression is kept as its text.

Main definitions:

* `ArgumentValue` — the values;
* `ArgumentValue.display?` — a value as messages show it;
* `splitArguments` — an argument list at its commas;
* `evaluate` — the value of an expression.
-/

set_option autoImplicit false
set_option relaxedAutoImplicit false

namespace LocalisedEnum

/-! ### Values -/

/-- The value of an argument; `raw` is an expression that has none and is kept as its text. -/
inductive ArgumentValue where
  | text (t : CodeText)
  | bool (b : Bool)
  | integer (n : Int)
  | real (x : Binary64)
  | null
  | typeOf (name : String)
  | raw (expression : String)
  deriving DecidableEq, Repr

/-- The value of a numeral. -/
def ArgumentValue.ofNumeral : Numeral → ArgumentValue
  | .integer n => .integer n
  | .real x => .real x

/-- A value as messages show it.  An integer of more than `decimalLimit` digits is not shown. -/
def ArgumentValue.display? : ArgumentValue → Option CodeText
  | text t => some t
  | bool b => some (.ofString (if b then "True" else "False"))
  | integer n =>
    if decimalLimit < (Nat.toDigits 10 n.natAbs).length then none else some (.ofString (toString n))
  | real x => some (.ofString x.text)
  | null => some (.ofString "None")
  | typeOf name => some (.ofString ("typeof(" ++ name ++ ")"))
  | raw expression => some (.ofString expression)

/-! ### Argument lists -/

/-- How a token changes the depth of nesting, angle brackets counted. -/
def nestingWithAngles (t : Token) : Int :=
  if ["(", "[", "\x7b", "<"].contains t.text then 1
  else if [")", "]", "\x7d", ">"].contains t.text then -1
  else 0

/-- The arguments of a list of which `current` has been read, at the given depth of nesting. -/
def splitArgumentsFrom (depth : Int) (current : List Token) : List Token → List (List Token)
  | [] => if current.isEmpty then [] else [current]
  | t :: rest =>
    let depth := depth + nestingWithAngles t
    if t.text = "," ∧ depth = 0 then current :: splitArgumentsFrom depth [] rest
    else splitArgumentsFrom depth (current ++ [t]) rest

/-- The arguments of a list, split at the commas outside all brackets.  An argument may be empty,
except after the last comma. -/
def splitArguments (ts : List Token) : List (List Token) :=
  splitArgumentsFrom 0 [] ts

/-! ### Shapes of expressions -/

/-- The mark that makes a name absolute. -/
def globalMark : String := "global::"

/-- What stands between the parentheses of `operator(…)`. -/
def operand? (operator : String) : List Token → Option (List Token)
  | t :: opening :: rest =>
    if t.text = operator ∧ opening.text = "(" ∧ rest.getLast?.any (·.text == ")") then
      some rest.dropLast
    else none
  | _ => none

/-- The operands of a sum: tokens with a plus sign between each two. -/
def summands? : List Token → Option (List Token)
  | [] => none
  | [t] => some [t]
  | t :: plus :: rest => if plus.text = "+" then (summands? rest).map (t :: ·) else none

/-- The concatenated values of string literals; none if one of them has no value. -/
def concatenation : List Token → Except EscapeError (Option CodeText)
  | [] => .ok (some [])
  | t :: rest => do
    let value ← t.literalValue
    let tail ← concatenation rest
    return do return (← value) ++ (← tail)

/-- The type named by `typeof(…)`, without the mark that makes a name absolute. -/
def typeOperand? (ts : List Token) : Option String :=
  (operand? "typeof" ts).map fun inside => withoutStart globalMark (joinTokens inside)

/-- The last name inside `nameof(…)`, if there is a name inside. -/
def nameOperand? (ts : List Token) : Option String := do
  let inside ← operand? "nameof" ts
  let last ← (inside.filter (·.kind = .identifier)).getLast?
  return last.plain

/-- The value of an expression of one token, if it has one. -/
def evaluateToken (t : Token) : Except EscapeError (Option ArgumentValue) := do
  if t.kind.isStringLiteral then
    return some (((← t.literalValue).map .text).getD (.raw t.text))
  else if t.text = "null" then return some .null
  else if t.text = "true" then return some (.bool true)
  else if t.text = "false" then return some (.bool false)
  else if t.kind = .number then
    return some (((Numeral.read? t.text.toList).map .ofNumeral).getD (.raw t.text))
  else return none

/-- The value of a minus sign and a numeral, if that is what the expression is. -/
def negatedNumeral? : List Token → Option ArgumentValue
  | [sign, t] =>
    if sign.text = "-" ∧ t.kind = .number then
      (Numeral.read? t.text.toList).map fun n => .ofNumeral n.neg
    else none
  | _ => none

/-- The value of a sum of string literals, if that is what the expression is. -/
def literalSum (ts : List Token) : Except EscapeError (Option CodeText) :=
  match summands? ts with
  | some operands => concatenation operands
  | none => .ok none

/-- The value of an expression that neither quotes a type or a name nor is a single token. -/
def evaluateCompound (ts : List Token) : Except EscapeError ArgumentValue :=
  match negatedNumeral? ts with
  | some value => .ok value
  | none => do return ((← literalSum ts).map .text).getD (.raw (joinTokens ts))

/-- The value of an expression. -/
def evaluate (ts : List Token) : Except EscapeError ArgumentValue :=
  match typeOperand? ts, nameOperand? ts, ts with
  | some name, _, _ => .ok (.typeOf name)
  | none, some name, _ => .ok (.text (.ofString name))
  | none, none, [t] => do return (← evaluateToken t).getD (.raw t.text)
  | none, none, _ => evaluateCompound ts

end LocalisedEnum

import LocalisedEnum.Text.Digit
import LocalisedEnum.Text.Segment

/-!
**Arguments of the command line.**

An argument is an option, an operand, or the separator behind which everything is an operand.  An
option may be written out, cut short as long as one option only begins like it, and joined to its
value by an equals sign.  An argument that begins like an option is an operand all the same when it
is a negative number or has a blank in it.

Main definitions:

* `OptionKey` — the options;
* `Argument`, `classify`, `classifyAll` — what arguments are.
-/

set_option autoImplicit false
set_option relaxedAutoImplicit false

namespace LocalisedEnum

/-! ### Options -/

/-- The options. -/
inductive OptionKey where
  | help
  | debug
  | output
  | noAttributes
  | attributeNamespace
  | encoding
  | nameFormat
  | methodName
  deriving DecidableEq, Repr

/-- Whether an option has a value. -/
def OptionKey.hasValue : OptionKey → Bool
  | help => false
  | debug => false
  | noAttributes => false
  | _ => true

/-- The options of a command by their names. -/
abbrev OptionTable : Type := List (String × OptionKey)

/-- The names of the option that asks for help. -/
def helpOptions : OptionTable := [("-h", .help), ("--help", .help)]

/-! ### Arguments -/

/-- What an argument is.  A `misused` option is refused when it is its turn, an `ambiguous` one at
once. -/
inductive Argument where
  | operand (text : String)
  | separator
  | option (key : OptionKey) (value : Option String)
  | unknown
  | misused
  | ambiguous
  deriving DecidableEq, Repr

/-- A text at its first equals sign: what precedes it, and what follows if it is there. -/
def splitAtEquals (cs : List Char) : List Char × Option (List Char) :=
  (cs.takeWhile (· != '='), (cs.dropWhile (· != '=')).tail?)

/-- What follows the minus sign of a negative number: digits, with or without a point in front of
the last ones. -/
def isNegativeMagnitude (cs : List Char) : Bool :=
  match cs.dropWhile isDigit with
  | [] => !cs.isEmpty
  | '.' :: fraction => !fraction.isEmpty && fraction.all isDigit
  | _ => false

/-- An argument that begins like an option and is none. -/
def classifyOther (cs : List Char) : Argument :=
  if isNegativeMagnitude (withoutFinalLineFeed (cs.drop 1)) || cs.contains ' ' then
    .operand (String.ofList cs)
  else .unknown

/-- Whether what follows the letter of the short option for help still asks for help. -/
def clusterAsksHelp : List Char → Bool
  | [] => true
  | '-' :: _ => false
  | 'h' :: '=' :: _ => false
  | 'h' :: rest => clusterAsksHelp rest
  | _ => true

/-- The option that a long argument means: the one that begins like it. -/
def classifyLong (options : OptionTable) (cs : List Char) : Argument :=
  let (start, value) := splitAtEquals cs
  match options.filter fun (name, _) => startsWith start name.toList with
  | [] => classifyOther cs
  | [(_, key)] => .option key (value.map String.ofList)
  | _ => .ambiguous

/-- What an argument in front of the separator is. -/
def classify (options : OptionTable) (text : String) : Argument :=
  match options.lookup text with
  | some key => .option key none
  | none =>
    match text.toList with
    | '-' :: c :: rest =>
      let (start, value) := splitAtEquals ('-' :: c :: rest)
      match options.lookup (String.ofList start) with
      | some key => .option key (value.map String.ofList)
      | none =>
        if c = '-' then classifyLong options ('-' :: c :: rest)
        else if c = 'h' then if clusterAsksHelp rest then .option .help none else .misused
        else classifyOther ('-' :: c :: rest)
    | _ => .operand text

/-- What the arguments are. -/
def classifyAll (options : OptionTable) : List String → List Argument
  | [] => []
  | text :: rest =>
    if text = "--" then .separator :: rest.map .operand
    else classify options text :: classifyAll options rest

end LocalisedEnum

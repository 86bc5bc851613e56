import LocalisedEnum.Command.Argument
import LocalisedEnum.Settings

/-!
**Commands.**

The first operand of the command line names a command, and everything behind it belongs to the
command.  A command takes options and, if it works on source files, one group of operands that name
them.

Main definitions:

* `Command` — what the program can be told to do;
* `Invocation`, `Invocation.ofArguments` — what a command line amounts to.
-/

set_option autoImplicit false
set_option relaxedAutoImplicit false

namespace LocalisedEnum

/-! ### Commands -/

/-- What the program can be told to do: to generate files, to check what it would generate, or to
write the files of the attribute classes. -/
inductive Command where
  | generate (paths : List String) (output : String) (overrides : Overrides)
  | check (paths : List String)
  | attributes (output : String) (overrides : Overrides)
  deriving DecidableEq, Repr

/-- What a command line amounts to: a command, a request for help, nothing, or a mistake. -/
inductive Invocation where
  | command (c : Command)
  | help
  | nothing
  | mistake
  deriving DecidableEq, Repr

/-! ### The arguments of a command -/

/-- The operands of a command: none yet, a group that may go on, or a group that is closed. -/
inductive Operands where
  | awaited
  | gathered (texts : List String)
  | closed (texts : List String)
  deriving DecidableEq, Repr

/-- What the arguments of a command have given so far.  Arguments left over are a mistake, but a
request for help behind them still counts. -/
structure Given where
  options : List (OptionKey × String)
  operands : Operands
  leftOver : Bool
  deriving DecidableEq, Repr

namespace Given

/-- An option with its value; an option without one gets an empty text. -/
def addOption (g : Given) (key : OptionKey) (value : String) : Given where
  options := g.options ++ [(key, value)]
  operands := match g.operands with
    | .gathered texts => .closed texts
    | operands => operands
  leftOver := g.leftOver

/-- An operand, which belongs to the group unless that is closed. -/
def addOperand (g : Given) (text : String) : Given :=
  match g.operands with
  | .awaited => { g with operands := .gathered [text] }
  | .gathered texts => { g with operands := .gathered (texts ++ [text]) }
  | .closed _ => { g with leftOver := true }

/-- The separator, which belongs to the group unless that is closed. -/
def addSeparator (g : Given) : Given :=
  match g.operands with
  | .closed _ => { g with leftOver := true }
  | _ => g

/-- An argument that means nothing. -/
def addUnknown (g : Given) : Given where
  options := g.options
  operands := match g.operands with
    | .gathered texts => .closed texts
    | operands => operands
  leftOver := true

/-- The value given last for an option. -/
def value? (g : Given) (key : OptionKey) : Option String :=
  (g.options.reverse.find? (·.1 == key)).map Prod.snd

/-- The operands, if there are any. -/
def paths? (g : Given) : Option (List String) :=
  match g.operands with
  | .awaited => none
  | .gathered texts => some texts
  | .closed texts => some texts

/-- The settings that the options override. -/
def overrides (g : Given) : Overrides where
  attributeNamespace := g.value? .attributeNamespace
  emitAttributes := (g.value? .noAttributes).map fun _ => false
  nameFormat := g.value? .nameFormat
  methodName := g.value? .methodName
  encoding := g.value? .encoding

/-- The directory for generated files. -/
def output (g : Given) : String :=
  (g.value? .output).getD "Generated"

end Given

/-- Reads the arguments of a command from the left.  The result is none if help is asked for, and an
error if an option is misused. -/
def readArguments (g : Given) : List Argument → Except Unit (Option Given)
  | [] => .ok (some g)
  | .operand text :: rest => readArguments (g.addOperand text) rest
  | .separator :: rest => readArguments g.addSeparator rest
  | .unknown :: rest => readArguments g.addUnknown rest
  | .option key (some value) :: rest =>
    if key.hasValue then readArguments (g.addOption key value) rest else .error ()
  | .option key none :: rest =>
    if key = .help then .ok none
    else if key.hasValue then
      match rest with
      | .operand value :: rest => readArguments (g.addOption key value) rest
      | _ => .error ()
    else readArguments (g.addOption key "") rest
  | .misused :: _ => .error ()
  | .ambiguous :: _ => .error ()

/-! ### Command lines -/

/-- The form of a command: its options, whether it takes operands, and the command that is given. -/
structure CommandForm where
  options : OptionTable
  operands : Operands
  build : Given → Option Command

/-- The options that commands which write attribute classes have in common. -/
def writingOptions : OptionTable :=
  [("--output", .output), ("--attribute-namespace", .attributeNamespace), ("--encoding", .encoding)]

/-- The forms of the commands by their names. -/
def commandForms : List (String × CommandForm) :=
  [("generate",
    { options := helpOptions ++ writingOptions ++ [("--no-attributes", .noAttributes),
        ("--name-format", .nameFormat), ("--method-name", .methodName)]
      operands := .awaited
      build := fun g => g.paths?.map fun paths => .generate paths g.output g.overrides }),
    ("check",
    { options := helpOptions
      operands := .awaited
      build := fun g => g.paths?.map .check }),
    ("attributes",
    { options := helpOptions ++ writingOptions
      operands := .closed []
      build := fun g => some (.attributes g.output g.overrides) })]

/-- What the arguments of a command of some form amount to. -/
def CommandForm.read (form : CommandForm) (texts : List String) : Invocation :=
  let arguments := classifyAll form.options texts
  if arguments.contains .ambiguous then .mistake
  else
    match readArguments ⟨[], form.operands, false⟩ arguments with
    | .error _ => .mistake
    | .ok none => .help
    | .ok (some g) =>
      match form.build g with
      | some c => if g.leftOver then .mistake else .command c
      | none => .mistake

/-- The options in front of the name of the command.  The events that `--debug` asks for in addition
are not logged, so it changes nothing. -/
def leadingOptions : OptionTable :=
  helpOptions ++ [("--debug", .debug)]

/-- Reads a command line from the left, up to the name of the command. -/
def readLeading (leftOver : Bool) : List (Argument × String) → Invocation
  | [] => if leftOver then .mistake else .nothing
  | (.option .help none, _) :: _ => .help
  | (.option .debug none, _) :: rest => readLeading leftOver rest
  | (.unknown, _) :: rest => readLeading true rest
  | (.operand name, _) :: rest =>
    match commandForms.lookup name with
    | none => .mistake
    | some form =>
      match form.read (rest.map Prod.snd) with
      | .command c => if leftOver then .mistake else .command c
      | invocation => invocation
  | _ => .mistake

/-- What a command line amounts to. -/
def Invocation.ofArguments (texts : List String) : Invocation :=
  let arguments := classifyAll leadingOptions texts
  if arguments.contains .ambiguous then .mistake
  else readLeading false (arguments.zip texts)

end LocalisedEnum

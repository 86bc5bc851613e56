import LocalisedEnum.Encoding.Codec
import LocalisedEnum.Localisation.RequestKey
import LocalisedEnum.Log
import LocalisedEnum.Text.Blank
import LocalisedEnum.Text.LowerCase

/-!
**Settings.**

A pass has settings that hold for every enum.  They come from the environment and may be overridden
one by one.  A variable that is blank counts as not set.  One of them nobody sets: the order in
which the values of a request are read is that of the process.

Main definitions:

* `Settings`, `Settings.standard` — the settings and what they are when nothing is set;
* `Environment` — what a process finds around it;
* `Settings.ofEnvironment` — the settings of an environment, and what there is to log;
* `Overrides`, `Settings.override` — settings that take precedence.
-/

set_option autoImplicit false
set_option relaxedAutoImplicit false

namespace LocalisedEnum

/-! ### Settings -/

/-- The settings of a pass. -/
structure Settings where
  attributeNamespace : String
  emitAttributes : Bool
  nameFormat : String
  methodName : String
  encoding : String
  keyOrder : KeyOrder
  deriving DecidableEq, Repr

/-- The settings when nothing is set. -/
def Settings.standard : Settings where
  attributeNamespace := "EnumStringGenerator"
  emitAttributes := true
  nameFormat := "\x7b0\x7d\x7b1\x7dDescription"
  methodName := "GetDescription"
  encoding := "utf-8"
  keyOrder := .listed

/-- The codec that the encoding of the settings means. -/
def Settings.codec (s : Settings) (codecs : Codecs) : NamedCodec :=
  codecs.named s.encoding

/-! ### Overrides -/

/-- Settings that take precedence where they are given. -/
structure Overrides where
  attributeNamespace : Option String
  emitAttributes : Option Bool
  nameFormat : Option String
  methodName : Option String
  encoding : Option String
  deriving DecidableEq, Repr

/-- The settings with others in their places. -/
def Settings.override (s : Settings) (o : Overrides) : Settings where
  attributeNamespace := o.attributeNamespace.getD s.attributeNamespace
  emitAttributes := o.emitAttributes.getD s.emitAttributes
  nameFormat := o.nameFormat.getD s.nameFormat
  methodName := o.methodName.getD s.methodName
  encoding := o.encoding.getD s.encoding
  keyOrder := s.keyOrder

/-! ### The environment -/

/-- The words that turn a flag on. -/
def onWords : List String := ["1", "true", "yes", "on"]

/-- The words that turn a flag off. -/
def offWords : List String := ["0", "false", "no", "off"]

/-- **What a process finds around it**: the variables, the codecs of the machine, and the order in
which it goes through the names of values. -/
structure Environment where
  entries : List (String × String)
  codecs : Codecs
  keyOrder : KeyOrder

/-- An environment in which some variables are set, and which has nothing else of its own. -/
def Environment.ofVariables (entries : List (String × String)) : Environment :=
  ⟨entries, .none, .listed⟩

/-- The value of a variable without the blanks around it; empty when it is not set. -/
def Environment.value (env : Environment) (name : String) : String :=
  trimBlank (((env.entries.find? (·.1 == name)).map Prod.snd).getD "")

/-- The value of a variable that is set to more than blanks. -/
def Environment.value? (env : Environment) (name : String) : Option String :=
  let value := env.value name
  if value = "" then none else some value

/-- The meaning of a flag, and what there is to log about it. -/
def readFlag (value : String) : Option Bool × List LogEntry :=
  if onWords.contains value then (some true, [])
  else if offWords.contains value then (some false, [])
  else if value = "" then (none, [])
  else (none, [.unrecognisedFlag value])

/-- The settings of an environment, and what there is to log. -/
def Settings.ofEnvironment (env : Environment) : Settings × List LogEntry :=
  let (emitAttributes, log) := readFlag (lowerCase (env.value "ESG_EMIT_ATTRIBUTES"))
  let overrides : Overrides :=
    { attributeNamespace := env.value? "ESG_ATTRIBUTE_NAMESPACE"
      emitAttributes := emitAttributes
      nameFormat := env.value? "ESG_NAME_FORMAT"
      methodName := env.value? "ESG_METHOD_NAME"
      encoding := env.value? "ESG_ENCODING" }
  ({ Settings.standard.override overrides with keyOrder := env.keyOrder }, log)

end LocalisedEnum

import LocalisedEnum.Text.Lines
import LocalisedEnum.Text.Segment

/-!
**The layout of generated code.**

Generated code is indented by four blanks for each level, and stands in a block for its namespace
unless that is the global one.

Main definitions:

* `indent` — code a number of levels deeper;
* `inNamespace` — code in the block of a namespace;
* `generatedHeader`, `sourceText` — a whole generated file.
-/

set_option autoImplicit false
set_option relaxedAutoImplicit false

namespace LocalisedEnum

/-- The blanks of one level. -/
def indentUnit : String := "    "

/-- The blanks of a number of levels. -/
def margin (levels : Nat) : String :=
  String.join (List.replicate levels indentUnit)

/-- Code a number of levels deeper. -/
def indent (levels : Nat) (code : String) : String :=
  indentBy (margin levels) code

/-- Lines as one text, without a line feed at the end. -/
def unlines (lines : List String) : String :=
  joinWith "\n" lines

/-- Code between braces of its own, one level deeper. -/
def inBlock (head code : String) : String :=
  unlines [head, "\x7b", indent 1 code, "\x7d"]

/-- Code in the block of a namespace.  The global namespace, which is blank, has no block. -/
def inNamespace (namespaceName code : String) : String :=
  if isBlankString namespaceName then code else inBlock ("namespace " ++ namespaceName) code

/-- The first line of every generated file. -/
def generatedHeader : String := "// <auto-generated/>"

/-- A generated file with code in a namespace. -/
def sourceText (namespaceName code : String) : String :=
  generatedHeader ++ "\n" ++ inNamespace namespaceName code ++ "\n"

end LocalisedEnum

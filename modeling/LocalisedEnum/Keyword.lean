/-!
**Reserved words.**

A reserved word can be used as a name behind an at sign.  Names are recorded without the sign, so it
has to be put back wherever a name is written.

Main definitions:

* `keywords` — the reserved words;
* `escapeName` — a name as it is written.

Main results:

* `escapeName_not_mem_keywords` — a name as it is written is no reserved word.
-/

set_option autoImplicit false
set_option relaxedAutoImplicit false

namespace LocalisedEnum

/-- The reserved words. -/
def keywords : List String :=
  ["abstract", "as", "base", "bool", "break", "byte", "case", "catch", "char", "checked", "class",
   "const", "continue", "decimal", "default", "delegate", "do", "double", "else", "enum", "event",
   "explicit", "extern", "false", "finally", "fixed", "float", "for", "foreach", "goto", "if",
   "implicit", "in", "int", "interface", "internal", "is", "lock", "long", "namespace", "new",
   "null", "object", "operator", "out", "override", "params", "private", "protected", "public",
   "readonly", "ref", "return", "sbyte", "sealed", "short", "sizeof", "stackalloc", "static",
   "string", "struct", "switch", "this", "throw", "true", "try", "typeof", "uint", "ulong",
   "unchecked", "unsafe", "ushort", "using", "virtual", "void", "volatile", "while"]

/-- A name as it is written: reserved words get an at sign. -/
def escapeName (name : String) : String :=
  if keywords.contains name then "@" ++ name else name

/-- **A name as it is written** is no reserved word. -/
theorem escapeName_not_mem_keywords (name : String) : escapeName name ∉ keywords := by
  have hmarks : ∀ word ∈ keywords, word.toList.head? ≠ some '@' := by decide
  rw [escapeName]
  split
  · intro hmem
    exact hmarks _ hmem (by simp)
  · next hname =>
    simpa using hname

/-- Only the sign is new in a name as it is written. -/
theorem mem_escapeName {name : String} {c : Char} (h : c ∈ (escapeName name).toList) :
    c = '@' ∨ c ∈ name.toList := by
  rw [escapeName] at h
  split at h
  · simpa using h
  · exact Or.inr h

end LocalisedEnum

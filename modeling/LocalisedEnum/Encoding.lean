import LocalisedEnum.Text.Segment

/-!
**Encodings and their names.**

An encoding goes by many names.  Case does not matter, and neither does what stands between the
parts of a name.

Main definitions:

* `Encoding` — the encodings;
* `Encoding.ofName?` — the encoding that a name means.
-/

set_option autoImplicit false
set_option relaxedAutoImplicit false

namespace LocalisedEnum

/-- An encoding of text.  `utf8Marked` is UTF-8 behind a byte order mark. -/
inductive Encoding where
  | utf8
  | utf8Marked
  | ascii
  | latin1
  | utf16
  deriving DecidableEq, Repr

/-! ### Names -/

/-- A character that belongs to a part of a name: an ASCII letter, a digit or a point. -/
def isNamePart (c : Char) : Bool :=
  c.isAlphanum || c == '.'

/-- A name in lower case, with one low line between its parts. -/
def encodingKey (name : String) : String :=
  let marked := name.toList.map fun c => if isNamePart c then c.toLower else ' '
  joinWith "_" (((splitOn ' ' marked).filter (!·.isEmpty)).map String.ofList)

/-- A key with its points made low lines. -/
def withoutPoints (key : String) : String :=
  String.ofList (key.toList.map fun c => if c = '.' then '_' else c)

/-- The proper names of encodings. -/
def encodingNames : List (String × Encoding) :=
  [("utf_8", .utf8), ("utf_8_sig", .utf8Marked), ("ascii", .ascii), ("latin_1", .latin1),
    ("utf_16", .utf16)]

/-- The other names of encodings. -/
def encodingAliases : List (String × Encoding) :=
  ["u8", "utf", "utf8", "utf8_ucs2", "utf8_ucs4", "cp65001"].map (·, .utf8)
    ++ ["646", "ansi_x3.4_1968", "ansi_x3_4_1968", "ansi_x3.4_1986", "cp367", "csascii", "ibm367",
      "iso646_us", "iso_646.irv_1991", "iso_ir_6", "us", "us_ascii"].map (·, .ascii)
    ++ ["8859", "cp819", "csisolatin1", "ibm819", "iso8859", "iso8859_1", "iso_8859_1",
      "iso_8859_1_1987", "iso_ir_100", "l1", "latin", "latin1"].map (·, .latin1)
    ++ ["u16", "utf16"].map (·, .utf16)

/-- The encoding that a name means.  In other than proper names a point may stand for a low line; a
name with a null character means none. -/
def Encoding.ofName? (name : String) : Option Encoding :=
  if name.toList.contains '\x00' then none
  else
    let key := encodingKey name
    encodingAliases.lookup key <|> encodingAliases.lookup (withoutPoints key)
      <|> encodingNames.lookup key

end LocalisedEnum

import LocalisedEnum.Encoding
import LocalisedEnum.Encoding.Utf16
import LocalisedEnum.Encoding.Utf8
import LocalisedEnum.Text.CodePoint
import LocalisedEnum.Text.Quoted

/-!
**Reading and writing encoded text.**

Main definitions:

* `CodingError` — why octets cannot be read, or text cannot be written;
* `Encoding.decode`, `Encoding.decodeLeniently` — the text that octets denote;
* `Encoding.encode` — the octets of a text;
* `Codec`, `Encoding.codec` — a codec, and that of an encoding;
* `Codecs`, `Codecs.named` — the other codecs of a machine, and the codec that a name means on it.

The encodings here are not all that a machine may have.  What it has besides them is taken as given:
codecs that are found by their names, and that refuse what they cannot code with an error of coding,
as every codec does.

Main results:

* `decodeLeniently_eq_of_decode` — where the strict reader succeeds, both read the same.
-/

set_option autoImplicit false
set_option relaxedAutoImplicit false

namespace LocalisedEnum

/-! ### Errors -/

/-- Why octets cannot be read, or text cannot be written, in the encoding `codec`.  Of a codec that
is not described here only the text of its error is known. -/
inductive CodingError where
  | undecodable (codec : String) (fault : DecodeFault)
  | missingOrderMark
  | unencodable (codec : String) (limit position : Nat) (characters : List Char)
  | other (message : String)
  deriving DecidableEq, Repr

/-- A position, or the first and the last of several. -/
def positionText (position count : Nat) : String :=
  toString position ++ (if count ≤ 1 then "" else "-" ++ toString (position + count - 1))

/-- The octets of a fault, as messages name them. -/
def DecodeFault.subject (f : DecodeFault) : String :=
  match f.octets with
  | [b] => "byte 0x" ++ String.ofList (hexDigits 2 b.toNat)
  | _ => "bytes"

/-- The characters that cannot be written, as messages name them. -/
def unencodableSubject : List Char → String
  | [c] => "character '" ++ String.ofList (numericEscape c.toNat) ++ "'"
  | _ => "characters"

/-- The text of an error. -/
def CodingError.message : CodingError → String
  | undecodable codec fault =>
    "'" ++ codec ++ "' codec can't decode " ++ fault.subject ++ " in position "
      ++ positionText fault.position fault.octets.length ++ ": " ++ fault.cause.message
  | missingOrderMark => "UTF-16 stream does not start with BOM"
  | unencodable codec limit position characters =>
    "'" ++ codec ++ "' codec can't encode " ++ unencodableSubject characters ++ " in position " ++
      positionText position characters.length ++ ": ordinal not in range(" ++ toString limit ++ ")"
  | other message => message

/-! ### Reading -/

/-- Octets cut into pieces: by which encoding, from which position, and whether a byte order mark
that is called for is missing. -/
structure Reading where
  codec : String
  position : Nat
  pieces : List Piece
  missesMark : Bool

/-- The octets of the byte order mark in UTF-8. -/
def utf8Mark : Octets := [0xEF, 0xBB, 0xBF]

/-- Octets without the byte order mark.  Octets that end within the mark are taken for the mark. -/
def withoutUtf8Mark (octets : Octets) : Octets :=
  if octets.isPrefixOf utf8Mark then []
  else if utf8Mark.isPrefixOf octets then octets.drop utf8Mark.length
  else octets

/-- The piece of an octet that denotes a character of ASCII, or nothing. -/
def asciiPiece (b : UInt8) : Piece :=
  ⟨[b], if b < 0x80 then .ok (Char.ofNat b.toNat) else .error .outOfRange⟩

/-- The piece of an octet that denotes the character of its number. -/
def latin1Piece (b : UInt8) : Piece :=
  ⟨[b], .ok (Char.ofNat b.toNat)⟩

/-- The reading of UTF-16: the order of the octets is that of the byte order mark. -/
def readUtf16 : Octets → Reading
  | 0xFF :: 0xFE :: rest => ⟨"utf-16-le", 2, utf16Pieces .lowFirst rest, false⟩
  | 0xFE :: 0xFF :: rest => ⟨"utf-16-be", 2, utf16Pieces .highFirst rest, false⟩
  | octets => ⟨"utf-16-le", 0, utf16Pieces .lowFirst octets, 2 ≤ octets.length⟩

namespace Encoding

/-- The reading of octets in an encoding. -/
def read (e : Encoding) (octets : Octets) : Reading :=
  match e with
  | utf8 => ⟨"utf-8", 0, utf8Pieces octets, false⟩
  | utf8Marked => ⟨"utf-8", 0, utf8Pieces (withoutUtf8Mark octets), false⟩
  | ascii => ⟨"ascii", 0, octets.map asciiPiece, false⟩
  | latin1 => ⟨"latin-1", 0, octets.map latin1Piece, false⟩
  | utf16 => readUtf16 octets

/-- The text that octets denote; none of them may denote nothing. -/
def decode (e : Encoding) (octets : Octets) : Except CodingError (List Char) :=
  let r := e.read octets
  match strictText r.position r.pieces with
  | .error fault => .error (.undecodable r.codec fault)
  | .ok text => if r.missesMark then .error .missingOrderMark else .ok text

/-- The text that octets denote, with the replacement character for those that denote nothing. -/
def decodeLeniently (e : Encoding) (octets : Octets) : Except CodingError (List Char) :=
  let r := e.read octets
  if r.missesMark then .error .missingOrderMark else .ok (lenientText r.pieces)

theorem decodeLeniently_eq_of_decode {e : Encoding} {octets : Octets} {text : List Char}
    (h : e.decode octets = .ok text) : e.decodeLeniently octets = .ok text := by
  simp only [decode] at h
  split at h
  · cases h
  · next heq =>
    split at h
    · cases h
    · next hmark =>
      cases h
      simp [decodeLeniently, hmark, strictText_eq_lenientText heq]

/-! ### Writing -/

/-- The octets of a text whose characters have numbers below a limit.  The first characters that do
not are refused together. -/
def encodeBelow (codec : String) (limit : Nat) (text : List Char) : Except CodingError Octets :=
  let fits (c : Char) : Bool := c.toNat < limit
  let before := text.takeWhile fits
  match text.dropWhile fits with
  | [] => .ok (text.map fun c => .ofNat c.toNat)
  | rest => .error (.unencodable codec limit before.length (rest.takeWhile (!fits ·)))

/-- The octets of a text. -/
def encode (e : Encoding) (text : List Char) : Except CodingError Octets :=
  match e with
  | utf8 => .ok (text.flatMap utf8Octets)
  | utf8Marked => .ok (utf8Mark ++ text.flatMap utf8Octets)
  | ascii => encodeBelow "ascii" 0x80 text
  | latin1 => encodeBelow "latin-1" 0x100 text
  | utf16 => .ok (unitOctets 0xFEFF ++ text.flatMap utf16Octets)

end Encoding

/-! ### Codecs by their names -/

/-- **A codec**: the octets that writing a text leaves, the text that octets are read as, and the
text that they are read as when what denotes nothing is replaced, as far as its first line. -/
structure Codec where
  encode : List Char → Except CodingError Octets
  decode : Octets → Except CodingError CodeText
  decodeLeniently : Octets → Except CodingError CodeText

/-- The codec of an encoding. -/
def Encoding.codec (e : Encoding) : Codec where
  encode := e.encode
  decode octets := (e.decode octets).map (·.map .scalar)
  decodeLeniently octets := (e.decodeLeniently octets).map (·.map .scalar)

theorem Encoding.decode_codec (e : Encoding) (octets : Octets) :
    e.codec.decode octets = (e.decode octets).map (·.map .scalar) := rfl

theorem Encoding.decodeLeniently_codec (e : Encoding) (octets : Octets) :
    e.codec.decodeLeniently octets = (e.decodeLeniently octets).map (·.map .scalar) := rfl

/-- Why a name gives no codec: it has a null character, or there is none under it. -/
inductive EncodingFault where
  | nullCharacter
  | unavailable (message : String)
  deriving DecidableEq, Repr

/-- The text of a fault in the name of an encoding. -/
def EncodingFault.message : EncodingFault → String
  | nullCharacter => "embedded null character"
  | unavailable message => message

/-- What a name of an encoding means: a codec, or why there is none. -/
abbrev NamedCodec : Type := Except EncodingFault Codec

/-- **The codecs that a machine has** for names that mean none of the encodings here; where there is
none, the text of the refusal. -/
abbrev Codecs : Type := String → Except String Codec

namespace Codecs

/-- No codecs besides those of the encodings here. -/
def none : Codecs := fun name => .error ("unknown encoding: " ++ name)

/-- The codec that a name means. -/
def named (codecs : Codecs) (name : String) : NamedCodec :=
  match Encoding.ofName? name with
  | some e => .ok e.codec
  | .none =>
    if name.toList.contains '\x00' then .error .nullCharacter
    else (codecs name).mapError .unavailable

theorem named_of_ofName? (codecs : Codecs) {name : String} {e : Encoding}
    (h : Encoding.ofName? name = some e) : codecs.named name = .ok e.codec := by
  rw [named, h]

end Codecs

end LocalisedEnum

import LocalisedEnum.Token
import LocalisedEnum.Text.Blank
import LocalisedEnum.Text.Digit
import LocalisedEnum.Text.Segment
import LocalisedEnum.Text.Word

/-!
**From characters to tokens.**

A text is a sequence of lexemes: blanks, comments, directives and tokens.  At each place the classes
are tried in a fixed order and the first that matches takes the lexeme; one that matches nothing
else is a single character.  Every recogniser below says how many characters its lexeme has, so that
a lexeme and what follows it are always the two parts of the text at one place.

Main definitions:

* `blankLength`, `commentLength`, …, `operatorLength` — the recognisers;
* `lexeme` — the class and the length of the first lexeme;
* `Place` — a line and a column, and how characters advance them;
* `tokenise` — the tokens of a text.

Main results:

* `rest_length_lt` — every lexeme is shorter than the text it is taken from, so the loop ends.
-/

set_option autoImplicit false
set_option relaxedAutoImplicit false

namespace LocalisedEnum

/-! ### Blanks, comments and directives -/

/-- The length of a run of characters of a class, if there is one. -/
def runLength (p : Char → Bool) (cs : List Char) : Option Nat :=
  match (cs.takeWhile p).length with
  | 0 => none
  | n + 1 => some (n + 1)

/-- A run of blanks. -/
def blankLength (cs : List Char) : Option Nat :=
  runLength isBlank cs

/-- The characters up to the end of the line. -/
def lineLength (cs : List Char) : Nat :=
  (cs.takeWhile (· != '\n')).length

/-- The length of a block comment's body and its closing mark. -/
def blockCommentEnd : List Char → Option Nat
  | '*' :: '/' :: _ => some 2
  | [] => none
  | _ :: rest => (blockCommentEnd rest).map (· + 1)

/-- A comment to the end of the line, or a block comment that is closed. -/
def commentLength : List Char → Option Nat
  | '/' :: '/' :: rest => some (2 + lineLength rest)
  | '/' :: '*' :: rest => (blockCommentEnd rest).map (2 + ·)
  | _ => none

/-- A directive: a number sign and the rest of its line. -/
def directiveLength : List Char → Option Nat
  | '#' :: rest => some (1 + lineLength rest)
  | _ => none

/-! ### String and character literals -/

/-- The position after the first run of `count` quotes. -/
def closingQuotes (count : Nat) : List Char → Option Nat
  | [] => none
  | c :: rest =>
    if startsWith (List.replicate count '"') (c :: rest) then some count
    else (closingQuotes count rest).map (· + 1)

/-- The length of a raw literal without its dollar signs, opened by at most `count` of its quotes.
Longer openings are preferred; three quotes are the shortest. -/
def quotedRunLength (cs : List Char) : (count : Nat) → Option Nat
  | 0 => none
  | count + 1 =>
    if count + 1 < 3 then none
    else match closingQuotes (count + 1) (cs.drop (count + 1)) with
      | some n => some (count + 1 + n)
      | none => quotedRunLength cs count

/-- A raw literal: dollar signs, three or more quotes, anything, and as many quotes again. -/
def rawLength (cs : List Char) : Option Nat :=
  let dollars := (cs.takeWhile (· == '$')).length
  let body := cs.drop dollars
  (quotedRunLength body (body.takeWhile (· == '"')).length).map (dollars + ·)

/-- The length of a verbatim literal's body and its closing quote.  A quote that is written twice
does not close the literal unless nothing after it does. -/
def verbatimEnd : List Char → Option Nat
  | [] => none
  | '"' :: '"' :: rest => some (((verbatimEnd rest).map (· + 2)).getD 1)
  | '"' :: _ => some 1
  | _ :: rest => (verbatimEnd rest).map (· + 1)

/-- A verbatim literal, with or without a dollar sign beside its at sign. -/
def verbatimLength : List Char → Option Nat
  | '$' :: '@' :: '"' :: rest => (verbatimEnd rest).map (3 + ·)
  | '@' :: '$' :: '"' :: rest => (verbatimEnd rest).map (3 + ·)
  | '@' :: '"' :: rest => (verbatimEnd rest).map (2 + ·)
  | _ => none

/-- The length of a literal's body and its closing mark; a backslash takes the character after it
along, and neither may be the end of a line. -/
def escapedEnd (mark : Char) : List Char → Option Nat
  | [] => none
  | '\\' :: [] => none
  | '\\' :: c :: rest => if c = '\n' then none else (escapedEnd mark rest).map (· + 2)
  | c :: rest =>
    if c = mark then some 1
    else if c = '\n' then none
    else (escapedEnd mark rest).map (· + 1)

/-- A regular string literal, with or without a dollar sign. -/
def stringLength : List Char → Option Nat
  | '$' :: '"' :: rest => (escapedEnd '"' rest).map (2 + ·)
  | '"' :: rest => (escapedEnd '"' rest).map (1 + ·)
  | _ => none

/-- A character literal, which is not empty. -/
def charLength : List Char → Option Nat
  | '\'' :: '\'' :: _ => none
  | '\'' :: rest => (escapedEnd '\'' rest).map (1 + ·)
  | _ => none

/-! ### Numbers, identifiers and operators -/

/-- A digit of any script, then word characters and points. -/
def numberLength : List Char → Option Nat
  | [] => none
  | c :: rest =>
    if isDigit c then some (1 + (rest.takeWhile fun d => isWord d || d == '.').length) else none

/-- The start of a word, then word characters. -/
def wordLength : List Char → Option Nat
  | [] => none
  | c :: rest => if isWordStart c then some (1 + (rest.takeWhile isWord).length) else none

/-- A word, with or without an at sign. -/
def identifierLength : List Char → Option Nat
  | '@' :: rest => (wordLength rest).map (1 + ·)
  | cs => wordLength cs

/-- The operators of two characters and more, in the order in which they are tried. -/
def longOperators : List (List Char) :=
  ["==", "!=", "<=", ">=", "&&", "||", "++", "--", "->", "=>", "::", "??=", "??", "<<"].map
    String.toList

/-- The operators and marks of one character. -/
def shortOperators : List Char :=
  ['{', '}', '(', ')', '[', ']', ';', ',', '.', ':', '=', '<', '>', '?', '!', '+', '-', '*', '/',
    '%', '&', '|', '^', '~']

/-- An operator or a mark. -/
def operatorLength (cs : List Char) : Option Nat :=
  match longOperators.find? (startsWith · cs) with
  | some operator => some operator.length
  | none => if cs.head?.any (shortOperators.contains ·) then some 1 else none

/-! ### Lexemes -/

/-- The recognisers in the order in which they are tried; a lexeme without a kind is no token. -/
def recognisers : List (Option TokenKind × (List Char → Option Nat)) :=
  [(none, blankLength), (none, commentLength), (none, directiveLength),
    (some .raw, rawLength), (some .verbatim, verbatimLength), (some .string, stringLength),
    (some .char, charLength), (some .number, numberLength), (some .identifier, identifierLength),
    (some .operator, operatorLength)]

/-- The kind and the length of the first lexeme of a text that is not empty. -/
def lexeme (cs : List Char) : Option TokenKind × Nat :=
  (recognisers.findSome? fun (kind, length) => (length cs).map (kind, ·)).getD (some .other, 1)

/-! ### Places -/

/-- A place in a text: line and column, both counted from one. -/
structure Place where
  line : Nat
  column : Nat
  deriving DecidableEq, Repr

/-- Where a text begins. -/
def Place.start : Place where
  line := 1
  column := 1

/-- The place after a character; only a line feed ends a line. -/
def Place.next (p : Place) (c : Char) : Place :=
  if c = '\n' then ⟨p.line + 1, 1⟩ else ⟨p.line, p.column + 1⟩

/-- The place after some characters. -/
def Place.advance (p : Place) (cs : List Char) : Place :=
  cs.foldl Place.next p

/-! ### Tokens -/

theorem rest_length_lt (c : Char) (rest : List Char) (n : Nat) :
    (rest.drop n).length < (c :: rest).length := by
  simp only [List.length_drop, List.length_cons]
  omega

/-- The tokens of a text that begins at the given place. -/
def tokeniseFrom (p : Place) : List Char → List Token
  | [] => []
  | c :: rest =>
    let (kind, length) := lexeme (c :: rest)
    let text := c :: rest.take (length - 1)
    let tail := tokeniseFrom (p.advance text) (rest.drop (length - 1))
    match kind with
    | some kind => ⟨kind, String.ofList text, p.line, p.column⟩ :: tail
    | none => tail
  termination_by cs => cs.length
  decreasing_by exact rest_length_lt ..

/-- The tokens of a text. -/
def tokenise (text : String) : List Token :=
  tokeniseFrom .start text.toList

end LocalisedEnum

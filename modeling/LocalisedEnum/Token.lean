/-!
**Tokens.**

The declarations of a source file are read from its tokens: words, numbers, literals and
punctuation, each with the place where it stands.  White space, comments and directive lines leave
no token.

Main definitions:

* `TokenKind`, `Token` — a token and its kind;
* `Token.plain` — a name without the mark that lets a keyword stand for a name;
* `joinTokens` — the text of a run of tokens, with blanks only where words would run together.
-/

set_option autoImplicit false
set_option relaxedAutoImplicit false

namespace LocalisedEnum

/-- The kinds of token.  A raw literal stands between runs of three quotes or more, a verbatim
literal opens with an at sign, and what fits nowhere is a token of one character. -/
inductive TokenKind where
  | raw
  | verbatim
  | string
  | char
  | number
  | identifier
  | operator
  | other
  deriving DecidableEq, Repr

/-- A token, with the line and column of its first character, both counted from one. -/
structure Token where
  kind : TokenKind
  text : String
  line : Nat
  column : Nat
  deriving DecidableEq, Repr

/-- A name without the at sign that lets a keyword be used as a name. -/
def plainName (name : String) : String :=
  match name.toList with
  | '@' :: rest => String.ofList rest
  | _ => name

/-- The name that a token stands for. -/
def Token.plain (t : Token) : String :=
  plainName t.text

/-- Words: identifiers and numbers, which run together when nothing stands between them. -/
def TokenKind.isWordLike : TokenKind → Bool
  | identifier => true
  | number => true
  | _ => false

/-- A string literal of any of the three forms. -/
def TokenKind.isStringLiteral : TokenKind → Bool
  | string => true
  | verbatim => true
  | raw => true
  | _ => false

/-- The text of tokens that follow a token of the given kind. -/
def joinTokensAfter (previous : TokenKind) : List Token → String
  | [] => ""
  | t :: rest =>
    let gap := if previous.isWordLike && t.kind.isWordLike then " " else ""
    gap ++ t.text ++ joinTokensAfter t.kind rest

/-- The text of a run of tokens, with a blank only between neighbouring words. -/
def joinTokens : List Token → String
  | [] => ""
  | t :: rest => t.text ++ joinTokensAfter t.kind rest

/-- Whether the first token has the given text. -/
def headIs (text : String) : List Token → Bool
  | [] => false
  | t :: _ => t.text == text

end LocalisedEnum

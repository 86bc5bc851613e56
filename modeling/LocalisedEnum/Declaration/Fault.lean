import LocalisedEnum.Literal

/-!
**What can be wrong with a source file.**

A file is refused when its tokens cannot be read as declarations, or when a literal in an attribute
or a constant has an escape that names no code point.  The first kind of fault has a cause and a
line: the line of the token at fault, or of the last token when the file ends too early.

Main definitions:

* `FaultCause`, `Fault` — the faults that reading tokens may find;
* `ParseError` — a fault with the file it was found in, and its message.
-/

set_option autoImplicit false
set_option relaxedAutoImplicit false

namespace LocalisedEnum

/-! ### Faults -/

/-- Why tokens cannot be read as declarations. -/
inductive FaultCause where
  | endOfFile
  | expected (wanted found : String)
  | unclosed (opening : String)
  | missingClosingBrace
  | strayClosingBrace
  | truncatedDeclaration
  | truncatedMember
  | notAMember (found enumName : String)
  | unterminatedEnum (enumName : String)
  | missingBody (typeName : String)
  deriving DecidableEq, Repr

/-- A closing brace, as a text. -/
def closingBrace : String := "\x7d"

/-- An opening brace, as a text. -/
def openingBrace : String := "\x7b"

/-- The text of a cause. -/
def FaultCause.message : FaultCause → String
  | endOfFile => "unexpected end of file"
  | expected wanted found => "expected '" ++ wanted ++ "' but found '" ++ found ++ "'"
  | unclosed opening => "unclosed '" ++ opening ++ "'"
  | missingClosingBrace => "missing closing '" ++ closingBrace ++ "'"
  | strayClosingBrace => "unexpected '" ++ closingBrace ++ "'"
  | truncatedDeclaration => "declaration truncated at end of file"
  | truncatedMember => "member declaration truncated at end of file"
  | notAMember found enumName => "unexpected '" ++ found ++ "' in enum " ++ enumName
  | unterminatedEnum enumName => "unterminated enum " ++ enumName
  | missingBody typeName => "declaration of " ++ typeName ++ " is missing its body"

/-- A fault found in tokens.  Without a line it is found at the last token. -/
inductive Fault where
  | malformed (cause : FaultCause) (line : Option Nat)
  | escape (e : EscapeError)
  deriving DecidableEq, Repr

/-- The file ends where a token is needed. -/
def Fault.endOfFile : Fault :=
  .malformed .endOfFile none

/-- A fault at a token. -/
def Fault.at (cause : FaultCause) (t : Token) : Fault :=
  .malformed cause (some t.line)

/-! ### Errors of files -/

/-- Why a source file is refused. -/
inductive ParseError where
  | malformed (path : String) (line : Nat) (cause : FaultCause)
  | escape (e : EscapeError)
  deriving DecidableEq, Repr

/-- The text of an error: the place, where the file has a path, and the cause. -/
def ParseError.message : ParseError → String
  | malformed path line cause =>
    let place := if path = "" then "" else path ++ "(" ++ toString line ++ "): "
    place ++ cause.message
  | escape e => e.message

/-- The line of the last token, zero without tokens. -/
def lastLine (ts : List Token) : Nat :=
  (ts.getLast?.map Token.line).getD 0

/-- A fault found while reading the tokens of a file. -/
def Fault.inFile (path : String) (ts : List Token) : Fault → ParseError
  | .malformed cause line => .malformed path (line.getD (lastLine ts)) cause
  | .escape e => .escape e

/-! ### Steps that may fail -/

/-- A chain of two steps succeeds exactly when both do. -/
theorem bind_eq_ok {ε α β : Type} {x : Except ε α} {f : α → Except ε β} {b : β} :
    (x >>= f) = .ok b ↔ ∃ a, x = .ok a ∧ f a = .ok b := by
  cases x with
  | error e => exact ⟨fun h => (nomatch h), fun ⟨_, h, _⟩ => (nomatch h)⟩
  | ok a => exact ⟨fun h => ⟨a, rfl, h⟩, fun ⟨_, h, h'⟩ => by cases h; exact h'⟩

theorem ok_ne_error {ε α : Type} (a : α) (e : ε) : (.ok a : Except ε α) ≠ .error e := by
  intro h
  cases h

/-- A chain of two steps fails exactly when the first does, or the second behind it. -/
theorem bind_eq_error {ε α β : Type} {x : Except ε α} {f : α → Except ε β} {e : ε} :
    (x >>= f) = .error e ↔ x = .error e ∨ ∃ a, x = .ok a ∧ f a = .error e := by
  cases x with
  | error e' =>
    refine ⟨fun h => .inl (by cases h; rfl), ?_⟩
    rintro (h | ⟨_, h, _⟩)
    · cases h; rfl
    · cases h
  | ok a => exact ⟨fun h => .inr ⟨a, rfl, h⟩, by rintro (h | ⟨_, h, h'⟩) <;> cases h; exact h'⟩

/-- A chain whose second step succeeds fails exactly when the first step does. -/
theorem bind_ok_eq_error {ε α β : Type} {x : Except ε α} {f : α → Except ε β} {e : ε}
    (hf : ∀ a, ∃ b, f a = .ok b) : (x >>= f) = .error e ↔ x = .error e := by
  refine bind_eq_error.trans ⟨fun h => h.resolve_right ?_, Or.inl⟩
  rintro ⟨a, _, h⟩
  obtain ⟨b, hb⟩ := hf a
  rw [hb] at h
  cases h

theorem bind_pure_eq_error {ε α β : Type} {x : Except ε α} {f : α → β} {e : ε} :
    (x >>= fun a => pure (f a)) = .error e ↔ x = .error e :=
  bind_ok_eq_error fun a => ⟨f a, rfl⟩

theorem map_eq_error {ε α β : Type} {x : Except ε α} {f : α → β} {e : ε} :
    x.map f = .error e ↔ x = .error e := by
  cases x <;> simp [Except.map]

theorem map_eq_ok {ε α β : Type} {x : Except ε α} {f : α → β} {b : β} :
    x.map f = .ok b ↔ ∃ a, x = .ok a ∧ f a = b := by
  cases x <;> simp [Except.map]

/-- The value of a literal, or the fault in it. -/
def orEscapeFault {α : Type} : Except EscapeError α → Except Fault α
  | .ok a => .ok a
  | .error e => .error (.escape e)

@[simp] theorem orEscapeFault_eq_ok {α : Type} {x : Except EscapeError α} {a : α} :
    orEscapeFault x = .ok a ↔ x = .ok a := by
  cases x <;> simp [orEscapeFault]

@[simp] theorem orEscapeFault_eq_error {α : Type} {x : Except EscapeError α} {e : EscapeError} :
    orEscapeFault x = .error (.escape e) ↔ x = .error e := by
  cases x <;> simp [orEscapeFault]

end LocalisedEnum

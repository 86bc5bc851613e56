import LocalisedEnum.Localisation.Failure
import LocalisedEnum.Text.Blank

/-!
**Naming templates.**

A naming template says which property holds the string of an enum value.  It is literal text with
items between braces: `0` stands for the name of the enum and `1` for the name of the value, an
alignment pads the name to a width, and a format behind a colon has no effect on names.  A brace
that is written twice stands for itself.

Main definitions:

* `TemplatePiece`, `templatePieces` — a template as a list of pieces;
* `TemplatePiece.render` — what a piece becomes;
* `formatName` — the name that a template makes.

Main results:

* `itemAfterBrace?_length_lt` — an item takes a character, so the pieces of a template are finite.
-/

set_option autoImplicit false
set_option relaxedAutoImplicit false

namespace LocalisedEnum

/-! ### Pieces -/

/-- The padding of an item: its width in digits, and whether the name stands at the left of it. -/
structure Alignment where
  toLeft : Bool
  width : List Nat
  deriving DecidableEq, Repr

/-- A piece of a template.  The index of an item is kept in digits. -/
inductive TemplatePiece where
  | literal (p : CodePoint)
  | item (index : List Nat) (alignment : Option Alignment)
  | strayBrace
  deriving DecidableEq, Repr

/-- The worth of a code point that is a decimal digit of some script. -/
def CodePoint.digitValue? (p : CodePoint) : Option Nat :=
  p.char?.bind LocalisedEnum.digitValue?

/-- A decimal digit of some script. -/
def CodePoint.isDigit (p : CodePoint) : Bool :=
  p.digitValue?.isSome

/-- Either brace. -/
def CodePoint.isBrace (p : CodePoint) : Bool :=
  p == .scalar '{' || p == .scalar '}'

/-- The digits at the front, and what follows them. -/
def takeDigits (t : CodeText) : List Nat × CodeText :=
  ((t.takeWhile CodePoint.isDigit).filterMap CodePoint.digitValue?, t.dropWhile CodePoint.isDigit)

/-- The text behind a code point, if it begins with it. -/
def behind? (c : Char) : CodeText → Option CodeText
  | .scalar d :: rest => if d = c then some rest else none
  | _ => none

/-- The alignment behind the comma of an item. -/
def alignmentAfterComma? (t : CodeText) : Option (Alignment × CodeText) :=
  let t := t.dropWhile CodePoint.isBlank
  let toLeft := (behind? '-' t).isSome
  let (width, rest) := takeDigits ((behind? '-' t).getD t)
  if width.isEmpty then none else some (⟨toLeft, width⟩, rest)

/-- The alignment of an item, if it has one, and what follows. -/
def takeAlignment (t : CodeText) : Option Alignment × CodeText :=
  match (behind? ',' t).bind alignmentAfterComma? with
  | some (alignment, rest) => (some alignment, rest)
  | none => (none, t)

/-- The text without the format of an item. -/
def dropFormat (t : CodeText) : CodeText :=
  match behind? ':' t with
  | some rest => rest.dropWhile (!·.isBrace)
  | none => t

/-- The item whose opening brace has been read, and what follows it. -/
def itemAfterBrace? (t : CodeText) : Option (TemplatePiece × CodeText) :=
  let (index, afterIndex) := takeDigits t
  let (alignment, afterAlignment) := takeAlignment afterIndex
  if index.isEmpty then none
  else (behind? '}' (dropFormat afterAlignment)).map (.item index alignment, ·)

theorem takeDigits_length_le (t : CodeText) : (takeDigits t).2.length ≤ t.length :=
  (List.dropWhile_sublist _).length_le

theorem behind?_length_lt {c : Char} {t rest : CodeText} (h : behind? c t = some rest) :
    rest.length < t.length := by
  match t with
  | [] => cases h
  | .surrogate _ _ :: _ => cases h
  | .scalar d :: tail =>
    simp only [behind?] at h
    split at h
    · cases h; exact Nat.lt_succ_self _
    · cases h

theorem alignmentAfterComma?_length_le {t rest : CodeText} {a : Alignment}
    (h : alignmentAfterComma? t = some (a, rest)) : rest.length ≤ t.length := by
  simp only [alignmentAfterComma?] at h
  split at h
  · cases h
  · cases h
    have h1 := (List.dropWhile_sublist CodePoint.isBlank : (t.dropWhile _).Sublist t).length_le
    have h2 := takeDigits_length_le
      ((behind? '-' (t.dropWhile CodePoint.isBlank)).getD (t.dropWhile CodePoint.isBlank))
    cases hb : behind? '-' (t.dropWhile CodePoint.isBlank) with
    | none => rw [hb] at h2; exact Nat.le_trans h2 h1
    | some r =>
      rw [hb] at h2
      exact Nat.le_trans h2 (Nat.le_trans (Nat.le_of_lt (behind?_length_lt hb)) h1)

theorem takeAlignment_length_le (t : CodeText) : (takeAlignment t).2.length ≤ t.length := by
  simp only [takeAlignment]
  split
  · next a rest h =>
    obtain ⟨r, hr, ha⟩ := Option.bind_eq_some_iff.1 h
    exact Nat.le_trans (alignmentAfterComma?_length_le ha) (Nat.le_of_lt (behind?_length_lt hr))
  · exact Nat.le_refl _

theorem dropFormat_length_le (t : CodeText) : (dropFormat t).length ≤ t.length := by
  simp only [dropFormat]
  split
  · next rest h =>
    exact Nat.le_trans (List.dropWhile_sublist _).length_le (Nat.le_of_lt (behind?_length_lt h))
  · exact Nat.le_refl _

theorem itemAfterBrace?_length_lt {t rest : CodeText} {piece : TemplatePiece}
    (h : itemAfterBrace? t = some (piece, rest)) : rest.length < t.length := by
  simp only [itemAfterBrace?] at h
  split at h
  · cases h
  · obtain ⟨r, hr, he⟩ := Option.map_eq_some_iff.1 h
    cases he
    have h1 := behind?_length_lt hr
    have h2 := dropFormat_length_le (takeAlignment (takeDigits t).2).2
    have h3 := takeAlignment_length_le (takeDigits t).2
    have h4 := takeDigits_length_le t
    omega

/-- The pieces of a template. -/
def templatePieces (t : CodeText) : List TemplatePiece :=
  match t with
  | [] => []
  | p :: rest =>
    if p.isBrace then
      if rest.head? == some p then .literal p :: templatePieces (rest.drop 1)
      else if p = .scalar '{' then
        match _h : itemAfterBrace? rest with
        | some (piece, rest) => piece :: templatePieces rest
        | none => .strayBrace :: templatePieces rest
      else .strayBrace :: templatePieces rest
    else .literal p :: templatePieces rest
  termination_by t.length
  decreasing_by
    · simp only [List.length_drop, List.length_cons]; omega
    · exact Nat.lt_succ_of_lt (itemAfterBrace?_length_lt _h)
    all_goals exact Nat.lt_succ_self _

/-! ### Names -/

/-- The largest machine integer, which bounds the width of an alignment. -/
def greatestMachineInteger : Nat := 0x7FFFFFFFFFFFFFFF

/-- The widths from this one on do not fit in memory. -/
def unboundedWidth : Nat := 0x10000000000

/-- The number that the digits in a template denote. -/
def templateNumber (digits : List Nat) : Except TemplateFault Nat :=
  if decimalLimit < digits.length then .error (.numberTooLong digits.length)
  else .ok (ofDigits 10 digits)

/-- A text padded with blanks to a width. -/
def padTo (toLeft : Bool) (width : Nat) (t : CodeText) : CodeText :=
  let blanks := List.replicate (width - t.length) (CodePoint.scalar ' ')
  if toLeft then t ++ blanks else blanks ++ t

/-- A text with the padding of an item. -/
def align (t : CodeText) : Option Alignment → Except TemplateFault CodeText
  | none => .ok t
  | some alignment => do
    let width ← templateNumber alignment.width
    if greatestMachineInteger < width then .error .widthPastMachineInteger
    else if unboundedWidth ≤ width then .error .widthPastMemory
    else .ok (padTo alignment.toLeft width t)

/-- What a piece becomes, given what the items stand for. -/
def TemplatePiece.render (names : List CodeText) : TemplatePiece → Except TemplateFault CodeText
  | literal p => .ok [p]
  | item digits alignment => do
    let index ← templateNumber digits
    match names[index]? with
    | some name => align name alignment
    | none => .error (.unknownArgument index)
  | strayBrace => .error .strayBrace

/-- What the pieces of a template become; the first fault from the left counts. -/
def renderPieces (names : List CodeText) (pieces : List TemplatePiece) :
    Except TemplateFault CodeText := do
  return (← pieces.mapM (·.render names)).flatten

/-- The name that a template makes of the name of an enum and the name of a value. -/
def formatName (template : CodeText) (enumName valueName : String) : Except Failure CodeText :=
  match renderPieces [.ofString enumName, .ofString valueName] (templatePieces template) with
  | .ok name => .ok name
  | .error fault => .error (.template template fault)

end LocalisedEnum

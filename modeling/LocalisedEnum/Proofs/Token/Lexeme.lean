import LocalisedEnum.Token.Lexer

/-!
**The tokens of the language, and how they are told apart.**

The lexer tries its recognisers one after the other, and which of them takes a lexeme depends on
what follows: a word goes on as long as word characters follow, an equals sign may be half of an
operator, and two quotes may be the beginning of a raw literal.  The forms of the tokens are written
down here without the recognisers, each with what must not follow it, and the lexer is shown to take
each form whole.

Main definitions:

* `Stands` — the forms of the tokens in front of what follows them;
* `EscapedBody`, `VerbatimBody`, `RawBody` — what stands inside the literals.

Main results:

* `lexeme_of_stands` — **a token is taken whole** in front of what may follow it;
* `Stands.before`, `goesOn_blank` — a token that stands at the end of a text stands in front of all
  that does not go on with it, and so in front of every blank;
* `lexeme_blank`, `lexeme_comment` — blanks and comments leave no token.
-/

set_option autoImplicit false
set_option relaxedAutoImplicit false

namespace LocalisedEnum

/-! ### Runs of characters -/

/-- A run of characters of a class ends where a character outside the class follows. -/
theorem takeWhile_run {p : Char → Bool} {cs rest : List Char} (hcs : ∀ x ∈ cs, p x = true)
    (hrest : ∀ x ∈ rest.head?, p x = false) : (cs ++ rest).takeWhile p = cs := by
  rw [List.takeWhile_append_of_pos hcs]
  cases rest with
  | nil => exact List.append_nil cs
  | cons x rest =>
      rw [List.takeWhile_cons, hrest x rfl]
      exact List.append_nil cs

theorem startsWith_append_self (front rest : List Char) :
    startsWith front (front ++ rest) = true := by
  simp [startsWith]

@[simp] theorem startsWith_nil (cs : List Char) : startsWith [] cs = true := rfl

@[simp] theorem startsWith_cons_nil (x : Char) (front : List Char) :
    startsWith (x :: front) [] = false := rfl

theorem startsWith_cons_cons (x y : Char) (front cs : List Char) :
    startsWith (x :: front) (y :: cs) = (decide (x = y) && startsWith front cs) := by
  by_cases h : x = y <;> simp [startsWith, dropStart?, h]

/-! ### Blanks, words and digits -/

/-- The blank characters, by their numbers. -/
def blankPoints : List Nat :=
  [9, 10, 11, 12, 13, 28, 29, 30, 31, 32, 0x85, 0xA0, 0x1680, 0x2000, 0x2001, 0x2002, 0x2003,
    0x2004, 0x2005, 0x2006, 0x2007, 0x2008, 0x2009, 0x200A, 0x2028, 0x2029, 0x202F, 0x205F, 0x3000]

theorem mem_blankPoints {c : Char} (h : isBlank c = true) : c.toNat ∈ blankPoints := by
  simp only [isBlank, Bool.or_eq_true, Bool.and_eq_true, decide_eq_true_eq, beq_iff_eq] at h
  simp only [blankPoints, List.mem_cons, List.not_mem_nil, or_false]
  omega

/-- A fact about all blanks is one about a few characters. -/
theorem forall_blank {P : Char → Prop} (h : ∀ n ∈ blankPoints, P (Char.ofNat n)) {c : Char}
    (hc : isBlank c = true) : P c := by
  have hp := h c.toNat (mem_blankPoints hc)
  rwa [Char.ofNat_toNat] at hp

theorem isWord_of_isBlank {c : Char} (h : isBlank c = true) : isWord c = false :=
  forall_blank (P := fun c => isWord c = false) (by decide +kernel) h

/-- An ASCII letter or low line is no digit. -/
theorem isDigit_of_isWordStart {c : Char} (h : isWordStart c = true) : isDigit c = false := by
  simp only [isWordStart, Bool.or_eq_true, Bool.and_eq_true, decide_eq_true_eq, beq_iff_eq,
    Char.le_def, UInt32.le_iff_toNat_le] at h
  have hnat : c.toNat < 128 ∧ ¬(48 ≤ c.toNat ∧ c.toNat ≤ 57) := by
    rcases h with (h | h) | rfl
    · have h1 : 97 ≤ c.toNat := h.1
      have h2 : c.toNat ≤ 122 := h.2
      omega
    · have h1 : 65 ≤ c.toNat := h.1
      have h2 : c.toNat ≤ 90 := h.2
      omega
    · decide
  have hdigit : ('0' ≤ c && c ≤ '9') = false := by
    simp only [Bool.and_eq_false_iff, decide_eq_false_iff_not, Char.le_def, UInt32.le_iff_toNat_le]
    have h0 : ('0' : Char).val.toNat = 48 := rfl
    have h9 : ('9' : Char).val.toNat = 57 := rfl
    have hc : c.val.toNat = c.toNat := rfl
    omega
  simp [isDigit, digitValue?, hnat.1, hdigit]

/-! ### What stands inside literals -/

/-- The inside of a literal with escapes between two marks: neither the mark nor the end of a line
stands in it, except that a backslash may bring the mark along. -/
inductive EscapedBody (mark : Char) : List Char → Prop
  | nil : EscapedBody mark []
  | plain {c : Char} {cs : List Char} (hmark : c ≠ mark) (hslash : c ≠ '\\') (hline : c ≠ '\n')
      (h : EscapedBody mark cs) : EscapedBody mark (c :: cs)
  | escape {c : Char} {cs : List Char} (hline : c ≠ '\n') (h : EscapedBody mark cs) :
      EscapedBody mark ('\\' :: c :: cs)

/-- The inside of a verbatim literal: a quote stands in it only twice in a row. -/
inductive VerbatimBody : List Char → Prop
  | nil : VerbatimBody []
  | plain {c : Char} {cs : List Char} (hc : c ≠ '"') (h : VerbatimBody cs) : VerbatimBody (c :: cs)
  | pair {cs : List Char} (h : VerbatimBody cs) : VerbatimBody ('"' :: '"' :: cs)

/-- A run of quotes. -/
def quotes (count : Nat) : List Char :=
  List.replicate count '"'

/-- The inside of a raw literal between `count` quotes: it neither begins nor ends with a quote, and
there are not so many quotes in a row in it. -/
structure RawBody (count : Nat) (cs : List Char) : Prop where
  ne_nil : cs ≠ []
  head : cs.head? ≠ some '"'
  last : cs.getLast? ≠ some '"'
  inside : ¬ quotes count <:+: cs

theorem escapedEnd_body {mark : Char} (hslash : mark ≠ '\\') {body : List Char}
    (h : EscapedBody mark body) (rest : List Char) :
    escapedEnd mark (body ++ mark :: rest) = some (body.length + 1) := by
  induction h with
  | nil =>
      rw [List.nil_append, escapedEnd.eq_4 mark mark rest (fun h => absurd h hslash)
        (fun c rest h => absurd h hslash)]
      simp
  | @plain c cs hmark hc hline _ ih =>
      rw [List.cons_append, escapedEnd.eq_4 mark c _ (fun h => absurd h hc)
        (fun c rest h => absurd h hc), if_neg hmark, if_neg hline, ih]
      rfl
  | @escape c cs hline _ ih =>
      rw [List.cons_append, List.cons_append, escapedEnd, if_neg hline, ih]
      rfl

theorem verbatimEnd_body {body : List Char} (h : VerbatimBody body) {rest : List Char}
    (hrest : rest.head? ≠ some '"') :
    verbatimEnd (body ++ '"' :: rest) = some (body.length + 1) := by
  induction h with
  | nil =>
      cases rest with
      | nil => rfl
      | cons x rest =>
          have hx : x ≠ '"' := fun h => hrest (by rw [h]; rfl)
          rw [List.nil_append, verbatimEnd.eq_3]
          · rfl
          · rintro rest' h
            exact hx (List.cons.inj h).1
  | @plain c cs hc _ ih =>
      rw [List.cons_append, verbatimEnd.eq_4, ih]
      · rfl
      · intro rest' h _
        exact hc h
      · intro h
        exact hc h
  | @pair cs _ ih =>
      rw [List.cons_append, List.cons_append, verbatimEnd, ih]
      rfl

theorem startsWith_iff {front cs : List Char} :
    startsWith front cs = true ↔ front <+: cs := by
  rw [startsWith, Option.isSome_iff_exists]
  constructor
  · rintro ⟨rest, h⟩
    exact ⟨rest, (dropStart?_eq_some_iff.1 h).symm⟩
  · rintro ⟨rest, rfl⟩
    exact ⟨rest, dropStart?_append front rest⟩

/-- Quotes at the front of two texts in a row stand in the first one, or fill it. -/
theorem quotes_prefix_append {count : Nat} {cs rest : List Char}
    (h : quotes count <+: cs ++ rest) : quotes count <+: cs ∨ ∀ x ∈ cs, x = '"' := by
  rcases Nat.le_total count cs.length with hlength | hlength
  · refine Or.inl (List.prefix_of_prefix_length_le h (List.prefix_append cs rest) ?_)
    rwa [quotes, List.length_replicate]
  · have hfront : cs <+: quotes count := by
      refine List.prefix_of_prefix_length_le (List.prefix_append cs rest) h ?_
      rwa [quotes, List.length_replicate]
    exact Or.inr fun x hx => List.eq_of_mem_replicate (hfront.subset hx)

theorem closingQuotes_body {count : Nat} (hcount : 0 < count) {body : List Char}
    (hlast : body.getLast? ≠ some '"') (hinside : ¬ quotes count <:+: body) (rest : List Char) :
    closingQuotes count (body ++ (quotes count ++ rest)) = some (body.length + count) := by
  induction body with
  | nil =>
      obtain ⟨n, rfl⟩ := Nat.exists_eq_succ_of_ne_zero (Nat.pos_iff_ne_zero.1 hcount)
      have hstart := startsWith_append_self (quotes (n + 1)) rest
      simp only [quotes, List.replicate_succ, List.cons_append] at hstart
      simp [quotes, List.replicate_succ, closingQuotes, hstart]
  | cons c body ih =>
      -- enough quotes here would stand inside the body, or be the whole of it
      have hno : ¬ startsWith (quotes count) (c :: body ++ (quotes count ++ rest)) = true := by
        rw [startsWith_iff]
        intro h
        rcases quotes_prefix_append h with h | h
        · exact hinside h.isInfix
        · refine hlast ?_
          rw [List.getLast?_eq_some_getLast (List.cons_ne_nil c body)]
          exact congrArg some (h _ (List.getLast_mem _))
      have hbody : closingQuotes count (body ++ (quotes count ++ rest)) =
          some (body.length + count) := by
        refine ih ?_ fun h => hinside (h.trans (List.suffix_cons c body).isInfix)
        intro h
        refine hlast ?_
        cases body with
        | nil => cases h
        | cons d body => rwa [List.getLast?_cons_cons]
      rw [List.cons_append] at hno
      rw [List.cons_append, closingQuotes, ← quotes, if_neg hno, hbody, Option.map_some,
        List.length_cons, Nat.add_right_comm]

theorem takeWhile_replicate {c : Char} {count : Nat} {rest : List Char} (h : rest.head? ≠ some c) :
    (List.replicate count c ++ rest).takeWhile (· == c) = List.replicate count c := by
  refine takeWhile_run ?_ ?_
  · intro x hx
    simp [List.eq_of_mem_replicate hx]
  · intro x hx
    cases hxc : x == c with
    | false => rfl
    | true => exact absurd (by rw [Option.mem_def.1 hx, beq_iff_eq.1 hxc]) h

/-- A raw literal is taken whole. -/
theorem rawLength_body (dollars : Nat) {count : Nat} (hcount : 3 ≤ count) {body : List Char}
    (h : RawBody count body) (rest : List Char) :
    rawLength (List.replicate dollars '$' ++ (quotes count ++ (body ++ (quotes count ++ rest)))) =
      some (dollars + (count + (body.length + count))) := by
  obtain ⟨n, rfl⟩ := Nat.exists_eq_add_of_le' hcount
  have hdollars : (List.replicate dollars '$' ++
      (quotes (n + 3) ++ (body ++ (quotes (n + 3) ++ rest)))).takeWhile (· == '$') =
      List.replicate dollars '$' :=
    takeWhile_replicate (by simp [quotes, List.replicate_succ])
  have hquotes : (quotes (n + 3) ++ (body ++ (quotes (n + 3) ++ rest))).takeWhile (· == '"') =
      quotes (n + 3) := by
    refine takeWhile_replicate ?_
    obtain ⟨c, cs, rfl⟩ := List.exists_cons_of_ne_nil h.ne_nil
    exact h.head
  have hclosing : closingQuotes (n + 3) ((quotes (n + 3) ++
      (body ++ (quotes (n + 3) ++ rest))).drop (n + 3)) = some (body.length + (n + 3)) := by
    rw [List.drop_left' (by simp [quotes])]
    exact closingQuotes_body (Nat.succ_pos _) h.last h.inside rest
  rw [rawLength, hdollars, List.length_replicate, List.drop_left' List.length_replicate, hquotes,
    quotes, List.length_replicate, ← quotes, quotedRunLength, if_neg (by omega), hclosing]
  rfl

/-! ### Operators -/

/-- The operators and marks. -/
def operators : List (List Char) :=
  longOperators ++ shortOperators.map fun c => [c]

/-- Whether a character behind an operator makes it another one, or the beginning of a comment. -/
def extendsOperator (operator : List Char) (c : Char) : Bool :=
  longOperators.any (startsWith (operator ++ [c])) || (operator == ['/'] && (c == '/' || c == '*'))

/-- The characters of the operators and marks. -/
def operatorChars : List Char :=
  longOperators.flatten ++ shortOperators

theorem mem_of_startsWith {front cs : List Char} (h : startsWith front cs = true) {c : Char}
    (hc : c ∈ front) : c ∈ cs := by
  obtain ⟨rest, hrest⟩ := Option.isSome_iff_exists.1 h
  rw [dropStart?_eq_some_iff.1 hrest]
  exact List.mem_append_left _ hc

/-- Only a character of an operator goes on with one. -/
theorem mem_of_extendsOperator {operator : List Char} {c : Char}
    (h : extendsOperator operator c = true) : c ∈ operatorChars := by
  simp only [extendsOperator, Bool.or_eq_true, Bool.and_eq_true, beq_iff_eq, List.any_eq_true] at h
  rcases h with ⟨long, hlong, h⟩ | ⟨-, rfl | rfl⟩
  · have hc : c ∈ long := mem_of_startsWith h (List.mem_append_right _ List.mem_cons_self)
    exact List.mem_append_left _ (List.mem_flatten.2 ⟨long, hlong, hc⟩)
  · decide
  · decide

theorem extendsOperator_of_not_mem {operator : List Char} {c : Char} (h : c ∉ operatorChars) :
    extendsOperator operator c = false := by
  rw [Bool.eq_false_iff]
  exact fun hc => h (mem_of_extendsOperator hc)

theorem isBlank_of_mem_operatorChars {c : Char} (h : c ∈ operatorChars) : isBlank c = false := by
  have hall : operatorChars.all (fun c => !isBlank c) = true := by decide
  simpa using List.all_eq_true.1 hall c h

/-- An operator is told from the text by what it is made of, unless the next character goes on with
it. -/
theorem startsWith_append_cons {front operator rest : List Char} {c : Char}
    (h : startsWith (operator ++ [c]) front = false) :
    startsWith front (operator ++ c :: rest) = startsWith front operator := by
  -- character by character, until the two differ or the operator is at its end
  induction operator generalizing front with
  | nil =>
      cases front with
      | nil => rfl
      | cons x front =>
          rw [List.nil_append, startsWith_cons_cons] at h
          rw [List.nil_append, startsWith_cons_cons, startsWith_cons_nil]
          have hx : x ≠ c := by
            rintro rfl
            simp at h
          simp [hx]
  | cons y operator ih =>
      cases front with
      | nil => rfl
      | cons x front =>
          rw [List.cons_append, startsWith_cons_cons] at h
          rw [List.cons_append, startsWith_cons_cons, startsWith_cons_cons]
          by_cases hxy : y = x
          · rw [ih (by simpa [hxy] using h)]
          · simp [Ne.symm hxy]

theorem operatorLength_append {operator rest : List Char} (hop : operator ∈ operators)
    (hrest : ∀ c ∈ rest.head?, extendsOperator operator c = false) :
    operatorLength (operator ++ rest) = some operator.length := by
  have hself : ∀ op ∈ operators, operatorLength op = some op.length := by decide
  cases rest with
  | nil => rw [List.append_nil, hself operator hop]
  | cons c rest =>
      have hlong : ∀ front ∈ longOperators,
          startsWith front (operator ++ c :: rest) = startsWith front operator := by
        intro front hfront
        have h := hrest c rfl
        rw [extendsOperator, Bool.or_eq_false_iff, List.any_eq_false] at h
        exact startsWith_append_cons (by simpa using h.1 front hfront)
      have hfind : longOperators.find? (startsWith · (operator ++ c :: rest)) =
          longOperators.find? (startsWith · operator) := by
        rw [← List.head?_filter, ← List.head?_filter, List.filter_congr hlong]
      have hhead : (operator ++ c :: rest).head? = operator.head? := by
        cases operator with
        | nil => exact absurd hop (by decide)
        | cons => rfl
      rw [operatorLength, hfind, hhead]
      exact hself operator hop

/-! ### The forms of the tokens -/

/-- A character that goes on with a number. -/
def isNumberPart (c : Char) : Bool :=
  isWord c || c == '.'

/-- The openings of a regular literal. -/
def stringLeads : List (List Char) :=
  [['"'], ['$', '"']]

/-- The openings of a verbatim literal. -/
def verbatimLeads : List (List Char) :=
  [['@', '"'], ['$', '@', '"'], ['@', '$', '"']]

/-- The characters in the middle are a token of the given kind in front of those at the end. -/
inductive Stands : TokenKind → List Char → List Char → Prop
  | word {c : Char} {cs rest : List Char} (hc : isWordStart c = true)
      (hcs : ∀ x ∈ cs, isWord x = true) (hrest : ∀ x ∈ rest.head?, isWord x = false) :
      Stands .identifier (c :: cs) rest
  | markedWord {c : Char} {cs rest : List Char} (hc : isWordStart c = true)
      (hcs : ∀ x ∈ cs, isWord x = true) (hrest : ∀ x ∈ rest.head?, isWord x = false) :
      Stands .identifier ('@' :: c :: cs) rest
  | number {c : Char} {cs rest : List Char} (hc : '0' ≤ c ∧ c ≤ '9')
      (hcs : ∀ x ∈ cs, isNumberPart x = true) (hrest : ∀ x ∈ rest.head?, isNumberPart x = false) :
      Stands .number (c :: cs) rest
  | operator {cs rest : List Char} (hcs : cs ∈ operators)
      (hrest : ∀ x ∈ rest.head?, extendsOperator cs x = false) : Stands .operator cs rest
  | string {lead body rest : List Char} (hlead : lead ∈ stringLeads) (hbody : EscapedBody '"' body)
      (hrest : rest.head? ≠ some '"') : Stands .string (lead ++ (body ++ ['"'])) rest
  | verbatim {lead body rest : List Char} (hlead : lead ∈ verbatimLeads) (hbody : VerbatimBody body)
      (hrest : rest.head? ≠ some '"') : Stands .verbatim (lead ++ (body ++ ['"'])) rest
  | raw {dollars count : Nat} {body rest : List Char} (hcount : 3 ≤ count)
      (hbody : RawBody count body) :
      Stands .raw (List.replicate dollars '$' ++ (quotes count ++ (body ++ quotes count))) rest
  | char {body rest : List Char} (hbody : EscapedBody '\'' body) (hne : body ≠ []) :
      Stands .char ('\'' :: (body ++ ['\''])) rest

/-! ### A token is taken whole -/

/-- The recognisers of tokens, in the order in which they are tried. -/
def tokenRecognisers : List (Option TokenKind × (List Char → Option Nat)) :=
  [(some .raw, rawLength), (some .verbatim, verbatimLength), (some .string, stringLength),
    (some .char, charLength), (some .number, numberLength), (some .identifier, identifierLength),
    (some .operator, operatorLength)]

/-- A text begins with a token. -/
structure BeginsToken (cs : List Char) : Prop where
  blank : ∀ x ∈ cs.head?, isBlank x = false
  comment : commentLength cs = none
  directive : directiveLength cs = none

theorem runLength_eq_none {p : Char → Bool} {cs : List Char} (h : ∀ x ∈ cs.head?, p x = false) :
    runLength p cs = none := by
  cases cs with
  | nil => rfl
  | cons c cs => simp [runLength, h c rfl]

theorem lexeme_of_beginsToken {cs : List Char} (h : BeginsToken cs) :
    lexeme cs = ((tokenRecognisers.findSome? fun (kind, length) =>
      (length cs).map (kind, ·)).getD (some .other, 1)) := by
  have hblank : blankLength cs = none := runLength_eq_none h.blank
  simp only [lexeme, recognisers, tokenRecognisers, List.findSome?_cons, hblank, h.comment,
    h.directive, Option.map_none]

/-- The characters that open literals and marked words. -/
def openingMarks : List Char := ['$', '"', '@', '\'']

/-- A text that begins with a number, a word or an operator. -/
structure BeginsPlainly (cs : List Char) : Prop extends BeginsToken cs where
  mark : ∀ x ∈ cs.head?, x ∉ openingMarks

theorem rawLength_eq_none {c : Char} {cs : List Char} (hdollar : c ≠ '$') (hquote : c ≠ '"') :
    rawLength (c :: cs) = none := by
  simp [rawLength, hdollar, hquote, quotedRunLength]

/-- Where a text begins plainly, numbers, words and operators are what is left to try. -/
theorem lexeme_of_beginsPlainly {c : Char} {cs : List Char} (h : BeginsPlainly (c :: cs)) :
    lexeme (c :: cs) =
      (((tokenRecognisers.drop 4).findSome? fun (kind, length) =>
        (length (c :: cs)).map (kind, ·)).getD (some .other, 1)) := by
  have hmark := h.mark c rfl
  simp only [openingMarks, List.mem_cons, List.not_mem_nil, or_false, not_or] at hmark
  obtain ⟨hdollar, hquote, hat, htick⟩ := hmark
  have hraw : rawLength (c :: cs) = none := rawLength_eq_none hdollar hquote
  have hverbatim : verbatimLength (c :: cs) = none := by
    simp [verbatimLength, hdollar, hat]
  have hstring : stringLength (c :: cs) = none := by
    simp [stringLength, hdollar, hquote]
  have hchar : charLength (c :: cs) = none := by
    simp [charLength, htick]
  simp only [lexeme_of_beginsToken h.toBeginsToken, tokenRecognisers, List.drop_succ_cons,
    List.drop_zero, List.findSome?_cons, hraw, hverbatim, hstring, hchar, Option.map_none]

theorem commentLength_eq_none {c : Char} {cs : List Char}
    (h : c = '/' → ∀ x ∈ cs.head?, x ≠ '/' ∧ x ≠ '*') : commentLength (c :: cs) = none := by
  by_cases hc : c = '/'
  · cases cs with
    | nil => simp [commentLength]
    | cons x cs => simp [commentLength, hc, h hc x rfl]
  · simp [commentLength, hc]

theorem directiveLength_eq_none {c : Char} {cs : List Char} (h : c ≠ '#') :
    directiveLength (c :: cs) = none := by
  simp [directiveLength, h]

/-- The characters with which neither a number nor a word begins, blanks and most operators
apart. -/
def frontMarks : List Char := '/' :: '#' :: openingMarks

theorem beginsPlainly_word {c : Char} (hc : isWord c = true) (hmark : c ∉ frontMarks)
    (cs : List Char) : BeginsPlainly (c :: cs) := by
  simp only [frontMarks, List.mem_cons, not_or] at hmark
  refine ⟨⟨?_, commentLength_eq_none ?_, directiveLength_eq_none hmark.2.1⟩, ?_⟩
  · rintro x ⟨⟩
    cases hblank : isBlank c with
    | false => rfl
    | true =>
        rw [isWord_of_isBlank hblank] at hc
        cases hc
  · intro h
    exact absurd h hmark.1
  · rintro x ⟨⟩
    exact hmark.2.2

theorem beginsPlainly_of_isWord {c : Char} (hc : isWord c = true) (cs : List Char) :
    BeginsPlainly (c :: cs) := by
  have hmarks : frontMarks.all (fun c => !isWord c) = true := by decide
  refine beginsPlainly_word hc ?_ cs
  intro h
  have hword := List.all_eq_true.1 hmarks c h
  rw [hc] at hword
  cases hword

theorem wordLength_run {c : Char} {cs rest : List Char} (hc : isWordStart c = true)
    (hcs : ∀ x ∈ cs, isWord x = true) (hrest : ∀ x ∈ rest.head?, isWord x = false) :
    wordLength (c :: (cs ++ rest)) = some (c :: cs).length := by
  rw [wordLength, if_pos hc, takeWhile_run hcs hrest, List.length_cons, Nat.add_comm]

theorem identifierLength_of_ne {c : Char} {cs : List Char} (h : c ≠ '@') :
    identifierLength (c :: cs) = wordLength (c :: cs) := by
  simp [identifierLength, h]

theorem lexeme_word {c : Char} {cs rest : List Char} (hc : isWordStart c = true)
    (hcs : ∀ x ∈ cs, isWord x = true) (hrest : ∀ x ∈ rest.head?, isWord x = false) :
    lexeme (c :: (cs ++ rest)) = (some .identifier, (c :: cs).length) := by
  have hat : c ≠ '@' := by
    rintro rfl
    cases hc
  have hplain := beginsPlainly_of_isWord (isWord_of_isWordStart hc) (cs ++ rest)
  have hnumber : numberLength (c :: (cs ++ rest)) = none := by
    rw [numberLength, isDigit_of_isWordStart hc]
    rfl
  have hword : identifierLength (c :: (cs ++ rest)) = some (c :: cs).length := by
    rw [identifierLength_of_ne hat, wordLength_run hc hcs hrest]
  rw [lexeme_of_beginsPlainly hplain]
  simp only [tokenRecognisers, List.drop_succ_cons, List.drop_zero, List.findSome?_cons, hnumber,
    hword, Option.map_none, Option.map_some, Option.getD_some]

theorem lexeme_markedWord {c : Char} {cs rest : List Char} (hc : isWordStart c = true)
    (hcs : ∀ x ∈ cs, isWord x = true) (hrest : ∀ x ∈ rest.head?, isWord x = false) :
    lexeme ('@' :: c :: (cs ++ rest)) = (some .identifier, ('@' :: c :: cs).length) := by
  have hmark : c ≠ '"' ∧ c ≠ '$' := by
    constructor <;> rintro rfl <;> cases hc
  have hbegin : BeginsToken ('@' :: c :: (cs ++ rest)) := by
    refine ⟨?_, rfl, rfl⟩
    rintro x ⟨⟩
    rfl
  have hraw : rawLength ('@' :: c :: (cs ++ rest)) = none :=
    rawLength_eq_none (by decide) (by decide)
  have hverbatim : verbatimLength ('@' :: c :: (cs ++ rest)) = none := by
    simp [verbatimLength, hmark]
  have hstring : stringLength ('@' :: c :: (cs ++ rest)) = none := rfl
  have hchar : charLength ('@' :: c :: (cs ++ rest)) = none := rfl
  have hnumber : numberLength ('@' :: c :: (cs ++ rest)) = none := rfl
  have hword : identifierLength ('@' :: c :: (cs ++ rest)) = some ('@' :: c :: cs).length := by
    rw [identifierLength, wordLength_run hc hcs hrest, Option.map_some, Nat.add_comm]
    rfl
  rw [lexeme_of_beginsToken hbegin]
  simp only [tokenRecognisers, List.findSome?_cons, hraw, hverbatim, hstring, hchar, hnumber, hword,
    Option.map_none, Option.map_some, Option.getD_some]

theorem lexeme_number {c : Char} {cs rest : List Char} (hc : '0' ≤ c ∧ c ≤ '9')
    (hcs : ∀ x ∈ cs, isNumberPart x = true) (hrest : ∀ x ∈ rest.head?, isNumberPart x = false) :
    lexeme (c :: (cs ++ rest)) = (some .number, (c :: cs).length) := by
  have hnat : c.toNat < 128 := Nat.lt_of_le_of_lt (Char.le_def.1 hc.2) (by decide)
  have hword : isWord c = true := by simp [isWord, hnat, hc]
  have hrun : (cs ++ rest).takeWhile (fun d => isWord d || d == '.') = cs := takeWhile_run hcs hrest
  have hnumber : numberLength (c :: (cs ++ rest)) = some (c :: cs).length := by
    rw [numberLength, if_pos (isDigit_of_ascii hc), hrun, List.length_cons, Nat.add_comm]
  rw [lexeme_of_beginsPlainly (beginsPlainly_of_isWord hword _)]
  simp only [tokenRecognisers, List.drop_succ_cons, List.drop_zero, List.findSome?_cons, hnumber,
    Option.map_some, Option.getD_some]

/-- What begins an operator. -/
structure OperatorHead (operator : List Char) (c : Char) : Prop where
  mem : c ∈ operator.head?
  blank : isBlank c = false
  mark : c ∉ '#' :: openingMarks
  digit : isDigit c = false
  start : isWordStart c = false
  slash : c = '/' → operator = ['/']

/-- What begins an operator, as a test. -/
def beginsOperator (operator : List Char) (c : Char) : Bool :=
  !isBlank c && !('#' :: openingMarks).contains c && !isDigit c && !isWordStart c &&
    (c != '/' || operator == ['/'])

theorem exists_operatorHead {operator : List Char} (h : operator ∈ operators) :
    ∃ c, OperatorHead operator c := by
  -- the test is run over the operators; a decision for every `c` would run over all characters
  have hall : operators.all (fun op => op.head?.any (beginsOperator op)) = true := by decide
  obtain ⟨c, hmem, hc⟩ := (Option.any_eq_true _ _).1 (List.all_eq_true.1 hall operator h)
  simp only [beginsOperator, Bool.and_eq_true, Bool.or_eq_true, Bool.not_eq_true', bne_iff_ne,
    beq_iff_eq, List.contains_eq_mem, decide_eq_false_iff_not] at hc
  obtain ⟨⟨⟨⟨hblank, hmark⟩, hdigit⟩, hstart⟩, hslash⟩ := hc
  refine ⟨c, hmem, hblank, hmark, hdigit, hstart, fun heq => hslash.resolve_left ?_⟩
  exact fun hne => hne heq

theorem OperatorHead.beginsPlainly {c : Char} {tail rest : List Char}
    (h : OperatorHead (c :: tail) c)
    (hrest : ∀ x ∈ rest.head?, extendsOperator (c :: tail) x = false) :
    BeginsPlainly (c :: (tail ++ rest)) := by
  have hmark := h.mark
  rw [List.mem_cons, not_or] at hmark
  refine ⟨⟨?_, commentLength_eq_none ?_, directiveLength_eq_none hmark.1⟩, ?_⟩
  · rintro x ⟨⟩
    exact h.blank
  · intro hc x hx
    have htail := h.slash hc
    cases htail
    have hx := hrest x hx
    simp only [extendsOperator, Bool.or_eq_false_iff, Bool.and_eq_false_iff,
      beq_eq_false_iff_ne] at hx
    exact hx.2.resolve_left fun h => h rfl
  · rintro x ⟨⟩
    exact hmark.2

theorem lexeme_operator {cs rest : List Char} (hcs : cs ∈ operators)
    (hrest : ∀ x ∈ rest.head?, extendsOperator cs x = false) :
    lexeme (cs ++ rest) = (some .operator, cs.length) := by
  have hlength := operatorLength_append hcs hrest
  obtain ⟨c, hhead⟩ := exists_operatorHead hcs
  obtain ⟨tail, rfl⟩ : ∃ tail, cs = c :: tail := List.head?_eq_some_iff.1 hhead.mem
  have hat : c ≠ '@' := by
    rintro rfl
    exact hhead.mark (by decide)
  have hnumber : numberLength (c :: (tail ++ rest)) = none := by
    rw [numberLength, hhead.digit]
    rfl
  have hword : identifierLength (c :: (tail ++ rest)) = none := by
    rw [identifierLength_of_ne hat, wordLength, hhead.start]
    rfl
  rw [List.cons_append] at hlength ⊢
  rw [lexeme_of_beginsPlainly (hhead.beginsPlainly hrest)]
  simp only [tokenRecognisers, List.drop_succ_cons, List.drop_zero, List.findSome?_cons, hnumber,
    hword, hlength, Option.map_none, Option.map_some, Option.getD_some]

theorem beginsToken_mark {c : Char} (hc : c ∈ openingMarks) (cs : List Char) :
    BeginsToken (c :: cs) := by
  have hmarks : openingMarks.all (fun c => !isBlank c && c != '/' && c != '#') = true := by decide
  have hmark := List.all_eq_true.1 hmarks c hc
  simp only [Bool.and_eq_true, Bool.not_eq_true', bne_iff_ne] at hmark
  obtain ⟨⟨hblank, hslash⟩, hsharp⟩ := hmark
  refine ⟨?_, commentLength_eq_none fun h => absurd h hslash, directiveLength_eq_none hsharp⟩
  rintro x ⟨⟩
  exact hblank

/-- One or two quotes open no raw literal. -/
theorem quotedRunLength_eq_none {count : Nat} (h : count < 3) (cs : List Char) :
    quotedRunLength cs count = none := by
  cases count with
  | zero => rfl
  | succ n => rw [quotedRunLength, if_pos h]

/-- The quotes at the front of a regular literal are one, or the two of the empty literal. -/
theorem quotes_regular_lt {body rest : List Char} (hbody : EscapedBody '"' body)
    (hrest : rest.head? ≠ some '"') :
    (('"' :: (body ++ '"' :: rest)).takeWhile (· == '"')).length < 3 := by
  cases hbody with
  | nil =>
      cases rest with
      | nil => decide
      | cons x rest =>
          have hx : x ≠ '"' := fun h => hrest (by rw [h]; rfl)
          simp [hx]
  | plain hmark => simp [hmark]
  | escape => simp

theorem rawLength_regular (dollars : Nat) {body rest : List Char} (hbody : EscapedBody '"' body)
    (hrest : rest.head? ≠ some '"') :
    rawLength (List.replicate dollars '$' ++ '"' :: (body ++ '"' :: rest)) = none := by
  have hdollars : (List.replicate dollars '$' ++ '"' :: (body ++ '"' :: rest)).takeWhile
        (· == '$') =
      List.replicate dollars '$' :=
    takeWhile_replicate (by simp)
  rw [rawLength, hdollars, List.length_replicate, List.drop_left' List.length_replicate,
    quotedRunLength_eq_none (quotes_regular_lt hbody hrest)]
  rfl

/-- An opening of a regular literal that no raw literal begins with is read up to its closing
quote. -/
theorem lexeme_of_stringLead {lead rest : List Char} {n : Nat} (hlead : lead ∈ stringLeads)
    (hraw : rawLength (lead ++ rest) = none) (hend : escapedEnd '"' rest = some n) :
    lexeme (lead ++ rest) = (some .string, lead.length + n) := by
  simp only [stringLeads, List.mem_cons, List.not_mem_nil, or_false] at hlead
  have hstring : stringLength (lead ++ rest) = some (lead.length + n) := by
    rcases hlead with rfl | rfl <;> simp [stringLength, hend]
  have hverbatim : verbatimLength (lead ++ rest) = none := by
    rcases hlead with rfl | rfl <;> rfl
  have hbegin : BeginsToken (lead ++ rest) := by
    rcases hlead with rfl | rfl <;> exact beginsToken_mark (by decide) _
  rw [lexeme_of_beginsToken hbegin]
  simp only [tokenRecognisers, List.findSome?_cons, hraw, hverbatim, hstring, Option.map_none,
    Option.map_some, Option.getD_some]

theorem lexeme_string {lead body rest : List Char} (hlead : lead ∈ stringLeads)
    (hbody : EscapedBody '"' body) (hrest : rest.head? ≠ some '"') :
    lexeme (lead ++ (body ++ '"' :: rest)) = (some .string, lead.length + (body.length + 1)) := by
  -- with one quote at the front, or the two of the empty literal, no raw literal begins
  have hraw : rawLength (lead ++ (body ++ '"' :: rest)) = none := by
    simp only [stringLeads, List.mem_cons, List.not_mem_nil, or_false] at hlead
    rcases hlead with rfl | rfl
    · exact rawLength_regular 0 hbody hrest
    · exact rawLength_regular 1 hbody hrest
  exact lexeme_of_stringLead hlead hraw (escapedEnd_body (by decide) hbody rest)

/-- An opening of a verbatim literal is read up to its closing quote. -/
theorem lexeme_of_verbatimLead {lead rest : List Char} {n : Nat} (hlead : lead ∈ verbatimLeads)
    (hend : verbatimEnd rest = some n) :
    lexeme (lead ++ rest) = (some .verbatim, lead.length + n) := by
  simp only [verbatimLeads, List.mem_cons, List.not_mem_nil, or_false] at hlead
  have hverbatim : verbatimLength (lead ++ rest) = some (lead.length + n) := by
    rcases hlead with rfl | rfl | rfl <;> simp [verbatimLength, hend]
  -- a raw literal would need a quote at the front or behind dollar signs
  have hraw : rawLength (lead ++ rest) = none := by
    rcases hlead with rfl | rfl | rfl <;> simp [rawLength, quotedRunLength]
  have hbegin : BeginsToken (lead ++ rest) := by
    rcases hlead with rfl | rfl | rfl <;> exact beginsToken_mark (by decide) _
  rw [lexeme_of_beginsToken hbegin]
  simp only [tokenRecognisers, List.findSome?_cons, hraw, hverbatim, Option.map_none,
    Option.map_some, Option.getD_some]

theorem lexeme_verbatim {lead body rest : List Char} (hlead : lead ∈ verbatimLeads)
    (hbody : VerbatimBody body) (hrest : rest.head? ≠ some '"') :
    lexeme (lead ++ (body ++ '"' :: rest)) = (some .verbatim, lead.length + (body.length + 1)) :=
  lexeme_of_verbatimLead hlead (verbatimEnd_body hbody hrest)

theorem lexeme_raw {dollars count : Nat} (hcount : 3 ≤ count) {body : List Char}
    (hbody : RawBody count body) (rest : List Char) :
    lexeme (List.replicate dollars '$' ++ (quotes count ++ (body ++ (quotes count ++ rest)))) =
      (some .raw, dollars + (count + (body.length + count))) := by
  have hraw := rawLength_body dollars hcount hbody rest
  obtain ⟨n, rfl⟩ := Nat.exists_eq_add_of_le' hcount
  have hbegin : BeginsToken (List.replicate dollars '$' ++
      (quotes (n + 3) ++ (body ++ (quotes (n + 3) ++ rest)))) := by
    cases dollars with
    | zero => exact beginsToken_mark (c := '"') (by decide) _
    | succ m => exact beginsToken_mark (c := '$') (by decide) _
  rw [lexeme_of_beginsToken hbegin]
  simp only [tokenRecognisers, List.findSome?_cons, hraw, Option.map_some, Option.getD_some]

theorem lexeme_char {body : List Char} (hbody : EscapedBody '\'' body) (hne : body ≠ [])
    (rest : List Char) :
    lexeme ('\'' :: (body ++ '\'' :: rest)) = (some .char, 1 + (body.length + 1)) := by
  have hend := escapedEnd_body (by decide) hbody rest
  have hraw : rawLength ('\'' :: (body ++ '\'' :: rest)) = none :=
    rawLength_eq_none (by decide) (by decide)
  have hverbatim : verbatimLength ('\'' :: (body ++ '\'' :: rest)) = none := rfl
  have hstring : stringLength ('\'' :: (body ++ '\'' :: rest)) = none := rfl
  have hchar : charLength ('\'' :: (body ++ '\'' :: rest)) = some (1 + (body.length + 1)) := by
    have hfirst : ∀ x ∈ body.head?, x ≠ '\'' := by
      intro x hx
      cases hbody with
      | nil => cases hx
      | plain hmark =>
          cases hx
          exact hmark
      | escape =>
          cases hx
          decide
    obtain ⟨x, tail, rfl⟩ := List.exists_cons_of_ne_nil hne
    rw [List.cons_append] at hend ⊢
    simp [charLength, hfirst x rfl, hend]
  rw [lexeme_of_beginsToken (beginsToken_mark (by decide) _)]
  simp only [tokenRecognisers, List.findSome?_cons, hraw, hverbatim, hstring, hchar,
    Option.map_none, Option.map_some, Option.getD_some]

theorem Stands.ne_nil {kind : TokenKind} {cs rest : List Char} (h : Stands kind cs rest) :
    cs ≠ [] := by
  cases h with
  | operator hcs _ =>
      rintro rfl
      exact absurd hcs (by decide)
  | raw hcount hbody => simp [hbody.ne_nil]
  | _ => simp

/-- **A token is taken whole** in front of what may follow it. -/
theorem lexeme_of_stands {kind : TokenKind} {cs rest : List Char} (h : Stands kind cs rest) :
    lexeme (cs ++ rest) = (some kind, cs.length) := by
  cases h with
  | word hc hcs hrest => exact lexeme_word hc hcs hrest
  | markedWord hc hcs hrest => exact lexeme_markedWord hc hcs hrest
  | number hc hcs hrest => exact lexeme_number hc hcs hrest
  | operator hcs hrest => exact lexeme_operator hcs hrest
  | string hlead hbody hrest => simpa using lexeme_string hlead hbody hrest
  | verbatim hlead hbody hrest => simpa using lexeme_verbatim hlead hbody hrest
  | raw hcount hbody => simpa [quotes] using lexeme_raw hcount hbody rest
  | char hbody hne => simpa [Nat.add_comm] using lexeme_char hbody hne rest

/-- Whether a character behind a token goes on with it. -/
def goesOn (kind : TokenKind) (cs : List Char) (c : Char) : Bool :=
  match kind with
  | .identifier => isWord c
  | .number => isNumberPart c
  | .operator => extendsOperator cs c
  | _ => c == '"'

/-- **A token that stands at the end of a text** stands in front of all that does not go on with
it. -/
theorem Stands.before {kind : TokenKind} {cs rest : List Char} (h : Stands kind cs [])
    (hrest : ∀ x ∈ rest.head?, goesOn kind cs x = false) : Stands kind cs rest := by
  -- for literals the condition is about a quote alone
  have hquote : goesOn kind cs '"' = true → rest.head? ≠ some '"' := by
    intro hgoes hx
    rw [hrest '"' hx] at hgoes
    cases hgoes
  cases h with
  | word hc hcs _ => exact .word hc hcs hrest
  | markedWord hc hcs _ => exact .markedWord hc hcs hrest
  | number hc hcs _ => exact .number hc hcs hrest
  | operator hcs _ => exact .operator hcs hrest
  | string hlead hbody _ => exact .string hlead hbody (hquote rfl)
  | verbatim hlead hbody _ => exact .verbatim hlead hbody (hquote rfl)
  | raw hcount hbody => exact .raw hcount hbody
  | char hbody hne => exact .char hbody hne

/-- A blank goes on with no token. -/
theorem goesOn_blank (kind : TokenKind) (cs : List Char) {c : Char} (hc : isBlank c = true) :
    goesOn kind cs c = false := by
  have hword : isWord c = false := isWord_of_isBlank hc
  have hpoint : isBlank '.' = false := by decide
  have hquote : isBlank '"' = false := by decide
  have hne : ∀ {x : Char}, isBlank x = false → c ≠ x := by
    rintro x hx rfl
    rw [hc] at hx
    cases hx
  have hoperator : extendsOperator cs c = false := extendsOperator_of_not_mem fun hmem =>
    hne (isBlank_of_mem_operatorChars hmem) rfl
  cases kind <;> simp [goesOn, isNumberPart, hword, hoperator, hne hpoint, hne hquote]

/-! ### Blanks and comments -/

theorem lexeme_blank {c : Char} (hc : isBlank c = true) (cs : List Char) :
    lexeme (c :: cs) = (none, (cs.takeWhile isBlank).length + 1) := by
  simp [lexeme, recognisers, blankLength, runLength, hc]

theorem lexeme_comment {cs rest : List Char} (hcs : '\n' ∉ cs)
    (hrest : ∀ x ∈ rest.head?, x = '\n') :
    lexeme ('/' :: '/' :: (cs ++ rest)) = (none, 2 + cs.length) := by
  have hrun : (cs ++ rest).takeWhile (· != '\n') = cs := by
    refine takeWhile_run ?_ ?_
    · intro x hx
      simpa using fun h : x = '\n' => hcs (h ▸ hx)
    · intro x hx
      simp [hrest x hx]
  have hblank : blankLength ('/' :: '/' :: (cs ++ rest)) = none := rfl
  have hcomment : commentLength ('/' :: '/' :: (cs ++ rest)) = some (2 + cs.length) := by
    rw [commentLength, lineLength, hrun]
  simp only [lexeme, recognisers, List.findSome?_cons, hblank, hcomment, Option.map_none,
    Option.map_some, Option.getD_some]

end LocalisedEnum

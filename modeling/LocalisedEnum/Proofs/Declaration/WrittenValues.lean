import LocalisedEnum.Proofs.Declaration.AttributeSection
import LocalisedEnum.Proofs.Number.IntegerLiterals
import LocalisedEnum.Proofs.Token.WrittenLiterals

/-!
**Values as they are written in argument lists.**

An argument of an attribute can be a text, a truth value, nothing, an integer, or a type.  Each is
written as a few tokens, and is the value of the expression that they make up.  Of the tokens only
those of a type hold brackets and commas, and these stand between the parentheses of the operator;
so an argument list is split between the arguments, and not inside them.

Main definitions:

* `WrittenString`, `WrittenInteger`, `TypePhrase` — texts, integers and types as they are written;
* `WrittenValue` — the values, with `WrittenValue.lexemes` and `WrittenValue.value`;
* `StaysWhole` — tokens that an argument list is not split in;
* `IsNested` — tokens with balanced brackets.

Main results:

* `exists_writtenInteger` — every integer with few enough digits can be written;
* `joinTokens_typePhrase` — the name of a type is the text of its tokens;
* `evaluate_value` — **the tokens of a value have that value**;
* `staysWhole_value`, `isNested_value` — a value in an argument list.
-/

set_option autoImplicit false
set_option relaxedAutoImplicit false

namespace LocalisedEnum

/-! ### Texts -/

/-- **A text as it is written**: in a regular or in a verbatim literal. -/
inductive WrittenString where
  | regular (value : CodeText) (body : List Char) (h : WritesText value body)
  | verbatim (value : String)

namespace WrittenString

/-- The text. -/
def value : WrittenString → CodeText
  | regular value _ _ => value
  | verbatim value => .ofString value

/-- The literal. -/
def literal : WrittenString → TextLiteral
  | regular value body h =>
    { lexeme :=
        { kind := .string
          text := String.ofList ('"' :: (body ++ ['"']))
          stands := by
            rw [String.toList_ofList]
            exact stands_writtenText h (by decide)
          decodes := ⟨_, literalValue_string h⟩ }
      isString := rfl
      value := value
      denotes := literalValue_string h }
  | verbatim value =>
    { lexeme :=
        { kind := .verbatim
          text := String.ofList ('@' :: '"' :: (pairQuotes value.toList ++ ['"']))
          stands := by
            rw [String.toList_ofList]
            exact stands_pairQuotes value.toList (by decide)
          decodes := ⟨_, literalValue_verbatim value.toList⟩ }
      isString := rfl
      value := .ofString value
      denotes := literalValue_verbatim value.toList }

theorem literal_value (s : WrittenString) : s.literal.value = s.value := by
  cases s <;> rfl

end WrittenString

/-! ### Integers -/

/-- **An integer as it is written**: decimal digits, at most as many as are read, perhaps behind a
minus sign. -/
structure WrittenInteger where
  negative : Bool
  digits : List Char
  ne_nil : digits ≠ []
  decimal : ∀ d ∈ digits, '0' ≤ d ∧ d ≤ '9'
  short : digits.length ≤ decimalLimit

/-- A minus sign. -/
def minus : Lexeme := .operator "-" (by decide)

namespace WrittenInteger

variable (n : WrittenInteger)

/-- The number without its sign. -/
def magnitude : Nat :=
  Nat.ofDigitChars 10 n.digits 0

/-- The integer. -/
def value : Int :=
  withSign n.negative n.magnitude

/-- The digits are a literal. -/
theorem exists_literal : ∃ l : IntegerLiteral, l.chars = n.digits ∧ l.value = n.magnitude :=
  exists_literal_of_decimal n.ne_nil n.decimal n.short

/-- The digits. -/
def digitsLexeme : Lexeme where
  kind := .number
  text := String.ofList n.digits
  stands := by
    obtain ⟨l, hchars, -⟩ := n.exists_literal
    rw [String.toList_ofList, ← hchars]
    exact l.stands_alone
  decodes := ⟨none, rfl⟩

/-- The tokens of the integer. -/
def lexemes : List Lexeme :=
  if n.negative then [minus, n.digitsLexeme] else [n.digitsLexeme]

end WrittenInteger

/-- **Every integer with few enough digits can be written.** -/
theorem exists_writtenInteger {n : Int} (h : (Nat.toDigits 10 n.natAbs).length ≤ decimalLimit) :
    ∃ w : WrittenInteger, w.value = n := by
  refine ⟨⟨decide (n < 0), Nat.toDigits 10 n.natAbs, Nat.toDigits_ne_nil,
      fun _ => ascii_of_mem_toDigits, h⟩, ?_⟩
  rw [WrittenInteger.value, WrittenInteger.magnitude, Nat.ofDigitChars_ten_toDigits, withSign]
  by_cases hnegative : n < 0
  · rw [if_pos (decide_eq_true hnegative)]
    omega
  · rw [if_neg (by simpa using hnegative)]
    omega

/-! ### Types -/

/-- Whether a phrase is one type, or stands for several between angle brackets. -/
inductive TypeCount where
  | one
  | several

/-- Commas in a row, as they stand where type arguments are left out and between the dimensions of
an array. -/
def commas (count : Nat) : List Lexeme :=
  List.replicate count comma

/-- The text of commas in a row. -/
def commaText (count : Nat) : String :=
  String.ofList (List.replicate count ',')

/-- A question mark. -/
def question : Lexeme := .operator "?" (by decide)

/-- **The name of a type as it is written**: a name, which may have type arguments and be inside
another type or a namespace.  Type arguments are one type, or several with commas between them, or
they are left out and the commas stay.  A type may be that of an array or of a value that may be
missing. -/
inductive TypePhrase : TypeCount → Type where
  | name (w : Word) : TypePhrase .one
  | generic {count : TypeCount} (w : Word) (arguments : TypePhrase count) : TypePhrase .one
  | unbound (w : Word) (count : Nat) : TypePhrase .one
  | array (element : TypePhrase .one) (count : Nat) : TypePhrase .one
  | nullable (t : TypePhrase .one) : TypePhrase .one
  | member (outer inner : TypePhrase .one) : TypePhrase .one
  | more {count : TypeCount} (first : TypePhrase .one) (others : TypePhrase count) :
      TypePhrase .several

namespace TypePhrase

/-- The name without white space. -/
def text {count : TypeCount} : TypePhrase count → String
  | name w => w.text
  | generic w arguments => w.text ++ "<" ++ arguments.text ++ ">"
  | unbound w count => w.text ++ "<" ++ commaText count ++ ">"
  | array element count => element.text ++ "[" ++ commaText count ++ "]"
  | nullable t => t.text ++ "?"
  | member outer inner => outer.text ++ "." ++ inner.text
  | more first others => first.text ++ "," ++ others.text

/-- The tokens of the name. -/
def lexemes {count : TypeCount} : TypePhrase count → List Lexeme
  | name w => [w.lexeme]
  | generic w arguments => w.lexeme :: openingAngle :: (arguments.lexemes ++ [closingAngle])
  | unbound w count => w.lexeme :: openingAngle :: (commas count ++ [closingAngle])
  | array element count =>
      element.lexemes ++ Bracket.square.opening :: (commas count ++ [Bracket.square.closing])
  | nullable t => t.lexemes ++ [question]
  | member outer inner => outer.lexemes ++ dot :: inner.lexemes
  | more first others => first.lexemes ++ comma :: others.lexemes

theorem lexemes_ne_nil {count : TypeCount} (t : TypePhrase count) : t.lexemes ≠ [] := by
  cases t <;> simp [lexemes]

end TypePhrase

/-- Behind a token that is no word, tokens are joined as at the front. -/
theorem joinTokensAfter_of_not_word {kind : TokenKind} (h : kind.isWordLike = false)
    (ts : List Token) : joinTokensAfter kind ts = joinTokens ts := by
  cases ts with
  | nil => rfl
  | cons t ts =>
      rw [joinTokensAfter, h, joinTokens, Bool.false_and, if_neg Bool.false_ne_true,
        String.empty_append]

/-- Tokens on both sides of one that is no word are joined apart. -/
theorem joinTokens_append_cons {ts : List Token} (hne : ts ≠ []) {t : Token}
    (h : t.kind.isWordLike = false) (us : List Token) :
    joinTokens (ts ++ t :: us) = joinTokens ts ++ t.text ++ joinTokens us := by
  have hafter : ∀ (ts : List Token) (kind : TokenKind), joinTokensAfter kind (ts ++ t :: us) =
      joinTokensAfter kind ts ++ t.text ++ joinTokens us := by
    intro ts
    induction ts with
    | nil =>
        intro kind
        simp only [List.nil_append, joinTokensAfter, h, joinTokensAfter_of_not_word h,
          Bool.and_false, Bool.false_eq_true, if_false]
    | cons first ts ih =>
        intro kind
        rw [List.cons_append, joinTokensAfter, joinTokensAfter, ih]
        simp only [String.append_assoc]
  obtain ⟨first, ts, rfl⟩ := List.exists_cons_of_ne_nil hne
  rw [List.cons_append, joinTokens, joinTokens, hafter]
  simp only [String.append_assoc]

theorem joinTokens_commas (count : Nat) (us : List Token) :
    joinTokens (tokensOf (commas count) ++ us) = commaText count ++ joinTokens us := by
  induction count with
  | zero => exact String.empty_append.symm
  | succ count ih =>
      have htext : commaText (count + 1) = "," ++ commaText count := by
        rw [commaText, List.replicate_succ, ← List.singleton_append, String.ofList_append]
        rfl
      rw [commas, List.replicate_succ, ← commas, tokensOf_cons, List.cons_append, joinTokens,
        joinTokensAfter_of_not_word rfl, ih, htext, String.append_assoc]
      rfl

/-- A name in front of angle brackets. -/
theorem joinTokens_openingAngle (w : Word) (us : List Token) :
    joinTokens (w.lexeme.token :: openingAngle.token :: us) = w.text ++ "<" ++ joinTokens us := by
  refine (joinTokens_append_cons (List.cons_ne_nil w.lexeme.token []) rfl us).trans ?_
  rw [show joinTokens [w.lexeme.token] = w.text from String.append_empty]
  rfl

/-- **The name of a type** is the text of its tokens. -/
theorem joinTokens_typePhrase {count : TypeCount} (t : TypePhrase count) :
    joinTokens (tokensOf t.lexemes) = t.text := by
  have htokens : ∀ {count : TypeCount} (t : TypePhrase count), tokensOf t.lexemes ≠ [] := fun t =>
    fun h => t.lexemes_ne_nil (List.map_eq_nil_iff.1 h)
  have hlast : ∀ l : Lexeme, joinTokens (tokensOf [l]) = l.text := fun _ => String.append_empty
  induction t with
  | name w => exact hlast w.lexeme
  | generic w arguments ih =>
      rw [TypePhrase.lexemes, tokensOf_cons, tokensOf_cons, tokensOf_append,
        joinTokens_openingAngle, tokensOf_cons, tokensOf_nil,
        joinTokens_append_cons (htokens arguments) rfl, ih, TypePhrase.text]
      simp only [String.append_assoc]
      rfl
  | unbound w count =>
      rw [TypePhrase.lexemes, tokensOf_cons, tokensOf_cons, tokensOf_append,
        joinTokens_openingAngle, joinTokens_commas, hlast, TypePhrase.text]
      simp only [String.append_assoc]
      rfl
  | array element count ih =>
      rw [TypePhrase.lexemes, tokensOf_append, tokensOf_cons, tokensOf_append,
        joinTokens_append_cons (htokens element) rfl, joinTokens_commas, hlast, ih, TypePhrase.text]
      simp only [String.append_assoc]
      rfl
  | nullable t ih =>
      rw [TypePhrase.lexemes, tokensOf_append, tokensOf_cons,
        joinTokens_append_cons (htokens t) rfl, ih, TypePhrase.text]
      exact String.append_empty
  | member outer inner ihOuter ihInner =>
      rw [TypePhrase.lexemes, tokensOf_append, tokensOf_cons,
        joinTokens_append_cons (htokens outer) rfl, ihOuter, ihInner]
      rfl
  | more first others ihFirst ihOthers =>
      rw [TypePhrase.lexemes, tokensOf_append, tokensOf_cons,
        joinTokens_append_cons (htokens first) rfl, ihFirst, ihOthers]
      rfl

/-- There are no colons in the name of a type, and so no mark of an absolute name. -/
theorem withoutStart_typePhrase {count : TypeCount} (t : TypePhrase count) :
    withoutStart globalMark t.text = t.text := by
  have hword : ∀ w : Word, ':' ∉ w.text.toList := fun w h =>
    absurd (isWord_of_mem_identifier w.identifier h) (by decide)
  refine withoutStart_of_not_mem ?_
  induction t with
  | name w => exact hword w
  | generic w arguments ih => simp [TypePhrase.text, hword, ih]
  | unbound w count => simp [TypePhrase.text, commaText, hword]
  | array element count ih => simp [TypePhrase.text, commaText, ih]
  | nullable t ih => simp [TypePhrase.text, ih]
  | member outer inner ihOuter ihInner => simp [TypePhrase.text, ihOuter, ihInner]
  | more first others ihFirst ihOthers => simp [TypePhrase.text, ihFirst, ihOthers]

/-! ### Values -/

/-- **The values of arguments as they are written.** -/
inductive WrittenValue where
  | text (s : WrittenString)
  | bool (b : Bool)
  | null
  | integer (n : WrittenInteger)
  | typeOf (t : TypePhrase .one)

namespace WrittenValue

/-- The value. -/
def value : WrittenValue → ArgumentValue
  | text s => .text s.value
  | bool b => .bool b
  | null => .null
  | integer n => .integer n.value
  | typeOf t => .typeOf t.text

/-- The tokens of a value. -/
def lexemes : WrittenValue → List Lexeme
  | text s => [s.literal.lexeme]
  | bool b => [if b then .word "true" (by decide) else .word "false" (by decide)]
  | null => [.word "null" (by decide)]
  | integer n => n.lexemes
  | typeOf t =>
      .word "typeof" (by decide) :: Bracket.round.opening :: (t.lexemes ++ [Bracket.round.closing])

end WrittenValue

theorem evaluate_integer (n : WrittenInteger) :
    evaluate (tokensOf n.lexemes) = .ok (.integer n.value) := by
  obtain ⟨l, hchars, hvalue⟩ := n.exists_literal
  have hhead := l.exists_head
  have hread := l.read?_chars
  rw [hchars, ← String.toList_ofList (l := n.digits)] at hhead hread
  rw [hvalue] at hread
  rw [WrittenInteger.lexemes, WrittenInteger.value]
  cases n.negative with
  | true => exact evaluate_negated hread
  | false => exact evaluate_numeral hhead hread

theorem evaluate_typeOf (t : TypePhrase .one) :
    evaluate (tokensOf (WrittenValue.typeOf t).lexemes) = .ok (.typeOf t.text) := by
  have hoperand : operand? "typeof" (tokensOf (WrittenValue.typeOf t).lexemes) =
      some (tokensOf t.lexemes) := by
    rw [WrittenValue.lexemes, tokensOf_cons, tokensOf_cons, tokensOf_append, operand?, if_pos]
    · exact congrArg some List.dropLast_concat
    · refine ⟨rfl, rfl, ?_⟩
      rw [tokensOf_cons, tokensOf_nil, List.getLast?_concat]
      rfl
  have htype : typeOperand? (tokensOf (WrittenValue.typeOf t).lexemes) = some t.text := by
    rw [typeOperand?, hoperand, Option.map_some, joinTokens_typePhrase, withoutStart_typePhrase]
  unfold evaluate
  rw [htype]

/-- **The tokens of a value have that value.** -/
theorem evaluate_value (v : WrittenValue) : evaluate (tokensOf v.lexemes) = .ok v.value := by
  cases v with
  | text s =>
      have htoken : evaluateToken s.literal.lexeme.token = .ok (some (.text s.value)) := by
        rw [evaluateToken, if_pos (by exact s.literal.isString), s.literal.denotes,
          ← s.literal_value]
        rfl
      change (evaluateToken s.literal.lexeme.token >>= _) = _
      rw [htoken]
      rfl
  | bool b => cases b <;> rfl
  | null => rfl
  | integer n => exact evaluate_integer n
  | typeOf t => exact evaluate_typeOf t

/-! ### Values in argument lists -/

/-- A token that is no operator has the text of none. -/
theorem Lexeme.text_ne_operator (l : Lexeme) (h : l.kind ≠ .operator) {text : String}
    (htext : text.toList ∈ operators) : l.text ≠ text := by
  rintro rfl
  have hlexeme := lexeme_of_stands l.stands
  have hoperator : lexeme (l.text.toList ++ []) = (some .operator, l.text.toList.length) :=
    lexeme_operator htext fun _ hx => absurd hx (Option.not_mem_none _)
  rw [hoperator] at hlexeme
  exact h (Option.some.inj (Prod.mk.inj hlexeme).1).symm

theorem TextLiteral.kind_ne_operator (l : TextLiteral) : l.lexeme.kind ≠ .operator := by
  intro h
  have hstring := l.isString
  rw [h] at hstring
  cases hstring

/-- **Tokens that an argument list is not split in**, at a depth of nesting. -/
def StaysWhole (depth : Int) (ts : List Token) : Prop :=
  ∀ current rest,
    splitArgumentsFrom depth current (ts ++ rest) = splitArgumentsFrom depth (current ++ ts) rest

section StaysWhole

variable {depth : Int} {ts us : List Token} {t : Token}

theorem StaysWhole.append (hts : StaysWhole depth ts) (hus : StaysWhole depth us) :
    StaysWhole depth (ts ++ us) := by
  intro current rest
  rw [List.append_assoc, hts, hus, List.append_assoc]

theorem splitArgumentsFrom_cons (h : ¬ (t.text = "," ∧ depth + nestingWithAngles t = 0))
    (current rest : List Token) :
    splitArgumentsFrom depth current (t :: rest) =
      splitArgumentsFrom (depth + nestingWithAngles t) (current ++ [t]) rest := by
  rw [splitArgumentsFrom]
  exact if_neg h

theorem staysWhole_token (hnesting : nestingWithAngles t = 0) (hcomma : t.text = "," → depth ≠ 0) :
    StaysWhole depth [t] := by
  intro current rest
  have hno : ¬ (t.text = "," ∧ depth + nestingWithAngles t = 0) := by
    rintro ⟨ht, hzero⟩
    rw [hnesting, Int.add_zero] at hzero
    exact hcomma ht hzero
  rw [List.singleton_append, splitArgumentsFrom_cons hno, hnesting, Int.add_zero]

/-- Brackets with tokens between them. -/
theorem staysWhole_group (opening closing : Token) (hopening : nestingWithAngles opening = 1)
    (hclosing : nestingWithAngles closing = -1) (hcomma : opening.text ≠ "," ∧ closing.text ≠ ",")
    (h : StaysWhole (depth + 1) ts) : StaysWhole depth (opening :: (ts ++ [closing])) := by
  intro current rest
  rw [List.cons_append, splitArgumentsFrom_cons fun hends => hcomma.1 hends.1, hopening,
    List.append_assoc, h, List.singleton_append,
    splitArgumentsFrom_cons fun hends => hcomma.2 hends.1, hclosing, Int.add_neg_cancel_right]
  simp only [List.append_assoc, List.cons_append, List.nil_append]

/-- A token that is no operator. -/
theorem staysWhole_lexeme {l : Lexeme} (h : l.kind ≠ .operator) : StaysWhole depth [l.token] := by
  have hne : ∀ text : String, text.toList ∈ operators → l.text ≠ text :=
    fun _ => l.text_ne_operator h
  refine staysWhole_token ?_ fun hcomma => absurd hcomma (hne "," (by decide))
  have hopening : ["(", "[", "\x7b", "<"].contains l.text = false := by
    rw [List.contains_eq_mem, decide_eq_false_iff_not]
    intro hmem
    exact hne l.text
      ((by decide : ∀ text ∈ ["(", "[", "\x7b", "<"], text.toList ∈ operators) _ hmem) rfl
  have hclosing : [")", "]", "\x7d", ">"].contains l.text = false := by
    rw [List.contains_eq_mem, decide_eq_false_iff_not]
    intro hmem
    exact hne l.text
      ((by decide : ∀ text ∈ [")", "]", "\x7d", ">"], text.toList ∈ operators) _ hmem) rfl
  rw [nestingWithAngles, Lexeme.token_text, hopening, hclosing]
  rfl

theorem staysWhole_commas (count : Nat) (hdepth : 0 < depth) :
    StaysWhole depth (tokensOf (commas count)) := by
  induction count with
  | zero =>
      exact fun current rest =>
        congrArg (splitArgumentsFrom depth · rest) (List.append_nil current).symm
  | succ count ih => exact (staysWhole_token (t := comma.token) rfl fun _ => by omega).append ih

/-- The name of a type inside brackets. -/
theorem staysWhole_typePhrase {count : TypeCount} (t : TypePhrase count) (hdepth : 0 < depth) :
    StaysWhole depth (tokensOf t.lexemes) := by
  have hword : ∀ {depth : Int} (w : Word), StaysWhole depth [w.lexeme.token] := fun w =>
    staysWhole_lexeme (l := w.lexeme) (by rintro ⟨⟩)
  induction t generalizing depth with
  | name w => exact hword w
  | generic w arguments ih =>
      rw [TypePhrase.lexemes, tokensOf_cons, tokensOf_cons, tokensOf_append]
      exact (hword w).append
        (staysWhole_group openingAngle.token closingAngle.token rfl rfl (by decide) (ih (by omega)))
  | unbound w count =>
      rw [TypePhrase.lexemes, tokensOf_cons, tokensOf_cons, tokensOf_append]
      exact (hword w).append
        (staysWhole_group openingAngle.token closingAngle.token rfl rfl (by decide)
          (staysWhole_commas count (by omega)))
  | array element count ih =>
      rw [TypePhrase.lexemes, tokensOf_append, tokensOf_cons, tokensOf_append]
      exact (ih hdepth).append
        (staysWhole_group Bracket.square.opening.token Bracket.square.closing.token rfl rfl
          (by decide) (staysWhole_commas count (by omega)))
  | nullable t ih =>
      rw [TypePhrase.lexemes, tokensOf_append]
      exact (ih hdepth).append
        (staysWhole_token (t := question.token) rfl fun h => absurd h (by decide))
  | member outer inner ihOuter ihInner =>
      rw [TypePhrase.lexemes, tokensOf_append, tokensOf_cons]
      exact (ihOuter hdepth).append
        ((staysWhole_token (t := dot.token) rfl fun h => absurd h (by decide)).append
          (ihInner hdepth))
  | more first others ihFirst ihOthers =>
      rw [TypePhrase.lexemes, tokensOf_append, tokensOf_cons]
      exact (ihFirst hdepth).append
        ((staysWhole_token (t := comma.token) rfl fun _ => by omega).append (ihOthers hdepth))

end StaysWhole

/-- **An argument list is not split in a value.** -/
theorem staysWhole_value (v : WrittenValue) : StaysWhole 0 (tokensOf v.lexemes) := by
  cases v with
  | text s => exact staysWhole_lexeme s.literal.kind_ne_operator
  | bool b => cases b <;> exact staysWhole_token rfl fun h => absurd h (by decide)
  | null => exact staysWhole_token rfl fun h => absurd h (by decide)
  | integer n =>
      have hdigits : StaysWhole 0 [n.digitsLexeme.token] := staysWhole_lexeme (by rintro ⟨⟩)
      rw [WrittenValue.lexemes, WrittenInteger.lexemes]
      cases n.negative with
      | true =>
          exact (staysWhole_token (t := minus.token) rfl fun h => absurd h (by decide)).append
            hdigits
      | false => exact hdigits
  | typeOf t =>
      rw [WrittenValue.lexemes, tokensOf_cons, tokensOf_cons, tokensOf_append]
      refine (staysWhole_lexeme (l := .word "typeof" (by decide)) (by rintro ⟨⟩)).append ?_
      exact staysWhole_group Bracket.round.opening.token Bracket.round.closing.token rfl rfl
        (by decide) (staysWhole_typePhrase t (by decide))

/-- **Tokens with balanced brackets.** -/
def IsNested (ls : List Lexeme) : Prop :=
  ∃ n : Nested, n.lexemes = ls

theorem IsNested.append {ls ls' : List Lexeme} (h : IsNested ls) (h' : IsNested ls') :
    IsNested (ls ++ ls') := by
  obtain ⟨n, rfl⟩ := h
  obtain ⟨n', rfl⟩ := h'
  exact ⟨n.append n', Nested.lexemes_append n n'⟩

theorem isNested_flat {ls : List Lexeme} (h : ∀ l ∈ ls, l.text ∉ bracketTexts) : IsNested ls :=
  ⟨.flat ls h, Nested.lexemes_flat ls h⟩

/-- Brackets with tokens between them. -/
theorem IsNested.group {ls : List Lexeme} (h : IsNested ls) (b : Bracket) :
    IsNested (b.opening :: (ls ++ [b.closing])) := by
  obtain ⟨inside, rfl⟩ := h
  exact ⟨.group b inside .nil, rfl⟩

theorem isNested_lexeme {l : Lexeme} (h : l.kind ≠ .operator) : IsNested [l] := by
  refine isNested_flat fun l' hl' hmem => ?_
  rw [List.mem_singleton.1 hl'] at hmem
  exact l.text_ne_operator h ((by decide : ∀ text ∈ bracketTexts, text.toList ∈ operators) _ hmem)
    rfl

theorem isNested_typePhrase {count : TypeCount} (t : TypePhrase count) : IsNested t.lexemes := by
  have hmark : ∀ {l : Lexeme}, l.text ∉ bracketTexts → IsNested [l] := fun h =>
    isNested_flat fun l' hl' => List.mem_singleton.1 hl' ▸ h
  have hcommas : ∀ count, IsNested (commas count) := fun count =>
    isNested_flat fun l hl => List.eq_of_mem_replicate hl ▸ (by decide)
  induction t with
  | name w => exact isNested_lexeme (by rintro ⟨⟩)
  | generic w arguments ih =>
      exact (isNested_lexeme (l := w.lexeme) (by rintro ⟨⟩)).append
        ((hmark (l := openingAngle) (by decide)).append
          (ih.append (hmark (l := closingAngle) (by decide))))
  | unbound w count =>
      exact (isNested_lexeme (l := w.lexeme) (by rintro ⟨⟩)).append
        ((hmark (l := openingAngle) (by decide)).append
          ((hcommas count).append (hmark (l := closingAngle) (by decide))))
  | array element count ih => exact ih.append ((hcommas count).group .square)
  | nullable t ih => exact ih.append (hmark (l := question) (by decide))
  | member outer inner ihOuter ihInner =>
      exact ihOuter.append ((hmark (l := dot) (by decide)).append ihInner)
  | more first others ihFirst ihOthers =>
      exact ihFirst.append ((hmark (l := comma) (by decide)).append ihOthers)

/-- **The brackets of a value are balanced.** -/
theorem isNested_value (v : WrittenValue) : IsNested v.lexemes := by
  cases v with
  | text s => exact isNested_lexeme s.literal.kind_ne_operator
  | bool b => cases b <;> exact isNested_lexeme (by rintro ⟨⟩)
  | null => exact isNested_lexeme (by rintro ⟨⟩)
  | integer n =>
      have hdigits : IsNested [n.digitsLexeme] := isNested_lexeme (by rintro ⟨⟩)
      have hminus : IsNested [minus] :=
        isNested_flat fun l hl => List.mem_singleton.1 hl ▸ (by decide)
      rw [WrittenValue.lexemes, WrittenInteger.lexemes]
      cases n.negative with
      | true => exact hminus.append hdigits
      | false => exact hdigits
  | typeOf t =>
      exact (isNested_lexeme (l := .word "typeof" (by decide)) (by rintro ⟨⟩)).append
        ((isNested_typePhrase t).group .round)

end LocalisedEnum

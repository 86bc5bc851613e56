import LocalisedEnum.Proofs.Declaration.AttributeSection

/-!
**The parts of declarations read back.**

An enum, a property, a method, a constant and the header of a type each have a reader of their own.
It is followed here through the tokens of the tree: it comes out behind them, with what the tree
declares.  The bodies, initialisers and parameters on the way are balanced, and are passed over as a
whole.

Main definitions:

* `PropertySyntax.header`, `MethodSyntax.header` — what stands in front of the body of a member;
* `ConstantSyntax.declarator` — what stands in front of the semicolon of a constant.

Main results:

* `readEnumBody_tokens` — an enum, with its members in order;
* `readMember_property`, `readMember_method` — a property, and a method that is passed over;
* `readConstants_tokens` — a constant with its text;
* `readTypeHeader_tokens` — the header of a type.
-/

set_option autoImplicit false
set_option relaxedAutoImplicit false

namespace LocalisedEnum

/-! ### Enums -/

theorem skipInitialiser_stop {stop : Token} (h : stop.text ∈ initialiserEnds) (rest : List Token) :
    skipInitialiser 0 (stop :: rest) = some (stop :: rest) := by
  rw [skipInitialiser, if_pos]
  exact ⟨rfl, by simpa [initialiserEnds] using h⟩

/-- The initialiser of a member is passed over up to what ends it. -/
theorem skipInitialiser_tokens (initialiser : Option Initialiser) {stop : Token}
    (h : stop.text ∈ initialiserEnds) (rest : List Token) :
    skipInitialiser 0 (tokensOf (initialiser.toList.flatMap fun i => equals :: i.value.lexemes) ++
      stop :: rest) = some (stop :: rest) := by
  cases initialiser with
  | none => exact skipInitialiser_stop h rest
  | some i =>
      have hequals : (0 : Int) ≤ 0 → equals.token.text ∉ initialiserEnds := by decide
      have hnesting : (0 : Int) + roundNesting equals.token = 0 := by decide
      simp only [Option.toList_some, List.flatMap_cons, List.flatMap_nil, List.append_nil,
        tokensOf_cons, List.cons_append]
      rw [skipInitialiser_cons hequals, hnesting, ← Nested.tokens,
        skipInitialiser_nested i.inside, skipInitialiser_stop h]

theorem readEnumMember_tokens (path enumName : String) (start : Token) (m : EnumMember)
    {stop : Token} (h : stop.text ∈ initialiserEnds) (rest : List Token) :
    readEnumMember path enumName start (tokensOf m.lexemes ++ stop :: rest) =
      .ok (m.name.text, skip "," (stop :: rest)) := by
  have hname : headIs "[" (m.name.lexeme.token :: (tokensOf (m.initialiser.toList.flatMap fun i =>
      equals :: i.value.lexemes) ++ stop :: rest)) = false :=
    beq_eq_false_iff_ne.2 (m.name.text_ne (by decide))
  obtain ⟨items, hitems⟩ := readSections_tokens path m.sections hname
  have hkind : m.name.lexeme.token.kind = .identifier := rfl
  rw [EnumMember.lexemes, tokensOf_append, tokensOf_cons, List.append_assoc, List.cons_append,
    readEnumMember, hitems]
  simp only [bind, Except.bind, nextToken, hkind, if_true, skipInitialiser_tokens m.initialiser h,
    plain_word]
  rfl

theorem headIs_member (m : EnumMember) (rest : List Token) :
    headIs closingBrace (tokensOf m.lexemes ++ rest) = false := by
  obtain ⟨sections, name, initialiser⟩ := m
  cases sections with
  | nil => exact beq_eq_false_iff_ne.2 (name.text_ne (by decide))
  | cons s sections => rfl

theorem readEnumMembers_cons {path enumName : String} {start stop : Token} {m : EnumMember}
    {rest final : List Token} {names : List String} (h : stop.text ∈ initialiserEnds)
    (hrest : readEnumMembers path enumName start (skip "," (stop :: rest)) = .ok (names, final)) :
    readEnumMembers path enumName start (tokensOf m.lexemes ++ stop :: rest) =
      .ok (m.name.text :: names, final) := by
  rw [readEnumMembers_eq, headIs_member, readEnumMember_tokens path enumName start m h]
  simp only [bind, Except.bind, hrest]
  rfl

theorem readEnumMembers_end (path enumName : String) (start : Token) (rest : List Token) :
    readEnumMembers path enumName start (Bracket.curly.closing.token :: rest) = .ok ([], rest) := by
  rw [readEnumMembers_eq]
  rfl

/-- **The members of an enum** are read up to the closing brace, in order. -/
theorem readEnumMembers_tokens (path enumName : String) (start : Token) (trailingComma : Bool)
    (members : List EnumMember) (rest : List Token) :
    readEnumMembers path enumName start (tokensOf (memberLexemes trailingComma members) ++
      Bracket.curly.closing.token :: rest) = .ok (members.map (·.name.text), rest) := by
  have hcomma : comma.token.text ∈ initialiserEnds := by decide
  have hbrace : Bracket.curly.closing.token.text ∈ initialiserEnds := by decide
  have hend := readEnumMembers_end path enumName start rest
  -- the last member may have a comma behind it as well, so it is a case of its own
  induction members with
  | nil => exact hend
  | cons m members ih =>
      cases members with
      | nil =>
          cases trailingComma with
          | true =>
              have hskip : skip "," (comma.token :: Bracket.curly.closing.token :: rest) =
                  Bracket.curly.closing.token :: rest := rfl
              rw [memberLexemes, if_pos rfl, tokensOf_append, List.append_assoc]
              exact readEnumMembers_cons hcomma (hskip ▸ hend)
          | false =>
              have hskip : skip "," (Bracket.curly.closing.token :: rest) =
                  Bracket.curly.closing.token :: rest := rfl
              rw [memberLexemes, if_neg Bool.false_ne_true, List.append_nil]
              exact readEnumMembers_cons hbrace (hskip ▸ hend)
      | cons next members =>
          have hskip : ∀ ts, skip "," (comma.token :: ts) = ts := fun _ => rfl
          rw [memberLexemes, tokensOf_append, tokensOf_cons, List.append_assoc, List.cons_append]
          exact readEnumMembers_cons hcomma ((hskip _).symm ▸ ih)

theorem dropWhile_underlying (underlying : Option UnderlyingType) (rest : List Token) :
    (tokensOf (underlying.toList.flatMap fun u => colon :: u.lexemes) ++
      Bracket.curly.opening.token :: rest).dropWhile (·.text != openingBrace) =
        Bracket.curly.opening.token :: rest := by
  rw [List.dropWhile_append_of_pos]
  · rfl
  · intro t ht
    cases underlying with
    | none => cases ht
    | some u =>
        simp only [Option.toList_some, List.flatMap_cons, List.flatMap_nil, List.append_nil,
          tokensOf_cons, List.mem_cons] at ht
        rcases ht with rfl | ht
        · decide
        · obtain ⟨l, hl, rfl⟩ := List.mem_map.1 ht
          simpa using u.plain l hl

/-- The tokens of an enum behind its keyword. -/
def EnumSyntax.bodyTokens (e : EnumSyntax) (rest : List Token) : List Token :=
  e.name.lexeme.token :: (tokensOf (e.underlying.toList.flatMap fun u => colon :: u.lexemes) ++
    Bracket.curly.opening.token :: (tokensOf (memberLexemes e.trailingComma e.members) ++
      Bracket.curly.closing.token :: rest))

/-- **An enum** is read up to its closing brace. -/
theorem readEnumBody_tokens (path : String) (start : Token) (e : EnumSyntax) (rest : List Token) :
    readEnumBody path start (e.bodyTokens rest) =
      .ok (e.name.text, e.members.map (·.name.text), rest) := by
  simp only [readEnumBody, EnumSyntax.bodyTokens, nextToken, bind, Except.bind,
    dropWhile_underlying, plain_word, readEnumMembers_tokens]
  rfl

/-! ### Properties -/

/-- A word that is no bracket neither ends the header of a member nor counts in it. -/
theorem memberHeader_word (w : Word) (ts : List Token) :
    memberHeader 0 (w.lexeme.token :: ts) =
      (memberHeader 0 ts).map fun p => (w.lexeme.token :: p.1, p.2) := by
  have hends : ∀ text ∈ headerEnds, isIdentifier text = false := by decide
  have hbrackets : ∀ text ∈ bracketTexts, isIdentifier text = false := by decide
  have hno : (0 : Int) ≤ 0 → w.lexeme.token.text ∉ headerEnds :=
    fun _ hmem => w.text_ne (hends _ hmem) rfl
  have hnesting : roundNesting w.lexeme.token = 0 :=
    roundNesting_leaf fun hmem => w.text_ne (hbrackets _ hmem) rfl
  rw [memberHeader_cons hno, hnesting, Int.add_zero]

theorem memberHeader_stop {stop : Token} (h : stop.text ∈ headerEnds) (rest : List Token) :
    memberHeader 0 (stop :: rest) = some ([], stop, rest) := by
  rw [memberHeader, if_pos]
  exact ⟨rfl, by simpa [headerEnds, endsMemberHeader] using h⟩

/-- The header of a property: its type and its name. -/
def PropertySyntax.header (p : PropertySyntax) : List Token :=
  tokensOf p.type.lexemes ++ [p.name.lexeme.token]

theorem memberHeader_property (p : PropertySyntax) {stop : Token} (h : stop.text ∈ headerEnds)
    (rest : List Token) :
    memberHeader 0 (tokensOf p.type.lexemes ++ p.name.lexeme.token :: stop :: rest) =
      some (p.header, stop, rest) := by
  have hsub : ∀ text ∈ headerEnds, text ∈ noTypeTexts := by decide
  have hplain : ∀ text ∈ headerEnds, text ∉ p.type.suffix.top := by
    intro text htext hmem
    obtain ⟨t, ht, rfl⟩ := Nested.exists_of_mem_top hmem
    exact p.type.plain t ht (hsub _ htext)
  rw [PropertyType.lexemes, tokensOf_cons, List.cons_append, memberHeader_word, ← Nested.tokens,
    memberHeader_nested hplain, memberHeader_word, memberHeader_stop h]
  rfl

/-- The texts that a property must not have in its header. -/
def noPropertyTexts : List String := ["(", "=", "event"]

theorem header_plain (p : PropertySyntax) (text : String) (h : text ∈ noPropertyTexts) :
    p.header.any (·.text == text) = false := by
  have htype : ∀ text ∈ noPropertyTexts, text ∈ noTypeTexts := by decide
  have hword : ∀ text ∈ noPropertyTexts, isIdentifier text = false ∨ text ∈ noTypeWords := by decide
  have hname : ∀ text ∈ noPropertyTexts, isIdentifier text = false ∨ text ∈ declarationWords := by
    decide
  rw [List.any_eq_false]
  intro t ht
  simp only [beq_iff_eq]
  rintro rfl
  rw [PropertySyntax.header, PropertyType.lexemes, tokensOf_cons, List.cons_append, List.mem_cons,
    List.mem_append, List.mem_singleton] at ht
  -- the head of the type, the rest of the type, the name of the property
  rcases ht with rfl | ht | rfl
  · rcases hword _ h with h | h
    · exact p.type.head.text_ne h rfl
    · exact p.type.head_ordinary h
  · obtain ⟨l, hl, rfl⟩ := List.mem_map.1 ht
    exact p.type.plain l hl (htype _ h)
  · rcases hname _ h with h | h
    · exact p.name.text_ne h rfl
    · exact p.name.ordinary h

/-- The last token of the type of a property is no mark between the parts of a name. -/
theorem exists_last_type (t : PropertyType) :
    ∃ last more, (tokensOf t.lexemes).reverse = last :: more ∧ isNameMark last = false := by
  have hmarks : ∀ text ∈ [".", "::"], isIdentifier text = false := by decide
  have hhead : isNameMark t.head.lexeme.token = false := by
    have hpoint := t.head.text_ne (hmarks "." (by decide))
    have hcolons := t.head.text_ne (hmarks "::" (by decide))
    simp [isNameMark, hpoint, hcolons]
  cases hlast : t.suffix.lexemes.getLast? with
  | none =>
      refine ⟨t.head.lexeme.token, [], ?_, hhead⟩
      rw [PropertyType.lexemes, List.getLast?_eq_none_iff.1 hlast]
      rfl
  | some last =>
      obtain ⟨front, hfront⟩ := List.getLast?_eq_some_iff.1 hlast
      refine ⟨last.token, (tokensOf (t.head.lexeme :: front)).reverse, ?_, ?_⟩
      · rw [PropertyType.lexemes, hfront]
        simp
      · have h := t.complete last hlast
        simp [isNameMark, h]

theorem propertyOf_header (p : PropertySyntax) :
    propertyOf p.header (p.modifiers.map (·.text)) = some p.declaration := by
  obtain ⟨last, more, hreverse, hmark⟩ := exists_last_type p.type
  have hheader : p.header.reverse = p.name.lexeme.token :: last :: more := by
    rw [PropertySyntax.header, List.reverse_append, hreverse]
    rfl
  have hkind : p.name.lexeme.token.kind = .identifier := rfl
  have htype : p.header.dropLast = tokensOf p.type.lexemes := by
    rw [PropertySyntax.header, List.dropLast_concat]
  simp only [propertyOf, hheader, hkind, header_plain p "(" (by decide),
    header_plain p "=" (by decide), header_plain p "event" (by decide), hmark,
    htype, plain_word]
  rfl

/-- **A property** is read with its body. -/
theorem readMember_property (p : PropertySyntax) {rest : List Token} (h : headIs "=" rest = false) :
    readMember (p.modifiers.map (·.text))
      (tokensOf p.type.lexemes ++ p.name.lexeme.token :: (tokensOf p.body.lexemes ++ rest)) =
      .ok (some p.declaration, rest) := by
  cases hbody : p.body with
  | accessors inside =>
      have hgroup := takeGroup_nested .curly inside rest
      have hstop : Bracket.curly.opening.token.text ∈ headerEnds := by decide
      have hopening : Bracket.curly.opening.token.text = openingBrace := rfl
      have hskip : skipAfterBraces p.header true rest = .ok rest := by
        rw [skipAfterBraces, header_plain p "=" (by decide), h]
        rfl
      simp only [PropertyBody.lexemes, tokensOf_cons, tokensOf_append, tokensOf_nil,
        List.cons_append, List.append_assoc, List.nil_append]
      rw [readMember, memberHeader_property p hstop, ← Nested.tokens]
      simp only [propertyOf_header]
      rw [if_neg (by decide), if_neg (by decide), if_pos hopening]
      simp only [Bracket.openingText, Bracket.closingText] at hgroup
      simp only [hgroup, bind, Except.bind, Option.isSome_some, hskip]
      rfl
  | expression value hvalue =>
      have hstop : (Lexeme.operator "=>" (by decide)).token.text ∈ headerEnds := by decide
      have hsemicolon : semicolon.token.text = ";" := rfl
      have hstatement := takeStatement_nested hvalue hsemicolon rest
      simp only [PropertyBody.lexemes, tokensOf_cons, tokensOf_append, tokensOf_nil,
        List.cons_append, List.append_assoc, List.nil_append]
      rw [readMember, memberHeader_property p hstop, ← Nested.tokens]
      simp only [propertyOf_header]
      rw [if_neg (by decide), if_neg (by decide), if_neg (by decide)]
      simp only [hstatement, bind, Except.bind]
      rfl

/-! ### Methods -/

/-- The header of a method, up to its body. -/
def MethodSyntax.header (m : MethodSyntax) : List Token :=
  m.head.lexeme.token :: m.suffix.tokens

theorem memberHeader_method (m : MethodSyntax) {stop : Token} (h : stop.text ∈ headerEnds)
    (rest : List Token) :
    memberHeader 0 (m.header ++ stop :: rest) = some (m.header, stop, rest) := by
  rw [MethodSyntax.header, List.cons_append, memberHeader_word,
    memberHeader_nested m.open_ended, memberHeader_stop h]
  simp

/-- What has parameters is no property. -/
theorem propertyOf_method (m : MethodSyntax) (modifiers : List String) :
    propertyOf m.header modifiers = none := by
  have hround : m.header.any (·.text == "(") = true := by
    obtain ⟨t, ht, htext⟩ := Nested.exists_of_mem_top m.parameters
    rw [List.any_eq_true]
    exact ⟨t.token, List.mem_cons_of_mem _ (List.mem_map_of_mem ht), by simp [htext]⟩
  rw [propertyOf.eq_def]
  split
  · simp [hround]
  · rfl

/-- **A method** is passed over with its body. -/
theorem readMember_method (m : MethodSyntax) (modifiers : List String) (rest : List Token) :
    readMember modifiers (m.header ++ Bracket.curly.opening.token ::
      (m.body.tokens ++ Bracket.curly.closing.token :: rest)) = .ok (none, rest) := by
  have hgroup := takeGroup_nested .curly m.body rest
  have hstop : Bracket.curly.opening.token.text ∈ headerEnds := by decide
  have hopening : Bracket.curly.opening.token.text = openingBrace := rfl
  have hequals : m.header.any (·.text == "=") = false := by
    rw [List.any_eq_false]
    intro t ht
    rw [beq_iff_eq]
    rcases List.mem_cons.1 ht with rfl | ht
    · exact m.head.text_ne (by decide)
    · obtain ⟨l, hl, rfl⟩ := List.mem_map.1 ht
      exact m.noDefaults l hl
  have hskip : skipAfterBraces m.header false rest = .ok rest := by
    rw [skipAfterBraces, hequals]
    rfl
  rw [readMember, memberHeader_method m hstop]
  simp only [propertyOf_method]
  rw [if_neg (by decide), if_neg (by decide), if_pos hopening]
  simp only [Bracket.openingText, Bracket.closingText] at hgroup
  simp only [hgroup, bind, Except.bind, Option.isSome_none, hskip]
  rfl

/-! ### Constants -/

/-- Every string literal has a quote in it. -/
theorem quote_mem_of_stands {kind : TokenKind} {cs rest : List Char} (h : Stands kind cs rest)
    (hkind : kind.isStringLiteral = true) : '"' ∈ cs := by
  cases h with
  | @string lead body _ hlead _ _ => simp
  | @verbatim lead body _ hlead _ _ => simp
  | @raw dollars count body _ hcount _ =>
      have hcount : count ≠ 0 := by omega
      simp [quotes, List.mem_replicate, hcount]
  | _ => cases hkind

/-- The marks that mean something in a declaration of constants. -/
def constantMarks : List String :=
  ";" :: "," :: "=" :: "<" :: ">" :: bracketTexts

/-- A string literal is none of the marks. -/
theorem TextLiteral.text_not_mem (l : TextLiteral) : l.lexeme.text ∉ constantMarks := by
  have hquote := quote_mem_of_stands l.lexeme.stands l.isString
  have hmarks : ∀ mark ∈ constantMarks, '"' ∉ mark.toList := by decide
  exact fun hmem => hmarks _ hmem hquote

theorem Word.text_not_mem (w : Word) : w.text ∉ constantMarks := by
  have hmarks : ∀ mark ∈ constantMarks, isIdentifier mark = false := by decide
  exact fun hmem => w.text_ne (hmarks _ hmem) rfl

/-- The declarator of a constant, in which there are no brackets. -/
def ConstantSyntax.declarator (k : ConstantSyntax) : Nested :=
  have hsub : ∀ mark ∈ bracketTexts, mark ∈ constantMarks := by decide
  .leaf (.word "string" isIdentifier_string) (by decide)
    (.leaf k.name.lexeme (fun h => k.name.text_not_mem (hsub _ h))
      (.leaf equals (by decide)
        (.leaf k.literal.lexeme (fun h => k.literal.text_not_mem (hsub _ h)) .nil)))

theorem declarator_tokens (k : ConstantSyntax) :
    k.declarator.tokens = [(Lexeme.word "string" (by decide)).token, k.name.lexeme.token,
      equals.token, k.literal.lexeme.token] := rfl

theorem evaluate_literal (l : TextLiteral) : evaluate [l.lexeme.token] = .ok (.text l.value) := by
  have hoperand : ∀ operator, operand? operator [l.lexeme.token] = none := fun _ => rfl
  have htoken : evaluateToken l.lexeme.token = .ok (some (.text l.value)) := by
    rw [evaluateToken, Lexeme.token_kind, if_pos l.isString, l.denotes]
    rfl
  unfold evaluate
  simp only [typeOperand?, nameOperand?, hoperand, Option.map_none, Option.bind_eq_bind,
    Option.bind_none, htoken]
  rfl

/-- Tokens without commas and brackets belong to one argument, whatever stands behind them. -/
theorem splitArgumentsFrom_append {ts : List Token} (h : ∀ t ∈ ts, t.text ∉ constantMarks.erase "=")
    (current rest : List Token) :
    splitArgumentsFrom 0 current (ts ++ rest) = splitArgumentsFrom 0 (current ++ ts) rest := by
  induction ts generalizing current with
  | nil => rw [List.nil_append, List.append_nil]
  | cons t ts ih =>
      have ht : t.text ∉ [";", ",", "<", ">", "(", ")", "[", "]", openingBrace, closingBrace] :=
        h t List.mem_cons_self
      simp only [List.mem_cons, List.not_mem_nil, or_false, not_or, openingBrace,
        closingBrace] at ht
      have hnesting : nestingWithAngles t = 0 := by simp [nestingWithAngles, ht]
      have hcomma : ¬(t.text = "," ∧ (0 : Int) + 0 = 0) := by simp [ht]
      simp only [List.cons_append, splitArgumentsFrom, hnesting, if_neg hcomma]
      rw [Int.add_zero, ih (fun u hu => h u (List.mem_cons_of_mem _ hu)), List.append_assoc]
      rfl

/-- Tokens without commas and brackets are one argument. -/
theorem splitArgumentsFrom_flat {ts : List Token} (h : ∀ t ∈ ts, t.text ∉ constantMarks.erase "=")
    {current : List Token} (hne : current ++ ts ≠ []) :
    splitArgumentsFrom 0 current ts = [current ++ ts] := by
  rw [← List.append_nil ts, splitArgumentsFrom_append h, List.append_nil]
  simp [splitArgumentsFrom, hne]

/-- A declarator whose initialiser is a text introduces a constant. -/
theorem constantOf_text {type name sign : Token} {initialiser : List Token} {value : CodeText}
    (htype : type.text ≠ "=") (hname : name.text ≠ "=") (hsign : sign.text = "=")
    (hvalue : evaluate initialiser = .ok (.text value)) :
    constantOf (type :: name :: sign :: initialiser) = .ok (some (name.plain, value)) := by
  simp [constantOf, htype, hname, hsign, hvalue]
  rfl

theorem constantsOf_declarator (k : ConstantSyntax) :
    constantsOf (splitArguments k.declarator.tokens) = .ok [(k.name.text, k.literal.value)] := by
  have hflat : ∀ mark ∈ constantMarks.erase "=", mark ∈ constantMarks := by decide
  have hsplit : splitArguments k.declarator.tokens = [k.declarator.tokens] := by
    rw [declarator_tokens]
    refine splitArgumentsFrom_flat ?_ (List.cons_ne_nil _ _)
    intro t ht
    simp only [List.mem_cons, List.not_mem_nil, or_false] at ht
    rcases ht with rfl | rfl | rfl | rfl
    · decide
    · exact fun h => k.name.text_not_mem (hflat _ h)
    · decide
    · exact fun h => k.literal.text_not_mem (hflat _ h)
  have hname : k.name.text ≠ "=" := fun h => k.name.text_not_mem (h ▸ by decide)
  have hconstant : constantOf k.declarator.tokens = .ok (some (k.name.text, k.literal.value)) := by
    rw [declarator_tokens, constantOf_text (show "string" ≠ "=" by decide) hname rfl
      (evaluate_literal k.literal), plain_word]
  rw [hsplit, constantsOf, List.mapM_cons, hconstant]
  rfl

/-- **A constant** is read up to its semicolon. -/
theorem readConstants_tokens (k : ConstantSyntax) (rest : List Token) :
    readConstants (k.declarator.tokens ++ semicolon.token :: rest) =
      .ok ([(k.name.text, k.literal.value)], rest) := by
  have htop : ";" ∉ k.declarator.top := by
    intro hmem
    obtain ⟨t, ht, htext⟩ := Nested.exists_of_mem_top hmem
    simp only [ConstantSyntax.declarator, Nested.lexemes, List.mem_cons, List.not_mem_nil,
      or_false] at ht
    rcases ht with rfl | rfl | rfl | rfl
    · exact absurd htext (by decide)
    · exact k.name.text_not_mem (htext.symm ▸ by decide : k.name.lexeme.text ∈ constantMarks)
    · exact absurd htext (by decide)
    · exact k.literal.text_not_mem (htext.symm ▸ by decide : k.literal.lexeme.text ∈ constantMarks)
  rw [readConstants, takeStatement_nested htop rfl]
  simp only [bind, Except.bind, constantsOf_declarator, orEscapeFault]
  rfl

/-! ### Headers of types -/

/-- The bases of a type are passed over up to the brace behind them. -/
theorem headerEnd_bases (bases : Option BaseTypes) (rest : List Token) :
    headerEnd 0 (tokensOf (bases.toList.flatMap fun b => colon :: b.lexemes) ++
      Bracket.curly.opening.token :: rest) = some (Bracket.curly.opening.token, rest) := by
  have hplain : ∀ ls : List Lexeme, (∀ t ∈ ls, t.text ∉ noBaseTexts) →
      headerEnd 0 (tokensOf ls ++ Bracket.curly.opening.token :: rest) =
        some (Bracket.curly.opening.token, rest) := by
    intro ls hls
    induction ls with
    | nil =>
        have hbrace : Bracket.curly.opening.token.text = openingBrace := rfl
        rw [tokensOf_nil, List.nil_append, headerEnd, if_pos ⟨rfl, Or.inl hbrace⟩]
    | cons t ls ih =>
        have ht := hls t List.mem_cons_self
        simp only [noBaseTexts, List.mem_cons, List.not_mem_nil, or_false, not_or] at ht
        have hnesting : headerNesting t.token = 0 := by simp [headerNesting, ht]
        rw [tokensOf_cons, List.cons_append, headerEnd, if_neg (by simp [ht]), hnesting,
          Int.add_zero, ih fun u hu => hls u (List.mem_cons_of_mem _ hu)]
  refine hplain _ ?_
  cases bases with
  | none =>
      intro t ht
      cases ht
  | some b =>
      intro t ht
      simp only [Option.toList_some, List.flatMap_cons, List.flatMap_nil, List.append_nil,
        List.mem_cons] at ht
      rcases ht with rfl | ht
      · decide
      · exact b.plain t ht

/-- The tokens behind the keyword of a type, up to its body. -/
def TypeSyntax.headerTokens (t : TypeSyntax) (rest : List Token) : List Token :=
  t.name.lexeme.token :: (tokensOf (t.bases.toList.flatMap fun b => colon :: b.lexemes) ++
    Bracket.curly.opening.token :: rest)

/-- **The header of a type** is read up to the brace that opens its body. -/
theorem readTypeHeader_tokens (t : TypeSyntax) (start : Token) (rest : List Token) :
    ∃ more, tokensOf t.keyword.lexemes =
        (Lexeme.word t.keyword.kind (by cases t.keyword <;> decide)).token :: more ∧
      readTypeHeader t.keyword.kind start (more ++ t.headerTokens rest) =
        .ok (⟨t.name.text, true⟩, rest) := by
  have hclass : t.name.text ≠ "class" := fun h => t.name.ordinary (h ▸ by decide)
  have hstruct : t.name.text ≠ "struct" := fun h => t.name.ordinary (h ▸ by decide)
  have hname : skipRecordKind t.keyword.kind (t.headerTokens rest) = t.headerTokens rest := by
    simp [skipRecordKind, TypeSyntax.headerTokens, headIs_cons, hclass, hstruct]
  have hread : ∀ ts, skipRecordKind t.keyword.kind ts = t.headerTokens rest →
      readTypeHeader t.keyword.kind start ts = .ok (⟨t.name.text, true⟩, rest) := by
    intro ts hts
    rw [readTypeHeader, hts, TypeSyntax.headerTokens]
    simp only [nextToken, bind, Except.bind, headerEnd_bases, plain_word]
    rfl
  -- only behind `record` a second keyword is passed over
  obtain ⟨sections, modifiers, keyword, name, bases⟩ := t
  cases keyword with
  | recordClass => exact ⟨[(Lexeme.word "class" (by decide)).token], rfl, hread _ rfl⟩
  | recordStruct => exact ⟨[(Lexeme.word "struct" (by decide)).token], rfl, hread _ rfl⟩
  | _ => exact ⟨[], rfl, hread _ hname⟩

end LocalisedEnum

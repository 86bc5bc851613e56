import LocalisedEnum.Proofs.Declaration.Member
import LocalisedEnum.Proofs.Declaration.Unplaced

/-!
**Reading inverts printing.**

The tokens of a tree are read back as the file that the tree declares, whatever the white space
between them.  Each declaration is one step of the walk, so the walk over a body comes out behind it
with the declarations of the body added to the scope; a namespace or a type opens a scope of its own
and hands it over at its closing brace, and what a scope imports does not outlive it.

Main definitions:

* `Scope.surroundings` — what a scope knows of the scopes around it;
* `Scope.withBody`, `Scope.withDeclarations` — a scope behind the declarations of a tree.

Main results:

* `run_enum`, `run_typeHeader`, `run_property`, `run_constant`, … — one step of the walk for each
  shape;
* `run_typeBody`, `run_declarations` — **the walk over a tree**;
* `readSource_write` — **reading inverts printing**.
-/

set_option autoImplicit false
set_option relaxedAutoImplicit false

namespace LocalisedEnum

/-! ### Steps of the walk -/

theorem readModifiers_tokens (modifiers : List Modifier) {head : Token}
    (h : head.text ∉ modifierWords) (rest : List Token) :
    readModifiers (tokensOf (modifiers.map Modifier.lexeme) ++ head :: rest) =
      (modifiers.map (·.text), head :: rest) := by
  have hall : ∀ t ∈ tokensOf (modifiers.map Modifier.lexeme), isModifier t = true := by
    intro t ht
    obtain ⟨l, hl, rfl⟩ := List.mem_map.1 ht
    obtain ⟨m, _, rfl⟩ := List.mem_map.1 hl
    simpa [isModifier] using m.isModifier
  have hhead : isModifier head = false := by simpa [isModifier] using h
  have htexts : (tokensOf (modifiers.map Modifier.lexeme)).map Token.text =
      modifiers.map (·.text) := by
    rw [tokensOf, List.map_map, List.map_map]
    rfl
  rw [readModifiers, List.takeWhile_append_of_pos hall, List.dropWhile_append_of_pos hall,
    List.takeWhile_cons_of_neg (by simp [hhead]), List.dropWhile_cons_of_neg (by simp [hhead]),
    List.append_nil, htexts]

/-- The texts with which no declaration begins. -/
def noDeclarationTexts : List String := "[" :: ";" :: closingBrace :: modifierWords

/-- A token that stands at no place. -/
def Token.Unplaced (t : Token) : Prop :=
  t.line = 0 ∧ t.column = 0

/-- A declaration is one step of the walk: its attributes, its modifiers, and what follows them. -/
theorem run_declaration {path : String} (w : Walk) {first : Token} {more : List Token}
    {attributes : List Attribute} {modifiers : List Modifier} {head : Lexeme} {rest : List Token}
    (hfirst : first.text ∉ [";", closingBrace]) (hhead : head.text ∉ modifierWords)
    (hsections : readSections path (first :: more) =
      .ok (attributes, tokensOf (modifiers.map Modifier.lexeme) ++ head.token :: rest)) :
    Walk.run path w (first :: more) =
      (w.declareHead path first attributes (modifiers.map (·.text)) head.token rest >>= fun p =>
        Walk.run path p.1 p.2) := by
  have hmodifiers :=
    readModifiers_tokens modifiers (show head.token.text ∉ modifierWords from hhead)
  simp only [List.mem_cons, List.not_mem_nil, or_false, not_or] at hfirst
  rw [Walk.run_cons, if_neg hfirst.2, if_neg hfirst.1, Walk.declare, hsections]
  simp only [bind, Except.bind, hmodifiers]

/-- What begins with modifiers or with a word does not begin with a mark. -/
theorem head_modifiers (modifiers : List Modifier) {head : Lexeme}
    (h : head.text ∉ noDeclarationTexts) (rest : List Token) :
    ∃ (first : Lexeme) (more : List Token),
      tokensOf (modifiers.map Modifier.lexeme) ++ head.token :: rest = first.token :: more ∧
        first.text ∉ ["[", ";", closingBrace] := by
  have hnone : ∀ text ∈ modifierWords, text ∉ ["[", ";", closingBrace] := by decide
  cases modifiers with
  | nil =>
      refine ⟨head, rest, rfl, fun hmem => h ?_⟩
      exact List.mem_append_left modifierWords hmem
  | cons m modifiers => exact ⟨m.lexeme, _, rfl, hnone _ m.isModifier⟩

/-- A declaration without attributes is one step of the walk. -/
theorem run_head (path : String) (w : Walk) (modifiers : List Modifier) (head : Lexeme)
    (h : head.text ∉ noDeclarationTexts) (rest : List Token) :
    ∃ start : Token, start.Unplaced ∧
      Walk.run path w (tokensOf (modifiers.map Modifier.lexeme) ++ head.token :: rest) =
        (w.declareHead path start [] (modifiers.map (·.text)) head.token rest >>= fun p =>
          Walk.run path p.1 p.2) := by
  obtain ⟨first, more, hfirst, htext⟩ := head_modifiers modifiers h rest
  have hsquare : first.text ≠ "[" := fun heq => htext (List.mem_cons.2 (Or.inl heq))
  refine ⟨first.token, ⟨rfl, rfl⟩, ?_⟩
  rw [hfirst]
  refine run_declaration w (fun hmem => htext (List.mem_cons_of_mem _ hmem))
    (fun hmem => h (List.mem_append_right ["[", ";", closingBrace] hmem)) ?_
  rw [hfirst, readSections_eq, headIs_cons, Lexeme.token_text, beq_eq_false_iff_ne.2 hsquare]
  rfl

/-- A declaration with attributes is one step of the walk. -/
theorem run_sections (path : String) (w : Walk) (sections : List SectionSyntax)
    (modifiers : List Modifier) (head : Lexeme) (h : head.text ∉ noDeclarationTexts)
    (rest : List Token) :
    ∃ (start : Token) (attributes : List Attribute), start.Unplaced ∧
      Walk.run path w (tokensOf (sections.flatMap SectionSyntax.lexemes) ++
          (tokensOf (modifiers.map Modifier.lexeme) ++ head.token :: rest)) =
        (w.declareHead path start attributes (modifiers.map (·.text)) head.token rest >>= fun p =>
          Walk.run path p.1 p.2) := by
  cases sections with
  | nil =>
      obtain ⟨start, hstart, hrun⟩ := run_head path w modifiers head h rest
      exact ⟨start, [], hstart, hrun⟩
  | cons s sections =>
      obtain ⟨first, more, hfirst, htext⟩ := head_modifiers modifiers h rest
      have hsquare : headIs "[" (tokensOf (modifiers.map Modifier.lexeme) ++ head.token :: rest) =
          false := by
        rw [hfirst, headIs_cons, Lexeme.token_text, beq_eq_false_iff_ne]
        exact fun heq => htext (List.mem_cons.2 (Or.inl heq))
      obtain ⟨attributes, hsections⟩ := readSections_tokens path (s :: sections) hsquare
      refine ⟨Bracket.square.opening.token, attributes, ⟨rfl, rfl⟩, ?_⟩
      exact run_declaration w (by decide)
        (fun hmem => h (List.mem_append_right ["[", ";", closingBrace] hmem)) hsections

/-- What a scope knows of the scopes around it. -/
def Scope.surroundings (s : Scope) (path : String) : Surroundings :=
  ⟨path, s.namespaceName, s.containingTypes, s.usings⟩

theorem location_of_unplaced {t : Token} (h : t.Unplaced) (path : String) :
    t.location path = ⟨path, 0, 0⟩ := by
  rw [Token.location, h.1, h.2]

/-- A head that means nothing at the level of namespaces. -/
theorem declareHead_plain (w : Walk) (path : String) (start head : Token)
    (attributes : List Attribute) (modifiers : List String) (rest : List Token)
    (h : head.text ∉ ["global", "using", "namespace"]) :
    w.declareHead path start attributes modifiers head rest =
      (if head.text == "enum" then w.declareEnum path start attributes modifiers rest
      else if typeKeywords.contains head.text then
        w.declareType path head.text start modifiers rest
      else if head.text == "delegate" then do
        let (_, rest) ← takeStatement rest
        return (w, rest)
      else if modifiers.contains "const" then w.declareConstants (head :: rest)
      else w.declareMember modifiers (head :: rest)) := by
  simp only [List.mem_cons, List.not_mem_nil, or_false, not_or] at h
  simp [Walk.declareHead, h]

/-- **An enum** is one step of the walk. -/
theorem run_enum (path : String) (w : Walk) (e : EnumSyntax) (rest : List Token) :
    Walk.run path w (tokensOf e.lexemes ++ rest) =
      Walk.run path (w.update fun s =>
        { s with enums := s.enums ++ [e.declaration (s.surroundings path)] }) rest := by
  obtain ⟨start, hstart, hrun⟩ := run_head path w e.modifiers (.word "enum" (by decide)) (by decide)
    (e.bodyTokens rest)
  have htokens : tokensOf e.lexemes ++ rest = tokensOf (e.modifiers.map Modifier.lexeme) ++
      (Lexeme.word "enum" (by decide)).token :: e.bodyTokens rest := by
    simp [EnumSyntax.lexemes, EnumSyntax.bodyTokens]
  rw [htokens, hrun, declareHead_plain _ _ _ _ _ _ _ (by decide), if_pos (by decide),
    Walk.declareEnum, readEnumBody_tokens]
  simp only [bind, Except.bind, pure, Except.pure, location_of_unplaced hstart]
  rfl

/-- **The header of a type** is one step of the walk, and opens a scope. -/
theorem run_typeHeader (path : String) (w : Walk) (head : TypeSyntax) (rest : List Token) :
    Walk.run path w (tokensOf head.lexemes ++ rest) =
      Walk.run path (w.enter (w.scope.openType
        (head.declaration .nil (w.scope.surroundings path)))) rest := by
  have hword : isIdentifier head.keyword.kind = true := by cases head.keyword <;> decide
  have hhead : head.keyword.kind ∉ noDeclarationTexts := by cases head.keyword <;> decide
  have hplain : head.keyword.kind ∉ ["global", "using", "namespace"] := by
    cases head.keyword <;> decide
  have hkeyword : typeKeywords.contains head.keyword.kind = true := by cases head.keyword <;> decide
  have henum : ¬(head.keyword.kind == "enum") = true := by cases head.keyword <;> decide
  obtain ⟨start, attributes, hstart, hrun⟩ := run_sections path w head.sections head.modifiers
    (.word head.keyword.kind hword) hhead
    ((tokensOf head.keyword.lexemes).drop 1 ++ head.headerTokens rest)
  obtain ⟨more, hmore, hread⟩ := readTypeHeader_tokens head start rest
  rw [hmore, List.drop_one, List.tail_cons] at hrun
  have htokens : tokensOf head.lexemes ++ rest =
      tokensOf (head.sections.flatMap SectionSyntax.lexemes) ++
        (tokensOf (head.modifiers.map Modifier.lexeme) ++
          (Lexeme.word head.keyword.kind hword).token :: (more ++ head.headerTokens rest)) := by
    simp [TypeSyntax.lexemes, TypeSyntax.headerTokens, hmore]
  rw [htokens, hrun, declareHead_plain _ _ _ _ _ _ _ hplain, Lexeme.token_text, word_text,
    if_neg henum, if_pos hkeyword, Walk.declareType, hread]
  simp only [bind, Except.bind, pure, Except.pure, if_true, location_of_unplaced hstart]
  rfl

/-- **A closing brace** closes the innermost scope. -/
theorem run_close (path : String) (inside outer : Scope) (more : List Scope)
    (globalUsings : List String) (rest : List Token) :
    Walk.run path ⟨inside, outer :: more, globalUsings⟩ (Bracket.curly.closing.token :: rest) =
      Walk.run path ⟨outer.absorb inside, more, globalUsings⟩ rest := by
  have hbrace : Bracket.curly.closing.token.text = closingBrace := rfl
  rw [Walk.run_cons, if_pos hbrace]
  rfl

theorem noDeclarationTexts_of_word {text : String} (hword : isIdentifier text = true)
    (h : text ∉ modifierWords) : text ∉ noDeclarationTexts := by
  have hmarks : ∀ mark ∈ ["[", ";", closingBrace], isIdentifier mark = false := by decide
  intro hmem
  rcases List.mem_append.1 (show text ∈ ["[", ";", closingBrace] ++ modifierWords from hmem) with
    hmem | hmem
  · rw [hmarks text hmem] at hword
    cases hword
  · exact h hmem

/-- A word with which a member begins is no modifier, and introduces no other declaration. -/
theorem Word.ordinary_words (w : Word) (h : w.text ∉ noTypeWords) :
    w.text ∉ modifierWords ∧ w.text ≠ "enum" ∧ w.text ∉ typeKeywords ∧ w.text ≠ "delegate" := by
  have hsub : ∀ text ∈ modifierWords ++ typeKeywords, text ∈ noTypeWords := by decide
  refine ⟨fun hmem => h (hsub _ ?_), fun heq => h (heq ▸ by decide), fun hmem => h (hsub _ ?_),
    fun heq => h (heq ▸ by decide)⟩
  · exact List.mem_append_left _ hmem
  · exact List.mem_append_right _ hmem

/-- **A property** is one step of the walk in the body of a type, if no equals sign follows. -/
theorem run_property (path : String) (w : Walk) (hw : w.scope.inType = true) (p : PropertySyntax)
    {rest : List Token} (hrest : headIs "=" rest = false) :
    Walk.run path w (tokensOf p.lexemes ++ rest) =
      Walk.run path (w.update fun s =>
        { s with properties := s.properties ++ [p.declaration] }) rest := by
  obtain ⟨hmodifier, hwords⟩ := p.type.head.ordinary_words p.type.head_ordinary
  obtain ⟨start, hstart, hrun⟩ := run_head path w p.modifiers p.type.head.lexeme
    (noDeclarationTexts_of_word p.type.head.identifier hmodifier)
    (tokensOf p.type.suffix.lexemes ++ p.name.lexeme.token :: (tokensOf p.body.lexemes ++ rest))
  have htokens : tokensOf p.lexemes ++ rest = tokensOf (p.modifiers.map Modifier.lexeme) ++
      p.type.head.lexeme.token :: (tokensOf p.type.suffix.lexemes ++
        p.name.lexeme.token :: (tokensOf p.body.lexemes ++ rest)) := by
    simp [PropertySyntax.lexemes, PropertyType.lexemes]
  have hconst : ¬∃ m ∈ p.modifiers, m.text = "const" := by
    rintro ⟨m, hm, htext⟩
    exact p.noConst m hm htext
  have hmember := readMember_property p hrest
  -- the walk takes the first word for the head, and the reader gets it back in front of the rest
  rw [PropertyType.lexemes, tokensOf_cons, List.cons_append] at hmember
  rw [htokens, hrun]
  simp [Walk.declareHead, hw, hwords, hconst, Walk.declareMember, hmember, bind, Except.bind, pure,
    Except.pure]

/-- **A constant** is one step of the walk. -/
theorem run_constant (path : String) (w : Walk) (k : ConstantSyntax) (rest : List Token) :
    Walk.run path w (tokensOf k.lexemes ++ rest) =
      Walk.run path (w.update fun s =>
        { s with constants := assign k.name.text k.literal.value s.constants }) rest := by
  obtain ⟨start, hstart, hrun⟩ :=
    run_head path w k.modifiers (.word "string" (by decide)) (by decide)
      ([k.name.lexeme.token, equals.token, k.literal.lexeme.token] ++ semicolon.token :: rest)
  have htokens : tokensOf k.lexemes ++ rest = tokensOf (k.modifiers.map Modifier.lexeme) ++
      (Lexeme.word "string" (by decide)).token ::
      ([k.name.lexeme.token, equals.token, k.literal.lexeme.token] ++ semicolon.token :: rest) := by
    simp [ConstantSyntax.lexemes]
  have hconst : (k.modifiers.map (·.text)).contains "const" = true := by
    simp [ConstantSyntax.modifiers]
  have hread := readConstants_tokens k rest
  rw [declarator_tokens] at hread
  rw [htokens, hrun, declareHead_plain _ _ _ _ _ _ _ (by decide), if_neg (by decide),
    if_neg (by decide), if_neg (by decide), if_pos hconst, Walk.declareConstants]
  rw [List.cons_append] at hread
  simp only [bind, Except.bind, pure, Except.pure, hread]
  rfl

/-- **A method** is one step of the walk in the body of a type, and leaves nothing behind. -/
theorem run_method (path : String) (w : Walk) (hw : w.scope.inType = true) (m : MethodSyntax)
    (rest : List Token) :
    Walk.run path w (tokensOf m.lexemes ++ rest) = Walk.run path w rest := by
  obtain ⟨hmodifier, hwords⟩ := m.head.ordinary_words m.head_ordinary
  obtain ⟨start, hstart, hrun⟩ := run_head path w m.modifiers m.head.lexeme
    (noDeclarationTexts_of_word m.head.identifier hmodifier)
    (m.suffix.tokens ++ Bracket.curly.opening.token ::
      (m.body.tokens ++ Bracket.curly.closing.token :: rest))
  have htokens : tokensOf m.lexemes ++ rest = tokensOf (m.modifiers.map Modifier.lexeme) ++
      m.head.lexeme.token :: (m.suffix.tokens ++ Bracket.curly.opening.token ::
        (m.body.tokens ++ Bracket.curly.closing.token :: rest)) := by
    simp [MethodSyntax.lexemes, Nested.tokens]
  have hconst : ¬∃ k ∈ m.modifiers, k.text = "const" := by
    rintro ⟨k, hk, htext⟩
    exact m.noConst k hk htext
  have hmember := readMember_method m (m.modifiers.map (·.text)) rest
  rw [MethodSyntax.header, List.cons_append] at hmember
  rw [htokens, hrun]
  simp [Walk.declareHead, hw, hwords, hconst, Walk.declareMember, hmember, bind, Except.bind, pure,
    Except.pure, Walk.update]

/-! ### Bodies of types -/

/-- A scope behind the declarations of a body. -/
def Scope.withBody (s : Scope) (path : String) (b : TypeBody) : Scope :=
  { s with
    enums := s.enums ++ b.enums (s.surroundings path)
    types := s.types ++ b.types (s.surroundings path)
    properties := s.properties ++ b.properties
    constants := assignAll b.constants s.constants }

attribute [local simp] Scope.withBody TypeBody.enums TypeBody.types TypeBody.properties
  TypeBody.constants

theorem Scope.withBody_nil (s : Scope) (path : String) : s.withBody path .nil = s := by
  simp [assignAll]

theorem Scope.withBody_enum (s : Scope) (path : String) (e : EnumSyntax) (b : TypeBody) :
    Scope.withBody { s with enums := s.enums ++ [e.declaration (s.surroundings path)] } path b =
      s.withBody path (.enum e b) := by
  simp [Scope.surroundings]

theorem Scope.withBody_property (s : Scope) (path : String) (p : PropertySyntax) (b : TypeBody) :
    Scope.withBody { s with properties := s.properties ++ [p.declaration] } path b =
      s.withBody path (.property p b) := by
  simp [Scope.surroundings]

theorem Scope.withBody_constant (s : Scope) (path : String) (k : ConstantSyntax) (b : TypeBody) :
    Scope.withBody { s with constants := assign k.name.text k.literal.value s.constants } path b =
      s.withBody path (.constant k b) := by
  simp [Scope.surroundings, assignAll]

theorem Scope.withBody_method (s : Scope) (path : String) (m : MethodSyntax) (b : TypeBody) :
    s.withBody path (.method m b) = s.withBody path b := rfl

/-- The scope of the body of a type, once the body has been declared in it. -/
def Scope.typeScope (s : Scope) (path : String) (head : TypeSyntax) (body : TypeBody) : Scope :=
  (s.openType (head.declaration .nil (s.surroundings path))).withBody path body

/-- A type that is closed leaves itself behind, and what is nested in it. -/
theorem Scope.absorb_typeScope (s : Scope) (path : String) (head : TypeSyntax) (body : TypeBody) :
    s.absorb (s.typeScope path head body) =
      { s with
        enums := s.enums ++ body.enums ((s.surroundings path).inType head)
        types := s.types ++ head.declaration body (s.surroundings path) ::
          body.types ((s.surroundings path).inType head) } := by
  simp [Scope.absorb, Scope.typeScope, Scope.closedTypes, Scope.openType, Scope.file,
    Scope.surroundings, Surroundings.inType, TypeSyntax.declaration, ofAssignments, assignAll]

theorem Scope.withBody_type (s : Scope) (path : String) (head : TypeSyntax) (body b : TypeBody) :
    (s.absorb (s.typeScope path head body)).withBody path b =
      s.withBody path (.type head body b) := by
  rw [Scope.absorb_typeScope]
  simp [Scope.surroundings]

theorem headIs_modifiers (modifiers : List Modifier) {head : Token} (h : head.text ≠ "=")
    (rest : List Token) :
    headIs "=" (tokensOf (modifiers.map Modifier.lexeme) ++ head :: rest) = false := by
  have hequals : "=" ∉ modifierWords := by decide
  cases modifiers with
  | nil => exact beq_eq_false_iff_ne.2 h
  | cons m modifiers => exact beq_eq_false_iff_ne.2 fun heq => hequals (heq ▸ m.isModifier)

/-- A type does not begin with an equals sign. -/
theorem headIs_typeSyntax (head : TypeSyntax) (rest : List Token) :
    headIs "=" (tokensOf head.lexemes ++ rest) = false := by
  have hkind : head.keyword.kind ≠ "=" := by cases head.keyword <;> decide
  simp only [TypeSyntax.lexemes, TypeKeyword.lexemes, tokensOf_append, tokensOf_cons,
    List.append_assoc, List.cons_append]
  cases head.sections with
  | nil => exact headIs_modifiers head.modifiers hkind _
  | cons s sections => rfl

/-- No declaration in the body of a type begins with an equals sign. -/
theorem headIs_body (b : TypeBody) {rest : List Token} (h : headIs "=" rest = false) :
    headIs "=" (tokensOf b.lexemes ++ rest) = false := by
  cases b with
  | nil => exact h
  | enum e b =>
      simp only [TypeBody.lexemes, EnumSyntax.lexemes, tokensOf_append, tokensOf_cons,
        List.append_assoc, List.cons_append]
      exact headIs_modifiers e.modifiers (by decide) _
  | type head body b =>
      rw [TypeBody.lexemes, tokensOf_append, List.append_assoc]
      exact headIs_typeSyntax head _
  | property p b =>
      have htype : p.type.head.text ≠ "=" := p.type.head.text_ne (by decide)
      simp only [TypeBody.lexemes, PropertySyntax.lexemes, PropertyType.lexemes, tokensOf_append,
        tokensOf_cons, List.append_assoc, List.cons_append]
      exact headIs_modifiers p.modifiers htype _
  | constant k b =>
      simp only [TypeBody.lexemes, ConstantSyntax.lexemes, tokensOf_append, tokensOf_cons,
        List.append_assoc, List.cons_append]
      exact headIs_modifiers k.modifiers (by decide) _
  | method m b =>
      have hhead : m.head.text ≠ "=" := m.head.text_ne (by decide)
      simp only [TypeBody.lexemes, MethodSyntax.lexemes, tokensOf_append, tokensOf_cons,
        List.append_assoc, List.cons_append]
      exact headIs_modifiers m.modifiers hhead _

/-- A type is passed in one go, at any level, if its body is. -/
theorem run_type_of_body (path : String) (w : Walk) (head : TypeSyntax) (body : TypeBody)
    (rest : List Token)
    (hbody : ∀ w' : Walk, w'.scope.inType = true →
      Walk.run path w' (tokensOf body.lexemes ++ Bracket.curly.closing.token :: rest) =
        Walk.run path (w'.update (·.withBody path body)) (Bracket.curly.closing.token :: rest)) :
    Walk.run path w (tokensOf head.lexemes ++
        (tokensOf body.lexemes ++ Bracket.curly.closing.token :: rest)) =
      Walk.run path (w.update fun s => s.absorb (s.typeScope path head body)) rest := by
  have hinside : (w.enter (w.scope.openType (head.declaration .nil
      (w.scope.surroundings path)))).scope.inType = true := by
    simp [Walk.enter, Scope.openType, Scope.inType]
  rw [run_typeHeader, hbody _ hinside]
  simp only [Walk.enter, Walk.update]
  rw [run_close]
  rfl

/-- **The walk over the body of a type** comes out behind it with its declarations in the scope. -/
theorem run_typeBody (path : String) (b : TypeBody) (w : Walk) (hw : w.scope.inType = true)
    {rest : List Token} (hrest : headIs "=" rest = false) :
    Walk.run path w (tokensOf b.lexemes ++ rest) =
      Walk.run path (w.update (·.withBody path b)) rest := by
  induction b generalizing w rest with
  | nil => rw [Walk.update, Scope.withBody_nil]; rfl
  | enum e b ih =>
      rw [TypeBody.lexemes, tokensOf_append, List.append_assoc, run_enum, ih]
      · simp only [Walk.update, Scope.withBody_enum]
      · exact hw
      · exact hrest
  | type head body b ihBody ih =>
      -- the nested body ends at a closing brace, which is no equals sign either
      rw [TypeBody.lexemes, tokensOf_append, tokensOf_append, tokensOf_cons, List.append_assoc,
        List.append_assoc, List.cons_append,
        run_type_of_body path w head body _ fun w' hw' => ihBody w' hw' rfl, ih]
      · simp only [Walk.update, Scope.withBody_type]
      · exact hw
      · exact hrest
  | property p b ih =>
      rw [TypeBody.lexemes, tokensOf_append, List.append_assoc,
        run_property path w hw p (headIs_body b hrest), ih]
      · simp only [Walk.update, Scope.withBody_property]
      · exact hw
      · exact hrest
  | constant k b ih =>
      rw [TypeBody.lexemes, tokensOf_append, List.append_assoc, run_constant, ih]
      · simp only [Walk.update, Scope.withBody_constant]
      · exact hw
      · exact hrest
  | method m b ih =>
      rw [TypeBody.lexemes, tokensOf_append, List.append_assoc, run_method path w hw, ih w hw hrest]
      simp only [Walk.update, Scope.withBody_method]

/-! ### Imports and namespaces -/

theorem mem_joinDots {parts : List String} {c : Char} (h : c ∈ (joinDots parts).toList) :
    c = '.' ∨ ∃ part ∈ parts, c ∈ part.toList := by
  induction parts with
  | nil => simp [joinDots, joinWith] at h
  | cons part parts ih =>
      cases parts with
      | nil =>
          rw [joinDots, joinWith, String.intercalate_singleton] at h
          exact Or.inr ⟨part, List.mem_cons_self, h⟩
      | cons next parts =>
          rw [joinDots, joinWith, String.intercalate_cons_cons, String.toList_append,
            String.toList_append, List.mem_append, List.mem_append] at h
          rcases h with (h | h) | h
          · exact Or.inr ⟨part, List.mem_cons_self, h⟩
          · exact Or.inl (by simpa using h)
          · rcases ih h with h | ⟨other, hother, h⟩
            · exact Or.inl h
            · exact Or.inr ⟨other, List.mem_cons_of_mem _ hother, h⟩

/-- Names joined by points have no mark of an absolute name in front of them. -/
theorem withoutStart_dotted (n : DottedName) : withoutStart globalMark n.text = n.text := by
  refine withoutStart_of_not_mem fun hcolon => ?_
  rcases mem_joinDots hcolon with h | ⟨part, hpart, h⟩
  · exact absurd h (by decide)
  · have hword : isIdentifier part = true := by
      rcases List.mem_cons.1 hpart with rfl | hpart
      · exact n.head.identifier
      · obtain ⟨name, _, rfl⟩ := List.mem_map.1 hpart
        exact name.identifier
    exact absurd (isWord_of_mem_identifier hword h) (by decide)

/-- Behind its keyword, the name of an import is read up to the semicolon. -/
theorem readUsing_tokens (n : ImportedName) (rest : List Token) :
    readUsing (tokensOf n.lexemes ++ semicolon.token :: rest) = .ok (some n.text, rest) := by
  have hword : ∀ {text}, isIdentifier text = false → n.head.text ≠ text := n.head.text_ne
  have hround : headIs "(" (tokensOf n.lexemes ++ semicolon.token :: rest) = false :=
    beq_eq_false_iff_ne.2 (hword (by decide))
  have hstatic : headIs "static" (tokensOf n.lexemes ++ semicolon.token :: rest) = false :=
    beq_eq_false_iff_ne.2 n.namespaceOnly
  have hequals : headIs "=" ((tokensOf n.lexemes ++ semicolon.token :: rest).drop 1) = false := by
    rw [DottedName.lexemes, tokensOf_cons, List.cons_append, List.drop_one, List.tail_cons]
    cases n.tail with
    | nil => rfl
    | cons part parts => rfl
  have hend : BeginsWithout [".", "::"] (semicolon.token :: rest) :=
    beginsWithout_cons.2 (by decide)
  have hname := qualifiedName_dotted n.toDottedName hend
  rw [readUsing, hround, hstatic, hequals, hname]
  simp only [bind, Except.bind, withoutStart_dotted]
  rfl

/-- **An import** is one step of the walk outside of types. -/
theorem run_directive (path : String) (w : Walk) (hw : w.scope.inType = false) (n : ImportedName)
    (rest : List Token) :
    Walk.run path w ((Lexeme.word "using" (by decide)).token ::
        (tokensOf n.lexemes ++ semicolon.token :: rest)) =
      Walk.run path (w.update fun s => { s with usings := s.usings ++ [n.text] }) rest := by
  obtain ⟨start, _, hrun⟩ := run_head path w [] (.word "using" (by decide)) (by decide)
    (tokensOf n.lexemes ++ semicolon.token :: rest)
  have hglobal : ¬("using" == "global") = true := by decide
  rw [List.map_nil, tokensOf_nil, List.nil_append] at hrun
  rw [hrun, Walk.declareHead]
  simp only [hw, Lexeme.token_text, word_text, hglobal, Walk.declareUsing, readUsing_tokens, bind,
    Except.bind, pure, Except.pure, Bool.not_false, Bool.true_and, Bool.and_false, Bool.false_and,
    Bool.false_eq_true, if_false, beq_self_eq_true, if_true]
  rfl

/-- **The header of a namespace** is one step of the walk outside of types, and opens a scope. -/
theorem run_namespaceHeader (path : String) (w : Walk) (hw : w.scope.inType = false)
    (n : DottedName) (rest : List Token) :
    Walk.run path w
        ((Lexeme.word "namespace" (by decide)).token ::
          (tokensOf n.lexemes ++ Bracket.curly.opening.token :: rest)) =
      Walk.run path (w.enter (w.scope.openNamespace n.text)) rest := by
  obtain ⟨start, _, hrun⟩ := run_head path w [] (.word "namespace" (by decide)) (by decide)
    (tokensOf n.lexemes ++ Bracket.curly.opening.token :: rest)
  have hglobal : ¬("namespace" == "global") = true := by decide
  have husing : ¬("namespace" == "using") = true := by decide
  have hend : BeginsWithout [".", "::"] (Bracket.curly.opening.token :: rest) :=
    beginsWithout_cons.2 (by decide)
  have hname := qualifiedName_dotted n hend
  have hsemicolon : headIs ";" (Bracket.curly.opening.token :: rest) = false := rfl
  have hbrace : expect openingBrace (Bracket.curly.opening.token :: rest) = .ok rest := rfl
  rw [List.map_nil, tokensOf_nil, List.nil_append] at hrun
  rw [hrun, Walk.declareHead]
  simp only [hw, Lexeme.token_text, word_text, hglobal, husing, Walk.declareNamespace, hname,
    hbrace, hsemicolon, bind, Except.bind, pure, Except.pure, Bool.not_false, Bool.true_and,
    Bool.and_false, Bool.false_and, Bool.false_eq_true, if_false, beq_self_eq_true, if_true]

/-! ### Declarations -/

/-- A scope behind declarations. -/
def Scope.withDeclarations (s : Scope) (path : String) (d : Declarations) : Scope :=
  { s with
    usings := s.usings ++ d.usings
    enums := s.enums ++ d.enums (s.surroundings path)
    types := s.types ++ d.types (s.surroundings path) }

attribute [local simp] Scope.withDeclarations Declarations.usings Declarations.enums
  Declarations.types

theorem Scope.withDeclarations_nil (s : Scope) (path : String) :
    s.withDeclarations path .nil = s := by
  simp

theorem Scope.withDeclarations_directive (s : Scope) (path : String) (n : ImportedName)
    (d : Declarations) :
    Scope.withDeclarations { s with usings := s.usings ++ [n.text] } path d =
      s.withDeclarations path (.directive n d) := by
  simp [Scope.surroundings, Surroundings.behindDirective]

/-- A namespace that is closed leaves its enums and its types behind, and none of its imports. -/
theorem Scope.withDeclarations_block {s : Scope} (hs : s.inType = false) (path : String)
    (n : DottedName) (body d : Declarations) :
    (s.absorb ((s.openNamespace n.text).withDeclarations path body)).withDeclarations path d =
      s.withDeclarations path (.block n body d) := by
  have houtside : s.containingTypes = [] := by simpa [Scope.inType] using hs
  simp [houtside, Scope.absorb, Scope.openNamespace, Scope.closedTypes, Scope.file,
    Scope.fullNamespace, Scope.surroundings, Surroundings.inNamespace]

theorem Scope.withDeclarations_enum (s : Scope) (path : String) (e : EnumSyntax)
    (d : Declarations) :
    Scope.withDeclarations { s with enums := s.enums ++ [e.declaration (s.surroundings path)] } path
      d = s.withDeclarations path (.enum e d) := by
  simp [Scope.surroundings]

theorem Scope.withDeclarations_type (s : Scope) (path : String) (head : TypeSyntax)
    (body : TypeBody) (d : Declarations) :
    (s.absorb (s.typeScope path head body)).withDeclarations path d =
      s.withDeclarations path (.type head body d) := by
  rw [Scope.absorb_typeScope]
  simp [Scope.surroundings]

/-- **A type** with its body is passed in one go, at any level. -/
theorem run_type (path : String) (w : Walk) (head : TypeSyntax) (body : TypeBody)
    (rest : List Token) :
    Walk.run path w (tokensOf head.lexemes ++
        (tokensOf body.lexemes ++ Bracket.curly.closing.token :: rest)) =
      Walk.run path (w.update fun s => s.absorb (s.typeScope path head body)) rest := by
  refine run_type_of_body path w head body rest ?_
  intro w' hw'
  exact run_typeBody path body w' hw' rfl

/-- **The walk over declarations** comes out behind them with them in the scope. -/
theorem run_declarations (path : String) (d : Declarations) (w : Walk)
    (hw : w.scope.inType = false) (rest : List Token) :
    Walk.run path w (tokensOf d.lexemes ++ rest) =
      Walk.run path (w.update (·.withDeclarations path d)) rest := by
  induction d generalizing w rest with
  | nil => rw [Walk.update, Scope.withDeclarations_nil]; rfl
  | directive n d ih =>
      simp only [Declarations.lexemes, tokensOf_cons, tokensOf_append, List.append_assoc,
        List.cons_append]
      rw [run_directive path w hw, ih]
      · simp only [Walk.update, Scope.withDeclarations_directive]
      · exact hw
  | block n body d ihBody ih =>
      -- the body runs in a scope of its own, and the closing brace hands it to the scope outside
      simp only [Declarations.lexemes, tokensOf_cons, tokensOf_append, List.append_assoc,
        List.cons_append]
      rw [run_namespaceHeader path w hw, ihBody]
      · simp only [Walk.enter, Walk.update]
        rw [run_close, ih]
        · rw [Walk.update, Scope.withDeclarations_block hw]
        · exact hw
      · rfl
  | enum e d ih =>
      rw [Declarations.lexemes, tokensOf_append, List.append_assoc, run_enum, ih]
      · simp only [Walk.update, Scope.withDeclarations_enum]
      · exact hw
  | type head body d ih =>
      simp only [Declarations.lexemes, tokensOf_cons, tokensOf_append, List.append_assoc,
        List.cons_append]
      rw [run_type, ih]
      · simp only [Walk.update, Scope.withDeclarations_type]
      · exact hw

/-- A text with the tokens of a tree is read as the file that the tree declares, but for the
places. -/
theorem readSource_of_lexemes (path : String) {text : String} {d : Declarations}
    (h : bareTokens text.toList = tokensOf d.lexemes) :
    ∃ file, readSource path text = .ok file ∧ file.unplaced = d.file path := by
  have hrun : Walk.run path .start (bareTokens text.toList) =
      .ok (Walk.start.update (·.withDeclarations path d)) := by
    rw [h, ← List.append_nil (tokensOf d.lexemes), run_declarations path d _ rfl, Walk.run]
    rfl
  exact readSource_of_run hrun

/-- **Reading inverts printing.**  The text of a tree, with any white space between its tokens, is
read as the file that the tree declares, but for the places. -/
theorem readSource_write (path : String) (l : Layout) (d : Declarations) :
    ∃ file, readSource path (l.write d.lexemes) = .ok file ∧ file.unplaced = d.file path := by
  exact readSource_of_lexemes path (bareTokens_write l d.lexemes)

end LocalisedEnum

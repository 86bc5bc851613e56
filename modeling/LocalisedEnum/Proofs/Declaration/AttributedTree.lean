import LocalisedEnum.Proofs.Declaration.Printing
import LocalisedEnum.Proofs.Declaration.WrittenAttributes
import LocalisedEnum.Proofs.Token.CodePiece

/-!
**Trees of declarations with attributes.**

Every enum of a file may stand behind sections of attributes, wherever it is declared.  The trees
below have such enums next to runs of plain declarations.  The walk over one comes out behind it
with every enum recorded together with its attributes, and the white space between the tokens may be
left out wherever they do not run together.

Main definitions:

* `AttributedEnum`, `AttributedBody`, `AttributedDeclarations` — enums with attributes, and trees of
  them;
* `AttributedDeclarations.file` — **the file** that a tree declares;
* `SpacedToken`, `writeSpaced`, `staysApart` — tokens with the white space behind them.

Main results:

* `run_attributedEnum` — an enum with its attributes is one step of the walk;
* `run_attributedBody`, `run_attributedDeclarations` — the walk over a tree;
* `bareTokens_writeSpaced` — tokens with white space where it is needed;
* `readSource_attributed` — **the attributes of enums are read back** from a text.
-/

set_option autoImplicit false
set_option relaxedAutoImplicit false

namespace LocalisedEnum

/-! ### Enums with attributes -/

/-- **An enum behind sections of attributes.** -/
structure AttributedEnum where
  sections : List WrittenSection
  declared : EnumSyntax

namespace AttributedEnum

/-- The tokens of the enum. -/
def lexemes (e : AttributedEnum) : List Lexeme :=
  e.sections.flatMap (·.lexemes) ++ e.declared.lexemes

/-- **The enum that is declared**, with its attributes in order. -/
def declaration (e : AttributedEnum) (s : Surroundings) : EnumDeclaration :=
  { e.declared.declaration s with attributes := e.sections.flatMap (·.recorded s.path) }

end AttributedEnum

/-- **An enum with its attributes** is one step of the walk. -/
theorem run_attributedEnum (path : String) (w : Walk) (e : AttributedEnum) (rest : List Token) :
    Walk.run path w (tokensOf e.lexemes ++ rest) =
      Walk.run path (w.update fun s =>
        { s with enums := s.enums ++ [e.declaration (s.surroundings path)] }) rest := by
  obtain ⟨sections, e⟩ := e
  cases sections with
  | nil => exact run_enum path w e rest
  | cons s sections =>
      have henum : (Lexeme.word "enum" (by decide)).text ∉ noDeclarationTexts := by decide
      have hbracket : Bracket.square.opening.token.text ∉ [";", closingBrace] := by decide
      obtain ⟨first, more, hfirst, htext⟩ := head_modifiers e.modifiers henum (e.bodyTokens rest)
      have hsquare : headIs "[" (tokensOf (e.modifiers.map Modifier.lexeme) ++
          (Lexeme.word "enum" (by decide)).token :: e.bodyTokens rest) = false := by
        rw [hfirst, headIs_cons, Lexeme.token_text, beq_eq_false_iff_ne]
        exact fun heq => htext (List.mem_cons.2 (.inl heq))
      have hsections := readSections_recorded path (s :: sections) hsquare
      have htokens : tokensOf (AttributedEnum.lexemes ⟨s :: sections, e⟩) ++ rest =
          tokensOf ((s :: sections).flatMap (·.lexemes)) ++
            (tokensOf (e.modifiers.map Modifier.lexeme) ++ (Lexeme.word "enum" (by decide)).token ::
              e.bodyTokens rest) := by
        simp [AttributedEnum.lexemes, EnumSyntax.lexemes, EnumSyntax.bodyTokens]
      rw [htokens]
      refine (run_declaration w hbracket (by decide) hsections).trans ?_
      rw [declareHead_plain _ _ _ _ _ _ _ (by decide), if_pos (by decide), Walk.declareEnum,
        readEnumBody_tokens]
      rfl

/-! ### Trees -/

/-- The body of a type, with attributes in front of its enums. -/
inductive AttributedBody where
  | nil
  | plain (b : TypeBody) (rest : AttributedBody)
  | enum (e : AttributedEnum) (rest : AttributedBody)
  | type (head : TypeSyntax) (body rest : AttributedBody)

namespace AttributedBody

/-- The tokens of the body. -/
def lexemes : AttributedBody → List Lexeme
  | nil => []
  | plain b rest => b.lexemes ++ rest.lexemes
  | enum e rest => e.lexemes ++ rest.lexemes
  | type head body rest => head.lexemes ++ (body.lexemes ++ Bracket.curly.closing :: rest.lexemes)

/-- The properties that the body declares itself. -/
def properties : AttributedBody → List PropertyDeclaration
  | nil => []
  | plain b rest => b.properties ++ rest.properties
  | enum _ rest => rest.properties
  | type _ _ rest => rest.properties

/-- The constants that the body declares itself, one after the other. -/
def constants : AttributedBody → List (String × CodeText)
  | nil => []
  | plain b rest => b.constants ++ rest.constants
  | enum _ rest => rest.constants
  | type _ _ rest => rest.constants

/-- The enums in the body, in the order of the text. -/
def enums (s : Surroundings) : AttributedBody → List EnumDeclaration
  | nil => []
  | plain b rest => b.enums s ++ rest.enums s
  | enum e rest => e.declaration s :: rest.enums s
  | type head body rest => body.enums (s.inType head) ++ rest.enums s

/-- The type that is declared with the body. -/
def declaration (body : AttributedBody) (head : TypeSyntax) (s : Surroundings) : TypeDeclaration :=
  { head.declaration .nil s with
    properties := body.properties, constants := ofAssignments body.constants }

/-- The types in the body, in the order of the text. -/
def types (s : Surroundings) : AttributedBody → List TypeDeclaration
  | nil => []
  | plain b rest => b.types s ++ rest.types s
  | enum _ rest => rest.types s
  | type head body rest => body.declaration head s :: (body.types (s.inType head) ++ rest.types s)

end AttributedBody

/-- **The declarations of a file or of a namespace**, with attributes in front of the enums. -/
inductive AttributedDeclarations where
  | nil
  | plain (d : Declarations) (rest : AttributedDeclarations)
  | block (n : DottedName) (body rest : AttributedDeclarations)
  | enum (e : AttributedEnum) (rest : AttributedDeclarations)
  | type (head : TypeSyntax) (body : AttributedBody) (rest : AttributedDeclarations)

theorem isIdentifier_namespace : isIdentifier "namespace" = true := by
  decide

namespace AttributedDeclarations

/-- The tokens of the declarations. -/
def lexemes : AttributedDeclarations → List Lexeme
  | nil => []
  | plain d rest => d.lexemes ++ rest.lexemes
  | block n body rest =>
    .word "namespace" isIdentifier_namespace :: (n.lexemes ++ Bracket.curly.opening ::
      (body.lexemes ++ Bracket.curly.closing :: rest.lexemes))
  | enum e rest => e.lexemes ++ rest.lexemes
  | type head body rest => head.lexemes ++ (body.lexemes ++ Bracket.curly.closing :: rest.lexemes)

/-- The imports of the declarations themselves, without those of the namespaces inside. -/
def usings : AttributedDeclarations → List String
  | nil => []
  | plain d rest => d.usings ++ rest.usings
  | block _ _ rest => rest.usings
  | enum _ rest => rest.usings
  | type _ _ rest => rest.usings

/-- The enums in the declarations, in the order of the text. -/
def enums (s : Surroundings) : AttributedDeclarations → List EnumDeclaration
  | nil => []
  | plain d rest => d.enums s ++ rest.enums { s with usings := s.usings ++ d.usings }
  | block n body rest => body.enums (s.inNamespace n) ++ rest.enums s
  | enum e rest => e.declaration s :: rest.enums s
  | type head body rest => body.enums (s.inType head) ++ rest.enums s

/-- The types in the declarations, in the order of the text. -/
def types (s : Surroundings) : AttributedDeclarations → List TypeDeclaration
  | nil => []
  | plain d rest => d.types s ++ rest.types { s with usings := s.usings ++ d.usings }
  | block n body rest => body.types (s.inNamespace n) ++ rest.types s
  | enum _ rest => rest.types s
  | type head body rest => body.declaration head s :: (body.types (s.inType head) ++ rest.types s)

/-- **The file** that a tree declares, without places. -/
def file (path : String) (d : AttributedDeclarations) : SourceFile where
  path := path
  usings := d.usings
  enums := d.enums ⟨path, "", [], []⟩
  types := d.types ⟨path, "", [], []⟩
  globalUsings := []

end AttributedDeclarations

/-! ### The walk over a body -/

/-- A scope behind the declarations of a body with attributes. -/
def Scope.withAttributedBody (s : Scope) (path : String) (b : AttributedBody) : Scope :=
  { s with
    enums := s.enums ++ b.enums (s.surroundings path)
    types := s.types ++ b.types (s.surroundings path)
    properties := s.properties ++ b.properties
    constants := assignAll b.constants s.constants }

attribute [local simp] Scope.withAttributedBody AttributedBody.enums AttributedBody.types
  AttributedBody.properties AttributedBody.constants

/-- No declaration in a body begins with an equals sign. -/
theorem headIs_attributedBody (b : AttributedBody) {rest : List Token}
    (h : headIs "=" rest = false) : headIs "=" (tokensOf b.lexemes ++ rest) = false := by
  induction b with
  | nil => exact h
  | plain b more ih =>
      rw [AttributedBody.lexemes, tokensOf_append, List.append_assoc]
      exact headIs_body b ih
  | enum e more ih =>
      obtain ⟨sections, e⟩ := e
      cases sections with
      | nil =>
          have hplain := headIs_body (.enum e .nil) ih
          rwa [TypeBody.lexemes, TypeBody.lexemes, List.append_nil, ← List.append_assoc,
            ← tokensOf_append] at hplain
      | cons s sections => rfl
  | type head body more =>
      rw [AttributedBody.lexemes, tokensOf_append, List.append_assoc]
      exact headIs_typeSyntax head _

/-- A type that is closed leaves itself behind, and what is nested in it. -/
theorem Scope.absorb_attributedBody (s : Scope) (path : String) (head : TypeSyntax)
    (body : AttributedBody) :
    s.absorb
        ((s.openType (head.declaration .nil (s.surroundings path))).withAttributedBody path body) =
      { s with
        enums := s.enums ++ body.enums ((s.surroundings path).inType head)
        types := s.types ++ body.declaration head (s.surroundings path) ::
          body.types ((s.surroundings path).inType head) } := by
  simp [Scope.absorb, Scope.closedTypes, Scope.openType, Scope.file, Scope.surroundings,
    Surroundings.inType, AttributedBody.declaration, TypeSyntax.declaration, ofAssignments]

/-- A type with attributes in its body is passed in one go, if its body is. -/
theorem run_attributedType_of_body (path : String) (w : Walk) (head : TypeSyntax)
    (body : AttributedBody) (rest : List Token)
    (hbody : ∀ w' : Walk, w'.scope.inType = true →
      Walk.run path w' (tokensOf body.lexemes ++ Bracket.curly.closing.token :: rest) =
        Walk.run path (w'.update (·.withAttributedBody path body))
          (Bracket.curly.closing.token :: rest)) :
    Walk.run path w
        (tokensOf head.lexemes ++ (tokensOf body.lexemes ++ Bracket.curly.closing.token :: rest)) =
      Walk.run path (w.update fun s =>
        { s with
          enums := s.enums ++ body.enums ((s.surroundings path).inType head)
          types := s.types ++ body.declaration head (s.surroundings path) ::
            body.types ((s.surroundings path).inType head) }) rest := by
  have hinside : (w.enter
        (w.scope.openType (head.declaration .nil (w.scope.surroundings path)))).scope.inType =
      true := by
    simp [Walk.enter, Scope.openType, Scope.inType]
  rw [run_typeHeader, hbody _ hinside]
  simp only [Walk.enter, Walk.update]
  rw [run_close, Scope.absorb_attributedBody]

/-- **The walk over a body with attributes** comes out behind it with its declarations in the
scope. -/
theorem run_attributedBody (path : String) (b : AttributedBody) (w : Walk)
    (hw : w.scope.inType = true) {rest : List Token} (hrest : headIs "=" rest = false) :
    Walk.run path w (tokensOf b.lexemes ++ rest) =
      Walk.run path (w.update (·.withAttributedBody path b)) rest := by
  induction b generalizing w rest with
  | nil => simp [AttributedBody.lexemes, Walk.update, assignAll]
  | plain b more ih =>
      rw [AttributedBody.lexemes, tokensOf_append, List.append_assoc,
        run_typeBody path b w hw (headIs_attributedBody more hrest), ih]
      · simp [Walk.update, Scope.withBody, Scope.surroundings, assignAll]
      · exact hw
      · exact hrest
  | enum e more ih =>
      rw [AttributedBody.lexemes, tokensOf_append, List.append_assoc, run_attributedEnum, ih]
      · simp [Walk.update, Scope.surroundings]
      · exact hw
      · exact hrest
  | type head body more ihBody ih =>
      -- the nested body ends at a closing brace, which is no equals sign either
      rw [AttributedBody.lexemes, tokensOf_append, tokensOf_append, tokensOf_cons,
        List.append_assoc, List.append_assoc, List.cons_append,
        run_attributedType_of_body path w head body _ fun w' hw' => ihBody w' hw' rfl, ih]
      · simp [Walk.update, Scope.surroundings]
      · exact hw
      · exact hrest

/-! ### The walk over declarations -/

/-- A scope behind declarations with attributes. -/
def Scope.withAttributed (s : Scope) (path : String) (d : AttributedDeclarations) : Scope :=
  { s with
    usings := s.usings ++ d.usings
    enums := s.enums ++ d.enums (s.surroundings path)
    types := s.types ++ d.types (s.surroundings path) }

attribute [local simp] Scope.withAttributed AttributedDeclarations.usings
  AttributedDeclarations.enums AttributedDeclarations.types

/-- **The walk over declarations with attributes** comes out behind them with them in the scope. -/
theorem run_attributedDeclarations (path : String) (d : AttributedDeclarations) (w : Walk)
    (hw : w.scope.inType = false) (rest : List Token) :
    Walk.run path w (tokensOf d.lexemes ++ rest) =
      Walk.run path (w.update (·.withAttributed path d)) rest := by
  induction d generalizing w rest with
  | nil => simp [AttributedDeclarations.lexemes, Walk.update]
  | plain d more ih =>
      rw [AttributedDeclarations.lexemes, tokensOf_append, List.append_assoc,
        run_declarations path d w hw, ih]
      · simp [Walk.update, Scope.withDeclarations, Scope.surroundings]
      · exact hw
  | block n body more ihBody ih =>
      have houtside : w.scope.containingTypes = [] := by simpa [Scope.inType] using hw
      -- the body runs in a scope of its own, and the closing brace hands it to the scope outside
      simp only [AttributedDeclarations.lexemes, tokensOf_cons, tokensOf_append, List.append_assoc,
        List.cons_append]
      rw [run_namespaceHeader path w hw, ihBody _ rfl]
      simp only [Walk.enter, Walk.update]
      rw [run_close, ih]
      · simp [Walk.update, Scope.absorb, Scope.openNamespace, Scope.closedTypes, Scope.file,
          Scope.fullNamespace, Scope.surroundings, Surroundings.inNamespace, houtside]
      · exact hw
  | enum e more ih =>
      rw [AttributedDeclarations.lexemes, tokensOf_append, List.append_assoc, run_attributedEnum,
        ih]
      · simp [Walk.update, Scope.surroundings]
      · exact hw
  | type head body more ih =>
      simp only [AttributedDeclarations.lexemes, tokensOf_cons, tokensOf_append, List.append_assoc,
        List.cons_append]
      rw [run_attributedType_of_body path w head body _ fun w' hw' =>
          run_attributedBody path body w' hw' rfl, ih]
      · simp [Walk.update, Scope.surroundings]
      · exact hw

/-! ### Tokens with white space where it is needed -/

/-- A token with the white space behind it, which may be empty. -/
structure SpacedToken where
  lexeme : Lexeme
  gap : Blanks

/-- The characters of tokens with white space. -/
def writeSpaced (ts : List SpacedToken) : List Char :=
  ts.flatMap fun t => t.lexeme.text.toList ++ t.gap.chars

/-- Whether no token runs into what stands behind it. -/
def staysApart : List SpacedToken → Bool
  | [] => true
  | t :: rest =>
    (t.gap.chars ++ writeSpaced rest).head?.all
        (fun c => !goesOn t.lexeme.kind t.lexeme.text.toList c) && staysApart rest

/-- With white space behind all of them, tokens do not run together. -/
theorem staysApart_of_gaps {ts : List SpacedToken} (h : ∀ t ∈ ts, t.gap.chars ≠ []) :
    staysApart ts = true := by
  induction ts with
  | nil => rfl
  | cons t ts ih =>
      obtain ⟨hgap, hgaps⟩ := List.forall_mem_cons.1 h
      rw [staysApart, ih hgaps, Bool.and_true, Option.all_eq_true]
      intro c hc
      rw [goesOn_blank _ _ (Blanks.head_append hgap _ c hc)]
      rfl

/-- **Tokens that do not run together** are read as they were written. -/
theorem bareTokens_writeSpaced {ts : List SpacedToken} (h : staysApart ts = true) :
    bareTokens (writeSpaced ts) = tokensOf (ts.map (·.lexeme)) := by
  induction ts with
  | nil => exact bareTokens_nil
  | cons t ts ih =>
      rw [staysApart, Bool.and_eq_true, Option.all_eq_true] at h
      have hnext : ∀ c ∈ (t.gap.chars ++ writeSpaced ts).head?,
          goesOn t.lexeme.kind t.lexeme.text.toList c = false :=
        fun c hc => by simpa using h.1 c hc
      rw [writeSpaced, List.flatMap_cons, ← writeSpaced, List.append_assoc,
        t.lexeme.bareTokens_before hnext, bareTokens_blank t.gap.blank, ih h.2]
      rfl

/-! ### Texts -/

/-- **The attributes of enums are read back.**  In a text of declarations every enum is recorded
with its attributes: those of all sections in order, each with its values in a row and its values
under names in order. -/
theorem readSource_attributed (path : String) (lead : Blanks) (d : AttributedDeclarations)
    (ts : List SpacedToken) (hts : ts.map (·.lexeme) = d.lexemes) (h : staysApart ts = true) :
    ∃ file, readSource path (String.ofList (lead.chars ++ writeSpaced ts)) = .ok file ∧
      file.unplaced = d.file path := by
  have hrun : Walk.run path .start (bareTokens (lead.chars ++ writeSpaced ts)) =
      .ok (Walk.start.update (·.withAttributed path d)) := by
    rw [bareTokens_blank lead.blank, bareTokens_writeSpaced h, hts,
      ← List.append_nil (tokensOf d.lexemes), run_attributedDeclarations path d _ rfl, Walk.run]
    rfl
  exact readSource_of_run (by rwa [String.toList_ofList])

/-- The name of one capital letter. -/
def letterText (i : Fin 26) : String :=
  String.singleton (Char.ofNat (65 + i))

theorem isIdentifier_letter : ∀ i, isIdentifier (letterText i) = true := by
  decide

theorem letter_ordinary : ∀ i, letterText i ∉ declarationWords := by
  decide

def letterName (i : Fin 26) : Name :=
  ⟨⟨letterText i, isIdentifier_letter i⟩, letter_ordinary i⟩

def writtenOne : WrittenInteger :=
  ⟨false, ['1'], List.cons_ne_nil _ _, List.forall_mem_singleton.2 (by decide), by decide⟩

def writtenMinusTwo : WrittenInteger :=
  ⟨true, ['2'], List.cons_ne_nil _ _, List.forall_mem_singleton.2 (by decide), by decide⟩

/-- The attribute `A(1, @"x,""]", B = -2)`. -/
def attributeExample : WrittenAttribute where
  name := ⟨(letterName 0).toWord, []⟩
  positional := [.integer writtenOne, .text (.verbatim "x,\"]")]
  named := [((letterName 1).toWord, .integer writtenMinusTwo)]
  parentheses := true
  distinct := List.pairwise_singleton _ _

/-- The enum `E` in the namespace `N`, with two attributes in one section and one in another.  A
comma, a quote and a bracket stand in a text, and a comma and brackets in the name of a type. -/
def attributedExample : AttributedDeclarations :=
  let type : TypePhrase .one :=
    .generic (letterName 6).toWord
      (.more (.name (letterName 7).toWord) (.array (.name (letterName 8).toWord) 0))
  let c : WrittenAttribute :=
    ⟨⟨(letterName 2).toWord, [(letterName 3).toWord]⟩, [], [], false, List.nodup_nil⟩
  let d : WrittenAttribute :=
    ⟨⟨(letterName 3).toWord, []⟩, [.typeOf type], [], true, List.nodup_nil⟩
  let e : EnumSyntax := ⟨[], letterName 4, none, [⟨[], letterName 23, none⟩], false⟩
  .block ⟨(letterName 13).toWord, []⟩ (.enum ⟨[⟨attributeExample, [c]⟩, ⟨d, []⟩], e⟩ .nil) .nil

def oneBlank : Blanks :=
  ⟨[' '], List.forall_mem_singleton.2 (by decide)⟩

def noBlanks : Blanks :=
  ⟨[], List.forall_mem_nil _⟩

/-- The tokens of declarations, with a blank behind commas and keywords only. -/
def compactTokens (d : AttributedDeclarations) : List SpacedToken :=
  d.lexemes.map fun l =>
    ⟨l, if l.text ∈ [",", "namespace", "enum"] then oneBlank else noBlanks⟩

theorem readSource_attributed_compact :
    (compactTokens attributedExample).map (·.lexeme) = attributedExample.lexemes ∧
      staysApart (compactTokens attributedExample) = true ∧
      ∃ file, readSource "E.cs"
          "namespace N\x7b[A(1, @\"x,\"\"]\", B=-2), C.D][D(typeof(G<H, I[]>))]enum E\x7bX\x7d\x7d"
          = .ok file ∧
        file.unplaced.enums.map (·.attributes) =
          [[⟨"A", [.integer 1, .text (.ofString "x,\"]")], [("B", .integer (-2))],
              some ⟨"E.cs", 0, 0⟩⟩,
            ⟨"C.D", [], [], some ⟨"E.cs", 0, 0⟩⟩,
            ⟨"D", [.typeOf "G<H,I[]>"], [], some ⟨"E.cs", 0, 0⟩⟩]] := by
  have hts : (compactTokens attributedExample).map (·.lexeme) = attributedExample.lexemes := by
    rw [compactTokens, List.map_map]
    exact List.map_id' _
  have happart : staysApart (compactTokens attributedExample) = true := by decide +kernel
  obtain ⟨file, hread, hfile⟩ :=
    readSource_attributed "E.cs" noBlanks attributedExample (compactTokens attributedExample) hts
      happart
  have htext : String.ofList ([] ++ writeSpaced (compactTokens attributedExample)) =
      "namespace N\x7b[A(1, @\"x,\"\"]\", B=-2), C.D][D(typeof(G<H, I[]>))]enum E\x7bX\x7d\x7d" :=
    by decide +kernel
  refine ⟨hts, happart, file, by rwa [← htext], ?_⟩
  rw [hfile]
  decide +kernel

end LocalisedEnum

import LocalisedEnum.Proofs.Declaration.Member
import LocalisedEnum.Proofs.Extension.ExtensionTree
import LocalisedEnum.Proofs.Extension.Switch
import LocalisedEnum.Proofs.Extension.SwitchMethod

/-!
**Generated methods, read as programs.**

The method of a mapping is a text, and the text is a program.  Its lines are read one after the
other: a line of a statement is read as that statement whatever stands behind it, the lines of a
section as that section in front of another one or of the end, and what the method is read as is put
together from there.  Read so, the method has a section for each binding and a default section, and
nothing else of the mapping is left in it.

Main definitions:

* `StatementLines`, `SectionLines` — lines that are read as statements and as sections;
* `Mapping.program` — the method of a mapping as a program;
* `Mapping.PlainlyNamed` — a mapping in which all names are names.

Main results:

* `statementLines_branch`, `sectionLines_case`, `sectionLines_default` — the branches of the method;
* `exists_body` — the statements in front of the switch, the switch, and the statements behind it;
* `switchMethod?_methodText` — **reading the method** gives the program of the mapping.
-/

set_option autoImplicit false
set_option relaxedAutoImplicit false

namespace LocalisedEnum

/-! ### Names are read as they are written -/

/-- A segment is no operator. -/
theorem Segment.text_not_operator (s : Segment) : s.lexeme.text.toList ∉ operators := by
  intro hmem
  obtain ⟨c, cs, hcs, hc, _⟩ := s.exists_head
  obtain ⟨d, ds, hds, hd⟩ := CodePiece.mark_head hmem
  rw [hcs] at hds
  cases hds
  exact hc hd

theorem Segment.beginsWithout_marks (s : Segment) (ts : List Token) :
    BeginsWithout [".", "::"] (s.lexeme.token :: ts) := by
  have hmarks : ∀ text ∈ [".", "::"], text.toList ∈ operators := by decide
  rw [beginsWithout_cons]
  exact fun hmem => s.text_not_operator (hmarks _ hmem)

theorem Segment.lexeme_kind (s : Segment) : s.lexeme.kind = .identifier := by
  rw [Segment.lexeme]
  split <;> rfl

theorem writtenNameFrom_end (name : String) {rest : List Token}
    (h : BeginsWithout [".", "::"] rest) : writtenNameFrom name rest = (name, rest) := by
  match rest with
  | [] => rfl
  | [_] => rfl
  | mark :: part :: rest =>
      have hmark : isNameMark mark = false := by simpa [isNameMark] using h mark rfl
      simp [writtenNameFrom, hmark]

theorem writtenNameFrom_parts (name : String) (parts : List (NameMark × Segment))
    {rest : List Token} (h : BeginsWithout [".", "::"] rest) :
    let ts := parts.flatMap fun part => [part.1.lexeme, part.2.lexeme]
    writtenNameFrom name (tokensOf ts ++ rest) = (name ++ String.ofList (charsOf ts), rest) := by
  induction parts generalizing name with
  | nil => simp [writtenNameFrom_end name h]
  | cons part parts ih =>
      obtain ⟨mark, segment⟩ := part
      have hmark : isNameMark mark.lexeme.token = true := by cases mark <;> rfl
      simp only [List.flatMap_cons, List.cons_append, List.nil_append, tokensOf_cons,
        writtenNameFrom, hmark, Lexeme.token_kind, segment.lexeme_kind, and_self, if_true, ih,
        Lexeme.token_text, charsOf_cons]
      simp [String.append_assoc]

/-- **A name** is read as it is written, up to what does not go on with it. -/
theorem writtenName?_lexemes (n : WrittenName) {rest : List Token}
    (h : BeginsWithout [".", "::"] rest) :
    writtenName? (tokensOf n.lexemes ++ rest) = some (String.ofList (charsOf n.lexemes), rest) := by
  have hkind : n.head.lexeme.token.kind = .identifier := n.head.lexeme_kind
  rw [WrittenName.lexemes, tokensOf_cons, List.cons_append, writtenName?, if_pos hkind,
    writtenNameFrom_parts _ _ h, charsOf_cons]
  simp

/-- A single segment is read as it is written. -/
theorem writtenName?_segment (s : Segment) {rest : List Token}
    (h : BeginsWithout [".", "::"] rest) :
    writtenName? (s.lexeme.token :: rest) = some (s.lexeme.text, rest) := by
  have hname := writtenName?_lexemes ⟨s, []⟩ h
  simpa [WrittenName.lexemes] using hname

/-- An expression without a call. -/
theorem callExpression?_name (n : WrittenName) :
    callExpression? (tokensOf n.lexemes) = some ⟨String.ofList (charsOf n.lexemes), none⟩ := by
  have hname := writtenName?_lexemes n (beginsWithout_nil _)
  rw [List.append_nil] at hname
  rw [callExpression?, hname]
  rfl

/-! ### Lines of statements -/

/-- Lines that are read as the given statements, whatever stands behind them. -/
def StatementLines (lines : List String) (found : List Statement) : Prop :=
  ∃ n : Nested, SpelledLines lines n.lexemes ∧ ∀ rest : List Token,
    statements (n.tokens ++ rest) = (statements rest).map fun p => (found ++ p.1, p.2)

namespace StatementLines

theorem nil : StatementLines [] [] :=
  ⟨.nil, .nil, fun rest => by simp⟩

theorem append {lines more : List String} {found others : List Statement}
    (h : StatementLines lines found) (hmore : StatementLines more others) :
    StatementLines (lines ++ more) (found ++ others) := by
  obtain ⟨n, hlines, hread⟩ := h
  obtain ⟨m, hmoreLines, hmoreRead⟩ := hmore
  refine ⟨n.append m, by rw [Nested.lexemes_append]; exact hlines.append hmoreLines, ?_⟩
  intro rest
  rw [Nested.tokens, Nested.lexemes_append, tokensOf_append, List.append_assoc, ← Nested.tokens,
    ← Nested.tokens, hread, hmoreRead, Option.map_map]
  simp [Function.comp_def]

/-- A line with a semicolon behind balanced tokens that are a statement. -/
theorem single {line : String} {n : Nested} {found : Statement}
    (hline : SpelledLine line (n.lexemes ++ [semicolon])) (hstop : ";" ∉ n.top)
    (hfirst : BeginsWithout statementEnds n.tokens) (hread : statement? n.tokens = some found) :
    StatementLines [line] [found] := by
  refine ⟨n.append (.leaf semicolon (by decide) .nil), ?_, ?_⟩
  · rw [Nested.lexemes_append]
    exact .single hline
  · intro rest
    have htake := takeStatement_nested hstop (show semicolon.token.text = ";" from rfl) rest
    rw [Nested.tokens, Nested.lexemes_append, tokensOf_append, ← Nested.tokens]
    show statements (n.tokens ++ [semicolon.token] ++ rest) = _
    rw [List.append_assoc, List.singleton_append]
    cases hn : n.tokens with
    | nil =>
        rw [hn] at hread
        cases hread
    | cons t ts =>
        rw [hn] at htake hread hfirst
        exact statements_cons (beginsWithout_cons.1 hfirst) htake hread

/-- A line of pieces without brackets and a semicolon behind them. -/
theorem plain {line : String} {found : Statement} (levels : Nat) (ps : List CodePiece)
    (hline : line.toList = (margin levels).toList ++ spell (ps ++ pieces [";"]))
    (h : apart (ps ++ pieces [";"]) = true)
    (hplain : ps.all (·.avoids (";" :: bracketTexts)) = true)
    (hfirst : BeginsWithout statementEnds (tokensOf (lexemesOf ps)))
    (hread : statement? (tokensOf (lexemesOf ps)) = some found) :
    StatementLines [line] [found] := by
  have hbrackets : ps.all (·.avoids bracketTexts) = true := by
    rw [List.all_eq_true] at hplain ⊢
    intro p hp
    have hp := hplain p hp
    cases p with
    | mark text hmark =>
        simp only [CodePiece.avoids, List.contains_cons, Bool.not_or, Bool.and_eq_true] at hp ⊢
        exact hp.2
    | _ => rfl
  have houtside : OutsideNames (";" :: bracketTexts) := by decide
  refine single (n := .ofPieces ps hbrackets) ?_ ?_ ?_ ?_
  · rw [lexemes_ofPieces]
    have hspelled := SpelledLine.ofPieces levels _ hline h
    rw [lexemesOf_append] at hspelled
    exact hspelled
  · intro hmem
    obtain ⟨t, ht, htext⟩ := Nested.exists_of_mem_top hmem
    rw [lexemes_ofPieces] at ht
    exact text_not_mem_lexemesOf houtside hplain t ht (htext ▸ List.mem_cons_self)
  · rwa [Nested.tokens, lexemes_ofPieces]
  · rwa [Nested.tokens, lexemes_ofPieces]

end StatementLines

/-! ### Lines of sections -/

/-- What stands in front of a section or at the end, where statements end. -/
def EndsStatements (ts : List Token) : Prop :=
  ∀ t ∈ ts.head?, t.text ∈ statementEnds

theorem EndsStatements.append {ts rest : List Token} (h : EndsStatements ts)
    (hrest : EndsStatements rest) : EndsStatements (ts ++ rest) := by
  cases ts with
  | nil => exact hrest
  | cons => exact h

/-- Lines that are read as the given sections, in front of another section or at the end. -/
def SectionLines (lines : List String) (found : List SwitchSection) : Prop :=
  ∃ n : Nested, SpelledLines lines n.lexemes ∧ EndsStatements n.tokens ∧
    ∀ rest : List Token, EndsStatements rest →
      switchSections (n.tokens ++ rest) = (switchSections rest).map (found ++ ·)

namespace SectionLines

theorem nil : SectionLines [] [] := by
  refine ⟨.nil, .nil, ?_, ?_⟩
  · intro t ht
    cases ht
  · intro rest _
    simp

theorem append {lines more : List String} {found others : List SwitchSection}
    (h : SectionLines lines found) (hmore : SectionLines more others) :
    SectionLines (lines ++ more) (found ++ others) := by
  obtain ⟨n, hlines, hends, hread⟩ := h
  obtain ⟨m, hmoreLines, hmoreEnds, hmoreRead⟩ := hmore
  have htokens : (n.append m).tokens = n.tokens ++ m.tokens := by
    rw [Nested.tokens, Nested.lexemes_append, tokensOf_append]
    rfl
  refine ⟨n.append m, ?_, ?_, ?_⟩
  · rw [Nested.lexemes_append]
    exact hlines.append hmoreLines
  · rw [htokens]
    exact hends.append hmoreEnds
  · intro rest hrest
    rw [htokens, List.append_assoc, hread _ (hmoreEnds.append hrest), hmoreRead _ hrest,
      Option.map_map]
    simp [Function.comp_def]

theorem flatMap {α : Type} {items : List α} {lines : α → List String} {found : α → SwitchSection}
    (h : ∀ item ∈ items, SectionLines (lines item) [found item]) :
    SectionLines (items.flatMap lines) (items.map found) := by
  induction items with
  | nil => exact nil
  | cons item items ih =>
      exact append (h item List.mem_cons_self) (ih fun i hi => h i (List.mem_cons_of_mem _ hi))

/-- The line of a label, which has no brackets, in front of the lines of statements. -/
theorem single {line : String} {ps : List CodePiece} {lines : List String} {label : Option String}
    {body : List Statement} (hline : SpelledLine line (lexemesOf ps))
    (hplain : ps.all (·.avoids bracketTexts) = true)
    (hends : EndsStatements (tokensOf (lexemesOf ps)))
    (hlabel : ∀ rest, sectionLabel? (tokensOf (lexemesOf ps) ++ rest) = some (label, rest))
    (hbody : StatementLines lines body) : SectionLines (line :: lines) [⟨label, body⟩] := by
  obtain ⟨m, hlines, hread⟩ := hbody
  have htokens : ((Nested.ofPieces ps hplain).append m).tokens =
      tokensOf (lexemesOf ps) ++ m.tokens := by
    rw [Nested.tokens, Nested.lexemes_append, tokensOf_append, lexemes_ofPieces]
    rfl
  refine ⟨(Nested.ofPieces ps hplain).append m, ?_, ?_, ?_⟩
  · rw [Nested.lexemes_append, lexemes_ofPieces]
    exact .cons hline hlines
  · have hne : tokensOf (lexemesOf ps) ≠ [] := by
      intro hnil
      have hnone := hlabel []
      rw [hnil] at hnone
      cases hnone
    obtain ⟨t, ts, hts⟩ := List.exists_cons_of_ne_nil hne
    rw [htokens, hts]
    rw [hts] at hends
    exact hends
  · intro rest hrest
    -- the statements of the section end where the next label stands
    have hstatements : statements (m.tokens ++ rest) = some (body, rest) := by
      rw [hread, statements_end hrest]
      simp
    rw [htokens, List.append_assoc, switchSections_cons (hlabel _) hstatements]
    rfl

end SectionLines

/-! ### The method as a program -/

/-- The statements that take the string from a reference. -/
def branchStatements (variant : Variant) (reference : String) : List Statement :=
  match variant with
  | .literal => [.returns ⟨reference, none⟩]
  | .formatted => [.assigns "discoveredValue" ⟨reference, none⟩, .breaks]

/-- The exception that a value without a string is answered with. -/
def refusal : CallExpression :=
  ⟨"global::System.ArgumentOutOfRangeException",
    some ["nameof(valueToLookup)", "valueToLookup", "\"Provided value was invalid\""]⟩

namespace Mapping

/-- The section of a value that has a property of its own. -/
def caseSection (m : Mapping) (b : Binding) : SwitchSection :=
  ⟨some (m.labelOf b.member), branchStatements m.variant b.reference⟩

/-- The section of all other values. -/
def defaultSection (m : Mapping) : SwitchSection :=
  ⟨none, match m.defaultBinding.bound? with
    | some reference => branchStatements m.variant reference
    | none => [.throws refusal]⟩

/-- The parameters of the method: the value, and the detail where there is one. -/
def parameters (m : Mapping) : List Parameter :=
  ⟨true, m.view.typeText, valueParameter⟩ ::
    if m.variant.hasDetail then [⟨false, "string", detailParameter⟩] else []

/-- **The method of a mapping as a program.** -/
def program (m : Mapping) : SwitchMethod where
  returnType := "string"
  name := m.writtenMethod
  parameters := m.parameters
  front := if m.variant.hasDetail then [.declares "string" "discoveredValue"] else []
  subject := valueParameter
  sections := m.bindings.map m.caseSection ++ [m.defaultSection]
  back :=
    if m.variant.hasDetail then
      [.returns ⟨"string.Format", some ["discoveredValue", detailParameter]⟩]
    else []

end Mapping

/-! ### The lines of the method are read as the program -/

/-- A reference is read as an expression. -/
theorem callExpression?_absolute (n : DottedName) :
    callExpression? (tokensOf n.absolute.lexemes) = some ⟨globalMark ++ n.text, none⟩ := by
  rw [callExpression?_name, charsOf_absolute, String.ofList_toList]

theorem statementLines_break : StatementLines [margin 3 ++ "break;"] [.breaks] := by
  refine .plain 3 (pieces ["break"]) ?_ rfl rfl (beginsWithout_cons.2 (by decide)) rfl
  simp (disch := decide) [spell_pieces]

/-- **The lines of a branch** are read as its statements. -/
theorem statementLines_branch (variant : Variant) {reference : String} (h : IsReference reference) :
    StatementLines (branchLines variant reference) (branchStatements variant reference) := by
  obtain ⟨n, rfl⟩ := h
  cases variant with
  | literal =>
      refine .plain 3 (pieces ["return", " "] ++ [.name n.absolute]) ?_ rfl rfl ?_ ?_
      · simp (disch := decide) [spell_pieces, charsOf_absolute]
      · exact beginsWithout_cons.2 (by decide)
      · show (callExpression? (tokensOf (n.absolute.lexemes ++ []))).map Statement.returns = _
        rw [List.append_nil, callExpression?_absolute]
        rfl
  | formatted =>
      have hassign : StatementLines
          [margin 3 ++ "discoveredValue = " ++ (globalMark ++ n.text) ++ ";"]
          [.assigns "discoveredValue" ⟨globalMark ++ n.text, none⟩] := by
        refine .plain 3 (pieces ["discoveredValue", " ", "=", " "] ++ [.name n.absolute]) ?_ rfl rfl
          ?_ ?_
        · simp (disch := decide) [spell_pieces, charsOf_absolute]
        · exact beginsWithout_cons.2 (by decide)
        · show (callExpression? (tokensOf (n.absolute.lexemes ++ []))).bind
            (fun value => some (Statement.assigns "discoveredValue" value)) = _
          rw [List.append_nil, callExpression?_absolute]
          rfl
      exact hassign.append statementLines_break

/-- The line that refuses a value is read as a statement that throws. -/
theorem statementLines_refusal : StatementLines [refusalLine] [.throws refusal] := by
  have hline : SpelledLine refusalLine ((refusalNested .nil).lexemes ++ [semicolon]) := by
    refine .ofPieces 3 (refusalFront ++ (pieces ["(", "nameof", "(", valueParameter, ")"]
      ++ (refusalMessage ++ pieces [")", ";"]))) ?_ rfl
    simp (disch := decide)
      [refusalLine, refusalFront, refusalMessage, spell_pieces, QuotedLiteral.plain]
  exact .single hline (by decide) (beginsWithout_cons.2 (by decide)) rfl

/-- A name with one more segment. -/
def WrittenName.member (n : WrittenName) (s : Segment) : WrittenName :=
  ⟨n.head, n.tail ++ [(.point, s)]⟩

theorem charsOf_member (n : WrittenName) (s : Segment) :
    charsOf (n.member s).lexemes = charsOf n.lexemes ++ '.' :: s.lexeme.text.toList := by
  simp [WrittenName.member, WrittenName.lexemes, NameMark.lexeme]
  rfl

/-- The line of a case as pieces. -/
def labelPieces (label : WrittenName) : List CodePiece :=
  pieces ["case", " "] ++ .name label :: pieces [":"]

/-- The line of a case is read as its label. -/
theorem sectionLabel?_labelPieces (label : WrittenName) (rest : List Token) :
    sectionLabel? (tokensOf (lexemesOf (labelPieces label)) ++ rest) =
      some (some (String.ofList (charsOf label.lexemes)), rest) := by
  have hcolon : BeginsWithout [".", "::"] (colon.token :: rest) := beginsWithout_cons.2 (by decide)
  have hname := writtenName?_lexemes label hcolon
  show (writtenName? (tokensOf (label.lexemes ++ [colon]) ++ rest)).bind _ = _
  rw [tokensOf_append, List.append_assoc]
  exact congrArg (Option.bind · _) hname

/-- **The lines of a case** are read as a section with its label. -/
theorem sectionLines_case (m : Mapping) {n : DottedName} (htype : m.view.typeReference = n.text)
    {b : Binding} (hmember : isIdentifier b.member = true) (hreference : IsReference b.reference) :
    SectionLines (caseLines m.variant m.view.typeText b) [m.caseSection b] := by
  obtain ⟨label, hlabel⟩ : ∃ label : WrittenName,
      charsOf label.lexemes = (m.labelOf b.member).toList := by
    refine ⟨(n.written .escaped).member (.escaped ⟨b.member, hmember⟩), ?_⟩
    simp [charsOf_member, charsOf_typeText htype, Segment.escaped_text, Mapping.labelOf]
  have hline : SpelledLine
      (margin 2 ++ "case " ++ m.view.typeText ++ "." ++ escapeName b.member ++ ":")
      (lexemesOf (labelPieces label)) := by
    refine .ofPieces 2 _ ?_ rfl
    simp (disch := decide) [labelPieces, spell_pieces, hlabel, Mapping.labelOf]
  have hends : EndsStatements (tokensOf (lexemesOf (labelPieces label))) := by
    intro t ht
    cases ht
    decide
  refine .single hline rfl hends ?_ (statementLines_branch m.variant hreference)
  intro rest
  rw [sectionLabel?_labelPieces, hlabel, String.ofList_toList]

/-- **The lines of the default** are read as the section without a label. -/
theorem sectionLines_default (m : Mapping)
    (h : ∀ reference ∈ m.defaultBinding.bound?, IsReference reference) :
    SectionLines (defaultLines m.variant m.defaultBinding) [m.defaultSection] := by
  have hline : SpelledLine (margin 2 ++ "default:") (lexemesOf (pieces ["default", ":"])) := by
    refine .ofPieces 2 _ ?_ rfl
    simp (disch := decide) [spell_pieces]
  have hends : EndsStatements (tokensOf (lexemesOf (pieces ["default", ":"]))) := by
    intro t ht
    cases ht
    decide
  rw [defaultLines, Mapping.defaultSection]
  refine .single hline rfl hends (fun rest => rfl) ?_
  cases hbound : m.defaultBinding.bound? with
  | none => exact statementLines_refusal
  | some reference => exact statementLines_branch m.variant (h reference hbound)

/-! ### Reading the method -/

/-- A mapping whose names are names: of the values, of the type, of the method, of the bound values
and of the properties that they and the default are bound to. -/
structure Mapping.PlainlyNamed (m : Mapping) : Prop where
  members : ∀ member ∈ m.view.members, isIdentifier member = true
  typeReference : ∃ n : DottedName, m.view.typeReference = n.text
  methodName : ∃ s : Segment, m.methodName = .ofString s.lexeme.text
  bindings : ∀ b ∈ m.bindings, isIdentifier b.member = true ∧ IsReference b.reference
  fallback : ∀ reference ∈ m.defaultBinding.reference, IsReference reference

theorem Mapping.PlainlyNamed.bound {m : Mapping} (h : m.PlainlyNamed) :
    ∀ reference ∈ m.defaultBinding.bound?, IsReference reference :=
  fun reference hbound => h.fallback reference (Option.mem_filter_iff.1 hbound).1

theorem Mapping.PlainlyNamed.ofString_writtenMethod {m : Mapping} (h : m.PlainlyNamed) :
    .ofString m.writtenMethod = m.methodName := by
  obtain ⟨method, hmethod⟩ := h.methodName
  rw [m.writtenMethod_of_eq hmethod, hmethod]

/-- The receiver of the method as pieces. -/
def receiverPieces (type : WrittenName) : List CodePiece :=
  pieces ["this", " "] ++ .name type :: pieces [" ", valueParameter]

theorem parameter?_receiver (type : WrittenName) :
    parameter? (tokensOf (lexemesOf (receiverPieces type))) =
      some ⟨true, String.ofList (charsOf type.lexemes), valueParameter⟩ := by
  have hvalue : BeginsWithout [".", "::"] (tokensOf (lexemesOf (pieces [valueParameter]))) :=
    beginsWithout_cons.2 (by decide)
  have hname := writtenName?_lexemes type hvalue
  rw [← tokensOf_append] at hname
  exact congrArg (Option.bind · _) hname

/-- **The parameters** are read one after the other. -/
theorem splitArguments_parameters (m : Mapping) {type : WrittenName}
    (h : charsOf type.lexemes = m.view.typeText.toList) :
    (splitArguments (tokensOf (lexemesOf (parameterPieces m.variant type)))).mapM parameter? =
      some m.parameters := by
  have hmarks : OutsideNames (constantMarks.erase "=") := by decide
  have hplain : ∀ t ∈ tokensOf (lexemesOf (receiverPieces type)),
      t.text ∉ constantMarks.erase "=" := by
    intro t ht
    obtain ⟨l, hl, rfl⟩ := List.mem_map.1 ht
    exact text_not_mem_lexemesOf hmarks rfl l hl
  have hreceiver := parameter?_receiver type
  rw [h, String.ofList_toList] at hreceiver
  rw [Mapping.parameters, splitArguments]
  cases m.variant with
  | literal =>
      show (splitArgumentsFrom 0 []
        (tokensOf (lexemesOf (receiverPieces type)))).mapM parameter? = _
      rw [splitArgumentsFrom_flat hplain (List.cons_ne_nil _ _), List.nil_append, List.mapM_cons,
        hreceiver]
      rfl
  | formatted =>
      have hsplit : tokensOf (lexemesOf (parameterPieces .formatted type)) =
          tokensOf (lexemesOf (receiverPieces type)) ++
            tokensOf (lexemesOf (pieces [",", "string", detailParameter])) := by
        simp [parameterPieces, receiverPieces]
        rfl
      rw [hsplit, splitArgumentsFrom_append hplain, List.nil_append]
      show (tokensOf (lexemesOf (receiverPieces type)) ::
        splitArgumentsFrom 0 []
          (tokensOf (lexemesOf (pieces ["string", detailParameter])))).mapM parameter? = _
      rw [List.mapM_cons, hreceiver]
      rfl

/-- The lines of the formatted variant around the switch are read as statements. -/
theorem statementLines_detail :
    StatementLines [margin 1 ++ "string discoveredValue;"] [.declares "string" "discoveredValue"] ∧
    StatementLines [margin 1 ++ "return string.Format(discoveredValue, " ++ detailParameter ++ ");"]
      [.returns ⟨"string.Format", some ["discoveredValue", detailParameter]⟩] := by
  constructor
  · refine .plain 1 (pieces ["string", " ", "discoveredValue"]) ?_ rfl rfl
      (beginsWithout_cons.2 (by decide)) rfl
    simp (disch := decide) [spell_pieces]
  · refine .single (n := (Nested.ofPieces (pieces ["return", "string", ".", "Format"]) rfl).append
        (.group .round (.ofPieces (pieces ["discoveredValue", ",", detailParameter]) rfl) .nil))
      (.ofPieces 1
        (pieces ["return", " ", "string", ".", "Format", "(", "discoveredValue", ",", " ",
          detailParameter, ")", ";"]) ?_ rfl) (by decide) (beginsWithout_cons.2 (by decide)) rfl
    simp (disch := decide) [spell_pieces]

/-- What stands in front of the switch is read as the statements of the program there. -/
theorem statementLines_front (m : Mapping) :
    StatementLines (if m.variant.hasDetail then [margin 1 ++ "string discoveredValue;"] else [])
      m.program.front := by
  rw [Mapping.program]
  cases m.variant with
  | literal => exact .nil
  | formatted => exact statementLines_detail.1

/-- What stands behind it is read as those that follow it. -/
theorem statementLines_back (m : Mapping) : StatementLines
    (if m.variant.hasDetail then
      [margin 1 ++ "return string.Format(discoveredValue, " ++ detailParameter ++ ");"]
    else []) m.program.back := by
  rw [Mapping.program]
  cases m.variant with
  | literal => exact .nil
  | formatted => exact statementLines_detail.2

theorem tokens_ofPieces (ps : List CodePiece) (h : ps.all (·.avoids bracketTexts) = true) :
    (Nested.ofPieces ps h).tokens = tokensOf (lexemesOf ps) := by
  rw [Nested.tokens, lexemes_ofPieces]

theorem group?_nested (b : Bracket) (inside rest : Nested) :
    group? b.openingText b.closingText (Nested.group b inside rest).tokens =
      some (inside.tokens, rest.tokens) := by
  rw [group?, Nested.tokens_group, takeGroup_nested]
  rfl

/-- A switch over the value, and what stands behind it, as balanced tokens. -/
def switchNested (inside back : Nested) : Nested :=
  .leaf (.word "switch" (by decide)) (by decide)
    (.group .round valueNested (.group .curly inside back))

/-- A switch over the value is read as its sections. -/
theorem switch?_tokens {inside : Nested} {sections : List SwitchSection}
    (h : switchSections inside.tokens = some sections) (back : Nested) :
    switch? (switchNested inside back).tokens = some (valueParameter, sections, back.tokens) := by
  have hhead : headIs "switch" (switchNested inside back).tokens = true := rfl
  have hround : group? "(" ")" ((switchNested inside back).tokens.drop 1) = _ :=
    group?_nested .round valueNested (.group .curly inside back)
  have hcurly : group? "\x7b" "\x7d" (Nested.group .curly inside back).tokens = _ :=
    group?_nested .curly inside back
  rw [switch?, if_pos hhead, hround]
  simp only [Option.bind_eq_bind, Option.bind_some, hcurly, h]
  rfl

/-- **The body of the method** is read as the statements in front of the switch, the switch, and the
statements behind it. -/
theorem exists_body {m : Mapping} (h : m.PlainlyNamed) :
    ∃ body : Nested, SpelledLines m.bodyLines body.lexemes ∧ ∃ behind afterSwitch : List Token,
      statements body.tokens = some (m.program.front, behind) ∧
      switch? behind = some (valueParameter, m.program.sections, afterSwitch) ∧
      statements afterSwitch = some (m.program.back, []) := by
  obtain ⟨n, htype⟩ := h.typeReference
  obtain ⟨front, hfrontLines, hfront⟩ := statementLines_front m
  obtain ⟨back, hbackLines, hback⟩ := statementLines_back m
  have hcases : SectionLines (m.bindings.flatMap (caseLines m.variant m.view.typeText))
      (m.bindings.map m.caseSection) := by
    refine .flatMap ?_
    intro b hb
    obtain ⟨hmember, hreference⟩ := h.bindings b hb
    exact sectionLines_case m htype hmember hreference
  obtain ⟨inside, hinsideLines, _, hinside⟩ := hcases.append (sectionLines_default m h.bound)
  refine ⟨front.append (switchNested inside back), ?_, (switchNested inside back).tokens,
    back.tokens, ?_, ?_, ?_⟩
  · have hswitch : SpelledLine (margin 1 ++ "switch (" ++ valueParameter ++ ")")
        (lexemesOf (pieces ["switch", "(", valueParameter, ")"])) := by
      refine .ofPieces 1 (pieces ["switch", " ", "(", valueParameter, ")"]) ?_ rfl
      simp (disch := decide) [spell_pieces]
    have hlines := hfrontLines.append (.append (.single hswitch) (.cons (openingLine.behindMargin 1)
      ((hinsideLines.append (.single (closingLine.behindMargin 1))).append hbackLines)))
    have htokens : (front.append (switchNested inside back)).lexemes = front.lexemes ++
        (lexemesOf (pieces ["switch", "(", valueParameter, ")"]) ++ ([Bracket.curly.opening] ++
          ((inside.lexemes ++ [Bracket.curly.closing]) ++ back.lexemes))) := by
      simp [switchNested, Nested.lexemes]
      rfl
    rw [htokens, Mapping.bodyLines]
    exact hlines
  · -- the statements in front end where the switch stands
    have hends : EndsStatements (switchNested inside back).tokens := by
      intro t ht
      cases ht
      decide
    rw [Nested.tokens, Nested.lexemes_append, tokensOf_append]
    refine (hfront _).trans ?_
    rw [← Nested.tokens, statements_end hends]
    simp
  · have hsections := hinside [] (by simp [EndsStatements])
    rw [List.append_nil, switchSections_nil] at hsections
    exact switch?_tokens (hsections.trans (congrArg some (List.append_nil _))) back
  · have hstatements := hback []
    rw [List.append_nil, statements_nil] at hstatements
    simpa using hstatements

theorem parameterPieces_plain (variant : Variant) (type : WrittenName) :
    (parameterPieces variant type).all (·.avoids bracketTexts) = true := by
  cases variant <;> rfl

/-- What follows the name of the method, as balanced tokens: the parameters and the body. -/
def methodRest (variant : Variant) (type : WrittenName) (body : Nested) : Nested :=
  .group .round (.ofPieces (parameterPieces variant type) (parameterPieces_plain variant type))
    (.group .curly body .nil)

theorem tokensOf_methodSyntax (variant : Variant) (method : Segment) (type : WrittenName)
    (body : Nested) :
    tokensOf (methodSyntax variant method type body).lexemes =
      (Lexeme.word "public" (by decide)).token :: (Lexeme.word "static" (by decide)).token ::
        (Segment.bare ⟨"string", by decide⟩).lexeme.token :: method.lexeme.token ::
        (methodRest variant type body).tokens := by
  simp [MethodSyntax.lexemes, methodSyntax, methodRest, Nested.tokens, Nested.lexemes]
  exact ⟨rfl, rfl⟩

/-- **Reading the method** gives the program of the mapping. -/
theorem switchMethod?_methodText {m : Mapping} (h : m.PlainlyNamed) :
    switchMethod? (bareTokens m.methodText.toList) = some m.program := by
  obtain ⟨n, htype⟩ := h.typeReference
  obtain ⟨method, hmethod⟩ := h.methodName
  obtain ⟨body, hbody, behind, afterSwitch, hfront, hswitch, hback⟩ := exists_body h
  have hopening : BeginsWithout [".", "::"]
      (methodRest m.variant (n.written .escaped) body).tokens :=
    beginsWithout_cons.2 (by decide)
  have hname := writtenName?_segment method hopening
  rw [← m.writtenMethod_of_eq hmethod] at hname
  have hround : group? "(" ")" (methodRest m.variant (n.written .escaped) body).tokens = _ :=
    group?_nested .round (.ofPieces _ (parameterPieces_plain ..)) (.group .curly body .nil)
  have hcurly : group? "\x7b" "\x7d" (Nested.group .curly body .nil).tokens = _ :=
    group?_nested .curly body .nil
  have hparameters := splitArguments_parameters m (charsOf_typeText htype)
  rw [tokens_ofPieces] at hround
  rw [(spelledText_method hmethod htype hbody).bareTokens, tokensOf_methodSyntax, switchMethod?]
  simp only [behindWords?, headIs_cons, Option.bind_eq_bind, Option.bind_some, Lexeme.token_text,
    word_text, beq_self_eq_true, if_true, List.drop_succ_cons, List.drop_zero,
    writtenName?_segment _ (method.beginsWithout_marks _), hname, hround, hcurly, hfront, hswitch,
    hback, hparameters, Nested.tokens_nil]
  rfl

end LocalisedEnum

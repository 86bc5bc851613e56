import LocalisedEnum.Extension.Source
import LocalisedEnum.Proofs.Declaration.Tree
import LocalisedEnum.Proofs.Extension.Lines

/-!
**The extension class as a tree.**

The class that is generated for a mapping is spelled out of the names in the mapping.  When these
are names of the language, the lines of the class are read as the tokens of a tree: a class with one
method in it, which has parameters and a balanced body, whatever cases and branches the body is made
of.

Main definitions:

* `Segment.escaped`, `DottedName.written`, `DottedName.absolute` — the names in generated code;
* `BalancedLines` — lines in which the brackets are balanced;
* `Mapping.WellNamed` — a mapping in which all names are names.

Main results:

* `balancedLines_cases`, `balancedLines_default` — the branches of the method;
* `exists_methodSyntax` — the method as a tree;
* `exists_classTree` — **the class as a tree**.
-/

set_option autoImplicit false
set_option relaxedAutoImplicit false

namespace LocalisedEnum

/-! ### Names in generated code -/

/-- A word as a segment, marked if it is a reserved one. -/
def Segment.escaped (w : Word) : Segment :=
  ⟨w, keywords.contains w.text⟩

theorem Segment.escaped_text (w : Word) : (Segment.escaped w).lexeme.text = escapeName w.text := by
  rw [Segment.lexeme, escapeName, Segment.escaped]
  split <;> rfl

/-- A name joined by points, with each of its words written in the given way. -/
def DottedName.written (f : Word → Segment) (n : DottedName) : WrittenName :=
  ⟨f n.head, n.tail.map fun w => (.point, f w)⟩

theorem isIdentifier_global : isIdentifier "global" = true := by
  decide

/-- A name joined by points behind the mark that makes it absolute. -/
def DottedName.absolute (n : DottedName) : WrittenName :=
  ⟨.bare ⟨"global", isIdentifier_global⟩,
    (.colons, .bare n.head) :: n.tail.map fun w => (.point, .bare w)⟩

theorem charsOf_written (f : Word → Segment) (n : DottedName) :
    charsOf (n.written f).lexemes =
      (joinDots ((n.head :: n.tail).map fun w => (f w).lexeme.text)).toList := by
  obtain ⟨head, tail⟩ := n
  rw [toList_joinDots]
  induction tail generalizing head with
  | nil => simp [DottedName.written, WrittenName.lexemes, joinSegments]
  | cons next tail ih =>
      have hnext := ih next
      have hdot : dot.text.toList = ['.'] := by decide
      simp only [DottedName.written, WrittenName.lexemes, charsOf_cons, List.map_cons,
        List.flatMap_cons, List.cons_append, List.nil_append, NameMark.lexeme] at hnext ⊢
      rw [hnext, hdot]
      rfl

theorem charsOf_bare (n : DottedName) : charsOf (n.written .bare).lexemes = n.text.toList :=
  charsOf_written .bare n

theorem charsOf_absolute (n : DottedName) :
    charsOf n.absolute.lexemes = (globalMark ++ n.text).toList := by
  rw [String.toList_append, ← charsOf_bare n]
  simp [DottedName.absolute, DottedName.written, WrittenName.lexemes]
  rfl

/-- The words of a name are found again between its points. -/
theorem splitString_dotted (n : DottedName) :
    splitString '.' n.text = (n.head :: n.tail).map (·.text) := by
  have hpoint : ∀ w : Word, '.' ∉ w.text.toList := by
    intro w hmem
    exact absurd (isWord_of_mem_identifier w.identifier hmem) (by decide)
  refine splitString_joinDots (List.cons_ne_nil _ _) ?_
  intro part hpart
  rcases List.mem_cons.1 hpart with rfl | hpart
  · exact hpoint n.head
  · obtain ⟨w, _, rfl⟩ := List.mem_map.1 hpart
    exact hpoint w

theorem typeText_eq {e : EnumView} {n : DottedName} (h : e.typeReference = n.text) :
    e.typeText = joinDots ((n.head :: n.tail).map fun w => escapeName w.text) := by
  rw [EnumView.typeText, h, splitString_dotted, List.map_map]
  rfl

/-- The type of an enum as generated code refers to it. -/
theorem charsOf_typeText {e : EnumView} {n : DottedName} (h : e.typeReference = n.text) :
    charsOf (n.written .escaped).lexemes = e.typeText.toList := by
  rw [charsOf_written, typeText_eq h]
  simp only [Segment.escaped_text]

/-! ### Pieces without certain marks -/

/-- Whether a piece is none of the given marks. -/
def CodePiece.avoids (texts : List String) : CodePiece → Bool
  | mark text _ => !texts.contains text
  | _ => true

/-- Marks that are not found inside names. -/
def OutsideNames (texts : List String) : Prop :=
  ∀ text ∈ texts, text.toList ∈ operators ∧ text ∉ [".", "::"]

instance (texts : List String) : Decidable (OutsideNames texts) :=
  inferInstanceAs (Decidable (∀ text ∈ texts, text.toList ∈ operators ∧ text ∉ [".", "::"]))

theorem Segment.text_not_mem (s : Segment) {texts : List String} (h : OutsideNames texts) :
    s.lexeme.text ∉ texts := by
  intro hmem
  obtain ⟨c, cs, hcs, hc, _⟩ := s.exists_head
  obtain ⟨d, ds, hds, hd⟩ := CodePiece.mark_head (h _ hmem).1
  rw [hcs] at hds
  cases hds
  exact hc hd

theorem CodePiece.text_not_mem {p : CodePiece} {texts : List String} (h : OutsideNames texts)
    (hp : p.avoids texts = true) : ∀ t ∈ p.lexemes, t.text ∉ texts := by
  cases p with
  | blank => exact fun _ ht => nomatch ht
  | name n =>
      intro t ht
      rcases List.mem_cons.1 ht with rfl | ht
      · exact n.head.text_not_mem h
      · obtain ⟨⟨mark, segment⟩, _, ht⟩ := List.mem_flatMap.1 ht
        rcases List.mem_cons.1 ht with rfl | ht
        · have hname : mark.lexeme.text ∈ [".", "::"] := by cases mark <;> decide
          exact fun hmem => (h _ hmem).2 hname
        · rw [List.mem_singleton.1 ht]
          exact segment.text_not_mem h
  | mark text hmark =>
      intro t ht
      rw [List.mem_singleton.1 ht]
      simpa [avoids] using hp
  | literal l =>
      intro t ht hmem
      rw [List.mem_singleton.1 ht] at hmem
      obtain ⟨cs, hcs⟩ := List.head?_eq_some_iff.1 l.quoted
      obtain ⟨d, ds, hds, hd⟩ := mark_head (h _ hmem).1
      rw [hcs] at hds
      cases hds
      exact absurd hd (by decide)

theorem text_not_mem_lexemesOf {ps : List CodePiece} {texts : List String} (h : OutsideNames texts)
    (hps : ps.all (·.avoids texts) = true) : ∀ t ∈ lexemesOf ps, t.text ∉ texts := by
  intro t ht
  obtain ⟨p, hp, ht⟩ := List.mem_flatMap.1 ht
  exact CodePiece.text_not_mem h (List.all_eq_true.1 hps p hp) t ht

/-! ### Lines with balanced brackets -/

theorem outsideNames_brackets : OutsideNames bracketTexts := by
  decide

/-- Pieces without brackets. -/
def Nested.ofPieces (ps : List CodePiece) (h : ps.all (·.avoids bracketTexts) = true) : Nested :=
  .flat (lexemesOf ps) (text_not_mem_lexemesOf outsideNames_brackets h)

@[simp] theorem lexemes_ofPieces (ps : List CodePiece) (h : ps.all (·.avoids bracketTexts) = true) :
    (Nested.ofPieces ps h).lexemes = lexemesOf ps :=
  Nested.lexemes_flat ..

/-- Lines that are read as balanced tokens. -/
def BalancedLines (lines : List String) : Prop :=
  ∃ n : Nested, SpelledLines lines n.lexemes

namespace BalancedLines

theorem nil : BalancedLines [] :=
  ⟨.nil, .nil⟩

theorem append {lines more : List String} (h : BalancedLines lines) (hmore : BalancedLines more) :
    BalancedLines (lines ++ more) := by
  obtain ⟨n, hn⟩ := h
  obtain ⟨m, hm⟩ := hmore
  exact ⟨n.append m, by rw [Nested.lexemes_append]; exact hn.append hm⟩

theorem flatMap {α : Type} {items : List α} {lines : α → List String}
    (h : ∀ item ∈ items, BalancedLines (lines item)) : BalancedLines (items.flatMap lines) := by
  induction items with
  | nil => exact nil
  | cons item items ih =>
      exact append (h item List.mem_cons_self) (ih fun i hi => h i (List.mem_cons_of_mem _ hi))

/-- Lines between braces that have lines of their own. -/
theorem braces {lines : List String} (h : BalancedLines lines) (levels : Nat) :
    BalancedLines ((margin levels ++ "\x7b") :: (lines ++ [margin levels ++ "\x7d"])) := by
  obtain ⟨n, hn⟩ := h
  have hopening := openingLine.behindMargin levels
  have hclosing := closingLine.behindMargin levels
  refine ⟨.group .curly n .nil, ?_⟩
  exact .cons hopening (hn.append (.single hclosing))

/-- A line of pieces without brackets. -/
theorem plain {line : String} (levels : Nat) (ps : List CodePiece)
    (hline : line.toList = (margin levels).toList ++ spell ps) (h : apart ps = true)
    (hplain : ps.all (·.avoids bracketTexts) = true) : BalancedLines [line] := by
  refine ⟨.ofPieces ps hplain, ?_⟩
  rw [lexemes_ofPieces]
  exact .single (.ofPieces levels ps hline h)

/-- A line of pieces with brackets that are balanced. -/
theorem ofNested {line : String} (levels : Nat) (ps : List CodePiece) (n : Nested)
    (hline : line.toList = (margin levels).toList ++ spell ps) (h : apart ps = true)
    (htokens : n.lexemes = lexemesOf ps) : BalancedLines [line] := by
  refine ⟨n, ?_⟩
  rw [htokens]
  exact .single (.ofPieces levels ps hline h)

end BalancedLines

/-! ### The branches of the method -/

/-- A reference to a property: a name joined by points behind the mark that makes it absolute. -/
def IsReference (text : String) : Prop :=
  ∃ n : DottedName, text = globalMark ++ n.text

/-- The lines that take a string are balanced. -/
theorem balancedLines_branch (variant : Variant) {reference : String} (h : IsReference reference) :
    BalancedLines (branchLines variant reference) := by
  obtain ⟨n, rfl⟩ := h
  cases variant with
  | literal =>
      refine .plain 3 (pieces ["return", " "] ++ .name n.absolute :: pieces [";"]) ?_ rfl rfl
      simp (disch := decide) [spell_pieces, charsOf_absolute]
  | formatted =>
      have hassign : BalancedLines
          [margin 3 ++ "discoveredValue = " ++ (globalMark ++ n.text) ++ ";"] := by
        refine .plain 3
          (pieces ["discoveredValue", " ", "=", " "] ++ .name n.absolute :: pieces [";"]) ?_ rfl rfl
        simp (disch := decide) [spell_pieces, charsOf_absolute]
      have hbreak : BalancedLines [margin 3 ++ "break;"] := by
        refine .plain 3 (pieces ["break", ";"]) ?_ rfl rfl
        simp (disch := decide) [spell_pieces]
      exact hassign.append hbreak

/-- The case of a value is balanced. -/
theorem balancedLines_case (variant : Variant) {e : EnumView} {n : DottedName}
    (htype : e.typeReference = n.text) {b : Binding} (hmember : isIdentifier b.member = true)
    (hreference : IsReference b.reference) : BalancedLines (caseLines variant e.typeText b) := by
  have hlabel : BalancedLines
      [margin 2 ++ "case " ++ e.typeText ++ "." ++ escapeName b.member ++ ":"] := by
    refine .plain 2 (pieces ["case", " "] ++ .name (n.written .escaped) :: (pieces ["."]
      ++ .segment (.escaped ⟨b.member, hmember⟩) :: pieces [":"])) ?_ rfl rfl
    simp (disch := decide) [spell_pieces, charsOf_typeText htype, Segment.escaped_text]
  exact hlabel.append (balancedLines_branch variant hreference)

/-- The pieces of the line that refuses a value, up to its brackets. -/
def refusalFront : List CodePiece :=
  pieces ["throw", " ", "new", " ", "global", "::", "System", ".", "ArgumentOutOfRangeException"]

/-- What follows the name of the parameter when a value is refused. -/
def refusalMessage : List CodePiece :=
  pieces [",", " ", valueParameter, ",", " "] ++
    [.literal (.plain "Provided value was invalid" (by decide))]

/-- The parameter for the value as balanced tokens. -/
def valueNested : Nested :=
  .ofPieces (pieces [valueParameter]) rfl

/-- The line that refuses a value as balanced tokens, with what ends it. -/
def refusalNested (ending : Nested) : Nested :=
  (Nested.ofPieces refusalFront rfl).append
    (.group .round ((Nested.ofPieces (pieces ["nameof"]) rfl).append
        (.group .round valueNested (.ofPieces refusalMessage rfl)))
      ending)

/-- The line that refuses a value is balanced. -/
theorem balancedLines_refusal : BalancedLines [refusalLine] := by
  refine .ofNested 3
    (refusalFront ++
      (pieces ["(", "nameof", "(", valueParameter, ")"] ++ (refusalMessage ++ pieces [")", ";"])))
    (refusalNested (.ofPieces (pieces [";"]) rfl)) ?_ rfl rfl
  simp (disch := decide)
    [refusalLine, refusalFront, refusalMessage, spell_pieces, QuotedLiteral.plain]

/-- The branch of all other values is balanced. -/
theorem balancedLines_default (variant : Variant) {d : DefaultBinding}
    (h : ∀ reference ∈ d.bound?, IsReference reference) :
    BalancedLines (defaultLines variant d) := by
  have hlabel : BalancedLines [margin 2 ++ "default:"] := by
    refine .plain 2 (pieces ["default", ":"]) ?_ rfl rfl
    simp (disch := decide) [spell_pieces]
  rw [defaultLines]
  refine hlabel.append ?_
  cases hbound : d.bound? with
  | none => exact balancedLines_refusal
  | some reference => exact balancedLines_branch variant (h reference hbound)

/-! ### The method -/

/-- A namespace: the global one, or a name joined by points. -/
def IsNamespace (text : String) : Prop :=
  text = "" ∨ ∃ n : DottedName, text = n.text

namespace Mapping

/-- A mapping whose names are names: of an enum with values, of the type and its namespace, of the
method, of the bound values and of the properties that they are bound to. -/
structure WellNamed (m : Mapping) : Prop where
  members : m.view.members ≠ []
  enumName : isIdentifier m.view.name = true
  typeReference : ∃ n : DottedName, m.view.typeReference = n.text
  namespaceName : IsNamespace m.view.namespaceName
  methodName : ∃ s : Segment, m.methodName = .ofString s.lexeme.text
  bindings : ∀ b ∈ m.bindings, isIdentifier b.member = true ∧ IsReference b.reference
  fallback : ∀ reference ∈ m.defaultBinding.bound?, IsReference reference

/-- The lines between the braces of the method. -/
def bodyLines (m : Mapping) : List String :=
  (if m.variant.hasDetail then [margin 1 ++ "string discoveredValue;"] else [])
    ++ ([margin 1 ++ "switch (" ++ valueParameter ++ ")"]
    ++ ((margin 1 ++ "\x7b") :: (m.bindings.flatMap (caseLines m.variant m.view.typeText)
      ++ defaultLines m.variant m.defaultBinding ++ [margin 1 ++ "\x7d"])
    ++ (if m.variant.hasDetail then
        [margin 1 ++ "return string.Format(discoveredValue, " ++ detailParameter ++ ");"]
      else [])))

theorem methodLines_eq_body (m : Mapping) :
    m.methodLines = m.signature :: "\x7b" :: (m.bodyLines ++ ["\x7d"]) := by
  simp [methodLines, bodyLines]

end Mapping

/-- The lines of the formatted variant around the branches are balanced. -/
theorem balancedLines_detail : BalancedLines [margin 1 ++ "string discoveredValue;"] ∧
    BalancedLines
      [margin 1 ++ "return string.Format(discoveredValue, " ++ detailParameter ++ ");"] := by
  constructor
  · refine .plain 1 (pieces ["string", " ", "discoveredValue", ";"]) ?_ rfl rfl
    simp (disch := decide) [spell_pieces]
  · refine .ofNested 1
      (pieces ["return", " ", "string", ".", "Format", "(", "discoveredValue", ",", " ",
        detailParameter, ")", ";"])
      ((Nested.ofPieces (pieces ["return", "string", ".", "Format"]) rfl).append
        (.group .round (.ofPieces (pieces ["discoveredValue", ",", detailParameter]) rfl)
          (.ofPieces (pieces [";"]) rfl))) ?_ rfl rfl
    simp (disch := decide) [spell_pieces]

theorem balancedLines_switch : BalancedLines [margin 1 ++ "switch (" ++ valueParameter ++ ")"] := by
  refine .ofNested 1 (pieces ["switch", " ", "(", valueParameter, ")"])
    ((Nested.ofPieces (pieces ["switch"]) rfl).append
      (.group .round (.ofPieces (pieces [valueParameter]) rfl) .nil)) ?_ rfl rfl
  simp (disch := decide) [spell_pieces]

/-- **The body of the method** is balanced, whatever branches it has. -/
theorem balancedLines_body {m : Mapping} (h : m.WellNamed) : BalancedLines m.bodyLines := by
  obtain ⟨n, htype⟩ := h.typeReference
  have hcases : BalancedLines (m.bindings.flatMap (caseLines m.variant m.view.typeText)) := by
    refine .flatMap ?_
    intro b hb
    obtain ⟨hmember, hreference⟩ := h.bindings b hb
    exact balancedLines_case m.variant htype hmember hreference
  have hbranches := (hcases.append (balancedLines_default m.variant h.fallback)).braces 1
  obtain ⟨hdeclaration, hreturn⟩ := balancedLines_detail
  rw [Mapping.bodyLines]
  cases m.variant.hasDetail with
  | true => exact hdeclaration.append (balancedLines_switch.append (hbranches.append hreturn))
  | false => exact balancedLines_switch.append (hbranches.append .nil)

/-- The parameters of the method as pieces. -/
def parameterPieces (variant : Variant) (type : WrittenName) : List CodePiece :=
  pieces ["this", " "] ++ .name type :: (pieces [" ", valueParameter] ++
    match variant with
    | .literal => []
    | .formatted => pieces [",", " ", "string", " ", detailParameter])

/-- The first line of the method as pieces. -/
def signaturePieces (variant : Variant) (method : Segment) (type : WrittenName) : List CodePiece :=
  pieces ["public", " ", "static", " ", "string", " "] ++ .segment method ::
    (pieces ["("] ++ (parameterPieces variant type ++ pieces [")"]))

theorem outsideNames_headerEnds : OutsideNames headerEnds := by
  decide

/-- The method as a declaration. -/
def methodSyntax (variant : Variant) (method : Segment) (type : WrittenName) (body : Nested) :
    MethodSyntax where
  modifiers := [⟨"public", public_isModifier⟩, ⟨"static", by decide⟩]
  noConst := by decide
  head := ⟨"string", isIdentifier_string⟩
  head_ordinary := string_ordinary
  suffix := .leaf method.lexeme (method.text_not_mem outsideNames_brackets)
    (.group .round (.ofPieces (parameterPieces variant type) (by cases variant <;> rfl)) .nil)
  parameters := List.mem_cons_of_mem _ List.mem_cons_self
  open_ended := by
    have hround : ∀ text ∈ ["(", ")"], text ∉ headerEnds := by decide
    intro text htext hmem
    rcases List.mem_cons.1 hmem with rfl | hmem
    · exact method.text_not_mem outsideNames_headerEnds htext
    · exact hround text hmem htext
  noDefaults := by
    have hequals : OutsideNames ["="] := by decide
    have hparameters : (parameterPieces variant type).all (·.avoids ["="]) = true := by
      cases variant <;> rfl
    intro t ht heq
    simp only [Nested.lexemes, lexemes_ofPieces, List.mem_cons, List.mem_append, List.not_mem_nil,
      or_false] at ht
    rcases ht with rfl | rfl | ht | rfl
    · exact method.text_not_mem hequals (List.mem_singleton.2 heq)
    · exact absurd heq (by decide)
    · exact text_not_mem_lexemesOf hequals hparameters t ht (List.mem_singleton.2 heq)
    · exact absurd heq (by decide)
  body := body

theorem spelledLine_signature (m : Mapping) {method : Segment}
    (hmethod : m.methodName = .ofString method.lexeme.text) {n : DottedName}
    (htype : m.view.typeReference = n.text) :
    SpelledLine m.signature
      (lexemesOf (signaturePieces m.variant method (n.written .escaped))) := by
  refine .ofPieces 0 _ ?_ ?_
  · rw [m.signature_eq, m.writtenMethod_of_eq hmethod]
    cases m.variant <;> simp (disch := decide)
      [signaturePieces, parameterPieces, spell_pieces, charsOf_typeText htype, Variant.hasDetail]
  · cases m.variant <;> rfl

/-- The method is read as a declaration when its first line is read as the pieces of that, whatever
its body is read as. -/
theorem SpelledText.withBody {m : Mapping} {method : Segment} {type : WrittenName}
    (h : SpelledText m.signature (lexemesOf (signaturePieces m.variant method type)))
    {body : Nested} (hbody : SpelledLines m.bodyLines body.lexemes) :
    SpelledText m.methodText (methodSyntax m.variant method type body).lexemes := by
  obtain ⟨lines, hne, htext, hlines⟩ := h
  have hmethod : m.methodText = unlines (lines ++ ("\x7b" :: (m.bodyLines ++ ["\x7d"]))) := by
    rw [Mapping.methodText, m.methodLines_eq_body, htext]
    exact unlines_nested [] _ hne
  have htokens : (methodSyntax m.variant method type body).lexemes =
      lexemesOf (signaturePieces m.variant method type) ++
        ([Bracket.curly.opening] ++ (body.lexemes ++ [Bracket.curly.closing])) := by
    simp [MethodSyntax.lexemes, methodSyntax, signaturePieces, Nested.lexemes]
    rfl
  refine ⟨_, by simp, hmethod, ?_⟩
  rw [htokens]
  exact hlines.append (.cons openingLine (hbody.append (.single closingLine)))

/-- The lines of the method are read as a declaration around whatever its body is read as. -/
theorem spelledText_method {m : Mapping} {method : Segment}
    (hmethod : m.methodName = .ofString method.lexeme.text) {n : DottedName}
    (htype : m.view.typeReference = n.text) {body : Nested}
    (hbody : SpelledLines m.bodyLines body.lexemes) :
    SpelledText m.methodText (methodSyntax m.variant method (n.written .escaped) body).lexemes :=
  (SpelledText.ofLine (spelledLine_signature m hmethod htype)).withBody hbody

/-- **The method** is read as a declaration with parameters and a body. -/
theorem exists_methodSyntax {m : Mapping} (h : m.WellNamed) :
    ∃ d : MethodSyntax, SpelledText m.methodText d.lexemes := by
  obtain ⟨n, htype⟩ := h.typeReference
  obtain ⟨method, hmethod⟩ := h.methodName
  obtain ⟨body, hbody⟩ := balancedLines_body h
  exact ⟨methodSyntax m.variant method (n.written .escaped) body,
    spelledText_method hmethod htype hbody⟩

/-! ### The class -/

/-- The name of the class is none of the words that mean something: it is longer than all of
them. -/
theorem className_ordinary (e : EnumView) : e.extensionClassName ∉ declarationWords := by
  -- the ending alone is longer than each of the words
  have hlengths : ∀ word ∈ declarationWords, word.length < 22 := by decide
  intro hmem
  have hlength := hlengths _ hmem
  have hending : "LocalizationExtensions".length = 22 := by decide
  rw [EnumView.extensionClassName, String.length_append] at hlength
  omega

theorem isIdentifier_className {e : EnumView} (h : isIdentifier e.name = true) :
    isIdentifier e.extensionClassName = true := by
  have hending : "LocalizationExtensions".toList.all isWord = true := by decide
  obtain ⟨c, cs, hcs, hc, hword⟩ := isIdentifier_iff.1 h
  refine isIdentifier_iff.2 ⟨c, cs ++ "LocalizationExtensions".toList, ?_, hc, ?_⟩
  · rw [EnumView.extensionClassName, String.toList_append, hcs, List.cons_append]
  · exact List.forall_mem_append.2 ⟨hword, List.all_eq_true.1 hending⟩

/-- The modifiers that make a class as accessible as an enum. -/
def accessModifiers : Accessibility → List Modifier
  | .publicLevel => [⟨"public", public_isModifier⟩]
  | .internalLevel => [⟨"internal", internal_isModifier⟩]
  | _ => []

/-- The class for an enum without its body. -/
def classSyntax (e : EnumView) (h : isIdentifier e.name = true) : TypeSyntax where
  sections := []
  modifiers := accessModifiers e.accessibility ++ [⟨"static", by decide⟩, ⟨"partial", by decide⟩]
  keyword := .classType
  name := ⟨⟨e.extensionClassName, isIdentifier_className h⟩, className_ordinary e⟩
  bases := none

/-- The first line of the class as pieces. -/
def classPieces (e : EnumView) (h : isIdentifier e.name = true) : List CodePiece :=
  (match e.accessibility with
    | .publicLevel => pieces ["public", " "]
    | .internalLevel => pieces ["internal", " "]
    | _ => [])
    ++ (pieces ["static", " ", "partial", " ", "class", " "]
      ++ [.word e.extensionClassName (isIdentifier_className h)])

theorem spelledLine_class (e : EnumView) (h : isIdentifier e.name = true) :
    SpelledLine
      (accessibilityText e.accessibility ++ "static partial class " ++ e.extensionClassName)
      (lexemesOf (classPieces e h)) := by
  refine .ofPieces 0 _ ?_ ?_
  · rw [classPieces]
    cases e.accessibility <;> simp (disch := decide) [accessibilityText, spell_pieces]
  · rw [classPieces]
    cases e.accessibility <;> rfl

theorem lexemes_classSyntax (e : EnumView) (h : isIdentifier e.name = true) :
    (classSyntax e h).lexemes = lexemesOf (classPieces e h) ++ [Bracket.curly.opening] := by
  rw [TypeSyntax.lexemes, classPieces, classSyntax]
  cases e.accessibility <;> rfl

/-- A class is read as a tree around whatever its method is read as. -/
theorem SpelledText.inClass {m : Mapping} {d : MethodSyntax}
    (h : SpelledText m.methodText d.lexemes) (hname : isIdentifier m.view.name = true) :
    SpelledText m.classText
      (Declarations.type (classSyntax m.view hname) (.method d .nil) .nil).lexemes := by
  have htokens : (Declarations.type (classSyntax m.view hname) (.method d .nil) .nil).lexemes =
      lexemesOf (classPieces m.view hname) ++
        Bracket.curly.opening :: (d.lexemes ++ [Bracket.curly.closing]) := by
    simp [Declarations.lexemes, TypeBody.lexemes, lexemes_classSyntax]
  rw [htokens]
  exact h.inBlock (spelledLine_class m.view hname)

/-- **The class** is read as a tree with the method in it. -/
theorem exists_classTree {m : Mapping} (h : m.WellNamed) :
    ∃ d : MethodSyntax, SpelledText m.classText
      (Declarations.type (classSyntax m.view h.enumName) (.method d .nil) .nil).lexemes := by
  obtain ⟨d, hmethod⟩ := exists_methodSyntax h
  exact ⟨d, hmethod.inClass h.enumName⟩

end LocalisedEnum

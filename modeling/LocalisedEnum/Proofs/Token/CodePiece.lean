import LocalisedEnum.Proofs.Token.Spacing
import LocalisedEnum.Text.Lines

/-!
**Tokens without white space between them.**

Code that is not spread out has white space only where words would run together; elsewhere a token
ends because the next one begins.  Such code is put together from pieces here: blanks, names, marks
and literals.  Whether two pieces may be neighbours depends on what kind of pieces they are and on
the texts of marks alone, so for pieces with any names in them it can be computed that they stay
apart.

Main definitions:

* `Segment`, `WrittenName` — names as they are written, with reserved words among them;
* `CodePiece`, `spell`, `apart` — pieces, the characters they are written with, and whether they
  stay apart;
* `pieces` — pieces by their texts.

Main results:

* `bareTokens_name` — a name is read segment by segment;
* `bareTokens_spell` — **pieces that stay apart** are read as they were written.
-/

set_option autoImplicit false
set_option relaxedAutoImplicit false

namespace LocalisedEnum

/-! ### Names as they are written -/

/-- A segment of a name: a word, with or without the mark that lets a reserved word be used as a
name. -/
structure Segment extends Word where
  marked : Bool

/-- A word as a segment without the mark. -/
def Segment.bare (w : Word) : Segment :=
  ⟨w, false⟩

/-- A segment as a token. -/
def Segment.lexeme (s : Segment) : Lexeme :=
  if s.marked then .markedWord s.text s.identifier else s.toWord.lexeme

@[simp] theorem Segment.bare_lexeme (w : Word) : (Segment.bare w).lexeme = w.lexeme := rfl

/-- A name with its segments and the marks between them. -/
structure WrittenName where
  head : Segment
  tail : List (NameMark × Segment)

/-- The tokens of a name. -/
def WrittenName.lexemes (n : WrittenName) : List Lexeme :=
  n.head.lexeme :: n.tail.flatMap fun part => [part.1.lexeme, part.2.lexeme]

/-- The characters of tokens that are written without white space between them. -/
def charsOf (ts : List Lexeme) : List Char :=
  ts.flatMap (·.text.toList)

@[simp] theorem charsOf_nil : charsOf [] = [] := rfl

@[simp] theorem charsOf_cons (t : Lexeme) (ts : List Lexeme) :
    charsOf (t :: ts) = t.text.toList ++ charsOf ts := rfl

@[simp] theorem charsOf_append (ts us : List Lexeme) :
    charsOf (ts ++ us) = charsOf ts ++ charsOf us :=
  List.flatMap_append

/-- A token in front of what does not go on with it. -/
theorem Lexeme.bareTokens_before (t : Lexeme) {rest : List Char}
    (h : ∀ x ∈ rest.head?, goesOn t.kind t.text.toList x = false) :
    LocalisedEnum.bareTokens (t.text.toList ++ rest) =
      t.token :: LocalisedEnum.bareTokens rest := by
  rw [bareTokens_token (t.stands.before h), String.ofList_toList]
  rfl

theorem isWord_of_mem_operatorChars {c : Char} (h : c ∈ operatorChars) : isWord c = false := by
  have hall : operatorChars.all (fun c => !isWord c) = true := by decide
  simpa using List.all_eq_true.1 hall c h

/-- A segment begins with a letter, a low line or an at sign. -/
theorem Segment.exists_head (s : Segment) :
    ∃ c cs, s.lexeme.text.toList = c :: cs ∧ c ∉ operatorChars ∧ c ≠ '"' := by
  obtain ⟨c, cs, heq, hstart, _⟩ := isIdentifier_iff.1 s.identifier
  have hc : isWord c = true := isWord_of_isWordStart hstart
  have hmarks : ∀ {x : Char}, isWord x = false → c ≠ x := by
    rintro x hx rfl
    rw [hc] at hx
    cases hx
  -- a marked segment begins with its mark, another one with its first letter
  rw [Segment.lexeme]
  split
  · exact ⟨'@', s.text.toList, String.toList_append, by decide, by decide⟩
  · exact ⟨c, cs, heq, fun hmem => hmarks (isWord_of_mem_operatorChars hmem) rfl,
      hmarks (by decide)⟩

/-- A segment goes on as long as word characters follow. -/
theorem Segment.goesOn_eq (s : Segment) (c : Char) :
    goesOn s.lexeme.kind s.lexeme.text.toList c = isWord c := by
  rw [Segment.lexeme]
  split <;> rfl

theorem NameMark.exists_head (m : NameMark) :
    ∃ c cs, m.lexeme.text.toList = c :: cs ∧ isWord c = false := by
  cases m with
  | point => exact ⟨'.', [], rfl, by decide⟩
  | colons => exact ⟨':', [':'], rfl, by decide⟩

theorem bareTokens_parts (parts : List (NameMark × Segment)) {rest : List Char}
    (h : ∀ x ∈ rest.head?, isWord x = false) :
    let ts := parts.flatMap fun part => [part.1.lexeme, part.2.lexeme]
    bareTokens (charsOf ts ++ rest) = tokensOf ts ++ bareTokens rest ∧
      ∀ x ∈ (charsOf ts ++ rest).head?, isWord x = false := by
  induction parts with
  | nil => exact ⟨rfl, h⟩
  | cons part parts ih =>
      obtain ⟨ihTokens, ihHead⟩ := ih
      obtain ⟨mark, segment⟩ := part
      obtain ⟨c, cs, hmark, hc⟩ := mark.exists_head
      obtain ⟨d, ds, hsegment, hd, _⟩ := segment.exists_head
      have hkind : mark.lexeme.kind = .operator := by cases mark <;> rfl
      simp only [List.flatMap_cons, List.cons_append, List.nil_append, charsOf_cons, tokensOf_cons,
        List.append_assoc]
      refine ⟨?_, ?_⟩
      · rw [mark.lexeme.bareTokens_before, segment.lexeme.bareTokens_before, ihTokens]
        · intro x hx
          rw [segment.goesOn_eq]
          exact ihHead x hx
        · intro x hx
          rw [hsegment] at hx
          cases hx
          rw [hkind]
          exact extendsOperator_of_not_mem hd
      · intro x hx
        rw [hmark] at hx
        cases hx
        exact hc

/-- **A name** is read segment by segment. -/
theorem bareTokens_name (n : WrittenName) {rest : List Char}
    (h : ∀ x ∈ rest.head?, isWord x = false) :
    bareTokens (charsOf n.lexemes ++ rest) = tokensOf n.lexemes ++ bareTokens rest := by
  obtain ⟨htokens, hhead⟩ := bareTokens_parts n.tail h
  rw [WrittenName.lexemes, charsOf_cons, List.append_assoc, n.head.lexeme.bareTokens_before,
    htokens]
  · rfl
  · intro x hx
    rw [n.head.goesOn_eq]
    exact hhead x hx

/-! ### Pieces -/

/-- A character that ends a line is blank, and no word goes on with it. -/
theorem isBlank_of_isLineEnd {c : Char} (h : isLineEnd c = true) : isBlank c = true := by
  simp only [isLineEnd, Bool.or_eq_true, Bool.and_eq_true, decide_eq_true_eq, beq_iff_eq] at h
  simp only [isBlank, Bool.or_eq_true, Bool.and_eq_true, decide_eq_true_eq, beq_iff_eq]
  omega

theorem isLineEnd_of_isWord {c : Char} (h : isWord c = true) : isLineEnd c = false := by
  rw [Bool.eq_false_iff]
  intro hc
  rw [isWord_of_isBlank (isBlank_of_isLineEnd hc)] at h
  cases h

/-- A regular literal with nothing in front of its quotes, on one line. -/
structure QuotedLiteral where
  lexeme : Lexeme
  kind : lexeme.kind = .string
  quoted : lexeme.text.toList.head? = some '"'
  oneLine : ∀ c ∈ lexeme.text.toList, isLineEnd c = false

/-- A character that stands for itself in a regular literal on one line. -/
def isPlain (c : Char) : Bool :=
  c != '"' && c != '\\' && !isLineEnd c

theorem isPlain_iff {c : Char} : isPlain c = true ↔ c ≠ '"' ∧ c ≠ '\\' ∧ isLineEnd c = false := by
  simp [isPlain, and_assoc]

theorem escapedBody_plain {cs : List Char} (h : cs.all isPlain = true) : EscapedBody '"' cs := by
  induction cs with
  | nil => exact .nil
  | cons c cs ih =>
      rw [List.all_cons, Bool.and_eq_true] at h
      obtain ⟨hquote, hslash, hline⟩ := isPlain_iff.1 h.1
      have hfeed : c ≠ '\n' := by
        rintro rfl
        exact absurd hline (by decide)
      exact .plain hquote hslash hfeed (ih h.2)

/-- Without a backslash there is nothing to unescape. -/
theorem unescape_plain {cs : List Char} (h : '\\' ∉ cs) : unescape cs = .ok (cs.map .scalar) := by
  induction cs with
  | nil => rw [unescape]; rfl
  | cons c cs ih =>
      have ih := ih fun hmem => h (List.mem_cons_of_mem _ hmem)
      have hc : c ≠ '\\' := fun hc => h (hc ▸ List.mem_cons_self)
      cases cs with
      | nil => rw [unescape]; rfl
      | cons d ds => rw [unescape, if_neg hc, ih]; rfl

theorem literalValue_plain {body : String} (h : '\\' ∉ body.toList) :
    (Token.bare .string ("\"" ++ body ++ "\"")).literalValue =
      .ok (some (body.toList.map .scalar)) := by
  have htext : ("\"" ++ body ++ "\"").toList = '"' :: (body.toList ++ ['"']) := by
    simp
  have hinner : inner 1 1 ('"' :: (body.toList ++ ['"'])) = body.toList := by
    simp [inner]
  simp only [Token.literalValue, Token.bare_kind, Token.bare_text, htext, hinner, unescape_plain h]
  rfl

/-- A regular literal of a text in which nothing has to be escaped. -/
def QuotedLiteral.plain (body : String) (h : body.toList.all isPlain = true) : QuotedLiteral where
  lexeme :=
    { kind := .string
      text := "\"" ++ body ++ "\""
      stands := by
        have hlead : ['"'] ∈ stringLeads := by decide
        have hstands :=
          Stands.string hlead (escapedBody_plain h) (show [].head? ≠ some '"' by decide)
        simpa using hstands
      decodes :=
        ⟨_, literalValue_plain fun hmem => (isPlain_iff.1 (List.all_eq_true.1 h _ hmem)).2.1 rfl⟩ }
  kind := rfl
  quoted := by simp
  oneLine := by
    have hquote : isLineEnd '"' = false := by decide
    intro c hc
    simp only [String.toList_append, List.mem_append] at hc
    rcases hc with (hc | hc) | hc
    · exact List.mem_singleton.1 (show c ∈ ['"'] from hc) ▸ hquote
    · exact (isPlain_iff.1 (List.all_eq_true.1 h c hc)).2.2
    · exact List.mem_singleton.1 (show c ∈ ['"'] from hc) ▸ hquote

/-- A piece of code. -/
inductive CodePiece where
  | blank
  | name (n : WrittenName)
  | mark (text : String) (h : text.toList ∈ operators)
  | literal (l : QuotedLiteral)

namespace CodePiece

/-- The tokens of a piece. -/
def lexemes : CodePiece → List Lexeme
  | blank => []
  | name n => n.lexemes
  | mark text h => [.operator text h]
  | literal l => [l.lexeme]

/-- The characters of a piece. -/
def chars : CodePiece → List Char
  | blank => [' ']
  | name n => charsOf n.lexemes
  | mark text _ => text.toList
  | literal l => l.lexeme.text.toList

/-- A single segment as a piece. -/
def segment (s : Segment) : CodePiece :=
  name ⟨s, []⟩

/-- A single word as a piece. -/
def word (text : String) (h : isIdentifier text = true) : CodePiece :=
  segment (.bare ⟨text, h⟩)

@[simp] theorem chars_blank : blank.chars = [' '] := rfl

@[simp] theorem chars_name (n : WrittenName) : (name n).chars = charsOf n.lexemes := rfl

@[simp] theorem chars_mark (text : String) (h : text.toList ∈ operators) :
    (mark text h).chars = text.toList := rfl

@[simp] theorem chars_literal (l : QuotedLiteral) : (literal l).chars = l.lexeme.text.toList := rfl

@[simp] theorem chars_segment (s : Segment) : (segment s).chars = s.lexeme.text.toList :=
  List.append_nil _

@[simp] theorem chars_word (text : String) (h : isIdentifier text = true) :
    (word text h).chars = text.toList :=
  List.append_nil _

@[simp] theorem lexemes_blank : blank.lexemes = [] := rfl

@[simp] theorem lexemes_name (n : WrittenName) : (name n).lexemes = n.lexemes := rfl

@[simp] theorem lexemes_mark (text : String) (h : text.toList ∈ operators) :
    (mark text h).lexemes = [.operator text h] := rfl

@[simp] theorem lexemes_literal (l : QuotedLiteral) : (literal l).lexemes = [l.lexeme] := rfl

@[simp] theorem lexemes_segment (s : Segment) : (segment s).lexemes = [s.lexeme] := rfl

@[simp] theorem lexemes_word (text : String) (h : isIdentifier text = true) :
    (word text h).lexemes = [.word text h] := rfl

/-- Whether a character behind a piece goes on with it. -/
def goesOnWith : CodePiece → Char → Bool
  | blank, _ => false
  | name _, c => isWord c
  | mark text _, c => extendsOperator text.toList c
  | literal _, c => c == '"'

/-- Whether two pieces may be neighbours. -/
def meets : CodePiece → CodePiece → Bool
  | blank, _ => true
  | _, blank => true
  | name _, name _ => false
  | literal _, literal _ => false
  | mark text _, mark next _ => next.toList.head?.all fun c => !extendsOperator text.toList c
  | _, _ => true

/-- A piece in front of what does not go on with it. -/
theorem bareTokens (p : CodePiece) {rest : List Char}
    (h : ∀ x ∈ rest.head?, p.goesOnWith x = false) :
    LocalisedEnum.bareTokens (p.chars ++ rest) =
      tokensOf p.lexemes ++ LocalisedEnum.bareTokens rest := by
  cases p with
  | blank => exact bareTokens_cons_blank (by decide) rest
  | name n => exact bareTokens_name n h
  | mark text hmark => exact (Lexeme.operator text hmark).bareTokens_before h
  | literal l =>
      refine l.lexeme.bareTokens_before ?_
      rw [l.kind]
      exact h

theorem mem_operatorChars {text : List Char} (h : text ∈ operators) {c : Char} (hc : c ∈ text) :
    c ∈ operatorChars := by
  rw [operators, List.mem_append, List.mem_map] at h
  rw [operatorChars, List.mem_append]
  rcases h with h | ⟨d, hd, rfl⟩
  · exact Or.inl (List.mem_flatten.2 ⟨text, h, hc⟩)
  · exact Or.inr (List.mem_singleton.1 hc ▸ hd)

theorem mark_head {text : String} (h : text.toList ∈ operators) :
    ∃ c cs, text.toList = c :: cs ∧ c ∈ operatorChars := by
  cases hcs : text.toList with
  | nil =>
      rw [hcs] at h
      exact absurd h (by decide)
  | cons c cs => exact ⟨c, cs, rfl, mem_operatorChars h (hcs ▸ List.mem_cons_self)⟩

/-- What a piece begins with. -/
theorem exists_head (p : CodePiece) : ∃ c cs, p.chars = c :: cs ∧
    match p with
    | blank => isBlank c = true
    | name _ => c ∉ operatorChars ∧ c ≠ '"'
    | mark text _ => c ∈ operatorChars ∧ text.toList.head? = some c
    | literal _ => c = '"' := by
  cases p with
  | blank => exact ⟨' ', [], rfl, by decide⟩
  | name n =>
      obtain ⟨c, cs, hcs, hc⟩ := n.head.exists_head
      refine ⟨c, cs ++ charsOf (n.tail.flatMap fun part => [part.1.lexeme, part.2.lexeme]), ?_, hc⟩
      rw [chars, WrittenName.lexemes, charsOf_cons, hcs, List.cons_append]
  | mark text h =>
      obtain ⟨c, cs, hcs, hmem⟩ := mark_head h
      exact ⟨c, cs, hcs, hmem, by rw [hcs]; rfl⟩
  | literal l =>
      obtain ⟨cs, hcs⟩ := List.head?_eq_some_iff.1 l.quoted
      exact ⟨'"', cs, hcs, rfl⟩

theorem isLineEnd_of_mem_operatorChars {c : Char} (h : c ∈ operatorChars) :
    isLineEnd c = false := by
  have hall : operatorChars.all (fun c => !isLineEnd c) = true := by decide
  simpa using List.all_eq_true.1 hall c h

/-- No piece goes beyond its line. -/
theorem oneLine (p : CodePiece) : ∀ c ∈ p.chars, isLineEnd c = false := by
  have hsegment : ∀ s : Segment, ∀ c ∈ s.lexeme.text.toList, isLineEnd c = false := by
    intro s c hc
    have hword : ∀ x ∈ s.text.toList, isLineEnd x = false := fun x hx =>
      isLineEnd_of_isWord (isWord_of_mem_identifier s.identifier hx)
    rw [Segment.lexeme] at hc
    split at hc
    · rcases List.mem_append.1 (String.toList_append ▸ hc) with hc | hc
      · rw [List.mem_singleton.1 hc]
        decide
      · exact hword c hc
    · exact hword c hc
  cases p with
  | blank => exact fun c hc => List.mem_singleton.1 hc ▸ (by decide)
  | name n =>
      intro c hc
      obtain ⟨t, ht, hc⟩ := List.mem_flatMap.1 hc
      rcases List.mem_cons.1 ht with rfl | ht
      · exact hsegment _ c hc
      · obtain ⟨⟨mark, segment⟩, _, ht⟩ := List.mem_flatMap.1 ht
        rcases List.mem_cons.1 ht with rfl | ht
        · have hmark : mark.lexeme.text.toList ∈ operators := by cases mark <;> decide
          exact isLineEnd_of_mem_operatorChars (mem_operatorChars hmark hc)
        · exact hsegment segment c (List.mem_singleton.1 ht ▸ hc)
  | mark text h =>
      exact fun c hc => isLineEnd_of_mem_operatorChars (mem_operatorChars h hc)
  | literal l => exact l.oneLine

theorem goesOnWith_blank (p : CodePiece) {c : Char} (hc : isBlank c = true) :
    p.goesOnWith c = false := by
  cases p with
  | blank => rfl
  | name _ => exact goesOn_blank .identifier [] hc
  | mark text _ => exact goesOn_blank .operator text.toList hc
  | literal _ => exact goesOn_blank .string [] hc

/-- Neighbours that may meet do not run together. -/
theorem goesOnWith_of_meets {p q : CodePiece} (h : p.meets q = true) (rest : List Char) :
    ∀ x ∈ (q.chars ++ rest).head?, p.goesOnWith x = false := by
  -- all that counts of the second piece is its first character
  obtain ⟨c, cs, hcs, hc⟩ := q.exists_head
  intro x hx
  rw [hcs] at hx
  cases hx
  have hquote : '"' ∉ operatorChars := by decide
  cases p with
  | blank => rfl
  | name _ =>
      cases q with
      | blank => exact goesOnWith_blank _ hc
      | name _ => cases h
      | mark _ _ => exact isWord_of_mem_operatorChars hc.1
      | literal _ =>
          cases hc
          exact (by decide : isWord '"' = false)
  | mark text _ =>
      cases q with
      | blank => exact goesOnWith_blank (.mark text ‹_›) hc
      | name _ => exact extendsOperator_of_not_mem hc.1
      | mark next _ =>
          simp only [meets, hc.2, Option.all_some, Bool.not_eq_true'] at h
          exact h
      | literal _ =>
          cases hc
          exact extendsOperator_of_not_mem hquote
  | literal _ =>
      cases q with
      | blank => exact goesOnWith_blank (.literal ‹_›) hc
      | name _ => exact beq_eq_false_iff_ne.2 hc.2
      | mark _ _ => exact beq_eq_false_iff_ne.2 fun heq => hquote (heq ▸ hc.1)
      | literal _ => cases h

end CodePiece

/-! ### Pieces in a row -/

/-- The characters of pieces. -/
def spell (ps : List CodePiece) : List Char :=
  ps.flatMap CodePiece.chars

/-- The tokens of pieces. -/
def lexemesOf (ps : List CodePiece) : List Lexeme :=
  ps.flatMap CodePiece.lexemes

@[simp] theorem spell_nil : spell [] = [] := rfl

@[simp] theorem spell_cons (p : CodePiece) (ps : List CodePiece) :
    spell (p :: ps) = p.chars ++ spell ps := rfl

@[simp] theorem lexemesOf_nil : lexemesOf [] = [] := rfl

@[simp] theorem lexemesOf_cons (p : CodePiece) (ps : List CodePiece) :
    lexemesOf (p :: ps) = p.lexemes ++ lexemesOf ps := rfl

@[simp] theorem lexemesOf_append (ps qs : List CodePiece) :
    lexemesOf (ps ++ qs) = lexemesOf ps ++ lexemesOf qs :=
  List.flatMap_append

@[simp] theorem spell_append (ps qs : List CodePiece) : spell (ps ++ qs) = spell ps ++ spell qs :=
  List.flatMap_append

/-- A piece that is a blank, a word or a mark, by its text. -/
def CodePiece.ofText? (text : String) : Option CodePiece :=
  if text = " " then some .blank
  else if h : isIdentifier text = true then some (.word text h)
  else if h : text.toList ∈ operators then some (.mark text h)
  else none

theorem CodePiece.chars_of_ofText? {text : String} {p : CodePiece} (h : ofText? text = some p) :
    p.chars = text.toList := by
  rw [ofText?] at h
  split at h
  · next heq =>
    cases h
    rw [heq]
    rfl
  · split at h
    · cases h
      exact chars_word text _
    · split at h
      · cases h
        rfl
      · cases h

/-- The pieces with the given texts. -/
def pieces (texts : List String) : List CodePiece :=
  texts.filterMap CodePiece.ofText?

theorem spell_pieces {texts : List String}
    (h : (texts.all fun text => (CodePiece.ofText? text).isSome) = true) :
    spell (pieces texts) = texts.flatMap String.toList := by
  induction texts with
  | nil => rfl
  | cons text texts ih =>
      rw [List.all_cons, Bool.and_eq_true] at h
      obtain ⟨p, hp⟩ := Option.isSome_iff_exists.1 h.1
      rw [pieces, List.filterMap_cons_some hp, ← pieces, spell_cons, List.flatMap_cons, ih h.2,
        CodePiece.chars_of_ofText? hp]

/-- Whether all neighbours may meet. -/
def apart : List CodePiece → Bool
  | p :: q :: rest => p.meets q && apart (q :: rest)
  | _ => true

/-- **Pieces that stay apart** are read as they were written, in front of a blank or at the end. -/
theorem bareTokens_spell {ps : List CodePiece} (h : apart ps = true) {rest : List Char}
    (hrest : ∀ x ∈ rest.head?, isBlank x = true) :
    bareTokens (spell ps ++ rest) = tokensOf (lexemesOf ps) ++ bareTokens rest := by
  induction ps with
  | nil => rfl
  | cons p ps ih =>
      have hp : ∀ x ∈ (spell ps ++ rest).head?, p.goesOnWith x = false := by
        cases ps with
        | nil => exact fun x hx => p.goesOnWith_blank (hrest x hx)
        | cons q ps =>
            rw [apart, Bool.and_eq_true] at h
            rw [spell, List.flatMap_cons, List.append_assoc]
            exact CodePiece.goesOnWith_of_meets h.1 _
      have hps : apart ps = true := by
        cases ps with
        | nil => rfl
        | cons q ps => exact (Bool.and_eq_true _ _ ▸ h : _ ∧ _).2
      rw [spell, List.flatMap_cons, List.append_assoc, ← spell, p.bareTokens hp, ih hps, lexemesOf,
        lexemesOf, List.flatMap_cons, tokensOf_append, List.append_assoc]

end LocalisedEnum

import LocalisedEnum.Declaration.Fault
import LocalisedEnum.Proofs.Token.Lexeme

/-!
**Tokens between white space.**

Where a token stands is of no consequence for what it is.  So the tokens of a text are looked at
without their places, and then the tokens of a text are those of its first lexeme followed by those
of the rest.  A sequence of tokens that is written with white space behind each of them falls into
these tokens again, whatever the white space is.

Main definitions:

* `bareTokens` — the tokens of a text without their places;
* `Lexeme` — a token as it can be written;
* `Layout` — the white space around tokens, and `Layout.write`, the text that they make up.

Main results:

* `bareTokens_token`, `bareTokens_blank`, `bareTokens_comment` — the tokens of a text from those of
  its rest;
* `bareTokens_write` — **tokens between white space** are read as they were written.
-/

set_option autoImplicit false
set_option relaxedAutoImplicit false

namespace LocalisedEnum

/-! ### Tokens without their places -/

/-- A token without its place. -/
abbrev Token.unplaced (t : Token) : Token :=
  { t with line := 0, column := 0 }

/-- A token of a kind and a text, without a place. -/
def Token.bare (kind : TokenKind) (text : String) : Token :=
  ⟨kind, text, 0, 0⟩

@[simp] theorem Token.bare_kind (kind : TokenKind) (text : String) : (bare kind text).kind = kind :=
  rfl

@[simp] theorem Token.bare_text (kind : TokenKind) (text : String) : (bare kind text).text = text :=
  rfl

/-- The tokens of a text, without their places. -/
def bareTokens (cs : List Char) : List Token :=
  (tokeniseFrom .start cs).map Token.unplaced

theorem tokeniseFrom_nil (p : Place) : tokeniseFrom p [] = [] := by
  rw [tokeniseFrom.eq_def]

theorem tokeniseFrom_cons (p : Place) {c : Char} {cs : List Char} {kind : Option TokenKind}
    {length : Nat} (h : lexeme (c :: cs) = (kind, length)) :
    tokeniseFrom p (c :: cs) =
      (kind.map fun kind =>
        ⟨kind, String.ofList (c :: cs.take (length - 1)), p.line, p.column⟩).toList
        ++ tokeniseFrom (p.advance (c :: cs.take (length - 1))) (cs.drop (length - 1)) := by
  rw [tokeniseFrom.eq_def]
  simp only [h]
  cases kind <;> rfl

/-- Without their places the tokens do not depend on where the text begins. -/
theorem unplaced_tokeniseFrom (p q : Place) (cs : List Char) :
    (tokeniseFrom p cs).map Token.unplaced = (tokeniseFrom q cs).map Token.unplaced := by
  match cs with
  | [] => rw [tokeniseFrom_nil, tokeniseFrom_nil]
  | c :: cs =>
      obtain ⟨⟨kind, length⟩, h⟩ : ∃ l, lexeme (c :: cs) = l := ⟨_, rfl⟩
      -- the recursion is that of the tokeniser, on what the first lexeme leaves
      have ih := unplaced_tokeniseFrom (p.advance (c :: cs.take (length - 1)))
        (q.advance (c :: cs.take (length - 1))) (cs.drop (length - 1))
      rw [tokeniseFrom_cons p h, tokeniseFrom_cons q h, List.map_append, List.map_append, ih]
      cases kind <;> rfl
  termination_by cs.length
  decreasing_by exact rest_length_lt ..

/-- The tokens of a text are that of its first lexeme, if it leaves one, and those of the rest. -/
theorem tokeniseFrom_lexeme (p : Place) (text : List Char) {kind : Option TokenKind}
    (hne : text ≠ []) {rest : List Char} (h : lexeme (text ++ rest) = (kind, text.length)) :
    tokeniseFrom p (text ++ rest) =
      (kind.map fun kind => ⟨kind, String.ofList text, p.line, p.column⟩).toList ++
        tokeniseFrom (p.advance text) rest := by
  obtain ⟨c, cs, rfl⟩ := List.exists_cons_of_ne_nil hne
  rw [List.cons_append] at h ⊢
  rw [tokeniseFrom_cons p h, List.length_cons, Nat.add_sub_cancel, List.take_left, List.drop_left]

theorem bareTokens_lexeme (text : List Char) {kind : Option TokenKind} (hne : text ≠ [])
    {rest : List Char} (h : lexeme (text ++ rest) = (kind, text.length)) :
    bareTokens (text ++ rest) =
      (kind.map fun kind => Token.bare kind (String.ofList text)).toList ++ bareTokens rest := by
  rw [bareTokens, tokeniseFrom_lexeme _ text hne h, List.map_append, unplaced_tokeniseFrom _ .start,
    ← bareTokens]
  cases kind <;> rfl

@[simp] theorem bareTokens_nil : bareTokens [] = [] := by
  rw [bareTokens, tokeniseFrom_nil]
  rfl

/-- **A token at the front** is the first of the tokens. -/
theorem bareTokens_token {kind : TokenKind} {text rest : List Char} (h : Stands kind text rest) :
    bareTokens (text ++ rest) = Token.bare kind (String.ofList text) :: bareTokens rest :=
  bareTokens_lexeme text h.ne_nil (lexeme_of_stands h)

theorem bareTokens_dropWhile (cs : List Char) :
    bareTokens (cs.dropWhile isBlank) = bareTokens cs := by
  cases cs with
  | nil => rfl
  | cons c cs =>
      cases hc : isBlank c with
      | false => simp [hc]
      | true =>
          -- the blanks at the front are one lexeme, and no token
          have hsplit : c :: cs = (c :: cs).takeWhile isBlank ++ (c :: cs).dropWhile isBlank :=
            List.takeWhile_append_dropWhile.symm
          have hlexeme := lexeme_blank hc cs
          rw [hsplit] at hlexeme
          have hlength : (cs.takeWhile isBlank).length + 1 =
              ((c :: cs).takeWhile isBlank).length := by
            simp [hc]
          rw [hlength] at hlexeme
          have htokens := bareTokens_lexeme ((c :: cs).takeWhile isBlank) (by simp [hc]) hlexeme
          rw [← hsplit] at htokens
          exact htokens.symm

/-- **Blanks** leave no token. -/
theorem bareTokens_blank {blanks : List Char} (h : ∀ x ∈ blanks, isBlank x = true)
    (rest : List Char) : bareTokens (blanks ++ rest) = bareTokens rest := by
  rw [← bareTokens_dropWhile, List.dropWhile_append_of_pos h, bareTokens_dropWhile]

theorem bareTokens_cons_blank {c : Char} (h : isBlank c = true) (rest : List Char) :
    bareTokens (c :: rest) = bareTokens rest := by
  have hblank : ∀ x ∈ [c], isBlank x = true := fun x hx => List.mem_singleton.1 hx ▸ h
  exact bareTokens_blank hblank rest

/-- **A comment** leaves no token. -/
theorem bareTokens_comment {cs rest : List Char} (hcs : '\n' ∉ cs)
    (hrest : ∀ x ∈ rest.head?, x = '\n') :
    bareTokens ('/' :: '/' :: (cs ++ rest)) = bareTokens rest := by
  have hlength : 2 + cs.length = ('/' :: '/' :: cs).length := by
    simp only [List.length_cons]
    omega
  have hlexeme := lexeme_comment hcs hrest
  rw [hlength] at hlexeme
  exact bareTokens_lexeme ('/' :: '/' :: cs) (List.cons_ne_nil _ _) hlexeme

/-! ### Tokens as they can be written -/

/-- A token as it can be written.  A literal among them has no escape that names no code point. -/
structure Lexeme where
  kind : TokenKind
  text : String
  stands : Stands kind text.toList []
  decodes : ∃ value, (Token.bare kind text).literalValue = .ok value

/-- The token of a lexeme. -/
def Lexeme.token (l : Lexeme) : Token :=
  .bare l.kind l.text

@[simp] theorem Lexeme.token_kind (l : Lexeme) : l.token.kind = l.kind := rfl

@[simp] theorem Lexeme.token_text (l : Lexeme) : l.token.text = l.text := rfl

/-- The tokens of lexemes. -/
def tokensOf (ls : List Lexeme) : List Token :=
  ls.map Lexeme.token

@[simp] theorem tokensOf_nil : tokensOf [] = [] := rfl

@[simp] theorem tokensOf_cons (l : Lexeme) (ls : List Lexeme) :
    tokensOf (l :: ls) = l.token :: tokensOf ls := rfl

@[simp] theorem tokensOf_append (ls ls' : List Lexeme) :
    tokensOf (ls ++ ls') = tokensOf ls ++ tokensOf ls' :=
  List.map_append

/-- A word of the language: an ASCII letter or low line, then word characters. -/
def isIdentifier (text : String) : Bool :=
  match text.toList with
  | [] => false
  | c :: cs => isWordStart c && cs.all isWord

theorem isIdentifier_iff {text : String} : isIdentifier text = true ↔
    ∃ c cs, text.toList = c :: cs ∧ isWordStart c = true ∧ ∀ x ∈ cs, isWord x = true := by
  rw [isIdentifier]
  cases text.toList with
  | nil => simp
  | cons c cs => simp [and_assoc]

theorem stands_of_isIdentifier {text : String} (h : isIdentifier text = true) {rest : List Char}
    (hrest : ∀ x ∈ rest.head?, isWord x = false) : Stands .identifier text.toList rest := by
  obtain ⟨c, cs, hcs, hc, hword⟩ := isIdentifier_iff.1 h
  rw [hcs]
  exact .word hc hword hrest

theorem isWord_of_mem_identifier {text : String} (h : isIdentifier text = true) {c : Char}
    (hc : c ∈ text.toList) : isWord c = true := by
  obtain ⟨first, cs, hcs, hfirst, hword⟩ := isIdentifier_iff.1 h
  rw [hcs] at hc
  rcases List.mem_cons.1 hc with rfl | hc
  · exact isWord_of_isWordStart hfirst
  · exact hword c hc

/-- A word as a lexeme. -/
def Lexeme.word (text : String) (h : isIdentifier text = true) : Lexeme where
  kind := .identifier
  text := text
  stands := stands_of_isIdentifier h fun _ hx => nomatch hx
  decodes := ⟨none, rfl⟩

/-- A word with the mark in front of it as a lexeme. -/
def Lexeme.markedWord (text : String) (h : isIdentifier text = true) : Lexeme where
  kind := .identifier
  text := "@" ++ text
  stands := by
    rw [String.toList_append]
    have hword : Stands .identifier text.toList [] :=
      stands_of_isIdentifier h fun _ hx => nomatch hx
    cases htext : text.toList with
    | nil => exact absurd htext hword.ne_nil
    | cons c cs =>
        rw [isIdentifier, htext, Bool.and_eq_true, List.all_eq_true] at h
        exact .markedWord h.1 h.2 fun _ hx => nomatch hx
  decodes := ⟨none, rfl⟩

/-- An operator or mark as a lexeme. -/
def Lexeme.operator (text : String) (h : text.toList ∈ operators) : Lexeme where
  kind := .operator
  text := text
  stands := .operator h fun _ hx => nomatch hx
  decodes := ⟨none, rfl⟩

@[simp] theorem word_text (text : String) (h : isIdentifier text = true) :
    (Lexeme.word text h).text = text := rfl

@[simp] theorem operator_text (text : String) (h : text.toList ∈ operators) :
    (Lexeme.operator text h).text = text := rfl

/-- A word of the language. -/
structure Word where
  text : String
  identifier : isIdentifier text = true

/-- A word as a token. -/
def Word.lexeme (w : Word) : Lexeme :=
  .word w.text w.identifier

@[simp] theorem Word.lexeme_text (w : Word) : w.lexeme.text = w.text := rfl

/-- A point between names. -/
def dot : Lexeme := .operator "." (by decide)

/-- A mark between the segments of a name. -/
inductive NameMark where
  | point
  | colons

/-- The mark as a token. -/
def NameMark.lexeme : NameMark → Lexeme
  | point => dot
  | colons => .operator "::" (by decide)

/-! ### White space around tokens -/

/-- White space, which may be empty. -/
structure Blanks where
  chars : List Char
  blank : ∀ c ∈ chars, isBlank c = true

/-- The white space around the tokens of a text: in front of the first, behind each that another one
follows, and behind the last.  Two tokens are never without white space between them. -/
structure Layout where
  lead : Blanks
  gap : Nat → Blanks
  gap_ne_nil : ∀ i, (gap i).chars ≠ []
  trail : Blanks

namespace Layout

/-- Tokens from the one with number `i` on, with the white space behind them. -/
def writeFrom (l : Layout) (i : Nat) : List Lexeme → List Char
  | [] => l.trail.chars
  | [t] => t.text.toList ++ l.trail.chars
  | t :: next :: rest => t.text.toList ++ ((l.gap i).chars ++ l.writeFrom (i + 1) (next :: rest))

/-- The text of tokens with the given white space. -/
def write (l : Layout) (ts : List Lexeme) : String :=
  String.ofList (l.lead.chars ++ l.writeFrom 0 ts)

end Layout

theorem Blanks.bareTokens (b : Blanks) : LocalisedEnum.bareTokens b.chars = [] := by
  rw [← List.append_nil b.chars, bareTokens_blank b.blank, bareTokens_nil]

/-- White space begins with a blank, whatever stands behind it. -/
theorem Blanks.head_append {b : Blanks} (hne : b.chars ≠ []) (rest : List Char) :
    ∀ x ∈ (b.chars ++ rest).head?, isBlank x = true := by
  intro x hx
  obtain ⟨c, cs, hcs⟩ := List.exists_cons_of_ne_nil hne
  rw [hcs, List.cons_append] at hx
  cases hx
  exact b.blank x (hcs ▸ List.mem_cons_self)

theorem Lexeme.bareTokens (t : Lexeme) {b : Blanks} {rest : List Char}
    (h : ∀ x ∈ (b.chars ++ rest).head?, isBlank x = true) :
    LocalisedEnum.bareTokens (t.text.toList ++ (b.chars ++ rest)) =
      t.token :: LocalisedEnum.bareTokens rest := by
  have hstands := t.stands.before fun x hx => goesOn_blank t.kind t.text.toList (h x hx)
  rw [bareTokens_token hstands, bareTokens_blank b.blank, String.ofList_toList]
  rfl

theorem bareTokens_writeFrom (l : Layout) (i : Nat) (ts : List Lexeme) :
    bareTokens (l.writeFrom i ts) = tokensOf ts := by
  induction ts generalizing i with
  | nil => exact l.trail.bareTokens
  | cons t rest ih =>
      cases rest with
      | nil =>
          rw [Layout.writeFrom, ← List.append_nil l.trail.chars, t.bareTokens, bareTokens_nil]
          · rfl
          · intro x hx
            rw [List.append_nil] at hx
            exact l.trail.blank x (List.mem_of_mem_head? hx)
      | cons next rest =>
          rw [Layout.writeFrom, t.bareTokens (Blanks.head_append (l.gap_ne_nil i) _), ih]
          rfl

/-- **Tokens between white space** are read as they were written. -/
theorem bareTokens_write (l : Layout) (ts : List Lexeme) :
    bareTokens (l.write ts).toList = tokensOf ts := by
  rw [Layout.write, String.toList_ofList, bareTokens_blank l.lead.blank, bareTokens_writeFrom]

end LocalisedEnum

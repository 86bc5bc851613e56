import LocalisedEnum.Proofs.Declaration.Member
import LocalisedEnum.Proofs.Declaration.Unplaced
import LocalisedEnum.Proofs.Declaration.WrittenValues

/-!
**Sums of texts and quoted names.**

A constant text can be written as a sum of string literals and of names that are quoted by an
operator.  A name that is quoted has the value of its last segment, without the type arguments that
may stand behind it.

A quoted name is recognised by its first two tokens and its last one, and its value is the last word
between the parentheses.  So a sum that begins with a quoted name and ends with one is taken for a
single name, and a type argument can be taken for the name in front of it.  Every other sum has the
value that it denotes, or it is kept as its text.

Main definitions:

* `NameSegment`, `QuotedName` — names as they are quoted, with `QuotedName.text`, the text that a
  name denotes;
* `Summand`, `TextSum` — sums, with `TextSum.value`, the text that a sum denotes;
* `QuotedName.lastWord` — the word that is taken for the text of a name;
* `TextSum.SpansNames` — sums that begin with a quoted name and end with one.

Main results:

* `evaluate_literals` — a sum of literals has its value;
* `evaluate_spansNames`, `evaluate_mixed` — what becomes of the other sums;
* `evaluate_behindType` — a quoted type with more tokens behind it;
* `evaluate_textSum` — **the value of a sum**.
-/

set_option autoImplicit false
set_option relaxedAutoImplicit false

namespace LocalisedEnum

/-! ### Names as they are quoted -/

/-- A plus sign. -/
def plus : Lexeme := .operator "+" (by decide)

/-- The operator that quotes a name. -/
def nameOperator : Lexeme := .word "nameof" (by decide)

/-- A segment of a name: a word, with or without the mark in front of it, and type arguments, which
can be any tokens between angle brackets. -/
structure NameSegment where
  word : Word
  marked : Bool
  arguments : Option (List Lexeme)

namespace NameSegment

/-- The word as a token. -/
def wordLexeme (s : NameSegment) : Lexeme :=
  if s.marked then .markedWord s.word.text s.word.identifier else s.word.lexeme

/-- The tokens of the type arguments. -/
def argumentLexemes (s : NameSegment) : List Lexeme :=
  match s.arguments with
  | none => []
  | some inside => openingAngle :: (inside ++ [closingAngle])

/-- The tokens of the segment. -/
def lexemes (s : NameSegment) : List Lexeme :=
  s.wordLexeme :: s.argumentLexemes

/-- The last word of the segment, which may stand among the type arguments. -/
def lastWord (s : NameSegment) : String :=
  ((s.argumentLexemes.filter (·.kind = .identifier)).getLast?.getD s.wordLexeme).token.plain

theorem wordLexeme_kind (s : NameSegment) : s.wordLexeme.kind = .identifier := by
  rw [wordLexeme]
  split <;> rfl

theorem wordLexeme_plain (s : NameSegment) : s.wordLexeme.token.plain = s.word.text := by
  rw [wordLexeme]
  split
  · have hmarked : ("@" ++ s.word.text).toList = '@' :: s.word.text.toList := String.toList_append
    change plainName ("@" ++ s.word.text) = s.word.text
    rw [plainName, hmarked]
    exact String.ofList_toList
  · exact plainName_of_isIdentifier s.word.identifier

/-- Without type arguments the last word is the only one. -/
theorem lastWord_of_bare {s : NameSegment} (h : s.arguments = none) : s.lastWord = s.word.text := by
  rw [lastWord, argumentLexemes, h]
  exact s.wordLexeme_plain

end NameSegment

/-- **A name as it is quoted**: segments with marks between them. -/
structure QuotedName where
  outer : List (NameSegment × NameMark)
  last : NameSegment

namespace QuotedName

/-- The tokens of the name. -/
def nameLexemes (n : QuotedName) : List Lexeme :=
  (n.outer.flatMap fun part => part.1.lexemes ++ [part.2.lexeme]) ++ n.last.lexemes

/-- The tokens of the name behind its operator, between parentheses. -/
def lexemes (n : QuotedName) : List Lexeme :=
  nameOperator :: Bracket.round.opening :: (n.nameLexemes ++ [Bracket.round.closing])

/-- **The text that a quoted name denotes**: its last segment, without type arguments. -/
def text (n : QuotedName) : CodeText :=
  .ofString n.last.word.text

/-- The last word between the parentheses. -/
def lastWord (n : QuotedName) : CodeText :=
  .ofString n.last.lastWord

theorem text_ne_nil (n : QuotedName) : n.text ≠ [] := by
  intro h
  have hword := n.last.word.identifier
  rw [isIdentifier, List.map_eq_nil_iff.1 h] at hword
  cases hword

end QuotedName

/-! ### Sums -/

/-- What can be added: a string literal, or a quoted name. -/
inductive Summand where
  | literal (l : TextLiteral)
  | name (n : QuotedName)

namespace Summand

/-- The tokens of a summand. -/
def lexemes : Summand → List Lexeme
  | literal l => [l.lexeme]
  | name n => n.lexemes

/-- The text that a summand denotes. -/
def value : Summand → CodeText
  | literal l => l.value
  | name n => n.text

end Summand

/-- **A sum of texts**, of one summand or more. -/
structure TextSum where
  first : Summand
  more : List Summand

namespace TextSum

variable (e : TextSum)

/-- The summands. -/
def summands : List Summand :=
  e.first :: e.more

/-- The last summand. -/
def last : Summand :=
  e.more.getLastD e.first

/-- The tokens of the sum. -/
def lexemes : List Lexeme :=
  e.first.lexemes ++ e.more.flatMap fun s => plus :: s.lexemes

/-- **The text that a sum denotes.** -/
def value : CodeText :=
  e.summands.flatMap Summand.value

/-- A sum of literals alone. -/
def LiteralsOnly : Prop :=
  ∀ s ∈ e.summands, ∃ l, s = .literal l

/-- A sum that begins with a quoted name and ends with `n`, which may be the same one. -/
def SpansNames (n : QuotedName) : Prop :=
  (∃ first, e.first = .name first) ∧ e.last = .name n

end TextSum

/-! ### Tokens that are no operators and words -/

/-- Tokens of different kinds have different texts. -/
theorem Lexeme.text_ne_of_kind {l l' : Lexeme} (h : l.kind ≠ l'.kind) : l.text ≠ l'.text := by
  intro htext
  have hkind := lexeme_of_stands l.stands
  rw [htext, lexeme_of_stands l'.stands] at hkind
  exact h (Option.some.inj (Prod.mk.inj hkind).1).symm

/-- A string literal is no word. -/
theorem TextLiteral.text_ne_word (l : TextLiteral) {text : String} (h : isIdentifier text = true) :
    l.lexeme.text ≠ text := by
  have hkind : l.lexeme.kind ≠ (Lexeme.word text h).kind := fun hkind => by
    have hstring := l.isString
    rw [hkind] at hstring
    cases hstring
  exact Lexeme.text_ne_of_kind hkind

/-! ### What is no operand -/

theorem operand?_eq_none_of_head {operator : String} {t : Token} (h : t.text ≠ operator)
    (ts : List Token) : operand? operator (t :: ts) = none := by
  cases ts with
  | nil => rfl
  | cons u ts => rw [operand?, if_neg fun hoperand => h hoperand.1]

theorem operand?_eq_none_of_last {operator : String} {ts : List Token} {last : Token}
    (h : last.text ≠ ")") : operand? operator (ts ++ [last]) = none := by
  match ts with
  | [] => rfl
  | [t] => rw [List.singleton_append, operand?, if_neg (by simp)]
  | t :: opening :: ts =>
      rw [List.cons_append, List.cons_append, operand?, if_neg]
      rintro ⟨-, -, hlast⟩
      rw [List.getLast?_concat] at hlast
      exact h (beq_iff_eq.1 hlast)

theorem operand?_group {operator : String} {t opening closing : Token} (ht : t.text = operator)
    (hopening : opening.text = "(") (hclosing : closing.text = ")") (inside : List Token) :
    operand? operator (t :: opening :: (inside ++ [closing])) = some inside := by
  rw [operand?, if_pos, List.dropLast_concat]
  refine ⟨ht, hopening, ?_⟩
  rw [List.getLast?_concat]
  exact beq_iff_eq.2 hclosing

theorem negatedNumeral?_eq_none {t : Token} (h : t.text ≠ "-") (ts : List Token) :
    negatedNumeral? (t :: ts) = none := by
  match ts with
  | [] => rfl
  | [u] => rw [negatedNumeral?, if_neg fun hsign => h hsign.1]
  | _ :: _ :: _ => rfl

/-- An expression that is no sum is kept as its text. -/
theorem evaluateCompound_of_summands?_eq_none {ts : List Token}
    (hnegated : negatedNumeral? ts = none) (hsummands : summands? ts = none) :
    evaluateCompound ts = .ok (.raw (joinTokens ts)) := by
  rw [evaluateCompound, hnegated, literalSum, hsummands]
  rfl

/-- Behind an operator and a parenthesis there is no sum. -/
theorem evaluateCompound_operator {t opening : Token} (hopening : opening.text = "(")
    {ts : List Token} (hne : ts ≠ []) :
    evaluateCompound (t :: opening :: ts) = .ok (.raw (joinTokens (t :: opening :: ts))) := by
  obtain ⟨u, ts, rfl⟩ := List.exists_cons_of_ne_nil hne
  have hnegated : negatedNumeral? (t :: opening :: u :: ts) = none := rfl
  have hsummands : summands? (t :: opening :: u :: ts) = none := by
    rw [summands?, if_neg]
    rw [hopening]
    decide
  exact evaluateCompound_of_summands?_eq_none hnegated hsummands

/-! ### Values of sums -/

theorem evaluate_several {t u : Token} {ts : List Token}
    (htype : operand? "typeof" (t :: u :: ts) = none) (hname : nameOperand? (t :: u :: ts) = none) :
    evaluate (t :: u :: ts) = evaluateCompound (t :: u :: ts) := by
  have hnone : typeOperand? (t :: u :: ts) = none := by rw [typeOperand?, htype, Option.map_none]
  unfold evaluate
  rw [hnone, hname]

theorem nameOperand?_eq_none {ts : List Token} (h : operand? "nameof" ts = none) :
    nameOperand? ts = none := by
  rw [nameOperand?, h]
  rfl

section Literals

variable (l : TextLiteral)

/-- The tokens of a literal and of what is added to it. -/
theorem tokensOf_literalSum (more : List Summand) :
    tokensOf (TextSum.lexemes ⟨.literal l, more⟩) =
      l.lexeme.token :: tokensOf (more.flatMap fun s => plus :: s.lexemes) := by
  rw [TextSum.lexemes, tokensOf_append]
  rfl

/-- Every second token of a sum of literals is a plus sign. -/
theorem summands?_literals (ls : List TextLiteral) :
    summands? (tokensOf (TextSum.lexemes ⟨.literal l, ls.map .literal⟩)) =
      some (l.lexeme.token :: ls.map (·.lexeme.token)) := by
  induction ls generalizing l with
  | nil => rfl
  | cons next ls ih =>
      have hplus : plus.token.text = "+" := rfl
      rw [tokensOf_literalSum, List.map_cons, List.flatMap_cons, tokensOf_append, Summand.lexemes,
        tokensOf_cons, List.cons_append, summands?, if_pos hplus, ← tokensOf_append]
      have hmore := ih next
      rw [TextSum.lexemes, Summand.lexemes] at hmore
      rw [hmore]
      rfl

theorem concatenation_literals (ls : List TextLiteral) :
    concatenation (ls.map (·.lexeme.token)) = .ok (some (ls.flatMap (·.value))) := by
  induction ls with
  | nil => rfl
  | cons l ls ih =>
      rw [List.map_cons, concatenation, l.denotes, ih]
      rfl

/-- A sum that begins with a literal and has a quoted name in it is no sum of literals. -/
theorem summands?_eq_none {more : List Summand} {n : QuotedName} (h : .name n ∈ more) :
    summands? (tokensOf (TextSum.lexemes ⟨.literal l, more⟩)) = none := by
  induction more generalizing l with
  | nil => cases h
  | cons s more ih =>
      have hplus : plus.token.text = "+" := rfl
      rw [tokensOf_literalSum, List.flatMap_cons, tokensOf_append, tokensOf_cons, List.cons_append,
        summands?, if_pos hplus, Option.map_eq_none_iff, ← tokensOf_append]
      cases s with
      | literal next =>
          have hother : Summand.name n ≠ .literal next := by rintro ⟨⟩
          exact ih next ((List.mem_cons.1 h).resolve_left hother)
      | name m =>
          have hopening : ¬ Bracket.round.opening.token.text = "+" := by decide
          rw [Summand.lexemes, QuotedName.lexemes, List.cons_append, List.cons_append,
            tokensOf_cons, tokensOf_cons]
          cases tokensOf
              (m.nameLexemes ++ [Bracket.round.closing] ++
                more.flatMap fun s => plus :: s.lexemes) with
          | nil => rw [summands?, if_neg hopening]
          | cons => rw [summands?, if_neg hopening]

theorem operand?_literal {operator : String} (hoperator : isIdentifier operator = true)
    (ts : List Token) : operand? operator (l.lexeme.token :: ts) = none :=
  operand?_eq_none_of_head (l.text_ne_word hoperator) ts

end Literals

namespace TextSum

variable {e : TextSum}

theorem LiteralsOnly.exists_literals (h : e.LiteralsOnly) :
    ∃ (l : TextLiteral) (ls : List TextLiteral), e = ⟨.literal l, ls.map .literal⟩ := by
  have hall : ∀ ss : List Summand, (∀ s ∈ ss, ∃ l, s = .literal l) →
      ∃ ls : List TextLiteral, ss = ls.map .literal := by
    intro ss hss
    induction ss with
    | nil => exact ⟨[], rfl⟩
    | cons s ss ih =>
        obtain ⟨⟨l, rfl⟩, hrest⟩ := List.forall_mem_cons.1 hss
        obtain ⟨ls, rfl⟩ := ih hrest
        exact ⟨l :: ls, rfl⟩
  obtain ⟨first, more⟩ := e
  obtain ⟨⟨l, rfl⟩, hmore⟩ := List.forall_mem_cons.1 h
  obtain ⟨ls, hls⟩ := hall more hmore
  exact ⟨l, ls, by rw [hls]⟩

theorem exists_name_of_not_literalsOnly (h : ¬ e.LiteralsOnly) : ∃ n, .name n ∈ e.summands := by
  by_cases hname : ∃ n, .name n ∈ e.summands
  · exact hname
  · refine absurd (fun s hs => ?_) h
    cases s with
    | literal l => exact ⟨l, rfl⟩
    | name n => exact absurd ⟨n, hs⟩ hname

/-- What stands in front of the last summand, if there is more than one. -/
theorem exists_front (e : TextSum) : e.more = [] ∧ e.last = e.first ∨
    ∃ front between, e.more = front ++ [e.last] ∧
      e.lexemes = e.first.lexemes ++ (between ++ e.last.lexemes) := by
  obtain ⟨first, more⟩ := e
  rcases List.eq_nil_or_concat more with rfl | ⟨front, s, hmore⟩
  · exact .inl ⟨rfl, rfl⟩
  · rw [List.concat_eq_append] at hmore
    subst hmore
    have hlast : last ⟨first, front ++ [s]⟩ = s := by
      rw [last, List.getLastD_eq_getLast?, List.getLast?_concat, Option.getD_some]
    refine .inr ⟨front, (front.flatMap fun s => plus :: s.lexemes) ++ [plus], by rw [hlast], ?_⟩
    rw [hlast, lexemes, List.flatMap_append, List.flatMap_singleton, List.append_assoc,
      List.singleton_append]

end TextSum

/-- **A sum of literals** has the value that it denotes. -/
theorem evaluate_literals {e : TextSum} (h : e.LiteralsOnly) :
    evaluate (tokensOf e.lexemes) = .ok (.text e.value) := by
  obtain ⟨l, ls, rfl⟩ := h.exists_literals
  have hvalue : TextSum.value ⟨.literal l, ls.map .literal⟩ = (l :: ls).flatMap (·.value) := by
    rw [TextSum.value, TextSum.summands, List.flatMap_cons, List.flatMap_map, List.flatMap_cons]
    rfl
  have hno : ∀ operator, isIdentifier operator = true →
      operand? operator (tokensOf (TextSum.lexemes ⟨.literal l, ls.map .literal⟩)) = none := by
    intro operator hoperator
    rw [tokensOf_literalSum, operand?_literal l hoperator]
  rw [hvalue]
  cases ls with
  | nil =>
      rw [List.flatMap_singleton]
      exact evaluate_literal l
  | cons next ls =>
      -- with a plus sign between them there are three tokens or more
      obtain ⟨u, us, htokens⟩ : ∃ u us,
          tokensOf (TextSum.lexemes ⟨.literal l, (next :: ls).map .literal⟩) =
            l.lexeme.token :: plus.token :: u :: us :=
        ⟨_, _, rfl⟩
      have hsum : literalSum (l.lexeme.token :: plus.token :: u :: us) =
          .ok (some ((l :: next :: ls).flatMap (·.value))) := by
        rw [literalSum, ← htokens, summands?_literals]
        exact concatenation_literals (l :: next :: ls)
      have hnegated : negatedNumeral? (l.lexeme.token :: plus.token :: u :: us) = none := rfl
      rw [htokens] at hno ⊢
      rw [evaluate_several (hno "typeof" (by decide))
          (nameOperand?_eq_none (hno "nameof" (by decide))), evaluateCompound, hnegated]
      simp only [hsum]
      rfl

/-- The last word among tokens that end with a name. -/
theorem lastWord_tokens (front : List Lexeme) (n : QuotedName) :
    ∃ t, ((tokensOf (front ++ n.nameLexemes)).filter (·.kind = .identifier)).getLast? = some t ∧
      CodeText.ofString t.plain = n.lastWord := by
  let s := n.last
  have hword : ((front ++ n.nameLexemes).filter (·.kind = .identifier)).getLast? =
      some ((s.argumentLexemes.filter (·.kind = .identifier)).getLast?.getD s.wordLexeme) := by
    have hkind : decide (n.last.wordLexeme.kind = .identifier) = true :=
      decide_eq_true s.wordLexeme_kind
    rw [QuotedName.nameLexemes, NameSegment.lexemes, ← List.append_assoc, List.filter_append,
      List.filter_cons, if_pos hkind, List.getLast?_append, List.getLast?_cons]
    rfl
  refine ⟨_, ?_, rfl⟩
  rw [tokensOf, List.filter_map, List.getLast?_map]
  exact congrArg (Option.map Lexeme.token) hword

/-- The tokens of a name and those of a sum that spans names. -/
theorem TextSum.SpansNames.exists_inside {e : TextSum} {n : QuotedName} (h : e.SpansNames n) :
    ∃ front, tokensOf e.lexemes = nameOperator.token :: Bracket.round.opening.token ::
      (tokensOf (front ++ n.nameLexemes) ++ [Bracket.round.closing.token]) := by
  obtain ⟨⟨first, hfirst⟩, hlast⟩ := h
  rcases e.exists_front with ⟨hmore, hone⟩ | ⟨-, between, -, hlexemes⟩
  · refine ⟨[], ?_⟩
    rw [hone] at hlast
    rw [TextSum.lexemes, hmore, hlast, List.flatMap_nil, List.append_nil, Summand.lexemes,
      QuotedName.lexemes, List.nil_append, tokensOf_cons, tokensOf_cons, tokensOf_append]
    rfl
  · refine ⟨first.nameLexemes ++ Bracket.round.closing :: (between ++
      [nameOperator, Bracket.round.opening]), ?_⟩
    rw [hlexemes, hfirst, hlast]
    simp [Summand.lexemes, QuotedName.lexemes]

/-- **A sum that spans names** is taken for a single name. -/
theorem evaluate_spansNames {e : TextSum} {n : QuotedName} (h : e.SpansNames n) :
    evaluate (tokensOf e.lexemes) = .ok (.text n.lastWord) := by
  obtain ⟨front, htokens⟩ := h.exists_inside
  obtain ⟨t, hlast, hplain⟩ := lastWord_tokens front n
  have htype : typeOperand? (tokensOf e.lexemes) = none := by
    rw [htokens, typeOperand?, operand?_eq_none_of_head (by decide), Option.map_none]
  have hname : nameOperand? (tokensOf e.lexemes) = some t.plain := by
    have hinside : operand? "nameof" (nameOperator.token :: Bracket.round.opening.token ::
        (tokensOf (front ++ n.nameLexemes) ++ [Bracket.round.closing.token])) =
          some (tokensOf (front ++ n.nameLexemes)) :=
      operand?_group rfl rfl rfl _
    rw [htokens, nameOperand?, hinside]
    simp only [Option.bind_eq_bind, Option.bind_some, hlast]
    rfl
  unfold evaluate
  rw [htype, hname, ← hplain]

/-- **A sum of names and literals** that does not span names is kept as its text. -/
theorem evaluate_mixed {e : TextSum} (hliterals : ¬ e.LiteralsOnly)
    (hspans : ∀ n, ¬ e.SpansNames n) :
    evaluate (tokensOf e.lexemes) = .ok (.raw (joinTokens (tokensOf e.lexemes))) := by
  obtain ⟨m, hm⟩ := TextSum.exists_name_of_not_literalsOnly hliterals
  obtain ⟨first, more⟩ := e
  cases first with
  | literal l =>
      have hmore : .name m ∈ more := (List.mem_cons.1 hm).resolve_left fun heq => nomatch heq
      have hsummands := summands?_eq_none l hmore
      have hminus : l.lexeme.token.text ≠ "-" :=
        l.lexeme.text_ne_operator l.kind_ne_operator (by decide)
      have htype : ∀ ts, operand? "typeof" (l.lexeme.token :: ts) = none :=
        operand?_literal l (by decide)
      have hname : ∀ ts, operand? "nameof" (l.lexeme.token :: ts) = none :=
        operand?_literal l (by decide)
      obtain ⟨s, more, rfl⟩ := List.exists_cons_of_ne_nil (List.ne_nil_of_mem hmore)
      rw [tokensOf_literalSum, List.flatMap_cons, tokensOf_append, tokensOf_cons,
        List.cons_append] at hsummands ⊢
      rw [evaluate_several (htype _) (nameOperand?_eq_none (hname _))]
      exact evaluateCompound_of_summands?_eq_none (negatedNumeral?_eq_none hminus _) hsummands
  | name n =>
      rcases TextSum.exists_front ⟨.name n, more⟩ with ⟨_, hone⟩ | ⟨-, between, -, hlexemes⟩
      · exact absurd ⟨⟨n, rfl⟩, hone⟩ (hspans n)
      · cases hlast : TextSum.last ⟨.name n, more⟩ with
        | name last => exact absurd ⟨⟨n, rfl⟩, hlast⟩ (hspans last)
        | literal l =>
            have hclosing : l.lexeme.token.text ≠ ")" :=
              l.lexeme.text_ne_operator l.kind_ne_operator (by decide)
            have hname : operand? "nameof" (tokensOf (TextSum.lexemes ⟨.name n, more⟩)) = none := by
              rw [hlexemes, hlast, ← List.append_assoc, tokensOf_append]
              exact operand?_eq_none_of_last hclosing
            obtain ⟨ts, htokens⟩ : ∃ ts, tokensOf (TextSum.lexemes ⟨.name n, more⟩) =
                nameOperator.token :: Bracket.round.opening.token ::
                  (tokensOf n.nameLexemes ++ ts) := by
              refine ⟨Bracket.round.closing.token ::
                  tokensOf (more.flatMap fun s => plus :: s.lexemes), ?_⟩
              simp [TextSum.lexemes, Summand.lexemes, QuotedName.lexemes]
            have hne : tokensOf n.nameLexemes ++ ts ≠ [] := by
              simp [QuotedName.nameLexemes, NameSegment.lexemes]
            rw [htokens] at hname ⊢
            rw [evaluate_several (operand?_eq_none_of_head (by decide) _)
              (nameOperand?_eq_none hname)]
            exact evaluateCompound_operator rfl hne

/-- **A quoted type with more tokens behind it** is taken for a quoted type if the last of them is a
parenthesis. -/
theorem evaluate_behindType {operator opening closing last : Token}
    (hoperator : operator.text = "typeof") (hopening : opening.text = "(")
    (inside front : List Token) :
    evaluate (operator :: opening :: (inside ++ closing :: (front ++ [last]))) =
      .ok (if last.text = ")" then
          .typeOf (withoutStart globalMark (joinTokens (inside ++ closing :: front)))
        else
          .raw (joinTokens (operator :: opening :: (inside ++ closing :: (front ++ [last]))))) := by
  have happend : inside ++ closing :: (front ++ [last]) =
      (inside ++ closing :: front) ++ [last] := by
    rw [List.append_assoc, List.cons_append]
  rw [happend]
  by_cases hlast : last.text = ")"
  · have htype : typeOperand? (operator :: opening :: ((inside ++ closing :: front) ++ [last])) =
        some (withoutStart globalMark (joinTokens (inside ++ closing :: front))) := by
      rw [typeOperand?, operand?_group hoperator hopening hlast, Option.map_some]
    unfold evaluate
    rw [htype, if_pos hlast]
  · have hname : operator.text ≠ "nameof" := by
      rw [hoperator]
      decide
    have htype : operand? "typeof"
          (operator :: opening :: ((inside ++ closing :: front) ++ [last])) =
        none := by
      rw [← List.cons_append, ← List.cons_append]
      exact operand?_eq_none_of_last hlast
    rw [evaluate_several htype (nameOperand?_eq_none (operand?_eq_none_of_head hname _)),
      if_neg hlast]
    exact evaluateCompound_operator hopening
      (List.append_ne_nil_of_right_ne_nil _ (List.cons_ne_nil _ _))

/-- A sum that spans several names denotes more than the text of the last one. -/
theorem TextSum.SpansNames.lastWord_eq_iff {e : TextSum} {n : QuotedName} (h : e.SpansNames n)
    (hbare : n.last.arguments = none) : n.lastWord = e.value ↔ e.more = [] := by
  have hword : n.lastWord = n.text :=
    congrArg CodeText.ofString (NameSegment.lastWord_of_bare hbare)
  obtain ⟨⟨first, hfirst⟩, hlast⟩ := h
  rw [hword]
  rcases e.exists_front with ⟨hmore, hone⟩ | ⟨front, -, hmore, -⟩
  · refine iff_of_true ?_ hmore
    rw [hone] at hlast
    rw [TextSum.value, TextSum.summands, hmore, hlast, List.flatMap_singleton]
    rfl
  · refine iff_of_false ?_ ?_
    · intro heq
      have hvalue : e.value = first.text ++ (front.flatMap Summand.value ++ n.text) := by
        rw [TextSum.value, TextSum.summands, hfirst, hmore, hlast, List.flatMap_cons,
          List.flatMap_append, List.flatMap_singleton]
        rfl
      -- the first name is there as well
      have hpos : 0 < first.text.length := List.length_pos_iff.2 first.text_ne_nil
      have hlength := congrArg List.length (heq.trans hvalue)
      rw [List.length_append, List.length_append] at hlength
      omega
    · rw [hmore]
      exact List.append_ne_nil_of_right_ne_nil _ (List.cons_ne_nil _ _)

/-- **The value of a sum.**  A sum of literals has the value that it denotes.  A sum that does not
span names has it too, or is kept as its text.  A sum that spans names has the last word of the last
one for its value, which is what it denotes if it is that name alone, without type arguments, and is
not if there is another summand.  Behind a quoted type more tokens are read as part of the type if
the last one is a parenthesis; otherwise all are kept as their text. -/
theorem evaluate_textSum (ts : List Token) :
    (∀ e : TextSum, unplaceAll ts = tokensOf e.lexemes →
      (e.LiteralsOnly → evaluate ts = .ok (.text e.value)) ∧
      ((∀ n, ¬ e.SpansNames n) →
        evaluate ts = .ok (.text e.value) ∨ evaluate ts = .ok (.raw (joinTokens ts))) ∧
      ∀ n, e.SpansNames n → evaluate ts = .ok (.text n.lastWord) ∧
        (n.last.arguments = none → (n.lastWord = e.value ↔ e.more = []))) ∧
    ∀ operator opening closing last : Token, operator.text = "typeof" → opening.text = "(" →
      ∀ inside front : List Token,
        ts = operator :: opening :: (inside ++ closing :: (front ++ [last])) →
        evaluate ts =
          .ok (if last.text = ")" then
              .typeOf (withoutStart globalMark (joinTokens (inside ++ closing :: front)))
            else .raw (joinTokens ts)) := by
  refine ⟨fun e hts => ?_, ?_⟩
  · rw [← evaluate_unplaced, ← joinTokens_unplaced, hts]
    refine
      ⟨evaluate_literals, fun hspans => ?_, fun n h => ⟨evaluate_spansNames h, h.lastWord_eq_iff⟩⟩
    by_cases hliterals : e.LiteralsOnly
    · exact .inl (evaluate_literals hliterals)
    · exact .inr (evaluate_mixed hliterals hspans)
  · rintro operator opening closing last hoperator hopening inside front rfl
    exact evaluate_behindType hoperator hopening inside front

/-- A name of one segment. -/
def bareName (text : String) (h : isIdentifier text = true) : QuotedName :=
  ⟨[], ⟨⟨text, h⟩, false, none⟩⟩

/-- The sum of two names. -/
def twoNames : TextSum :=
  ⟨.name (bareName "A" rfl), [.name (bareName "B" rfl)]⟩

/-- The sum of two names has the second one for its value, and an operator behind a type is read as
part of it. -/
theorem evaluate_textSum_twoNames :
    unplaceAll (tokenise "nameof(A) + nameof(B)") = tokensOf twoNames.lexemes ∧
      twoNames.SpansNames (bareName "B" rfl) ∧ twoNames.value = .ofString "AB" ∧
      evaluate (tokenise "nameof(A) + nameof(B)") = .ok (.text (.ofString "B")) ∧
      CodeText.ofString "B" ≠ twoNames.value ∧
      evaluate (tokenise "typeof(A) + f(B)") = .ok (.typeOf "A)+f(B") := by
  have htokens : unplaceAll (tokenise "nameof(A) + nameof(B)") = tokensOf twoNames.lexemes := by
    decide +kernel
  have hspans : twoNames.SpansNames (bareName "B" rfl) := ⟨⟨_, rfl⟩, rfl⟩
  obtain ⟨hvalue, hword⟩ := ((evaluate_textSum _).1 twoNames htokens).2.2 _ hspans
  have htype : unplaceAll (tokenise "typeof(A) + f(B)") =
      ⟨.identifier, "typeof", 0, 0⟩ :: ⟨.operator, "(", 0, 0⟩ ::
        ([⟨.identifier, "A", 0, 0⟩] ++ ⟨.operator, ")", 0, 0⟩ ::
          ([⟨.operator, "+", 0, 0⟩, ⟨.identifier, "f", 0, 0⟩, ⟨.operator, "(", 0, 0⟩,
              ⟨.identifier, "B", 0, 0⟩] ++ [⟨.operator, ")", 0, 0⟩])) := by decide +kernel
  refine ⟨htokens, hspans, by decide, hvalue, ?_, ?_⟩
  · exact fun heq => absurd ((hword rfl).1 heq) (by decide)
  · rw [← evaluate_unplaced, htype, (evaluate_textSum _).2 _ _ _ _ rfl rfl _ _ rfl]
    exact congrArg Except.ok (by decide +kernel)

end LocalisedEnum

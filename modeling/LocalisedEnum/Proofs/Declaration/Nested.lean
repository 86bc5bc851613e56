import LocalisedEnum.Declaration.Member
import LocalisedEnum.Proofs.Token.Spacing

/-!
**Tokens with balanced brackets.**

Much of a declaration is passed over: initialisers, bodies, the arguments of attributes.  All that a
reader needs to know of such a part is that its brackets are balanced and that what would end it
stands only inside brackets.  The parts are trees here, so that there are no unbalanced ones, and
each reader that passes over something is followed through a tree once and for all.

Main definitions:

* `Bracket`, `Nested` — brackets, and runs of tokens in which they are balanced;
* `Nested.flat`, `Nested.append` — runs without brackets, and runs in a row;
* `Nested.top` — what stands outside all brackets;
* `CountsBrackets` — readers that count brackets on their way.

Main results:

* `takeGroup_nested` — a group of balanced tokens is taken off as a whole;
* `CountsBrackets.nested` — **a reader that counts brackets** goes past balanced tokens as a whole;
* `takeStatement_nested`, `skipInitialiser_nested`, `memberHeader_nested` — the readers that do so.
-/

set_option autoImplicit false
set_option relaxedAutoImplicit false

namespace LocalisedEnum

/-! ### Balanced runs of tokens -/

/-- The kinds of brackets that nest. -/
inductive Bracket where
  | round
  | square
  | curly
  deriving DecidableEq, Repr

namespace Bracket

/-- The text of the opening bracket. -/
def openingText : Bracket → String
  | round => "("
  | square => "["
  | curly => openingBrace

/-- The text of the closing bracket. -/
def closingText : Bracket → String
  | round => ")"
  | square => "]"
  | curly => closingBrace

/-- The opening bracket. -/
def opening (b : Bracket) : Lexeme :=
  .operator b.openingText (by cases b <;> decide)

/-- The closing bracket. -/
def closing (b : Bracket) : Lexeme :=
  .operator b.closingText (by cases b <;> decide)

end Bracket

/-- The texts of all brackets. -/
def bracketTexts : List String :=
  ["(", ")", "[", "]", openingBrace, closingBrace]

/-- A run of tokens in which the brackets are balanced. -/
inductive Nested where
  | nil
  | leaf (t : Lexeme) (h : t.text ∉ bracketTexts) (rest : Nested)
  | group (b : Bracket) (inside rest : Nested)

namespace Nested

/-- The tokens of a run. -/
def lexemes : Nested → List Lexeme
  | nil => []
  | leaf t _ rest => t :: rest.lexemes
  | group b inside rest => b.opening :: (inside.lexemes ++ b.closing :: rest.lexemes)

/-- The tokens of a run, as they are read. -/
def tokens (n : Nested) : List Token :=
  tokensOf n.lexemes

/-- The texts of the tokens outside all brackets, and of the outermost brackets. -/
def top : Nested → List String
  | nil => []
  | leaf t _ rest => t.text :: rest.top
  | group b _ rest => b.openingText :: b.closingText :: rest.top

@[simp] theorem tokens_nil : nil.tokens = [] := rfl

@[simp] theorem tokens_leaf (t : Lexeme) (h : t.text ∉ bracketTexts) (rest : Nested) :
    (leaf t h rest).tokens = t.token :: rest.tokens := rfl

@[simp] theorem tokens_group (b : Bracket) (inside rest : Nested) :
    (group b inside rest).tokens =
      b.opening.token :: (inside.tokens ++ b.closing.token :: rest.tokens) := by
  simp [tokens, lexemes]

/-- Tokens without brackets. -/
def flat : (ts : List Lexeme) → (∀ t ∈ ts, t.text ∉ bracketTexts) → Nested
  | [], _ => nil
  | t :: ts, h =>
      leaf t (h t List.mem_cons_self) (flat ts fun u hu => h u (List.mem_cons_of_mem _ hu))

/-- Two runs in a row. -/
def append : Nested → Nested → Nested
  | nil, more => more
  | leaf t h rest, more => leaf t h (rest.append more)
  | group b inside rest, more => group b inside (rest.append more)

@[simp] theorem lexemes_flat (ts : List Lexeme) (h : ∀ t ∈ ts, t.text ∉ bracketTexts) :
    (flat ts h).lexemes = ts := by
  induction ts with
  | nil => rfl
  | cons t ts ih => rw [flat, lexemes, ih]

@[simp] theorem lexemes_append (n more : Nested) :
    (n.append more).lexemes = n.lexemes ++ more.lexemes := by
  induction n with
  | nil => rfl
  | leaf t h rest ih => rw [append, lexemes, lexemes, ih, List.cons_append]
  | group b inside rest _ ih => rw [append, lexemes, lexemes, ih]; simp

/-- What stands outside all brackets is one of the tokens. -/
theorem exists_of_mem_top {n : Nested} {text : String} (h : text ∈ n.top) :
    ∃ t ∈ n.lexemes, t.text = text := by
  induction n with
  | nil => cases h
  | leaf t ht rest ih =>
      rcases List.mem_cons.1 h with rfl | h
      · exact ⟨t, List.mem_cons_self, rfl⟩
      · obtain ⟨u, hu, htext⟩ := ih h
        exact ⟨u, List.mem_cons_of_mem _ hu, htext⟩
  | group b inside rest _ ih =>
      rcases List.mem_cons.1 h with rfl | h
      · exact ⟨b.opening, List.mem_cons_self, rfl⟩
      · rcases List.mem_cons.1 h with rfl | h
        · exact ⟨b.closing, by simp [lexemes], rfl⟩
        · obtain ⟨u, hu, htext⟩ := ih h
          exact ⟨u, by simp [lexemes, hu], htext⟩

end Nested

@[simp] theorem Bracket.opening_text (b : Bracket) : b.opening.text = b.openingText := rfl

@[simp] theorem Bracket.closing_text (b : Bracket) : b.closing.text = b.closingText := rfl

/-- A text that is no bracket neither opens nor closes a group. -/
theorem Bracket.ne_of_not_mem {text : String} (h : text ∉ bracketTexts) (b : Bracket) :
    text ≠ b.openingText ∧ text ≠ b.closingText := by
  constructor <;> rintro rfl <;> exact h (by cases b <;> decide)

theorem Bracket.opening_ne_closing (b b' : Bracket) : b.openingText ≠ b'.closingText := by
  cases b <;> cases b' <;> decide

theorem Bracket.eq_of_openingText {b b' : Bracket} (h : b.openingText = b'.openingText) :
    b = b' := by
  cases b <;> cases b' <;> first | rfl | exact absurd h (by decide)

theorem Bracket.eq_of_closingText {b b' : Bracket} (h : b.closingText = b'.closingText) :
    b = b' := by
  cases b <;> cases b' <;> first | rfl | exact absurd h (by decide)

@[simp] theorem Bracket.opening_token_text (b : Bracket) : b.opening.token.text = b.openingText :=
  rfl

@[simp] theorem Bracket.closing_token_text (b : Bracket) : b.closing.token.text = b.closingText :=
  rfl

/-! ### Groups -/

section Groups

variable {opening closing : String} (depth : Nat) {t : Token} (ts : List Token)

/-- A token that is no bracket of the kind in question goes into the group. -/
theorem groupInside_other (hopening : t.text ≠ opening) (hclosing : t.text ≠ closing) :
    groupInside opening closing depth (t :: ts) =
      (groupInside opening closing depth ts).map fun p => (t :: p.1, p.2) := by
  simp only [groupInside, if_neg hopening, if_neg hclosing]

theorem groupInside_opening (ht : t.text = opening) :
    groupInside opening closing depth (t :: ts) =
      (groupInside opening closing (depth + 1) ts).map fun p => (t :: p.1, p.2) := by
  simp only [groupInside, if_pos ht]

theorem groupInside_closing (hne : t.text ≠ opening) (ht : t.text = closing) :
    groupInside opening closing (depth + 1) (t :: ts) =
      (groupInside opening closing depth ts).map fun p => (t :: p.1, p.2) := by
  simp only [groupInside, if_neg hne, if_pos ht]

theorem groupInside_end (hne : t.text ≠ opening) (ht : t.text = closing) :
    groupInside opening closing 0 (t :: ts) = some ([], ts) := by
  simp only [groupInside, if_neg hne, if_pos ht]

end Groups

/-- Balanced tokens inside a group go into it, and leave the depth as it was. -/
theorem groupInside_nested (b : Bracket) (n : Nested) (depth : Nat) (rest : List Token) :
    groupInside b.openingText b.closingText depth (n.tokens ++ rest) =
      (groupInside b.openingText b.closingText depth rest).map fun p => (n.tokens ++ p.1, p.2) := by
  induction n generalizing depth rest with
  | nil => simp
  | leaf t h more ih =>
      obtain ⟨hopening, hclosing⟩ := b.ne_of_not_mem h
      rw [Nested.tokens_leaf, List.cons_append, groupInside_other depth _ hopening hclosing, ih,
        Option.map_map]
      rfl
  | group b' inside more ihInside ihMore =>
      rw [Nested.tokens_group, List.cons_append, List.append_assoc, List.cons_append]
      -- brackets of the kind in question count, those of another are like any other token
      by_cases hb : b' = b
      · subst hb
        rw [groupInside_opening depth _ b'.opening_token_text, ihInside,
          groupInside_closing depth _ (b'.opening_ne_closing b').symm b'.closing_token_text, ihMore]
        simp [Function.comp_def]
      · have hopening : b'.openingText ≠ b.openingText := fun h => hb (Bracket.eq_of_openingText h)
        have hclosing : b'.closingText ≠ b.closingText := fun h => hb (Bracket.eq_of_closingText h)
        rw [groupInside_other depth _ hopening (b'.opening_ne_closing b), ihInside,
          groupInside_other depth _ (b.opening_ne_closing b').symm hclosing, ihMore]
        simp [Function.comp_def]

/-- A group of balanced tokens is taken off as a whole. -/
theorem takeGroup_nested (b : Bracket) (n : Nested) (rest : List Token) :
    takeGroup b.openingText b.closingText
      (b.opening.token :: (n.tokens ++ b.closing.token :: rest)) = .ok (n.tokens, rest) := by
  rw [takeGroup, if_pos b.opening_token_text, groupInside_nested,
    groupInside_end _ (b.opening_ne_closing b).symm b.closing_token_text, Option.map_some,
    List.append_nil]

/-! ### Readers that count brackets -/

/-- A reader that goes on to the first token among `ends` outside all brackets that count: what it
does with the tokens in front of it is `take`, and how they count is `nesting`. -/
structure CountsBrackets {R : Type} (read : Int → List Token → R) (take : Token → R → R)
    (nesting : Token → Int) (weight : Bracket → Int) (ends : List String) : Prop where
  step : ∀ {depth : Int} {t : Token}, (depth ≤ 0 → t.text ∉ ends) → ∀ ts : List Token,
    read depth (t :: ts) = take t (read (depth + nesting t) ts)
  leaf : ∀ {t : Token}, t.text ∉ bracketTexts → nesting t = 0
  bracket : ∀ b : Bracket, nesting b.opening.token = weight b ∧ nesting b.closing.token = -weight b
  weight_nonneg : ∀ b : Bracket, 0 ≤ weight b
  uncounted : ∀ b : Bracket, weight b = 0 → b.openingText ∈ ends ∨ b.closingText ∈ ends

/-- **Balanced tokens** are gone past as a whole, unless what ends the reader stands in them outside
all brackets. -/
theorem CountsBrackets.nested {R : Type} {read : Int → List Token → R} {take : Token → R → R}
    {nesting : Token → Int} {weight : Bracket → Int} {ends : List String}
    (hread : CountsBrackets read take nesting weight ends) (n : Nested) {depth : Int}
    (hdepth : 0 ≤ depth) (h : 0 < depth ∨ ∀ text ∈ ends, text ∉ n.top) (rest : List Token) :
    read depth (n.tokens ++ rest) = n.tokens.foldr take (read depth rest) := by
  induction n generalizing depth rest with
  | nil => rfl
  | leaf t ht more ih =>
      have hno : depth ≤ 0 → t.token.text ∉ ends := by
        intro hle hmem
        rcases h with h | h
        · omega
        · exact h _ hmem List.mem_cons_self
      have hmore : 0 < depth ∨ ∀ text ∈ ends, text ∉ more.top :=
        h.imp_right fun h text htext hmem => h text htext (List.mem_cons_of_mem _ hmem)
      rw [Nested.tokens_leaf, List.cons_append, hread.step hno, hread.leaf (t := t.token) ht,
        Int.add_zero, ih hdepth hmore, List.foldr_cons]
  | group b inside more ihInside ihMore =>
      have hno : depth ≤ 0 → b.opening.token.text ∉ ends := by
        intro hle hmem
        rcases h with h | h
        · omega
        · exact h _ hmem List.mem_cons_self
      have hmore : 0 < depth ∨ ∀ text ∈ ends, text ∉ more.top := by
        refine h.imp_right fun h text htext hmem => h text htext ?_
        exact List.mem_cons_of_mem _ (List.mem_cons_of_mem _ hmem)
      -- a bracket that does not count ends the reader, so outside all brackets there is none
      have hinside : 0 < depth + weight b := by
        have hweight := hread.weight_nonneg b
        rcases h with h | h
        · omega
        · have hcounted : weight b ≠ 0 := by
            intro hzero
            rcases hread.uncounted b hzero with hmem | hmem
            · exact h _ hmem List.mem_cons_self
            · exact h _ hmem (List.mem_cons_of_mem _ List.mem_cons_self)
          omega
      have hclosing : depth + weight b ≤ 0 → b.closing.token.text ∉ ends := by omega
      have hback : depth + weight b + -weight b = depth := by omega
      rw [Nested.tokens_group, List.cons_append, List.append_assoc, List.cons_append,
        hread.step hno, (hread.bracket b).1, ihInside (Int.le_of_lt hinside) (Or.inl hinside),
        hread.step hclosing, (hread.bracket b).2, hback, ihMore hdepth hmore, List.foldr_cons,
        List.foldr_append, List.foldr_cons]

/-! ### Statements -/

theorem countsBrackets_statement :
    CountsBrackets takeStatementFrom (fun t => Except.map fun p => (t :: p.1, p.2)) statementNesting
      (fun _ => 1) [";"] where
  step := by
    intro depth t h ts
    rw [takeStatementFrom, if_neg fun hend => h hend.2 (List.mem_singleton.2 hend.1)]
    cases takeStatementFrom (depth + statementNesting t) ts <;> rfl
  leaf := by
    intro t h
    simp only [bracketTexts, openingBrace, closingBrace, List.mem_cons, List.not_mem_nil, or_false,
      not_or] at h
    simp [statementNesting, h]
  bracket := by
    intro b
    cases b <;> decide
  weight_nonneg := fun _ => Int.zero_le_ofNat 1
  uncounted := fun _ hzero => absurd hzero Int.one_ne_zero

/-- A statement of balanced tokens is taken off up to its semicolon. -/
theorem takeStatement_nested {n : Nested} (h : ";" ∉ n.top) {stop : Token} (hstop : stop.text = ";")
    (rest : List Token) : takeStatement (n.tokens ++ stop :: rest) = .ok (n.tokens, rest) := by
  have hends : ∀ text ∈ [";"], text ∉ n.top := fun text htext => List.mem_singleton.1 htext ▸ h
  have hend : takeStatementFrom 0 (stop :: rest) = .ok ([], rest) := by
    rw [takeStatementFrom, if_pos ⟨hstop, Int.le_refl 0⟩]
  rw [takeStatement, countsBrackets_statement.nested n (Int.le_refl 0) (Or.inr hends), hend]
  induction n.tokens with
  | nil => rfl
  | cons t ts ih => rw [List.foldr_cons, ih]; rfl

/-! ### Initialisers and headers -/

/-- The brackets that count in the initialiser of an enum member and in the header of a member. -/
def Bracket.roundDepth : Bracket → Int
  | curly => 0
  | _ => 1

theorem roundNesting_leaf {t : Token} (h : t.text ∉ bracketTexts) : roundNesting t = 0 := by
  simp only [bracketTexts, List.mem_cons, List.not_mem_nil, or_false, not_or] at h
  simp [roundNesting, h]

theorem roundNesting_bracket (b : Bracket) :
    roundNesting b.opening.token = b.roundDepth ∧ roundNesting b.closing.token = -b.roundDepth := by
  cases b <;> decide

theorem roundDepth_nonneg (b : Bracket) : 0 ≤ b.roundDepth := by
  cases b <;> decide

/-- The texts that end the initialiser of an enum member outside all round and square brackets. -/
def initialiserEnds : List String := [",", closingBrace]

theorem skipInitialiser_cons {depth : Int} {t : Token}
    (h : depth ≤ 0 → t.text ∉ initialiserEnds) (ts : List Token) :
    skipInitialiser depth (t :: ts) = skipInitialiser (depth + roundNesting t) ts := by
  rw [skipInitialiser, if_neg]
  rintro ⟨rfl, ht⟩
  exact h (Int.le_refl 0) (by simpa [initialiserEnds] using ht)

theorem countsBrackets_initialiser :
    CountsBrackets skipInitialiser (fun _ found => found) roundNesting Bracket.roundDepth
      initialiserEnds where
  step := skipInitialiser_cons
  leaf := roundNesting_leaf
  bracket := roundNesting_bracket
  weight_nonneg := roundDepth_nonneg
  uncounted := by
    intro b
    cases b <;> decide

/-- An initialiser of balanced tokens is passed over. -/
theorem skipInitialiser_nested {n : Nested} (h : ∀ text ∈ initialiserEnds, text ∉ n.top)
    (rest : List Token) : skipInitialiser 0 (n.tokens ++ rest) = skipInitialiser 0 rest := by
  rw [countsBrackets_initialiser.nested n (Int.le_refl 0) (Or.inr h)]
  induction n.tokens with
  | nil => rfl
  | cons t ts ih => exact ih

/-- The texts that end the header of a member outside all round and square brackets. -/
def headerEnds : List String := [";", openingBrace, "=>", closingBrace]

theorem memberHeader_cons {depth : Int} {t : Token} (h : depth ≤ 0 → t.text ∉ headerEnds)
    (ts : List Token) :
    memberHeader depth (t :: ts) =
      (memberHeader (depth + roundNesting t) ts).map fun p => (t :: p.1, p.2) := by
  rw [memberHeader, if_neg]
  rintro ⟨rfl, ht⟩
  exact h (Int.le_refl 0) (by simpa [headerEnds, endsMemberHeader] using ht)

theorem countsBrackets_header :
    CountsBrackets memberHeader (fun t => Option.map fun p => (t :: p.1, p.2)) roundNesting
      Bracket.roundDepth headerEnds where
  step := memberHeader_cons
  leaf := roundNesting_leaf
  bracket := roundNesting_bracket
  weight_nonneg := roundDepth_nonneg
  uncounted := by
    intro b
    cases b <;> decide

/-- Balanced tokens belong to the header of a member as a whole. -/
theorem memberHeader_nested {n : Nested} (h : ∀ text ∈ headerEnds, text ∉ n.top)
    (rest : List Token) :
    memberHeader 0 (n.tokens ++ rest) =
      (memberHeader 0 rest).map fun p => (n.tokens ++ p.1, p.2) := by
  rw [countsBrackets_header.nested n (Int.le_refl 0) (Or.inr h)]
  induction n.tokens with
  | nil => simp
  | cons t ts ih => rw [List.foldr_cons, ih, Option.map_map]; rfl

end LocalisedEnum

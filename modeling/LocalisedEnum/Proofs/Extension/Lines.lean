import LocalisedEnum.Extension.Layout
import LocalisedEnum.Proofs.Declaration.Nested
import LocalisedEnum.Proofs.Token.CodePiece

/-!
**The tokens of laid-out code.**

Code is laid out in lines, and the lines are indented by the blocks around them.  A line means the
same tokens wherever it stands, because it ends where a line ends and the blanks in front of it are
none of them; so the tokens of laid-out code are those of its lines, and a block adds its head and
its braces.

Main definitions:

* `indentLine` — a line a number of levels deeper;
* `SpelledLine`, `SpelledText` — a line and a text that are read as given tokens.

Main results:

* `indentBy_unlines` — indenting a text indents its lines;
* `SpelledText.inBlock` — **a block** adds its head and its braces to the tokens of its code;
* `SpelledText.bareTokens` — the tokens of a text.
-/

set_option autoImplicit false
set_option relaxedAutoImplicit false

namespace LocalisedEnum

/-! ### Lines and their indentation -/

/-- A line does not end before its end. -/
def OneLine (line : String) : Prop :=
  ∀ c ∈ line.toList, isLineEnd c = false

/-- A literal text is one line if its characters say so. -/
theorem oneLine_ofList {cs : List Char} (h : (cs.all fun c => !isLineEnd c) = true) :
    OneLine (String.ofList cs) := by
  intro c hc
  rw [String.toList_ofList] at hc
  simpa using List.all_eq_true.1 h c hc

theorem OneLine.append {line more : String} (h : OneLine line) (hmore : OneLine more) :
    OneLine (line ++ more) := by
  intro c hc
  rw [String.toList_append, List.mem_append] at hc
  exact hc.elim (h c) (hmore c)

theorem linesWithEnds_cons {c : Char} (hc : isLineEnd c = false) (cs : List Char) :
    linesWithEnds (c :: cs) = extendLine c (linesWithEnds cs) := by
  have hreturn : c ≠ '\r' := by
    rintro rfl
    exact absurd hc (by decide)
  simp [linesWithEnds, hc, hreturn]

theorem linesWithEnds_line {line : List Char} (h : ∀ c ∈ line, isLineEnd c = false)
    (hne : line ≠ []) : linesWithEnds line = [line] := by
  induction line with
  | nil => exact absurd rfl hne
  | cons c cs ih =>
      rw [linesWithEnds_cons (h c List.mem_cons_self)]
      cases cs with
      | nil => rfl
      | cons d ds =>
          rw [ih (fun x hx => h x (List.mem_cons_of_mem _ hx)) (List.cons_ne_nil _ _)]; rfl

theorem linesWithEnds_lineFeed {line : List Char} (h : ∀ c ∈ line, isLineEnd c = false)
    (rest : List Char) :
    linesWithEnds (line ++ '\n' :: rest) = (line ++ ['\n']) :: linesWithEnds rest := by
  induction line with
  | nil => rfl
  | cons c cs ih =>
      rw [List.cons_append, linesWithEnds_cons (h c List.mem_cons_self),
        ih fun x hx => h x (List.mem_cons_of_mem _ hx)]
      rfl

/-- A line with a margin in front of it, unless it is blank. -/
def indentLine (margin line : String) : String :=
  if isBlankString line then line else margin ++ line

theorem unlines_singleton (line : String) : unlines [line] = line := by
  rw [unlines, joinWith, String.intercalate_singleton]

theorem toList_unlines_cons (line next : String) (lines : List String) :
    (unlines (line :: next :: lines)).toList =
      line.toList ++ '\n' :: (unlines (next :: lines)).toList := by
  simp only [unlines, joinWith, String.intercalate_cons_cons, String.toList_append,
    List.append_assoc]
  rfl

/-- Indenting a text indents its lines. -/
theorem indentBy_unlines (margin : String) {lines : List String}
    (h : ∀ line ∈ lines, OneLine line) :
    indentBy margin (unlines lines) = unlines (lines.map (indentLine margin)) := by
  rw [indentBy, ← String.toList_inj, String.toList_ofList]
  induction lines with
  | nil => rfl
  | cons line lines ih =>
      have hline := h line List.mem_cons_self
      have hmargin : (indentLine margin line).toList =
          if line.toList.all isBlank then line.toList else margin.toList ++ line.toList := by
        rw [indentLine, isBlankString]
        split
        · rfl
        · exact String.toList_append
      -- the last line has no end, and an empty one is no line at all
      cases lines with
      | nil =>
          by_cases hempty : line = ""
          · subst hempty
            rfl
          · have hne : line.toList ≠ [] := fun heq => hempty (String.toList_inj.1 heq)
            rw [unlines_singleton, List.map_singleton, unlines_singleton,
              linesWithEnds_line hline hne, hmargin]
            simp
      | cons next lines =>
          rw [toList_unlines_cons, linesWithEnds_lineFeed hline, List.flatMap_cons,
            ih fun l hl => h l (List.mem_cons_of_mem _ hl), List.map_cons, List.map_cons,
            List.map_cons, toList_unlines_cons, hmargin]
          have hblank : isBlank '\n' = true := by decide
          by_cases hall : line.toList.all isBlank = true
          · simp [hall, hblank]
          · simp [hall, hblank]

/-! ### Lines as tokens -/

/-- A line that is read as the given tokens, whatever lines stand behind it. -/
structure SpelledLine (line : String) (ts : List Lexeme) : Prop where
  oneLine : OneLine line
  tokens : ∀ rest : List Char, (∀ x ∈ rest.head?, x = '\n') →
    bareTokens (line.toList ++ rest) = tokensOf ts ++ bareTokens rest

@[simp] theorem margin_zero : margin 0 = "" := rfl

theorem mem_margin {levels : Nat} {c : Char} (h : c ∈ (margin levels).toList) : c = ' ' := by
  have hunit : indentUnit.toList.all (· == ' ') = true := by decide
  induction levels with
  | zero => simp [margin] at h
  | succ levels ih =>
      rw [margin, List.replicate_succ, String.join_cons, String.toList_append, List.mem_append] at h
      rcases h with h | h
      · exact beq_iff_eq.1 (List.all_eq_true.1 hunit c h)
      · exact ih h

/-- Blanks in front of a line are none of its tokens. -/
theorem SpelledLine.behindMargin {line : String} {ts : List Lexeme} (h : SpelledLine line ts)
    (levels : Nat) : SpelledLine (margin levels ++ line) ts where
  oneLine := by
    intro c hc
    rw [String.toList_append, List.mem_append] at hc
    rcases hc with hc | hc
    · rw [mem_margin hc]
      decide
    · exact h.oneLine c hc
  tokens := by
    intro rest hrest
    have hblank : ∀ x ∈ (margin levels).toList, isBlank x = true := fun x hx =>
      mem_margin hx ▸ (by decide)
    rw [String.toList_append, List.append_assoc, bareTokens_blank hblank, h.tokens rest hrest]

/-- A line of pieces that stay apart. -/
theorem SpelledLine.ofPieces {line : String} (levels : Nat) (ps : List CodePiece)
    (hline : line.toList = (margin levels).toList ++ spell ps) (h : apart ps = true) :
    SpelledLine line (lexemesOf ps) := by
  have hcode : SpelledLine (String.ofList (spell ps)) (lexemesOf ps) := by
    refine ⟨?_, ?_⟩
    · intro c hc
      rw [String.toList_ofList] at hc
      obtain ⟨p, _, hc⟩ := List.mem_flatMap.1 hc
      exact p.oneLine c hc
    · intro rest hrest
      rw [String.toList_ofList]
      exact bareTokens_spell h fun x hx => hrest x hx ▸ (by decide)
  have hsplit : line = margin levels ++ String.ofList (spell ps) := by
    rw [← String.toList_inj, hline, String.toList_append, String.toList_ofList]
  rw [hsplit]
  exact hcode.behindMargin levels

/-- A comment leaves no token. -/
theorem SpelledLine.comment {line : String} (cs : List Char)
    (hline : line.toList = '/' :: '/' :: cs) (h : OneLine line) : SpelledLine line [] where
  oneLine := h
  tokens := by
    have hcs : '\n' ∉ cs := fun hmem =>
      absurd (h '\n' (hline ▸ List.mem_cons_of_mem _ (List.mem_cons_of_mem _ hmem))) (by decide)
    intro rest hrest
    rw [hline]
    exact bareTokens_comment hcs hrest

theorem SpelledLine.comment_ofList {cs : List Char}
    (h : (('/' :: '/' :: cs).all fun c => !isLineEnd c) = true) :
    SpelledLine (String.ofList ('/' :: '/' :: cs)) [] :=
  .comment cs String.toList_ofList (oneLine_ofList h)

theorem SpelledLine.empty : SpelledLine "" [] where
  oneLine := fun _ hc => nomatch hc
  tokens := fun _ _ => rfl

theorem openingLine : SpelledLine "\x7b" [Bracket.curly.opening] :=
  .ofPieces 0 [.mark openingBrace (by decide)] rfl rfl

theorem closingLine : SpelledLine "\x7d" [Bracket.curly.closing] :=
  .ofPieces 0 [.mark closingBrace (by decide)] rfl rfl

theorem SpelledLine.indentLine {line : String} {ts : List Lexeme} (h : SpelledLine line ts)
    (levels : Nat) : SpelledLine (indentLine (margin levels) line) ts := by
  rw [LocalisedEnum.indentLine]
  split
  · exact h
  · exact h.behindMargin levels

/-! ### Texts as tokens -/

/-- Lines that are read as the given tokens. -/
inductive SpelledLines : List String → List Lexeme → Prop
  | nil : SpelledLines [] []
  | cons {line : String} {lines : List String} {ts us : List Lexeme} (h : SpelledLine line ts)
      (hs : SpelledLines lines us) : SpelledLines (line :: lines) (ts ++ us)

namespace SpelledLines

theorem single {line : String} {ts : List Lexeme} (h : SpelledLine line ts) :
    SpelledLines [line] ts := by
  simpa using cons h nil

theorem append {lines more : List String} {ts us : List Lexeme} (h : SpelledLines lines ts)
    (hmore : SpelledLines more us) : SpelledLines (lines ++ more) (ts ++ us) := by
  induction h with
  | nil => exact hmore
  | cons h _ ih =>
      rw [List.cons_append, List.append_assoc]
      exact cons h ih

theorem flatMap {α : Type} {items : List α} {lines : α → List String} {ts : α → List Lexeme}
    (h : ∀ item ∈ items, SpelledLines (lines item) (ts item)) :
    SpelledLines (items.flatMap lines) (items.flatMap ts) := by
  induction items with
  | nil => exact nil
  | cons item items ih =>
      exact append (h item List.mem_cons_self) (ih fun i hi => h i (List.mem_cons_of_mem _ hi))

theorem oneLine {lines : List String} {ts : List Lexeme} (h : SpelledLines lines ts) :
    ∀ line ∈ lines, OneLine line := by
  induction h with
  | nil => exact fun _ hmem => nomatch hmem
  | cons h _ ih =>
      intro l hl
      rcases List.mem_cons.1 hl with rfl | hl
      · exact h.oneLine
      · exact ih l hl

/-- Lines mean the same tokens at every level. -/
theorem indent {lines : List String} {ts : List Lexeme} (h : SpelledLines lines ts) (levels : Nat) :
    SpelledLines (lines.map (indentLine (margin levels))) ts := by
  induction h with
  | nil => exact nil
  | cons h _ ih => exact cons (h.indentLine levels) ih

theorem bareTokens {lines : List String} {ts : List Lexeme} (h : SpelledLines lines ts) :
    LocalisedEnum.bareTokens (unlines lines).toList = tokensOf ts := by
  induction h with
  | nil => exact bareTokens_nil
  | @cons line lines ts us h hs ih =>
      -- between two lines stands the end of the first, and behind the last nothing
      cases hs with
      | nil =>
          have htokens := h.tokens [] (by simp)
          simpa [unlines_singleton] using htokens
      | @cons next lines vs ws _ _ =>
          have hblank : isBlank '\n' = true := by decide
          rw [toList_unlines_cons, h.tokens _ fun x hx => by cases hx; rfl,
            bareTokens_cons_blank hblank, ih, ← tokensOf_append]

end SpelledLines

/-- A text whose lines are read as the given tokens. -/
def SpelledText (text : String) (ts : List Lexeme) : Prop :=
  ∃ lines, lines ≠ [] ∧ text = unlines lines ∧ SpelledLines lines ts

theorem SpelledText.bareTokens {text : String} {ts : List Lexeme} (h : SpelledText text ts) :
    LocalisedEnum.bareTokens text.toList = tokensOf ts := by
  obtain ⟨lines, _, rfl, hlines⟩ := h
  exact hlines.bareTokens

theorem SpelledText.ofLine {line : String} {ts : List Lexeme} (h : SpelledLine line ts) :
    SpelledText line ts :=
  ⟨[line], List.cons_ne_nil _ _, (unlines_singleton line).symm, .single h⟩

/-- Lines in the place of one of them. -/
theorem unlines_nested (front back : List String) {lines : List String} (h : lines ≠ []) :
    unlines (front ++ unlines lines :: back) = unlines (front ++ (lines ++ back)) := by
  have hback : unlines (unlines lines :: back) = unlines (lines ++ back) := by
    cases back with
    | nil => rw [List.append_nil, unlines_singleton]
    | cons line back =>
        simp only [unlines, joinWith]
        rw [String.intercalate_cons_of_ne_nil (List.cons_ne_nil _ _),
          String.intercalate_append_of_ne_nil h (List.cons_ne_nil _ _)]
  cases front with
  | nil => exact hback
  | cons line front =>
      simp only [unlines, joinWith] at hback ⊢
      rw [String.intercalate_append_of_ne_nil (List.cons_ne_nil _ _) (List.cons_ne_nil _ _),
        String.intercalate_append_of_ne_nil (List.cons_ne_nil _ _) (by simp [h]), hback]

/-- **A block** adds its head and its braces to the tokens of its code. -/
theorem SpelledText.inBlock {head code : String} {hs ts : List Lexeme} (hhead : SpelledLine head hs)
    (h : SpelledText code ts) :
    SpelledText (inBlock head code)
      (hs ++ Bracket.curly.opening :: (ts ++ [Bracket.curly.closing])) := by
  obtain ⟨lines, hne, rfl, hlines⟩ := h
  have hindented : lines.map (indentLine (margin 1)) ≠ [] := by simp [hne]
  refine ⟨[head, "\x7b"] ++ (lines.map (indentLine (margin 1)) ++ ["\x7d"]), by simp, ?_, ?_⟩
  · rw [LocalisedEnum.inBlock, indent, indentBy_unlines _ hlines.oneLine,
      ← unlines_nested [head, "\x7b"] ["\x7d"] hindented]
    rfl
  · exact .cons hhead (.cons openingLine ((hlines.indent 1).append (.single closingLine)))

/-- A generated file has the tokens of its code. -/
theorem SpelledText.inFile {code : String} {ts : List Lexeme} (h : SpelledText code ts) :
    SpelledText (generatedHeader ++ "\n" ++ code ++ "\n") ts := by
  obtain ⟨lines, hne, rfl, hlines⟩ := h
  have hheader : SpelledLine generatedHeader [] := .comment_ofList (by decide)
  refine ⟨generatedHeader :: (lines ++ [""]), List.cons_ne_nil _ _, ?_, ?_⟩
  · have hnested := unlines_nested [generatedHeader] [""] hne
    rw [List.singleton_append, List.singleton_append] at hnested
    rw [← hnested]
    simp [unlines, joinWith, String.append_assoc]
  · simpa using SpelledLines.cons hheader (hlines.append (.single .empty))

end LocalisedEnum

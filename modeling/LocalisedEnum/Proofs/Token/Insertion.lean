import LocalisedEnum.Proofs.Token.Ends

/-!
**White space that is put in behind a lexeme.**

Some recognisers look far ahead: for the end of a comment, for the end of a literal, and for a run
of quotes that is long enough to close the longest opening there is.  Blanks that are put in between
two tokens could change what they find.  They do not, unless a quote that closes nothing, or a
character that begins nothing, is a token of its own.

What a recogniser takes is told from the characters it takes and the one behind them, and where that
one is now a blank it goes on with nothing.  What came earlier in the order and took nothing still
takes nothing.

Main results:

* `rawLength_inserted`, `operatorLength_inserted`, `commentLength_inserted`, … — one recogniser
  after the other takes what it took;
* `lexeme_cases` — a lexeme is what one recogniser takes;
* `lexeme_inserted` — **a lexeme is taken as before** when blanks are put in somewhere behind it.
-/

set_option autoImplicit false
set_option relaxedAutoImplicit false

namespace LocalisedEnum

/-! ### Blanks behind a lexeme -/

section Behind

variable {a b : List Char} {g : Blanks}

/-- The character that stands behind a lexeme is the one that stood there, or a blank. -/
theorem head_inserted (hg : g.chars ≠ []) (a b : List Char) :
    ∀ c ∈ (a ++ (g.chars ++ b)).head?, isBlank c = true ∨ c ∈ (a ++ b).head? := by
  intro c hc
  cases a with
  | nil => exact Or.inl (Blanks.head_append hg b c hc)
  | cons d a => exact Or.inr hc

/-- What stood behind a lexeme and did not go on with it still does not. -/
theorem head_inserted_of (hg : g.chars ≠ []) {p : Char → Bool}
    (hp : ∀ c, isBlank c = true → p c = false) (h : ∀ c ∈ (a ++ b).head?, p c = false) :
    ∀ c ∈ (a ++ (g.chars ++ b)).head?, p c = false := by
  intro c hc
  rcases head_inserted hg a b c hc with hc | hc
  · exact hp c hc
  · exact h c hc

theorem takeWhile_inserted (hg : g.chars ≠ []) {p : Char → Bool}
    (hp : ∀ c, isBlank c = true → p c = false) (x b : List Char) :
    (x ++ (g.chars ++ b)).takeWhile p = x.takeWhile p := by
  have hblanks : (g.chars ++ b).takeWhile p = [] := by
    obtain ⟨c, cs, hcs⟩ := List.exists_cons_of_ne_nil hg
    rw [hcs, List.cons_append, List.takeWhile_cons, hp c (g.blank c (hcs ▸ List.mem_cons_self))]
    rfl
  rw [List.takeWhile_append, hblanks]
  split
  · next h => rw [List.append_nil, (List.takeWhile_prefix p).eq_of_length h]
  · rfl

theorem length_takeWhile_append_le (p : Char → Bool) (x b : List Char) :
    (x.takeWhile p).length ≤ ((x ++ b).takeWhile p).length := by
  rw [List.takeWhile_append]
  split
  · next h => rw [List.length_append, h]; exact Nat.le_add_right _ _
  · exact Nat.le_refl _

theorem ne_of_isBlank {c d : Char} (hc : isBlank c = true) (hd : isBlank d = false) : c ≠ d := by
  rintro rfl
  rw [hc] at hd
  cases hd

theorem isQuote_of_isBlank (c : Char) (hc : isBlank c = true) : (c == '"') = false :=
  beq_eq_false_iff_ne.2 (ne_of_isBlank hc (by decide))

/-! ### Raw literals -/

theorem quotedRunLength_eq_none_iff {cs : List Char} {run : Nat} :
    quotedRunLength cs run = none ↔
      ∀ count, 3 ≤ count → count ≤ run → ¬ quotes count <:+: cs.drop count := by
  induction run with
  | zero =>
      refine ⟨fun _ count h3 hle => ?_, fun _ => rfl⟩
      omega
  | succ run ih =>
      rw [quotedRunLength]
      split
      · next h =>
        refine ⟨fun _ count h3 hle => ?_, fun _ => rfl⟩
        omega
      · next h =>
        split
        · next n hn =>
          simp only [reduceCtorEq, false_iff]
          intro hno
          have hclosing := closingQuotes_eq_none (Nat.succ_pos run) |>.2
            (hno (run + 1) (by omega) (Nat.le_refl _))
          rw [hn] at hclosing
          cases hclosing
        · next hn =>
          rw [ih]
          refine ⟨fun hno count h3 hle => ?_, fun hno count h3 hle => hno count h3 (by omega)⟩
          rcases Nat.lt_or_eq_of_le hle with hlt | rfl
          · exact hno count h3 (Nat.le_of_lt_succ hlt)
          · exact (closingQuotes_eq_none (Nat.succ_pos run)).1 hn

theorem quotedRunLength_eq_some_iff {cs : List Char} {run n : Nat} :
    quotedRunLength cs run = some n ↔
      ∃ count m, 3 ≤ count ∧ count ≤ run ∧ closingQuotes count (cs.drop count) = some m ∧
        n = count + m ∧ ∀ more, count < more → more ≤ run → ¬ quotes more <:+: cs.drop more := by
  induction run with
  | zero =>
      simp only [quotedRunLength, reduceCtorEq, false_iff]
      rintro ⟨count, m, h3, hle, -⟩
      omega
  | succ run ih =>
      rw [quotedRunLength]
      split
      · next h =>
        simp only [reduceCtorEq, false_iff]
        rintro ⟨count, m, h3, hle, -⟩
        omega
      · next h =>
        split
        · next m hm =>
          constructor
          · intro h
            cases h
            refine ⟨run + 1, m, by omega, Nat.le_refl _, hm, rfl, fun more hmore hle => ?_⟩
            omega
          · rintro ⟨count, k, h3, hle, hk, rfl, hmore⟩
            -- the longest opening is closed, so that it is the one that is taken
            rcases Nat.lt_or_eq_of_le hle with hlt | rfl
            · have hclosing := (closingQuotes_eq_none (Nat.succ_pos run)).2
                (hmore (run + 1) hlt (Nat.le_refl _))
              rw [hm] at hclosing
              cases hclosing
            · rw [hm] at hk
              cases hk
              rfl
        · next hn =>
          have hlongest := (closingQuotes_eq_none (Nat.succ_pos run)).1 hn
          rw [ih]
          constructor
          · rintro ⟨count, m, h3, hle, hm, hsum, hmore⟩
            refine ⟨count, m, h3, by omega, hm, hsum, fun more hlt hle => ?_⟩
            rcases Nat.lt_or_eq_of_le hle with hlt' | rfl
            · exact hmore more hlt (Nat.le_of_lt_succ hlt')
            · exact hlongest
          · rintro ⟨count, m, h3, hle, hm, hsum, hmore⟩
            rcases Nat.lt_or_eq_of_le hle with hlt | rfl
            · exact ⟨count, m, h3, Nat.le_of_lt_succ hlt, hm, hsum,
                fun more hmore' hle => hmore more hmore' (by omega)⟩
            · rw [hn] at hm
              cases hm

/-- The quotes at the front of a text. -/
def openingQuotes (cs : List Char) : Nat :=
  (cs.takeWhile (· == '"')).length

theorem rawLength_dollar (cs : List Char) :
    rawLength ('$' :: cs) = (rawLength cs).map (1 + ·) := by
  have hrun : (('$' :: cs).takeWhile (· == '$')).length = (cs.takeWhile (· == '$')).length + 1 := by
    simp
  simp only [rawLength, hrun, List.drop_succ_cons, Option.map_map, Function.comp_def]
  congr 1
  funext n
  omega

theorem rawLength_of_ne {c : Char} (hc : c ≠ '$') (cs : List Char) :
    rawLength (c :: cs) = quotedRunLength (c :: cs) (openingQuotes (c :: cs)) := by
  simp [rawLength, hc, openingQuotes]

theorem openingQuotes_inserted (hg : g.chars ≠ []) (x b : List Char) :
    openingQuotes (x ++ (g.chars ++ b)) = openingQuotes x :=
  congrArg List.length (takeWhile_inserted hg isQuote_of_isBlank x b)

theorem openingQuotes_le_append (x b : List Char) : openingQuotes x ≤ openingQuotes (x ++ b) :=
  length_takeWhile_append_le _ x b

theorem openingQuotes_le (x : List Char) : openingQuotes x ≤ x.length :=
  (List.takeWhile_prefix _).length_le

/-- The blanks close no raw literal that was not closed. -/
theorem not_closed_inserted (hg : g.chars ≠ []) {x : List Char} {count : Nat} (hcount : 0 < count)
    (hlength : count ≤ x.length) (h : ¬ quotes count <:+: (x ++ b).drop count) :
    ¬ quotes count <:+: (x ++ (g.chars ++ b)).drop count := by
  have hne : quotes count ≠ [] := by simp [quotes, Nat.pos_iff_ne_zero.1 hcount]
  rw [List.drop_append_of_le_length hlength] at h ⊢
  exact mt (infix_of_inserted hg hne (isBlank_quotes count)) h

/-- The blanks are the beginning of no raw literal and make none of what is in front of them. -/
theorem rawLength_eq_none_inserted (hg : g.chars ≠ []) (x : List Char)
    (h : rawLength (x ++ b) = none) : rawLength (x ++ (g.chars ++ b)) = none := by
  induction x with
  | nil =>
      obtain ⟨c, cs, hcs⟩ := List.exists_cons_of_ne_nil hg
      have hc : isBlank c = true := g.blank c (hcs ▸ List.mem_cons_self)
      rw [List.nil_append, hcs, List.cons_append]
      exact rawLength_eq_none (ne_of_isBlank hc (by decide)) (ne_of_isBlank hc (by decide))
  | cons c x ih =>
      by_cases hc : c = '$'
      · subst hc
        rw [List.cons_append, rawLength_dollar, Option.map_eq_none_iff] at h ⊢
        exact ih h
      · rw [List.cons_append, rawLength_of_ne hc, ← List.cons_append,
          quotedRunLength_eq_none_iff] at h ⊢
        rw [openingQuotes_inserted hg]
        intro count h3 hle
        have hlength : count ≤ (c :: x).length := Nat.le_trans hle (openingQuotes_le _)
        exact not_closed_inserted hg (by omega) hlength
          (h count h3 (Nat.le_trans hle (openingQuotes_le_append _ b)))

theorem le_openingQuotes {text x : List Char} {count : Nat} (hlength : count ≤ text.length)
    (h : count ≤ openingQuotes (text ++ x)) : count ≤ openingQuotes text := by
  rw [openingQuotes, List.takeWhile_append] at h
  split at h
  · next hall => rwa [openingQuotes, hall]
  · exact h

theorem quotedRunLength_inserted (hg : g.chars ≠ []) {text : List Char}
    (h : quotedRunLength (text ++ (a ++ b)) (openingQuotes (text ++ (a ++ b))) = some text.length) :
    quotedRunLength (text ++ (a ++ (g.chars ++ b)))
      (openingQuotes (text ++ (a ++ (g.chars ++ b)))) = some text.length := by
  obtain ⟨count, m, h3, hle, hclosing, hsum, hmore⟩ := quotedRunLength_eq_some_iff.1 h
  have hlength : count ≤ text.length := by omega
  have hopening : count ≤ openingQuotes (text ++ a) :=
    Nat.le_trans (le_openingQuotes hlength hle) (openingQuotes_le_append text a)
  have hrun : openingQuotes (text ++ (a ++ (g.chars ++ b))) = openingQuotes (text ++ a) := by
    rw [← List.append_assoc, openingQuotes_inserted hg]
  refine quotedRunLength_eq_some_iff.2 ⟨count, m, h3, hrun ▸ hopening, ?_, hsum, ?_⟩
  · have hm : m = (text.drop count).length := by
      rw [List.length_drop]
      omega
    rw [List.drop_append_of_le_length hlength, hm] at hclosing ⊢
    exact local_closingQuotes (by omega) _ _ _ hclosing
  · -- the longer openings were not closed, and are not closed now
    intro more hlt hle
    rw [hrun] at hle
    have hbefore := hmore more hlt (by
      rw [← List.append_assoc]
      exact Nat.le_trans hle (openingQuotes_le_append _ b))
    rw [← List.append_assoc] at hbefore ⊢
    exact not_closed_inserted hg (by omega) (Nat.le_trans hle (openingQuotes_le _)) hbefore

theorem le_of_quotedRunLength {cs : List Char} {run n : Nat} (h : quotedRunLength cs run = some n) :
    3 ≤ n := by
  obtain ⟨count, m, h3, -, -, rfl, -⟩ := quotedRunLength_eq_some_iff.1 h
  omega

theorem le_of_rawLength {cs : List Char} {n : Nat} (h : rawLength cs = some n) : 3 ≤ n := by
  obtain ⟨m, hm, rfl⟩ := Option.map_eq_some_iff.1 h
  have := le_of_quotedRunLength hm
  omega

/-- **A raw literal** is taken as before. -/
theorem rawLength_inserted (hg : g.chars ≠ []) {text : List Char}
    (h : rawLength (text ++ (a ++ b)) = some text.length) :
    rawLength (text ++ (a ++ (g.chars ++ b))) = some text.length := by
  induction text with
  | nil => exact absurd (le_of_rawLength h) (by simp)
  | cons c text ih =>
      by_cases hc : c = '$'
      · subst hc
        rw [List.cons_append, rawLength_dollar] at h ⊢
        obtain ⟨n, hn, hsum⟩ := Option.map_eq_some_iff.1 h
        rw [ih (hn.trans (congrArg some ?_)), Option.map_some, List.length_cons, Nat.add_comm]
        rw [List.length_cons] at hsum
        omega
      · rw [List.cons_append, rawLength_of_ne hc, ← List.cons_append] at h ⊢
        exact quotedRunLength_inserted hg h

/-! ### Numbers, words and operators -/

variable {c : Char} {text : List Char}

/-- A run that is taken ends where it ended. -/
theorem run_inserted (hg : g.chars ≠ []) {p : Char → Bool}
    (hp : ∀ c, isBlank c = true → p c = false)
    (h : ((text ++ (a ++ b)).takeWhile p).length = text.length) :
    (text ++ (a ++ (g.chars ++ b))).takeWhile p = text := by
  obtain ⟨htext, hhead⟩ := takeWhile_length_eq h
  exact takeWhile_run htext (head_inserted_of hg hp hhead)

theorem isNumberPart_of_isBlank (c : Char) (hc : isBlank c = true) : isNumberPart c = false := by
  have hpoint : (c == '.') = false := beq_eq_false_iff_ne.2 (ne_of_isBlank hc (by decide))
  rw [isNumberPart, isWord_of_isBlank hc, hpoint]
  rfl

theorem numberLength_cons {cs : List Char} (hc : isDigit c = true) :
    numberLength (c :: cs) = some ((cs.takeWhile isNumberPart).length + 1) := by
  rw [numberLength, if_pos hc, Nat.add_comm]
  rfl

theorem wordLength_cons {cs : List Char} (hc : isWordStart c = true) :
    wordLength (c :: cs) = some ((cs.takeWhile isWord).length + 1) := by
  rw [wordLength, if_pos hc, Nat.add_comm]

theorem numberLength_inserted (hg : g.chars ≠ [])
    (h : numberLength (c :: (text ++ (a ++ b))) = some (c :: text).length) :
    numberLength (c :: (text ++ (a ++ (g.chars ++ b)))) = some (c :: text).length := by
  cases hc : isDigit c with
  | false => simp [numberLength, hc] at h
  | true =>
      rw [numberLength_cons hc, List.length_cons, Option.some_inj, Nat.add_right_cancel_iff] at h
      rw [numberLength_cons hc, run_inserted hg isNumberPart_of_isBlank h, List.length_cons]

theorem le_of_wordLength {cs : List Char} {n : Nat} (h : wordLength cs = some n) : 1 ≤ n := by
  cases cs with
  | nil => cases h
  | cons c cs =>
      rw [wordLength] at h
      split at h
      · cases h
        exact Nat.le_add_right 1 _
      · cases h

/-- A word where it is taken. -/
theorem word_of_wordLength {x : List Char}
    (h : wordLength (c :: (text ++ x)) = some (c :: text).length) :
    isWordStart c = true ∧ (∀ d ∈ text, isWord d = true) ∧ ∀ d ∈ x.head?, isWord d = false := by
  cases hc : isWordStart c with
  | false => simp [wordLength, hc] at h
  | true =>
      rw [wordLength_cons hc, List.length_cons, Option.some_inj, Nat.add_right_cancel_iff] at h
      exact ⟨rfl, takeWhile_length_eq h⟩

theorem isBlank_of_mem_longOperators {operator : List Char} (h : operator ∈ longOperators) :
    ∀ c ∈ operator, isBlank c = false := fun _ hc =>
  isBlank_of_mem_operatorChars (List.mem_append_left _ (List.mem_flatten.2 ⟨operator, h, hc⟩))

/-- No operator is found that was not there. -/
theorem startsWith_inserted (hg : g.chars ≠ []) {front x : List Char}
    (hfront : ∀ c ∈ front, isBlank c = false) (h : startsWith front (x ++ b) = false) :
    startsWith front (x ++ (g.chars ++ b)) = false := by
  rw [Bool.eq_false_iff, Ne, startsWith_iff] at h ⊢
  exact fun hx => h ((prefix_of_inserted hg hfront hx).trans (List.prefix_append x b))

theorem operatorLength_inserted (hg : g.chars ≠ [])
    (h : operatorLength (c :: text ++ (a ++ b)) = some (c :: text).length) :
    operatorLength (c :: text ++ (a ++ (g.chars ++ b))) = some (c :: text).length := by
  -- the operators that the text did not start with it still does not start with
  have hnone : ∀ operator ∈ longOperators, startsWith operator (c :: text ++ (a ++ b)) = false →
      startsWith operator (c :: text ++ (a ++ (g.chars ++ b))) = false := by
    intro operator hoperator hno
    rw [← List.append_assoc] at hno ⊢
    exact startsWith_inserted hg (isBlank_of_mem_longOperators hoperator) hno
  rw [operatorLength] at h ⊢
  cases hfind : longOperators.find? (startsWith · (c :: text ++ (a ++ b))) with
  | none =>
      rw [hfind] at h
      have hfind' : longOperators.find? (startsWith · (c :: text ++ (a ++ (g.chars ++ b)))) =
          none :=
        List.find?_eq_none.2 fun operator hoperator => by
          have hno := List.find?_eq_none.1 hfind operator hoperator
          rw [hnone operator hoperator (Bool.eq_false_iff.2 hno)]
          exact Bool.false_ne_true
      rw [hfind']
      exact h
  | some operator =>
      rw [hfind] at h
      have hlength : operator.length = (c :: text).length := Option.some.inj h
      obtain ⟨hstart, front, back, hlist, hfront⟩ := List.find?_eq_some_iff_append.1 hfind
      have hoperator : operator = c :: text :=
        (List.prefix_of_prefix_length_le (startsWith_iff.1 hstart) (List.prefix_append _ _)
          (Nat.le_of_eq hlength)).eq_of_length hlength
      have hfind' : longOperators.find? (startsWith · (c :: text ++ (a ++ (g.chars ++ b)))) =
          some operator := by
        refine List.find?_eq_some_iff_append.2 ⟨?_, front, back, hlist, fun other hother => ?_⟩
        · rw [hoperator]
          exact startsWith_append_self _ _
        · have hmem : other ∈ longOperators := hlist ▸ List.mem_append_left _ hother
          rw [hnone other hmem (by simpa using hfront other hother)]
          rfl
      rw [hfind']
      exact congrArg some hlength

/-! ### Comments and directives -/

/-- A line ends where it ended, unless the blanks stand at its end. -/
theorem lineLength_inserted (hgap : a = [] → ∃ x ∈ b.head?, isBlank x = false)
    (h : lineLength (text ++ (a ++ b)) = text.length) :
    lineLength (text ++ (a ++ (g.chars ++ b))) = text.length := by
  obtain ⟨htext, hhead⟩ := takeWhile_length_eq h
  rw [lineLength, takeWhile_run htext]
  cases a with
  | nil =>
      -- a line that ends here would end the text, or a line feed would follow
      obtain ⟨x, hx, hblank⟩ := hgap rfl
      have hline : x = '\n' := by simpa using hhead x hx
      rw [hline] at hblank
      cases hblank
  | cons d a => exact hhead

theorem commentLength_inserted (hgap : a = [] → ∃ x ∈ b.head?, isBlank x = false)
    (h : commentLength (c :: (text ++ (a ++ b))) = some (c :: text).length) :
    commentLength (c :: (text ++ (a ++ (g.chars ++ b)))) = some (c :: text).length := by
  cases text with
  | nil =>
      -- a comment has two characters at least
      rw [commentLength.eq_def] at h
      split at h
      · simp only [Option.some_inj, List.length_cons, List.length_nil] at h
        omega
      · obtain ⟨n, -, hn⟩ := Option.map_eq_some_iff.1 h
        simp only [List.length_cons, List.length_nil] at hn
        omega
      · cases h
  | cons d text =>
      simp only [List.cons_append] at h ⊢
      by_cases hc : c = '/'
      · subst hc
        by_cases hline : d = '/'
        · subst hline
          rw [commentLength, List.length_cons, List.length_cons, Option.some_inj] at h ⊢
          have hend : lineLength (text ++ (a ++ b)) = text.length := by omega
          rw [lineLength_inserted hgap hend, Nat.add_comm]
        · by_cases hblock : d = '*'
          · subst hblock
            rw [commentLength] at h ⊢
            obtain ⟨n, hn, hsum⟩ := Option.map_eq_some_iff.1 h
            simp only [List.length_cons] at hsum ⊢
            have hend : n = text.length := by omega
            rw [local_blockCommentEnd text _ (a ++ (g.chars ++ b)) (hend ▸ hn), Option.map_some,
              Nat.add_comm]
          · simp [commentLength, hline, hblock] at h
      · simp [commentLength, hc] at h

/-- Blanks make no comment of what was none. -/
theorem commentLength_eq_none_inserted (hg : g.chars ≠ []) (c : Char) (x : List Char)
    (h : commentLength (c :: (x ++ b)) = none) :
    commentLength (c :: (x ++ (g.chars ++ b))) = none := by
  have hclose : ∀ d ∈ ['*', '/'], isBlank d = false := by
    intro d hd
    simp only [List.mem_cons, List.not_mem_nil, or_false] at hd
    rcases hd with rfl | rfl <;> rfl
  by_cases hblock : c = '/' ∧ ∃ y, x = '*' :: y
  · obtain ⟨rfl, y, rfl⟩ := hblock
    rw [List.cons_append, commentLength, Option.map_eq_none_iff, blockCommentEnd_eq_none] at h ⊢
    exact mt (infix_of_inserted hg (List.cons_ne_nil _ _) hclose) h
  · refine commentLength_eq_none fun hc d hd => ?_
    cases x with
    | nil =>
        have hblank : isBlank d = true := Blanks.head_append hg b d hd
        exact ⟨ne_of_isBlank hblank (by decide), ne_of_isBlank hblank (by decide)⟩
    | cons e x =>
        cases hd
        subst hc
        refine ⟨?_, fun he => hblock ⟨rfl, x, by rw [he]⟩⟩
        rintro rfl
        cases h

theorem directiveLength_inserted (hgap : a = [] → ∃ x ∈ b.head?, isBlank x = false)
    (h : directiveLength (c :: (text ++ (a ++ b))) = some (c :: text).length) :
    directiveLength (c :: (text ++ (a ++ (g.chars ++ b)))) = some (c :: text).length := by
  by_cases hc : c = '#'
  · subst hc
    rw [directiveLength, List.length_cons, Option.some_inj] at h ⊢
    rw [lineLength_inserted hgap (by omega)]
    omega
  · rw [directiveLength_eq_none hc] at h
    cases h

/-! ### Lexemes -/

/-- A lexeme is what one of the recognisers takes, or a character that fits nowhere. -/
theorem lexeme_cases {cs : List Char} {kind : Option TokenKind} {n : Nat}
    (h : lexeme cs = (kind, n)) :
    (∃ r, (kind, r) ∈ recognisers ∧ r cs = some n) ∨ kind = some .other ∧ n = 1 := by
  rw [lexeme] at h
  generalize hfind : recognisers.findSome? _ = taken at h
  cases taken with
  | none =>
      cases h
      exact Or.inr ⟨rfl, rfl⟩
  | some taken =>
      obtain ⟨⟨k, r⟩, hmem, hr⟩ := List.exists_of_findSome?_eq_some hfind
      obtain ⟨m, hm, rfl⟩ := Option.map_eq_some_iff.1 hr
      cases h
      exact Or.inl ⟨r, hmem, hm⟩

theorem blankLength_eq_none (hc : isBlank c = false) (cs : List Char) :
    blankLength (c :: cs) = none :=
  runLength_eq_none fun _ hx => by cases hx; exact hc

theorem lexeme_of_commentLength {cs : List Char} {n : Nat} (hc : isBlank c = false)
    (h : commentLength (c :: cs) = some n) : lexeme (c :: cs) = (none, n) := by
  simp only [lexeme, recognisers, List.findSome?_cons, blankLength_eq_none hc, h, Option.map_none,
    Option.map_some, Option.getD_some]

theorem lexeme_of_directiveLength {cs : List Char} {n : Nat}
    (h : directiveLength (c :: cs) = some n) : lexeme (c :: cs) = (none, n) := by
  have hc : c = '#' := Decidable.byContradiction fun hc => by
    rw [directiveLength_eq_none hc] at h
    cases h
  subst hc
  have hblank : blankLength ('#' :: cs) = none := rfl
  have hcomment : commentLength ('#' :: cs) = none := rfl
  simp only [lexeme, recognisers, List.findSome?_cons, hblank, hcomment, h, Option.map_none,
    Option.map_some, Option.getD_some]

theorem lexeme_of_rawLength {cs : List Char} {n : Nat} (h : rawLength (c :: cs) = some n) :
    lexeme (c :: cs) = (some .raw, n) := by
  have hc : c ∈ openingMarks := Decidable.byContradiction fun hc => by
    simp only [openingMarks, List.mem_cons, not_or] at hc
    rw [rawLength_eq_none hc.1 hc.2.1] at h
    cases h
  rw [lexeme_of_beginsToken (beginsToken_mark hc cs)]
  simp only [tokenRecognisers, List.findSome?_cons, h, Option.map_some, Option.getD_some]

/-- A text begins plainly if no mark is at its front. -/
theorem beginsPlainly_of_not_mem (hc : isBlank c = false) (hmark : c ∉ frontMarks)
    (cs : List Char) : BeginsPlainly (c :: cs) := by
  simp only [frontMarks, List.mem_cons, not_or] at hmark
  refine
    ⟨⟨?_, commentLength_eq_none fun h => absurd h hmark.1, directiveLength_eq_none hmark.2.1⟩, ?_⟩
  · rintro x ⟨⟩
    exact hc
  · rintro x ⟨⟩
    exact hmark.2.2

theorem lexeme_of_numberLength {cs : List Char} {n : Nat} (hc : isBlank c = false)
    (h : numberLength (c :: cs) = some n) : lexeme (c :: cs) = (some .number, n) := by
  have hmark : c ∉ frontMarks := by
    intro hmem
    have hdigits : frontMarks.all (fun c => !isDigit c) = true := by decide
    have hdigit := List.all_eq_true.1 hdigits c hmem
    rw [Bool.not_eq_true'] at hdigit
    simp [numberLength, hdigit] at h
  rw [lexeme_of_beginsPlainly (beginsPlainly_of_not_mem hc hmark cs)]
  simp only [tokenRecognisers, List.drop_succ_cons, List.drop_zero, List.findSome?_cons, h,
    Option.map_some, Option.getD_some]

/-- An operator is made of the characters of operators. -/
theorem mem_operatorChars {cs : List Char} {n : Nat} (h : operatorLength (c :: cs) = some n) :
    c ∈ operatorChars := by
  rw [operatorLength] at h
  split at h
  · next operator hfind =>
    have hmem := List.mem_of_find?_eq_some hfind
    have hstart : startsWith operator (c :: cs) = true :=
      (List.find?_eq_some_iff_append.1 hfind).1
    obtain ⟨rest, hrest⟩ := startsWith_iff.1 hstart
    cases operator with
    | nil => exact absurd hmem (by decide)
    | cons d operator =>
        cases hrest
        exact List.mem_append_left _ (List.mem_flatten.2 ⟨_, hmem, List.mem_cons_self⟩)
  · split at h
    · next hc => exact List.mem_append_right _ (by simpa using hc)
    · cases h

theorem lexeme_of_operatorLength {cs : List Char} {n : Nat}
    (hcomment : commentLength (c :: cs) = none) (h : operatorLength (c :: cs) = some n) :
    lexeme (c :: cs) = (some .operator, n) := by
  have hchars : operatorChars.all (fun c => !isBlank c && !('#' :: openingMarks).contains c &&
      !isDigit c && !isWordStart c) = true := by decide
  have hchar := List.all_eq_true.1 hchars c (mem_operatorChars h)
  simp only [Bool.and_eq_true, Bool.not_eq_true', List.contains_eq_mem, decide_eq_false_iff_not,
    List.mem_cons, not_or] at hchar
  obtain ⟨⟨⟨hblank, hsharp, hmark⟩, hdigit⟩, hstart⟩ := hchar
  have hbegin : BeginsPlainly (c :: cs) := by
    refine ⟨⟨?_, hcomment, directiveLength_eq_none hsharp⟩, ?_⟩
    · rintro x ⟨⟩
      exact hblank
    · rintro x ⟨⟩
      exact hmark
  have hat : c ≠ '@' := by
    rintro rfl
    exact hmark (by decide)
  have hnumber : numberLength (c :: cs) = none := by
    rw [numberLength, hdigit]
    rfl
  have hword : identifierLength (c :: cs) = none := by
    rw [identifierLength_of_ne hat, wordLength, hstart]
    rfl
  rw [lexeme_of_beginsPlainly hbegin]
  simp only [tokenRecognisers, List.drop_succ_cons, List.drop_zero, List.findSome?_cons, hnumber,
    hword, h, Option.map_none, Option.map_some, Option.getD_some]

/-! ### Literals behind their openings -/

/-- An opening stands in what is taken, and the rest of it is what the end is found at. -/
theorem exists_behind_lead {f : List Char → Option Nat} {lead rest x : List Char} {m : Nat}
    (hsplit : text ++ x = lead ++ rest) (hend : f rest = some m)
    (hlength : text.length = lead.length + m) :
    ∃ tail, text = lead ++ tail ∧ f (tail ++ x) = some tail.length := by
  obtain ⟨tail, rfl, rfl⟩ := exists_of_append_eq hsplit.symm (by omega)
  refine ⟨tail, rfl, hend.trans (congrArg some ?_)⟩
  rw [List.length_append] at hlength
  omega

theorem exists_stringLead {x : List Char} (h : stringLength (text ++ x) = some text.length) :
    ∃ lead ∈ stringLeads, ∃ tail, text = lead ++ tail ∧
      escapedEnd '"' (tail ++ x) = some tail.length := by
  rw [stringLength.eq_def] at h
  split at h
  · next rest hcs =>
    obtain ⟨m, hm, hsum⟩ := Option.map_eq_some_iff.1 h
    exact ⟨['$', '"'], by decide, exists_behind_lead hcs hm hsum.symm⟩
  · next rest hcs =>
    obtain ⟨m, hm, hsum⟩ := Option.map_eq_some_iff.1 h
    exact ⟨['"'], by decide, exists_behind_lead hcs hm hsum.symm⟩
  · cases h

theorem exists_verbatimLead {x : List Char} (h : verbatimLength (text ++ x) = some text.length) :
    ∃ lead ∈ verbatimLeads, ∃ tail, text = lead ++ tail ∧
      verbatimEnd (tail ++ x) = some tail.length := by
  rw [verbatimLength.eq_def] at h
  split at h
  · next rest hcs =>
    obtain ⟨m, hm, hsum⟩ := Option.map_eq_some_iff.1 h
    exact ⟨['$', '@', '"'], by decide, exists_behind_lead hcs hm hsum.symm⟩
  · next rest hcs =>
    obtain ⟨m, hm, hsum⟩ := Option.map_eq_some_iff.1 h
    exact ⟨['@', '$', '"'], by decide, exists_behind_lead hcs hm hsum.symm⟩
  · next rest hcs =>
    obtain ⟨m, hm, hsum⟩ := Option.map_eq_some_iff.1 h
    exact ⟨['@', '"'], by decide, exists_behind_lead hcs hm hsum.symm⟩
  · cases h

/-- **A string literal** is taken as before: no raw literal began with its quotes, and none does
now. -/
theorem lexeme_string_inserted (hg : g.chars ≠ []) (hraw : rawLength (text ++ (a ++ b)) = none)
    (h : stringLength (text ++ (a ++ b)) = some text.length) :
    lexeme (text ++ (a ++ (g.chars ++ b))) = (some .string, text.length) := by
  obtain ⟨lead, hlead, tail, rfl, hend⟩ := exists_stringLead h
  have hraw' : rawLength (lead ++ (tail ++ (a ++ (g.chars ++ b)))) = none := by
    rw [List.append_assoc, ← List.append_assoc tail a b, ← List.append_assoc] at hraw
    simpa using rawLength_eq_none_inserted hg (lead ++ (tail ++ a)) hraw
  rw [List.append_assoc, List.length_append]
  exact lexeme_of_stringLead hlead hraw' (local_escapedEnd (by decide) tail _ _ hend)

/-- A quote that opens no literal is a token of its own. -/
theorem lexeme_loneQuote {rest : List Char} (h : '"' ∉ rest) :
    lexeme ('"' :: rest) = (some .other, 1) := by
  have hraw : rawLength ('"' :: rest) = none := by
    have hquotes : (('"' :: rest).takeWhile (· == '"')).length < 3 := by
      cases rest with
      | nil => decide
      | cons d rest =>
          have hd : d ≠ '"' := fun hd => h (hd ▸ List.mem_cons_self)
          simp [hd]
    rw [rawLength_of_ne (by decide), openingQuotes, quotedRunLength_eq_none hquotes]
  have hstring : stringLength ('"' :: rest) = none := by
    rw [stringLength, Option.map_eq_none_iff, Option.eq_none_iff_forall_ne_some]
    intro n hn
    obtain ⟨body, tail, -, rfl, -⟩ := escapedBody_of_escapedEnd hn
    exact h (List.mem_append_right _ List.mem_cons_self)
  have hverbatim : verbatimLength ('"' :: rest) = none := rfl
  have hchar : charLength ('"' :: rest) = none := rfl
  have hnumber : numberLength ('"' :: rest) = none := rfl
  have hword : identifierLength ('"' :: rest) = none := rfl
  have hoperator : operatorLength ('"' :: rest) = none := by
    rw [Option.eq_none_iff_forall_ne_some]
    exact fun n hn => absurd (mem_operatorChars hn) (by decide)
  rw [lexeme_of_beginsToken (beginsToken_mark (by decide) rest)]
  simp only [tokenRecognisers, List.findSome?_cons, List.findSome?_nil, hraw, hverbatim, hstring,
    hchar, hnumber, hword, hoperator, Option.map_none, Option.getD_none]

/-- A quote behind a verbatim literal opens nothing. -/
theorem head_ne_quote_of_verbatimEnd {tail x : List Char}
    (hclear : ∀ t ∈ bareTokens x, t.kind ≠ .other)
    (hend : verbatimEnd (tail ++ x) = some tail.length) : x.head? ≠ some '"' := by
  intro hquote
  obtain ⟨rest, rfl⟩ := List.head?_eq_some_iff.1 hquote
  have hlone : '"' ∉ rest := not_mem_of_verbatimEnd hend (by rw [List.drop_left])
  have htokens := bareTokens_lexeme ['"'] (List.cons_ne_nil _ _) (lexeme_loneQuote hlone)
  rw [List.singleton_append] at htokens
  refine hclear (.bare .other (String.ofList ['"'])) ?_ rfl
  rw [htokens]
  exact List.mem_cons_self

/-- **A verbatim literal** is taken as before, unless a quote that closes nothing stands behind
it. -/
theorem lexeme_verbatim_inserted (hg : g.chars ≠ [])
    (hclear : ∀ t ∈ bareTokens (a ++ b), t.kind ≠ .other)
    (h : verbatimLength (text ++ (a ++ b)) = some text.length) :
    lexeme (text ++ (a ++ (g.chars ++ b))) = (some .verbatim, text.length) := by
  obtain ⟨lead, hlead, tail, rfl, hend⟩ := exists_verbatimLead h
  have hquote := head_ne_quote_of_verbatimEnd hclear hend
  have hquote' : (a ++ (g.chars ++ b)).head? ≠ some '"' := by
    intro hhead
    rcases head_inserted hg a b '"' hhead with h | h
    · cases h
    · exact hquote h
  obtain ⟨body, hbody, rfl⟩ := exists_verbatimBody hend hquote
  have hlexeme := lexeme_verbatim hlead hbody hquote'
  simpa using hlexeme

/-- **A character literal** is taken as before. -/
theorem lexeme_char_inserted (h : charLength (c :: (text ++ (a ++ b))) = some (c :: text).length) :
    lexeme (c :: (text ++ (a ++ (g.chars ++ b)))) = (some .char, (c :: text).length) := by
  rw [charLength.eq_def] at h
  split at h
  · cases h
  · next rest hempty hcs =>
    obtain ⟨rfl, rfl⟩ := List.cons.inj hcs
    obtain ⟨n, hn, hsum⟩ := Option.map_eq_some_iff.1 h
    have hlength : n = text.length := by
      rw [List.length_cons] at hsum
      omega
    obtain ⟨body, hbody, rfl⟩ := exists_escapedBody (hlength ▸ hn)
    have hne : body ≠ [] := by
      rintro rfl
      exact hempty _ rfl
    have hlexeme := lexeme_char hbody hne (a ++ (g.chars ++ b))
    simpa [Nat.add_comm] using hlexeme
  · cases h

/-- **A word** is taken as before. -/
theorem lexeme_word_inserted (hg : g.chars ≠ [])
    (h : identifierLength (c :: (text ++ (a ++ b))) = some (c :: text).length) :
    lexeme (c :: (text ++ (a ++ (g.chars ++ b)))) = (some .identifier, (c :: text).length) := by
  have hblank : ∀ c, isBlank c = true → isWord c = false := fun c hc => isWord_of_isBlank hc
  by_cases hc : c = '@'
  · subst hc
    rw [identifierLength] at h
    obtain ⟨n, hn, hsum⟩ := Option.map_eq_some_iff.1 h
    have hlength : n = text.length := by
      rw [List.length_cons] at hsum
      omega
    subst hlength
    cases text with
    | nil => exact absurd (le_of_wordLength hn) (by simp)
    | cons d text =>
        obtain ⟨hstart, hword, hhead⟩ := word_of_wordLength hn
        exact lexeme_markedWord hstart hword (head_inserted_of hg hblank hhead)
  · rw [identifierLength_of_ne hc] at h
    obtain ⟨hstart, hword, hhead⟩ := word_of_wordLength h
    exact lexeme_word hstart hword (head_inserted_of hg hblank hhead)

/-- **A lexeme is taken as before** when blanks are put in somewhere behind it. -/
theorem lexeme_inserted {kind : Option TokenKind} (hg : g.chars ≠ []) (hc : isBlank c = false)
    (hgap : kind = none → a = [] → ∃ x ∈ b.head?, isBlank x = false)
    (hclear : ∀ t ∈ bareTokens (a ++ b), t.kind ≠ .other) (hkind : kind ≠ some .other)
    (h : lexeme (c :: text ++ (a ++ b)) = (kind, (c :: text).length)) :
    lexeme (c :: text ++ (a ++ (g.chars ++ b))) = (kind, (c :: text).length) := by
  obtain ⟨r, hr, htaken⟩ := (lexeme_cases h).resolve_right fun hother => hkind hother.1
  simp only [recognisers, List.mem_cons, List.not_mem_nil, or_false, Prod.mk.injEq] at hr
  rcases hr with ⟨rfl, rfl⟩ | ⟨rfl, rfl⟩ | ⟨rfl, rfl⟩ | ⟨rfl, rfl⟩ | ⟨rfl, rfl⟩ | ⟨rfl, rfl⟩ |
    ⟨rfl, rfl⟩ | ⟨rfl, rfl⟩ | ⟨rfl, rfl⟩ | ⟨rfl, rfl⟩
  · -- blanks
    rw [List.cons_append, blankLength_eq_none hc] at htaken
    cases htaken
  · -- a comment
    exact lexeme_of_commentLength hc (commentLength_inserted (hgap rfl) htaken)
  · -- a directive
    exact lexeme_of_directiveLength (directiveLength_inserted (hgap rfl) htaken)
  · -- a raw literal
    exact lexeme_of_rawLength (rawLength_inserted hg htaken)
  · -- a verbatim literal
    exact lexeme_verbatim_inserted hg hclear htaken
  · -- a string literal, for which no raw literal was taken
    refine lexeme_string_inserted hg ?_ htaken
    rw [Option.eq_none_iff_forall_ne_some]
    intro n hn
    rw [List.cons_append] at h hn
    rw [lexeme_of_rawLength hn] at h
    cases h
  · -- a character literal
    exact lexeme_char_inserted htaken
  · -- a number
    exact lexeme_of_numberLength hc (numberLength_inserted hg htaken)
  · -- a word
    exact lexeme_word_inserted hg htaken
  · -- an operator, for which no comment was taken
    have hcomment : commentLength (c :: (text ++ a ++ b)) = none := by
      rw [Option.eq_none_iff_forall_ne_some]
      intro n hn
      rw [List.append_assoc] at hn
      rw [List.cons_append, lexeme_of_commentLength hc hn] at h
      cases h
    have hcomment' := commentLength_eq_none_inserted hg c (text ++ a) hcomment
    rw [List.append_assoc] at hcomment'
    exact lexeme_of_operatorLength hcomment' (operatorLength_inserted hg htaken)

end Behind

end LocalisedEnum

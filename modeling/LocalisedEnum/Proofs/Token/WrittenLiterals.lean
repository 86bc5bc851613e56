import LocalisedEnum.Proofs.Token.Spacing

/-!
**Literals give their texts back.**

A text can be written as a literal in three ways.  In a regular literal a backslash stands in front
of what would end it or its line, and any code point of at most sixteen bits may be written by its
number.  In a verbatim literal quotes are doubled.  In a raw literal the text has lines of its own,
behind a margin that the last line shows, between runs of quotes of which none so long is in the
text.

Each of them is taken whole by the lexer, whatever the text says, if no quote follows it; and its
value is the text.

Main definitions:

* `WritesPoint`, `WritesText` — the ways to write a text in a regular literal;
* `pairQuotes` — a text in a verbatim literal;
* `rawBody` — a text on lines of its own;
* `ReadWhole` — a literal is one token, and has a value.

Main results:

* `exists_writesText` — every text can be written in a regular literal;
* `unescape_of_writesText`, `unpairQuotes_pairQuotes`, `rawValue_rawBody` — the values of the three
  forms;
* `rawBody_isRawBody` — runs of quotes that are longer than those in a text;
* `readWhole_literals` — **literals give their texts back**.
-/

set_option autoImplicit false
set_option relaxedAutoImplicit false

namespace LocalisedEnum

/-! ### Numbers in escapes -/

/-- Four hexadecimal digits. -/
structure FourHexDigits (digits : List Char) : Prop where
  length : digits.length = 4
  digits : ∀ d ∈ digits, (hexValue? d).isSome

namespace FourHexDigits

variable {digits : List Char} (h : FourHexDigits digits)
include h

theorem hexRun (rest : List Char) : hexRun 4 (digits ++ rest) = 4 := by
  have hall : digits.takeWhile (fun c => (hexValue? c).isSome) = digits := by
    rw [← List.append_nil digits, List.takeWhile_append_of_pos h.digits, List.takeWhile_nil]
  rw [LocalisedEnum.hexRun, List.take_left' h.length, hall, h.length]

theorem hexNumber (rest : List Char) :
    hexNumber 4 (digits ++ rest) = LocalisedEnum.hexNumber 4 digits := by
  rw [LocalisedEnum.hexNumber, LocalisedEnum.hexNumber, List.take_left' h.length,
    List.take_of_length_le (Nat.le_of_eq h.length)]

end FourHexDigits

/-- The hexadecimal digits from zero on. -/
def hexDigitChars : List Char :=
  "0123456789abcdef".toList

theorem hexValue?_hexDigitChars : ∀ d : Fin 16, hexValue? (hexDigitChars.getD d '0') = some d := by
  decide

/-- Every number of at most sixteen bits has four digits. -/
theorem exists_fourHexDigits {n : Nat} (h : n < 0x10000) :
    ∃ digits, FourHexDigits digits ∧ hexNumber 4 digits = n := by
  have hdigit : ∀ d, d < 16 → hexValue? (hexDigitChars.getD d '0') = some d := fun d hd =>
    hexValue?_hexDigitChars ⟨d, hd⟩
  refine ⟨[n / 4096, n / 256 % 16, n / 16 % 16, n % 16].map fun d => hexDigitChars.getD d '0',
    ⟨rfl, ?_⟩, ?_⟩
  · intro c hc
    obtain ⟨d, hd, rfl⟩ := List.mem_map.1 hc
    simp only [List.mem_cons, List.not_mem_nil, or_false] at hd
    rw [hdigit d (by omega)]
    rfl
  · simp only [hexNumber, List.map_cons, List.map_nil, List.take_succ_cons, List.take_nil,
      List.foldl_cons, List.foldl_nil, hdigit _ (show n / 4096 < 16 by omega),
      hdigit _ (show n / 256 % 16 < 16 by omega), hdigit _ (show n / 16 % 16 < 16 by omega),
      hdigit _ (show n % 16 < 16 by omega), Option.getD_some]
    omega

/-! ### Regular literals -/

/-- **The ways to write a code point** in a regular literal: as it is, where it ends neither the
literal nor its line and begins no escape; behind a backslash; or by its number. -/
inductive WritesPoint : CodePoint → List Char → Prop
  | plain {c : Char} (hquote : c ≠ '"') (hslash : c ≠ '\\') (hline : c ≠ '\n') :
      WritesPoint (.scalar c) [c]
  | quote : WritesPoint (.scalar '"') ['\\', '"']
  | backslash : WritesPoint (.scalar '\\') ['\\', '\\']
  | lineFeed : WritesPoint (.scalar '\n') ['\\', 'n']
  | numeric {p : CodePoint} {digits : List Char} (hdigits : FourHexDigits digits)
      (hvalue : hexNumber 4 digits = p.value) : WritesPoint p ('\\' :: 'u' :: digits)

/-- **The ways to write a text** in a regular literal. -/
inductive WritesText : CodeText → List Char → Prop
  | nil : WritesText [] []
  | cons {p : CodePoint} {s : CodeText} {cs body : List Char} (hp : WritesPoint p cs)
      (hs : WritesText s body) : WritesText (p :: s) (cs ++ body)

theorem exists_writesPoint (p : CodePoint) : ∃ cs, WritesPoint p cs := by
  cases p with
  | surrogate n range =>
      obtain ⟨digits, hdigits, hvalue⟩ := exists_fourHexDigits (n := n) (by omega)
      exact ⟨_, .numeric hdigits hvalue⟩
  | scalar c =>
      by_cases hquote : c = '"'
      · rw [hquote]
        exact ⟨_, .quote⟩
      · by_cases hslash : c = '\\'
        · rw [hslash]
          exact ⟨_, .backslash⟩
        · by_cases hline : c = '\n'
          · rw [hline]
            exact ⟨_, .lineFeed⟩
          · exact ⟨_, .plain hquote hslash hline⟩

/-- **Every text can be written.** -/
theorem exists_writesText (s : CodeText) : ∃ body, WritesText s body := by
  induction s with
  | nil => exact ⟨_, .nil⟩
  | cons p s ih =>
      obtain ⟨cs, hp⟩ := exists_writesPoint p
      obtain ⟨body, hs⟩ := ih
      exact ⟨_, .cons hp hs⟩

/-- A hexadecimal digit is no quote, no backslash and no line feed. -/
theorem ne_of_hexValue? {d : Char} (h : (hexValue? d).isSome) : d ≠ '"' ∧ d ≠ '\\' ∧ d ≠ '\n' := by
  refine ⟨?_, ?_, ?_⟩ <;>
  · rintro rfl
    revert h
    decide

theorem escapedBody_digits {digits body : List Char} (h : ∀ d ∈ digits, (hexValue? d).isSome)
    (hbody : EscapedBody '"' body) : EscapedBody '"' (digits ++ body) := by
  induction digits with
  | nil => exact hbody
  | cons d digits ih =>
      obtain ⟨hd, hdigits⟩ := List.forall_mem_cons.1 h
      obtain ⟨hquote, hslash, hline⟩ := ne_of_hexValue? hd
      exact .plain hquote hslash hline (ih hdigits)

/-- A text that is written does not end its literal. -/
theorem escapedBody_of_writesText {s : CodeText} {body : List Char} (h : WritesText s body) :
    EscapedBody '"' body := by
  induction h with
  | nil => exact .nil
  | cons hp _ ih =>
      cases hp with
      | plain hquote hslash hline => exact .plain hquote hslash hline ih
      | quote => exact .escape (by decide) ih
      | backslash => exact .escape (by decide) ih
      | lineFeed => exact .escape (by decide) ih
      | numeric hdigits _ => exact .escape (by decide) (escapedBody_digits hdigits.digits ih)

theorem unescape_cons_plain {c : Char} (hc : c ≠ '\\') (rest : List Char) :
    unescape (c :: rest) = (unescape rest).map (.scalar c :: ·) := by
  cases rest with
  | nil =>
      rw [unescape, unescape]
      rfl
  | cons d rest =>
      rw [unescape, if_neg hc]
      rfl

theorem unescape_simple {d : Char} (rest : List Char) (hd : d ≠ 'u' ∧ d ≠ 'U' ∧ d ≠ 'x') :
    unescape ('\\' :: d :: rest) = (unescape rest).map (.scalar (simpleEscape d) :: ·) := by
  have hnone : numericEscapeDigits? d rest = none := by
    simp only [numericEscapeDigits?, hd, if_false]
  simp only [unescape, hnone, if_true]
  rfl

theorem unescape_numeric {p : CodePoint} {digits : List Char} (hdigits : FourHexDigits digits)
    (hvalue : hexNumber 4 digits = p.value) (rest : List Char) :
    unescape ('\\' :: 'u' :: (digits ++ rest)) = (unescape rest).map (p :: ·) := by
  have hfour : numericEscapeDigits? 'u' (digits ++ rest) = some 4 := by
    simp only [numericEscapeDigits?, hdigits.hexRun, if_true]
  have hpoint : codePointOf (hexNumber 4 (digits ++ rest)) = .ok p := by
    rw [codePointOf, hdigits.hexNumber, hvalue, CodePoint.ofNat?_value]
  simp only [unescape, if_true, hfour, hpoint, List.drop_left' hdigits.length]
  rfl

/-- A code point that is written is read, whatever stands behind it. -/
theorem unescape_of_writesPoint {p : CodePoint} {cs : List Char} (h : WritesPoint p cs)
    (rest : List Char) : unescape (cs ++ rest) = (unescape rest).map (p :: ·) := by
  cases h with
  | plain _ hslash _ => exact unescape_cons_plain hslash rest
  | quote => exact unescape_simple rest (by decide)
  | backslash => exact unescape_simple rest (by decide)
  | lineFeed => exact unescape_simple rest (by decide)
  | numeric hdigits hvalue => exact unescape_numeric hdigits hvalue rest

/-- **The value of a regular literal** is the text that is written in it. -/
theorem unescape_of_writesText {s : CodeText} {body : List Char} (h : WritesText s body) :
    unescape body = .ok s := by
  induction h with
  | nil => rw [unescape]
  | cons hp _ ih =>
      rw [unescape_of_writesPoint hp, ih]
      rfl

/-! ### Verbatim literals -/

/-- A text with its quotes doubled. -/
def pairQuotes : List Char → List Char
  | [] => []
  | c :: rest => if c = '"' then '"' :: '"' :: pairQuotes rest else c :: pairQuotes rest

theorem verbatimBody_pairQuotes (cs : List Char) : VerbatimBody (pairQuotes cs) := by
  induction cs with
  | nil => exact .nil
  | cons c cs ih =>
      rw [pairQuotes]
      split
      · exact .pair ih
      · next hc => exact .plain hc ih

/-- **The value of a verbatim literal** is the text whose quotes are doubled in it. -/
theorem unpairQuotes_pairQuotes (cs : List Char) : unpairQuotes (pairQuotes cs) = cs := by
  induction cs with
  | nil => rfl
  | cons c cs ih =>
      rw [pairQuotes]
      split
      · next hc => rw [unpairQuotes, ih, hc]
      · next hc =>
        rw [unpairQuotes, ih]
        intro rest heq
        exact absurd heq hc

/-! ### Raw literals -/

/-- **A text on lines of its own**, each behind a margin, which the last line shows. -/
def rawBody (margin cs : List Char) : List Char :=
  '\n' :: (joinSegments '\n' ((splitOn '\n' cs).map (margin ++ ·)) ++ '\n' :: margin)

theorem joinSegments_concat {segments : List (List Char)} (hne : segments ≠ []) (last : List Char)
    (separator : Char) :
    joinSegments separator (segments ++ [last]) =
      joinSegments separator segments ++ separator :: last := by
  induction segments with
  | nil => exact absurd rfl hne
  | cons segment rest ih =>
      cases rest with
      | nil => rfl
      | cons next rest =>
          rw [List.cons_append, List.cons_append, joinSegments, ← List.cons_append,
            ih (List.cons_ne_nil _ _), joinSegments, List.append_assoc, List.cons_append]

/-- The lines of such a text. -/
theorem splitOn_rawBody {margin : List Char} (hmargin : '\n' ∉ margin) (cs : List Char) :
    splitOn '\n' (rawBody margin cs) = [] :: ((splitOn '\n' cs).map (margin ++ ·) ++ [margin]) := by
  have hne : (splitOn '\n' cs).map (margin ++ ·) ≠ [] := by
    rw [Ne, List.map_eq_nil_iff]
    exact splitOn_ne_nil _ _
  rw [rawBody, ← joinSegments_concat hne,
    ← joinSegments_nil_cons _ (List.append_ne_nil_of_left_ne_nil hne _)]
  refine splitOn_joinSegments (List.cons_ne_nil _ _) fun line hline => ?_
  rcases List.mem_cons.1 hline with rfl | hline
  · exact List.not_mem_nil
  · rcases List.mem_append.1 hline with hline | hline
    · obtain ⟨text, htext, rfl⟩ := List.mem_map.1 hline
      exact fun hmem => (List.mem_append.1 hmem).elim hmargin (not_mem_of_mem_splitOn htext)
    · rwa [List.mem_singleton.1 hline]

/-- **The value of a raw literal** is the text that has its lines in it. -/
theorem rawValue_rawBody {margin : List Char} (hmargin : '\n' ∉ margin) (cs : List Char) :
    rawValue (rawBody margin cs) = cs := by
  have hlines : ((splitOn '\n' cs).map (margin ++ ·)).map (withoutMargin margin) =
      splitOn '\n' cs := by
    rw [List.map_map]
    refine List.map_id'' (fun line => ?_) _
    rw [Function.comp_apply, withoutMargin, dropStart?_append, Option.getD_some]
  have hfeed : (rawBody margin cs).contains '\n' = true := by
    rw [List.contains_iff_mem]
    exact List.mem_cons_self
  simp only [rawValue, hfeed, if_true, splitOn_rawBody hmargin]
  rw [List.drop_one, List.tail_cons, List.dropLast_concat, List.getLastD_cons, List.getLastD_concat,
    hlines, joinSegments_splitOn]

section Runs

variable {α : Type} {run front back : List α}

theorem prefix_of_prefix_append {x : α} (hx : x ∉ run) (h : run <+: front ++ x :: back) :
    run <+: front := by
  rcases Nat.lt_or_ge front.length run.length with hlength | hlength
  · have hfront : front ++ [x] <+: run := by
      refine List.prefix_of_prefix_length_le ⟨back, ?_⟩ h ?_
      · rw [List.append_assoc, List.singleton_append]
      · rwa [List.length_append, List.length_singleton]
    exact absurd (hfront.subset (List.mem_append_right _ (List.mem_singleton_self x))) hx
  · exact List.prefix_of_prefix_length_le h (List.prefix_append _ _) hlength

/-- A run does not go beyond what is not in it. -/
theorem infix_of_infix_append {x : α} (hx : x ∉ run) (h : run <:+: front ++ x :: back) :
    run <:+: front ∨ run <:+: back := by
  induction front with
  | nil =>
      rcases List.infix_cons_iff.1 h with h | h
      · exact .inl (prefix_of_prefix_append hx h).isInfix
      · exact .inr h
  | cons y front ih =>
      rcases List.infix_cons_iff.1 h with h | h
      · exact .inl (prefix_of_prefix_append hx h).isInfix
      · exact (ih h).imp_left fun h => h.trans (List.suffix_cons y front).isInfix

theorem infix_of_infix_cons {x : α} (hne : run ≠ []) (hx : x ∉ run) (h : run <:+: x :: back) :
    run <:+: back := by
  rcases infix_of_infix_append hx (show run <:+: [] ++ x :: back from h) with h | h
  · exact absurd (List.eq_nil_of_infix_nil h) hne
  · exact h

theorem infix_of_infix_margin (hne : run ≠ []) (hfront : ∀ x ∈ front, x ∉ run)
    (h : run <:+: front ++ back) : run <:+: back := by
  induction front with
  | nil => exact h
  | cons x front ih =>
      obtain ⟨hx, hfront⟩ := List.forall_mem_cons.1 hfront
      exact ih hfront (infix_of_infix_cons hne hx h)

end Runs

/-- A run without separators stands in one segment. -/
theorem exists_infix_of_joinSegments {separator : Char} {run : List Char} (hne : run ≠ [])
    (hrun : separator ∉ run) {segments : List (List Char)}
    (h : run <:+: joinSegments separator segments) : ∃ segment ∈ segments, run <:+: segment := by
  induction segments with
  | nil => exact absurd (List.eq_nil_of_infix_nil h) hne
  | cons segment rest ih =>
      cases rest with
      | nil => exact ⟨segment, List.mem_cons_self, h⟩
      | cons next rest =>
          rcases infix_of_infix_append hrun h with h | h
          · exact ⟨segment, List.mem_cons_self, h⟩
          · obtain ⟨other, hother, h⟩ := ih h
            exact ⟨other, List.mem_cons_of_mem _ hother, h⟩

theorem infix_joinSegments {separator : Char} {segment : List Char} {segments : List (List Char)}
    (h : segment ∈ segments) : segment <:+: joinSegments separator segments := by
  induction segments with
  | nil => cases h
  | cons first rest ih =>
      cases rest with
      | nil =>
          rw [List.mem_singleton.1 h]
          exact List.infix_refl _
      | cons next rest =>
          rcases List.mem_cons.1 h with rfl | h
          · exact (List.prefix_append _ _).isInfix
          · exact (ih h).trans ((List.suffix_cons _ _).trans (List.suffix_append _ _)).isInfix

/-- The margin of a raw literal. -/
def spaces (count : Nat) : List Char :=
  List.replicate count ' '

theorem eq_of_mem_spaces {count : Nat} {c : Char} (h : c ∈ spaces count) : c = ' ' :=
  List.eq_of_mem_replicate h

theorem lineFeed_not_mem_spaces (count : Nat) : '\n' ∉ spaces count := fun h =>
  absurd (eq_of_mem_spaces h) (by decide)

/-- **Runs of quotes that are longer than those of a text** do not stand between its lines
either. -/
theorem rawBody_isRawBody {count : Nat} (hcount : 0 < count) (margin : Nat) {cs : List Char}
    (hcs : ¬ quotes count <:+: cs) : RawBody count (rawBody (spaces margin) cs) := by
  have hquotes : ∀ x ∈ quotes count, x = '"' := fun x hx => List.eq_of_mem_replicate hx
  have hne : quotes count ≠ [] := List.ne_nil_of_length_pos (by rwa [quotes, List.length_replicate])
  have hfeed : '\n' ∉ quotes count := fun h => absurd (hquotes _ h) (by decide)
  have hmargin : ∀ x ∈ spaces margin, x ∉ quotes count := fun x hx h => by
    rw [eq_of_mem_spaces hx] at h
    exact absurd (hquotes _ h) (by decide)
  refine ⟨List.cons_ne_nil _ _, by rintro ⟨⟩, ?_, ?_⟩
  · intro hlast
    rw [rawBody, ← List.cons_append, List.getLast?_append, List.getLast?_cons, Option.some_or,
      ← List.getLast?_cons] at hlast
    rcases List.mem_cons.1 (List.mem_of_getLast? hlast) with h | h
    · cases h
    · cases eq_of_mem_spaces h
  · intro h
    rcases infix_of_infix_append hfeed (infix_of_infix_cons hne hfeed h) with h | h
    · obtain ⟨_, hline, h⟩ := exists_infix_of_joinSegments hne hfeed h
      obtain ⟨text, htext, rfl⟩ := List.mem_map.1 hline
      refine hcs ((infix_of_infix_margin hne hmargin h).trans ?_)
      rw [← joinSegments_splitOn '\n' cs]
      exact infix_joinSegments htext
    · refine hne (List.eq_nil_of_infix_nil (infix_of_infix_margin hne hmargin ?_))
      rwa [List.append_nil]

/-! ### Literals -/

/-- **A literal is read whole** in front of a text, wherever it stands: it is one token, behind
which the tokens of the text follow, and it has a value. -/
structure ReadWhole (kind : TokenKind) (literal rest : List Char) (value : CodeText) : Prop where
  tokens : ∀ p, tokeniseFrom p (literal ++ rest) =
    ⟨kind, String.ofList literal, p.line, p.column⟩ :: tokeniseFrom (p.advance literal) rest
  value : (Token.bare kind (String.ofList literal)).literalValue = .ok (some value)

theorem tokeniseFrom_stands {kind : TokenKind} {text rest : List Char} (h : Stands kind text rest)
    (p : Place) :
    tokeniseFrom p (text ++ rest) =
      ⟨kind, String.ofList text, p.line, p.column⟩ :: tokeniseFrom (p.advance text) rest :=
  tokeniseFrom_lexeme p text h.ne_nil (lexeme_of_stands h)

theorem stands_writtenText {s : CodeText} {body rest : List Char} (h : WritesText s body)
    (hrest : rest.head? ≠ some '"') : Stands .string ('"' :: (body ++ ['"'])) rest := by
  have hlead : ['"'] ∈ stringLeads := by decide
  exact .string hlead (escapedBody_of_writesText h) hrest

theorem stands_pairQuotes (cs : List Char) {rest : List Char} (hrest : rest.head? ≠ some '"') :
    Stands .verbatim ('@' :: '"' :: (pairQuotes cs ++ ['"'])) rest := by
  have hlead : ['@', '"'] ∈ verbatimLeads := by decide
  exact .verbatim hlead (verbatimBody_pairQuotes cs) hrest

theorem stands_rawBody {count : Nat} (hcount : 3 ≤ count) (margin : Nat) {cs : List Char}
    (hcs : ¬ quotes count <:+: cs) (rest : List Char) :
    Stands .raw (quotes count ++ (rawBody (spaces margin) cs ++ quotes count)) rest := by
  have hpos : 0 < count := Nat.lt_of_lt_of_le (by decide) hcount
  have hstands : Stands .raw
      (List.replicate 0 '$' ++ (quotes count ++ (rawBody (spaces margin) cs ++ quotes count)))
      rest :=
    .raw hcount (rawBody_isRawBody hpos margin hcs)
  exact hstands

theorem inner_append (front body back : List Char) :
    inner front.length back.length (front ++ (body ++ back)) = body := by
  have hlength : (front ++ (body ++ back)).length - front.length - back.length = body.length := by
    simp only [List.length_append]
    omega
  rw [inner, List.drop_left, hlength, List.take_left]

theorem literalValue_string {s : CodeText} {body : List Char} (h : WritesText s body) :
    (Token.bare .string (String.ofList ('"' :: (body ++ ['"'])))).literalValue = .ok (some s) := by
  have hplain : (('"' :: (body ++ ['"'])).head? == some '$') = false := rfl
  have hinner : inner 1 1 ('"' :: (body ++ ['"'])) = body := inner_append ['"'] body ['"']
  simp only [Token.literalValue, Token.bare_kind, Token.bare_text, String.toList_ofList, hplain,
    Bool.false_eq_true, if_false, hinner, unescape_of_writesText h]
  rfl

theorem literalValue_verbatim (cs : List Char) :
    (Token.bare .verbatim (String.ofList ('@' :: '"' :: (pairQuotes cs ++ ['"'])))).literalValue =
      .ok (some (cs.map .scalar)) := by
  have hplain : (('@' :: '"' :: (pairQuotes cs ++ ['"'])).take 2).contains '$' = false := rfl
  have hinner : inner 2 1 ('@' :: '"' :: (pairQuotes cs ++ ['"'])) = pairQuotes cs :=
    inner_append ['@', '"'] (pairQuotes cs) ['"']
  simp only [Token.literalValue, Token.bare_kind, Token.bare_text, String.toList_ofList, hplain,
    Bool.false_eq_true, if_false, hinner, unpairQuotes_pairQuotes]

theorem literalValue_raw {count : Nat} (hcount : 0 < count) (margin : Nat) (cs : List Char) :
    (Token.bare .raw
        (String.ofList
          (quotes count ++ (rawBody (spaces margin) cs ++ quotes count)))).literalValue =
      .ok (some (cs.map .scalar)) := by
  have hplain : ((quotes count ++ (rawBody (spaces margin) cs ++ quotes count)).head? == some '$') =
      false := by
    obtain ⟨n, rfl⟩ := Nat.exists_eq_succ_of_ne_zero (Nat.pos_iff_ne_zero.1 hcount)
    rfl
  have hrun :
      ((quotes count ++ (rawBody (spaces margin) cs ++ quotes count)).takeWhile (· == '"')).length =
        (quotes count).length := by
    rw [quotes, takeWhile_replicate (by rintro ⟨⟩)]
  simp only [Token.literalValue, Token.bare_kind, Token.bare_text, String.toList_ofList, hplain,
    Bool.false_eq_true, if_false, hrun, inner_append,
    rawValue_rawBody (lineFeed_not_mem_spaces margin)]

/-- **Literals give their texts back.**  In front of a text that does not begin with a quote, each
of the three forms of a text is read whole, and its value is the text: every text can be written in
a regular literal, and however it is written; as a verbatim literal; and as a raw literal between
runs of quotes that are longer than those in it. -/
theorem readWhole_literals {rest : List Char} (hrest : rest.head? ≠ some '"') :
    (∀ s, (∃ body, WritesText s body) ∧
      ∀ body, WritesText s body → ReadWhole .string ('"' :: (body ++ ['"'])) rest s) ∧
    (∀ s : String,
      ReadWhole .verbatim ('@' :: '"' :: (pairQuotes s.toList ++ ['"'])) rest (.ofString s)) ∧
    ∀ (s : String) (count margin : Nat), 3 ≤ count → ¬ quotes count <:+: s.toList →
      ReadWhole .raw (quotes count ++ (rawBody (spaces margin) s.toList ++ quotes count)) rest
        (.ofString s) := by
  refine ⟨fun s => ⟨exists_writesText s, fun body h => ?_⟩, fun s => ?_,
    fun s count margin hcount hs => ?_⟩
  · exact ⟨tokeniseFrom_stands (stands_writtenText h hrest), literalValue_string h⟩
  · exact ⟨tokeniseFrom_stands (stands_pairQuotes s.toList hrest), literalValue_verbatim s.toList⟩
  · have hpos : 0 < count := Nat.lt_of_lt_of_le (by decide) hcount
    exact ⟨tokeniseFrom_stands (stands_rawBody hcount margin hs rest),
      literalValue_raw hpos margin s.toList⟩

/-- A backslash and a quote, in each of the three forms, in front of a comma. -/
theorem readWhole_literals_slash :
    ReadWhole .string ['"', '\\', '\\', '\\', '"', '"'] [','] (.ofString "\\\"") ∧
      ReadWhole .verbatim ['@', '"', '\\', '"', '"', '"'] [','] (.ofString "\\\"") ∧
      ReadWhole .raw ("\"\"\"\n  \\\"\n  \"\"\"".toList) [','] (.ofString "\\\"") := by
  have hcomma : [','].head? ≠ some '"' := by decide
  obtain ⟨hregular, hverbatim, hraw⟩ := readWhole_literals hcomma
  refine ⟨(hregular _).2 ['\\', '\\', '\\', '"'] (.cons .backslash (.cons .quote .nil)),
    hverbatim "\\\"", ?_⟩
  refine hraw "\\\"" 3 2 (Nat.le_refl 3) fun h => ?_
  exact absurd h.length_le (by decide)

end LocalisedEnum

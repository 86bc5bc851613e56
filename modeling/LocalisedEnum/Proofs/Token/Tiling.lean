import LocalisedEnum.Proofs.Token.Edges

/-!
**Tokens and gaps.**

A text is a row of tokens with gaps between them, and nothing is lost: a gap is a row of blanks,
comments and directives.  The line and the column of a token are exact.  The lines of a text are
what stands between its line feeds, and where the line of a token begins, the column of the token
further on, its text is found.

Main definitions:

* `lineStart`, `Token.offset` — how many characters stand in front of a line, and of a token;
* `GapPiece`, `Gap` — blanks, comments and directives, and rows of these;
* `Tiled` — a text that is cut into tokens and gaps;
* `Token.Exact` — a token whose line and column tell where its text is found.

Main results:

* `lineStart_advance` — a place counts the characters in front of it;
* `tiled_tokenise` — **every text is tiled** by its tokens;
* `Tiled.exact`, `Tiled.ordered`, `Tiled.gaps` — what this says of the offsets.
-/

set_option autoImplicit false
set_option relaxedAutoImplicit false

namespace LocalisedEnum

/-! ### Offsets -/

/-- How many characters stand in front of a line of a text: those of the lines before it, each with
its line feed. -/
def lineStart (cs : List Char) (line : Nat) : Nat :=
  (((splitOn '\n' cs).take (line - 1)).flatMap (· ++ ['\n'])).length

/-- How many characters stand in front of a token, by its line and its column. -/
def Token.offset (cs : List Char) (t : Token) : Nat :=
  lineStart cs t.line + (t.column - 1)

/-- How many characters stand in front of what follows a token. -/
def Token.offsetBehind (cs : List Char) (t : Token) : Nat :=
  t.offset cs + t.text.length

section Lines

variable {c : Char} (cs : List Char) (n : Nat)

theorem lineStart_one : lineStart cs 1 = 0 := rfl

theorem lineStart_lineFeed : lineStart ('\n' :: cs) (n + 2) = 1 + lineStart cs (n + 1) := by
  simp [lineStart, splitOn, Nat.add_comm]

theorem lineStart_other (hc : c ≠ '\n') :
    lineStart (c :: cs) (n + 2) = 1 + lineStart cs (n + 2) := by
  obtain ⟨first, others, hsplit⟩ := List.exists_cons_of_ne_nil (splitOn_ne_nil '\n' cs)
  rw [lineStart, lineStart, splitOn, if_neg hc, hsplit]
  exact (Nat.add_comm ..).symm

end Lines

theorem Place.next_lineFeed (p : Place) : p.next '\n' = ⟨p.line + 1, 1⟩ := rfl

theorem Place.next_other (p : Place) {c : Char} (hc : c ≠ '\n') :
    p.next c = ⟨p.line, p.column + 1⟩ :=
  if_neg hc

theorem Place.line_le_advance (p : Place) (cs : List Char) : p.line ≤ (p.advance cs).line := by
  by_cases hne : cs = []
  · rw [hne]
    exact Nat.le_refl _
  · rcases p.before_advance hne with h | ⟨h, -⟩
    · exact Nat.le_of_lt h
    · exact Nat.le_of_eq h

/-- A place counts the characters in front of it.  Lines are counted from that of the place where
the text begins. -/
theorem lineStart_advance (p : Place) (front rest : List Char) :
    lineStart (front ++ rest) ((p.advance front).line - p.line + 1) + (p.advance front).column =
      front.length + if (p.advance front).line = p.line then p.column else 1 := by
  induction front generalizing p with
  | nil => simp [Place.advance, lineStart_one]
  | cons c front ih =>
      have hadvance : p.advance (c :: front) = (p.next c).advance front := rfl
      have hih := ih (p.next c)
      have hle := (p.next c).line_le_advance front
      rw [hadvance, List.cons_append, List.length_cons]
      generalize (p.next c).advance front = q at hih hle
      by_cases hc : c = '\n'
      · subst hc
        rw [Place.next_lineFeed] at hih hle
        simp only at hih hle
        rw [show q.line - p.line + 1 = q.line - (p.line + 1) + 2 by omega, lineStart_lineFeed,
          if_neg (by omega)]
        split at hih <;> omega
      · rw [Place.next_other p hc] at hih hle
        simp only at hih hle
        by_cases hline : q.line = p.line
        · rw [if_pos hline, hline, Nat.sub_self, lineStart_one] at hih ⊢
          omega
        · rw [if_neg hline] at hih ⊢
          rw [show q.line - p.line + 1 = q.line - p.line - 1 + 2 by omega] at hih ⊢
          rw [lineStart_other _ _ hc]
          omega

/-- Behind a place stands the rest of its line. -/
theorem exists_line (p : Place) (front : List Char) {c : Char} (hc : c ≠ '\n') (rest : List Char) :
    ∃ line, (splitOn '\n' (front ++ c :: rest))[(p.advance front).line - p.line]? = some line ∧
      (p.advance front).column + 1 ≤
        line.length + if (p.advance front).line = p.line then p.column else 1 := by
  induction front generalizing p with
  | nil =>
      obtain ⟨first, others, hsplit⟩ := List.exists_cons_of_ne_nil (splitOn_ne_nil '\n' rest)
      refine ⟨c :: first, ?_, ?_⟩
      · rw [List.nil_append, splitOn, if_neg hc, hsplit, Place.advance, List.foldl_nil,
          Nat.sub_self]
        rfl
      · simp only [Place.advance, List.foldl_nil, List.length_cons, if_true]
        omega
  | cons d front ih =>
      have hadvance : p.advance (d :: front) = (p.next d).advance front := rfl
      obtain ⟨line, hline, hcolumn⟩ := ih (p.next d)
      have hle := (p.next d).line_le_advance front
      rw [hadvance, List.cons_append, splitOn]
      generalize (p.next d).advance front = q at hline hcolumn hle
      by_cases hd : d = '\n'
      · subst hd
        rw [Place.next_lineFeed] at hline hcolumn hle
        simp only at hline hcolumn hle
        refine ⟨line, ?_, ?_⟩
        · rw [if_pos rfl, show q.line - p.line = q.line - (p.line + 1) + 1 by omega,
            List.getElem?_cons_succ]
          exact hline
        · rw [if_neg (by omega)]
          split at hcolumn <;> omega
      · rw [Place.next_other p hd] at hline hcolumn hle
        simp only at hline hcolumn hle
        obtain ⟨first, others, hsplit⟩ :=
          List.exists_cons_of_ne_nil (splitOn_ne_nil '\n' (front ++ c :: rest))
        rw [hsplit] at hline ⊢
        rw [if_neg hd, extendSegment]
        by_cases hsame : q.line = p.line
        · rw [if_pos hsame] at hcolumn ⊢
          rw [hsame, Nat.sub_self] at hline ⊢
          cases hline
          refine ⟨d :: line, rfl, ?_⟩
          rw [List.length_cons]
          omega
        · rw [if_neg hsame] at hcolumn ⊢
          rw [show q.line - p.line = q.line - p.line - 1 + 1 by omega,
            List.getElem?_cons_succ] at hline ⊢
          exact ⟨line, hline, hcolumn⟩

theorem Place.one_le_column (p : Place) (hp : 1 ≤ p.column) (cs : List Char) :
    1 ≤ (p.advance cs).column := by
  induction cs generalizing p with
  | nil => exact hp
  | cons c cs ih =>
      refine ih (p.next c) ?_
      rw [Place.next]
      split
      · exact Nat.le_refl 1
      · exact Nat.le_add_left 1 p.column

/-- The characters in front of a place, by its line and its column. -/
theorem lineStart_of_place {front rest : List Char} {line column : Nat}
    (hplace : Place.start.advance front = ⟨line, column⟩) :
    lineStart (front ++ rest) line + (column - 1) = front.length := by
  have hstart := lineStart_advance .start front rest
  have hline := Place.start.line_le_advance front
  have hcolumn := Place.start.one_le_column (Nat.le_refl 1) front
  rw [hplace] at hstart hline hcolumn
  have hone : Place.start.line = 1 ∧ Place.start.column = 1 := ⟨rfl, rfl⟩
  rw [hone.1, hone.2, ite_self] at hstart
  rw [hone.1] at hline
  simp only at hstart hline hcolumn
  rw [Nat.sub_add_cancel hline] at hstart
  omega

/-! ### Gaps -/

/-- **What stands between tokens**, in front of the rest of a text: blanks, a comment up to the end
of its line or its closing mark, or a directive up to the end of its line. -/
inductive GapPiece : List Char → List Char → Prop
  | blanks {cs rest : List Char} (hne : cs ≠ []) (h : ∀ c ∈ cs, isBlank c = true) : GapPiece cs rest
  | lineComment {body rest : List Char} (hbody : '\n' ∉ body) (hend : ∀ c ∈ rest.head?, c = '\n') :
      GapPiece ('/' :: '/' :: body) rest
  | blockComment {body rest : List Char} (hbody : ¬ ['*', '/'] <:+: body) :
      GapPiece ('/' :: '*' :: (body ++ ['*', '/'])) rest
  | directive {body rest : List Char} (hbody : '\n' ∉ body) (hend : ∀ c ∈ rest.head?, c = '\n') :
      GapPiece ('#' :: body) rest

/-- **A gap** in front of the rest of a text: blanks, comments and directives in a row. -/
inductive Gap : List Char → List Char → Prop
  | nil {rest : List Char} : Gap [] rest
  | cons {piece gap rest : List Char} (hpiece : GapPiece piece (gap ++ rest))
      (hgap : Gap gap rest) : Gap (piece ++ gap) rest

theorem lineLength_eq {text rest : List Char} (h : lineLength (text ++ rest) = text.length) :
    '\n' ∉ text ∧ ∀ c ∈ rest.head?, c = '\n' := by
  obtain ⟨hall, hstop⟩ := takeWhile_length_eq h
  refine ⟨fun hmem => ?_, fun c hc => ?_⟩
  · have hc := hall _ hmem
    rw [bne_self_eq_false] at hc
    cases hc
  · have hc := hstop c hc
    rwa [bne_eq_false_iff_eq] at hc

/-- A block comment ends at the first closing mark. -/
theorem exists_commentBody {cs : List Char} {n : Nat} (h : blockCommentEnd cs = some n) :
    ∃ body rest, cs = body ++ '*' :: '/' :: rest ∧ n = body.length + 2 ∧
      ¬ ['*', '/'] <:+: body := by
  induction cs using blockCommentEnd.induct generalizing n with
  | case1 rest =>
      cases h
      exact ⟨[], rest, rfl, rfl, by simp⟩
  | case2 => cases h
  | case3 c tail hopen ih =>
      rw [blockCommentEnd.eq_3 c tail hopen] at h
      obtain ⟨m, hm, rfl⟩ := Option.map_eq_some_iff.1 h
      obtain ⟨body, rest, rfl, rfl, hbody⟩ := ih hm
      refine ⟨c :: body, rest, rfl, rfl, fun hinside => ?_⟩
      rcases List.infix_cons_iff.1 hinside with ⟨more, hmore⟩ | hinside
      · obtain ⟨rfl, htail⟩ := List.cons.inj hmore
        exact hopen (more ++ '*' :: '/' :: rest) rfl (by rw [← htail]; rfl)
      · exact hbody hinside

theorem gapPiece_of_commentLength {text rest : List Char}
    (h : commentLength (text ++ rest) = some text.length) : GapPiece text rest := by
  generalize hcs : text ++ rest = cs at h
  rw [commentLength.eq_def] at h
  split at h
  · next line =>
    have hlength := Option.some_inj.1 h
    obtain ⟨body, rfl, rfl⟩ := @exists_of_append_eq ['/', '/'] _ _ _ hcs.symm (Nat.le.intro hlength)
    obtain ⟨hbody, hend⟩ :=
      lineLength_eq (Nat.add_left_cancel (hlength.trans (List.length_append ..)))
    exact .lineComment hbody hend
  · next block =>
    obtain ⟨n, hn, hlength⟩ := Option.map_eq_some_iff.1 h
    obtain ⟨inside, rfl, rfl⟩ :=
      @exists_of_append_eq ['/', '*'] _ _ _ hcs.symm (Nat.le.intro hlength)
    obtain ⟨body, rest', hsplit, rfl, hbody⟩ := exists_commentBody hn
    have hends : inside ++ rest = (body ++ ['*', '/']) ++ rest' := by simp [hsplit]
    have hinside : (body ++ ['*', '/']).length = inside.length := by
      have hsum := hlength.trans (@List.length_append _ ['/', '*'] inside)
      simp only [List.length_append, List.length_cons, List.length_nil] at hsum ⊢
      omega
    rw [(List.append_inj hends hinside.symm).1]
    exact .blockComment hbody
  · cases h

theorem gapPiece_of_directiveLength {text rest : List Char}
    (h : directiveLength (text ++ rest) = some text.length) : GapPiece text rest := by
  generalize hcs : text ++ rest = cs at h
  rw [directiveLength.eq_def] at h
  split at h
  · next line =>
    have hlength := Option.some_inj.1 h
    obtain ⟨body, rfl, rfl⟩ := @exists_of_append_eq ['#'] _ _ _ hcs.symm (Nat.le.intro hlength)
    obtain ⟨hbody, hend⟩ :=
      lineLength_eq (Nat.add_left_cancel (hlength.trans (List.length_append ..)))
    exact .directive hbody hend
  · cases h

theorem gapPiece_of_blankLength {text rest : List Char}
    (h : blankLength (text ++ rest) = some text.length) : GapPiece text rest := by
  rw [blankLength, runLength] at h
  split at h
  · cases h
  · next n hn =>
    have hlength := Option.some_inj.1 h
    exact .blanks (List.length_pos_iff.1 (hlength ▸ Nat.succ_pos n))
      (takeWhile_length_eq (hn.trans hlength)).1

/-- **A lexeme that is no token** is a piece of a gap. -/
theorem gapPiece_of_lexeme {text rest : List Char}
    (h : lexeme (text ++ rest) = (none, text.length)) : GapPiece text rest := by
  rcases lexeme_cases h with ⟨r, hr, hn⟩ | ⟨hkind, -⟩
  · simp only [recognisers, List.mem_cons, List.not_mem_nil, or_false, Prod.mk.injEq, true_and,
      reduceCtorEq, false_and] at hr
    rcases hr with rfl | rfl | rfl
    · exact gapPiece_of_blankLength hn
    · exact gapPiece_of_commentLength hn
    · exact gapPiece_of_directiveLength hn
  · cases hkind

/-! ### Tokens with the gaps between them -/

/-- **A text from a character on**: a gap up to its end, or a gap, a token and the text behind the
token.  The token is not empty, it begins inside its line, and its text is what stands at its
offset. -/
inductive Tiled (cs : List Char) : Nat → List Token → Prop
  | done {n : Nat} (hgap : Gap (cs.drop n) []) : Tiled cs n []
  | token {n : Nat} {t : Token} {ts : List Token} {line : List Char} (hle : n ≤ t.offset cs)
      (hgap : Gap ((cs.take (t.offset cs)).drop n) (cs.drop (t.offset cs))) (hne : t.text ≠ "")
      (htext : t.text.toList <+: cs.drop (t.offset cs))
      (hline : (splitOn '\n' cs)[t.line - 1]? = some line)
      (hcolumn : 1 ≤ t.column ∧ t.column ≤ line.length) (hmore : Tiled cs (t.offsetBehind cs) ts) :
      Tiled cs n (t :: ts)

/-- A text begins with a gap, behind which it ends or a token stands. -/
theorem exists_gap (p : Place) (cs : List Char) : ∃ gap rest, cs = gap ++ rest ∧ Gap gap rest ∧
    (rest = [] ∧ tokeniseFrom p cs = [] ∨
      ∃ kind text more, rest = text ++ more ∧ text ≠ [] ∧
        lexeme (text ++ more) = (some kind, text.length) ∧
        tokeniseFrom p cs =
          ⟨kind, String.ofList text, (p.advance gap).line, (p.advance gap).column⟩ ::
            tokeniseFrom ((p.advance gap).advance text) more) := by
  induction p, cs using lexeme_induction with
  | nil p => exact ⟨[], [], rfl, .nil, .inl ⟨rfl, tokeniseFrom_nil p⟩⟩
  | cons p kind text more htext hlexeme ih =>
      have htokens := tokeniseFrom_lexeme p text htext hlexeme
      cases kind with
      | some kind =>
          exact ⟨[], text ++ more, rfl, .nil, .inr ⟨kind, text, more, rfl, htext, hlexeme, htokens⟩⟩
      | none =>
          -- the gap goes on behind the lexeme
          obtain ⟨gap, rest, hmore, hgap, hrest⟩ := ih
          refine ⟨text ++ gap, rest, ?_, .cons (hmore ▸ gapPiece_of_lexeme hlexeme) hgap, ?_⟩
          · rw [hmore, List.append_assoc]
          · rw [htokens, Place.advance_append]
            exact hrest

/-- **A token is found at its offset.** -/
theorem Token.offset_of_place {t : Token} {front : List Char} (rest : List Char)
    (hplace : Place.start.advance front = ⟨t.line, t.column⟩) :
    t.offset (front ++ rest) = front.length :=
  lineStart_of_place hplace

/-- A gap and a token behind it, in front of tokens and gaps. -/
theorem Tiled.behind {front gap text more : List Char} {t : Token} {ts : List Token}
    (htext : t.text.toList = text) (hhead : ∃ c ∈ text.head?, c ≠ '\n')
    (hplace : Place.start.advance (front ++ gap) = ⟨t.line, t.column⟩)
    (hgap : Gap gap (text ++ more))
    (hmore : Tiled (front ++ gap ++ text ++ more) (front ++ gap ++ text).length ts) :
    Tiled (front ++ gap ++ text ++ more) front.length (t :: ts) := by
  obtain ⟨c, hc, hfeed⟩ := hhead
  obtain ⟨tail, rfl⟩ := List.head?_eq_some_iff.1 hc
  have hoffset := t.offset_of_place (c :: tail ++ more) hplace
  rw [← List.append_assoc] at hoffset
  have hlength : t.text.length = (c :: tail).length := by
    rw [← htext, String.length_toList]
  obtain ⟨line, hline, hcolumn⟩ := exists_line .start (front ++ gap) hfeed (tail ++ more)
  have hone : Place.start.line = 1 ∧ Place.start.column = 1 := ⟨rfl, rfl⟩
  rw [hplace, hone.1, hone.2, ite_self] at hcolumn
  rw [hplace, hone.1] at hline
  have hfirst := Place.start.one_le_column (Nat.le_refl 1) (front ++ gap)
  rw [hplace] at hfirst
  refine @Tiled.token _ _ _ _ line ?_ ?_ ?_ ?_ ?_ ⟨hfirst, Nat.le_of_succ_le_succ hcolumn⟩ ?_
  · rw [hoffset, List.length_append]
    exact Nat.le_add_right ..
  · rw [hoffset, List.append_assoc (front ++ gap), List.take_left, List.drop_left, List.drop_left]
    exact hgap
  · intro hempty
    rw [hempty] at htext
    cases htext
  · rw [hoffset, List.append_assoc (front ++ gap), List.drop_left, htext]
    exact List.prefix_append ..
  · rw [List.append_assoc]
    exact hline
  · rw [Token.offsetBehind, hoffset, hlength, ← List.length_append]
    exact hmore

/-- The tokens from a place on, and the gaps between them. -/
theorem tiled_tokeniseFrom (front cs : List Char) :
    Tiled (front ++ cs) front.length (tokeniseFrom (Place.start.advance front) cs) := by
  obtain
      ⟨gap, rest, hcs, hgap, ⟨rfl, htokens⟩ | ⟨kind, text, more, rfl, htext, hlexeme, htokens⟩⟩ :=
    exists_gap (Place.start.advance front) cs
  · rw [htokens, hcs, List.append_nil]
    refine .done ?_
    rw [List.drop_left]
    exact hgap
  · have hlt : more.length < cs.length := by
      have hpos := List.length_pos_iff.2 htext
      simp only [hcs, List.length_append]
      omega
    have hmore := tiled_tokeniseFrom (front ++ gap ++ text) more
    have hhead : ∃ c ∈ text.head?, c ≠ '\n' := by
      obtain ⟨c, tail, rfl⟩ := List.exists_cons_of_ne_nil htext
      refine ⟨c, rfl, ?_⟩
      rintro rfl
      cases isBlank_head_token hlexeme
    rw [Place.advance_append, Place.advance_append] at hmore
    rw [htokens, hcs, ← List.append_assoc, ← List.append_assoc]
    exact .behind String.toList_ofList hhead (Place.advance_append ..) hgap hmore
  termination_by cs.length
  decreasing_by exact hlt

/-- **Every text is tiled** by its tokens and the gaps between them. -/
theorem tiled_tokenise (text : String) : Tiled text.toList 0 (tokenise text) :=
  tiled_tokeniseFrom [] text.toList

/-! ### What this says of the tokens -/

/-- The text of each token is what stands at its offset, which is a place in its line. -/
structure Token.Exact (cs : List Char) (t : Token) : Prop where
  nonempty : t.text ≠ ""
  slice : (cs.drop (t.offset cs)).take t.text.length = t.text.toList
  line : ∃ line, (splitOn '\n' cs)[t.line - 1]? = some line ∧ 1 ≤ t.column ∧ t.column ≤ line.length

/-- Where the gap behind some tokens begins. -/
def gapStart (cs : List Char) (before : List Token) : Nat :=
  (before.getLast?.map (Token.offsetBehind cs)).getD 0

/-- Where the gap in front of some tokens ends. -/
def gapEnd (cs : List Char) (after : List Token) : Nat :=
  (after.head?.map (Token.offset cs)).getD cs.length

section Tiled

variable {cs : List Char} {n : Nat} {ts : List Token}

theorem Tiled.exact (h : Tiled cs n ts) : ∀ t ∈ ts, n ≤ t.offset cs ∧ t.Exact cs := by
  induction h with
  | done => exact List.forall_mem_nil _
  | @token n t ts line hle _ hne htext hline hcolumn _ ih =>
      refine List.forall_mem_cons.2
        ⟨⟨hle, hne, ?_, line, hline, hcolumn⟩, fun s hs => ⟨?_, (ih s hs).2⟩⟩
      · rw [← String.length_toList]
        exact (List.prefix_iff_eq_take.1 htext).symm
      · exact Nat.le_trans hle (Nat.le_trans (Nat.le_add_right ..) (ih s hs).1)

/-- **Tokens come one behind the other**, without a character in common. -/
theorem Tiled.ordered (h : Tiled cs n ts) :
    ts.Pairwise fun s t => s.offsetBehind cs ≤ t.offset cs := by
  induction h with
  | done => exact .nil
  | token _ _ _ _ _ _ hmore ih => exact .cons (fun s hs => (hmore.exact s hs).1) ih

/-- **Each stretch between two tokens**, in front of the first one or behind the last one is a
gap. -/
theorem Tiled.gaps (h : Tiled cs n ts) {before after : List Token} (hts : ts = before ++ after) :
    Gap ((cs.take (gapEnd cs after)).drop ((before.getLast?.map (Token.offsetBehind cs)).getD n))
      (cs.drop (gapEnd cs after)) := by
  induction h generalizing before with
  | done hgap =>
      obtain ⟨rfl, rfl⟩ := List.append_eq_nil_iff.1 hts.symm
      simpa [gapEnd] using hgap
  | @token n t ts line hle hgap _ _ _ _ _ ih =>
      cases before with
      | nil =>
          rw [List.nil_append] at hts
          subst hts
          exact hgap
      | cons s before =>
          obtain ⟨rfl, hrest⟩ := List.cons.inj hts
          have hmore := ih hrest
          rw [List.getLast?_cons, Option.map_some, Option.getD_some]
          cases hlast : before.getLast? with
          | none => rwa [hlast] at hmore
          | some last => rwa [hlast] at hmore

end Tiled

end LocalisedEnum

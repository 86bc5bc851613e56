import LocalisedEnum.Proofs.Token.Insertion

/-!
**Where tokens stand.**

A lexeme is never empty and never longer than the text it is taken from, so that a text is cut into
its lexemes, one behind the other.  A token stands where its place says, with a cut in front of it
and one behind it, and blanks that are put in at a cut of that kind change no token.

Main definitions:

* `TokenEdge` — a token begins or ends between two parts of a text;
* `Token.StandsIn` — a token with what stands in front of it and behind it.

Main results:

* `lexeme_induction` — **induction over the lexemes** of a text;
* `bareTokens_inserted` — **blanks at a token's edge** change no token;
* `exists_standsIn` — every token stands somewhere, `Token.StandsIn.unique` — and nowhere else;
* `Token.StandsIn.edges` — where it stands it begins and ends.
-/

set_option autoImplicit false
set_option relaxedAutoImplicit false

namespace LocalisedEnum

/-! ### A lexeme is a part of the text -/

/-- What is taken from a text is a part of it that is not empty. -/
def Fits (r : List Char → Option Nat) : Prop :=
  ∀ cs n, r cs = some n → 1 ≤ n ∧ n ≤ cs.length

theorem length_takeWhile_le (p : Char → Bool) (cs : List Char) :
    (cs.takeWhile p).length ≤ cs.length :=
  (List.takeWhile_prefix p).length_le

theorem fits_blockCommentEnd : Fits blockCommentEnd := by
  intro cs n h
  induction cs using blockCommentEnd.induct generalizing n with
  | case1 rest =>
      cases h
      simp
  | case2 => cases h
  | case3 c rest hopen ih =>
      rw [blockCommentEnd.eq_3 c rest hopen] at h
      obtain ⟨m, hm, rfl⟩ := Option.map_eq_some_iff.1 h
      have hfits := ih m hm
      rw [List.length_cons]
      omega

theorem fits_closingQuotes {count : Nat} (hcount : 0 < count) : Fits (closingQuotes count) := by
  intro cs n h
  refine ⟨Nat.le_trans hcount (le_of_closingQuotes h), ?_⟩
  induction cs generalizing n with
  | nil => cases h
  | cons c cs ih =>
      rw [closingQuotes, ← quotes] at h
      split at h
      · next hstart =>
        cases h
        have hlength := (startsWith_iff.1 hstart).length_le
        rwa [quotes, List.length_replicate] at hlength
      · obtain ⟨m, hm, rfl⟩ := Option.map_eq_some_iff.1 h
        exact Nat.succ_le_succ (ih m hm)

theorem fits_verbatimEnd : Fits verbatimEnd := by
  intro cs n h
  induction cs using verbatimEnd.induct generalizing n with
  | case1 => cases h
  | case2 rest ih =>
      rw [verbatimEnd] at h
      cases hend : verbatimEnd rest with
      | none =>
          rw [hend] at h
          cases h
          simp
      | some m =>
          rw [hend] at h
          cases h
          have hfits := ih m hend
          simp only [List.length_cons, Option.map_some, Option.getD_some]
          omega
  | case3 rest hpair =>
      rw [verbatimEnd.eq_3 rest hpair] at h
      cases h
      simp
  | case4 c rest hpair hquote ih =>
      rw [verbatimEnd.eq_4 c rest hpair hquote] at h
      obtain ⟨m, hm, rfl⟩ := Option.map_eq_some_iff.1 h
      have hfits := ih m hm
      rw [List.length_cons]
      omega

theorem fits_escapedEnd (mark : Char) : Fits (escapedEnd mark) := by
  intro cs n h
  obtain ⟨body, rest, -, rfl, rfl⟩ := escapedBody_of_escapedEnd h
  simp only [List.length_append, List.length_cons]
  omega

/-- An opening and what its end is found at. -/
theorem Fits.behind {f : List Char → Option Nat} (hf : Fits f) (lead : List Char)
    {cs rest : List Char} {n : Nat} (hcs : cs = lead ++ rest)
    (h : (f rest).map (lead.length + ·) = some n) : 1 ≤ n ∧ n ≤ cs.length := by
  obtain ⟨m, hm, rfl⟩ := Option.map_eq_some_iff.1 h
  have hfits := hf rest m hm
  rw [hcs, List.length_append]
  omega

theorem fits_commentLength : Fits commentLength := by
  intro cs n h
  rw [commentLength.eq_def] at h
  split at h
  · next rest =>
    cases h
    have hline := length_takeWhile_le (· != '\n') rest
    simp only [lineLength, List.length_cons]
    omega
  · next rest => exact fits_blockCommentEnd.behind ['/', '*'] rfl h
  · cases h

theorem fits_directiveLength : Fits directiveLength := by
  intro cs n h
  rw [directiveLength.eq_def] at h
  split at h
  · next rest =>
    cases h
    have hline := length_takeWhile_le (· != '\n') rest
    simp only [lineLength, List.length_cons]
    omega
  · cases h

theorem fits_blankLength : Fits blankLength := by
  intro cs n h
  have hrun := length_takeWhile_le isBlank cs
  rw [blankLength, runLength] at h
  split at h
  · cases h
  · next m hm =>
    cases h
    omega

theorem fits_rawLength : Fits rawLength := by
  intro cs n h
  refine ⟨Nat.le_trans (by decide) (le_of_rawLength h), ?_⟩
  obtain ⟨m, hm, rfl⟩ := Option.map_eq_some_iff.1 h
  obtain ⟨count, k, h3, -, hk, rfl, -⟩ := quotedRunLength_eq_some_iff.1 hm
  have hfits := fits_closingQuotes (by omega) _ _ hk
  simp only [List.length_drop] at hfits
  have hdollars := length_takeWhile_le (· == '$') cs
  omega

theorem fits_verbatimLength : Fits verbatimLength := by
  intro cs n h
  rw [verbatimLength.eq_def] at h
  split at h
  · next rest => exact fits_verbatimEnd.behind ['$', '@', '"'] rfl h
  · next rest => exact fits_verbatimEnd.behind ['@', '$', '"'] rfl h
  · next rest => exact fits_verbatimEnd.behind ['@', '"'] rfl h
  · cases h

theorem fits_stringLength : Fits stringLength := by
  intro cs n h
  rw [stringLength.eq_def] at h
  split at h
  · next rest => exact (fits_escapedEnd '"').behind ['$', '"'] rfl h
  · next rest => exact (fits_escapedEnd '"').behind ['"'] rfl h
  · cases h

theorem fits_charLength : Fits charLength := by
  intro cs n h
  rw [charLength.eq_def] at h
  split at h
  · cases h
  · next rest _ => exact (fits_escapedEnd '\'').behind ['\''] rfl h
  · cases h

theorem fits_numberLength : Fits numberLength := by
  intro cs n h
  cases cs with
  | nil => cases h
  | cons c cs =>
      rw [numberLength] at h
      split at h
      · cases h
        have hrun := length_takeWhile_le (fun d => isWord d || d == '.') cs
        rw [List.length_cons]
        omega
      · cases h

theorem fits_wordLength : Fits wordLength := by
  intro cs n h
  cases cs with
  | nil => cases h
  | cons c cs =>
      rw [wordLength] at h
      split at h
      · cases h
        have hrun := length_takeWhile_le isWord cs
        rw [List.length_cons]
        omega
      · cases h

theorem fits_identifierLength : Fits identifierLength := by
  intro cs n h
  rw [identifierLength.eq_def] at h
  split at h
  · next rest => exact fits_wordLength.behind ['@'] rfl h
  · exact fits_wordLength cs n h

theorem fits_operatorLength : Fits operatorLength := by
  intro cs n h
  rw [operatorLength] at h
  split at h
  · next operator hfind =>
    cases h
    obtain ⟨hstart, -⟩ := List.find?_eq_some_iff_append.1 hfind
    have hpositive : longOperators.all (fun op => 1 ≤ op.length) = true := by decide
    have hmem := List.mem_of_find?_eq_some hfind
    exact ⟨by simpa using List.all_eq_true.1 hpositive operator hmem,
      (startsWith_iff.1 hstart).length_le⟩
  · split at h
    · next hhead =>
      cases h
      cases cs with
      | nil => cases hhead
      | cons c cs => simp
    · cases h

theorem fits_of_mem_recognisers {kind : Option TokenKind} {r : List Char → Option Nat}
    (h : (kind, r) ∈ recognisers) : Fits r := by
  simp only [recognisers, List.mem_cons, List.not_mem_nil, or_false, Prod.mk.injEq] at h
  rcases h with ⟨-, rfl⟩ | ⟨-, rfl⟩ | ⟨-, rfl⟩ | ⟨-, rfl⟩ | ⟨-, rfl⟩ | ⟨-, rfl⟩ | ⟨-, rfl⟩ |
    ⟨-, rfl⟩ | ⟨-, rfl⟩ | ⟨-, rfl⟩
  · exact fits_blankLength
  · exact fits_commentLength
  · exact fits_directiveLength
  · exact fits_rawLength
  · exact fits_verbatimLength
  · exact fits_stringLength
  · exact fits_charLength
  · exact fits_numberLength
  · exact fits_identifierLength
  · exact fits_operatorLength

/-- **A text that is not empty** is its first lexeme and a rest. -/
theorem exists_first_lexeme {cs : List Char} (hne : cs ≠ []) : ∃ kind text rest, cs = text ++ rest ∧
    text ≠ [] ∧ lexeme (text ++ rest) = (kind, text.length) := by
  obtain ⟨⟨kind, n⟩, h⟩ : ∃ l, lexeme cs = l := ⟨_, rfl⟩
  have hfits : 1 ≤ n ∧ n ≤ cs.length := by
    rcases lexeme_cases h with ⟨r, hr, hn⟩ | ⟨-, rfl⟩
    · exact fits_of_mem_recognisers hr cs n hn
    · exact ⟨Nat.le_refl 1, List.length_pos_iff.2 hne⟩
  have hlength : (cs.take n).length = n := List.length_take_of_le hfits.2
  refine ⟨kind, cs.take n, cs.drop n, (List.take_append_drop n cs).symm, ?_, ?_⟩
  · rw [← List.length_pos_iff, hlength]
    exact hfits.1
  · rw [List.take_append_drop, hlength, h]

/-- **Induction over the lexemes** of a text, with the place of each. -/
@[elab_as_elim]
theorem lexeme_induction {motive : Place → List Char → Prop} (nil : ∀ p, motive p [])
    (cons : ∀ p kind text rest, text ≠ [] → lexeme (text ++ rest) = (kind, text.length) →
      motive (p.advance text) rest → motive p (text ++ rest)) (p : Place) (cs : List Char) :
    motive p cs := by
  by_cases hne : cs = []
  · rw [hne]
    exact nil p
  obtain ⟨kind, text, rest, hcs, htext, h⟩ := exists_first_lexeme hne
  have hlt : rest.length < cs.length := by
    have hpos := List.length_pos_iff.2 htext
    rw [hcs, List.length_append]
    omega
  rw [hcs]
  exact cons p kind text rest htext h (lexeme_induction nil cons (p.advance text) rest)
  termination_by cs.length
  decreasing_by exact hlt

/-! ### The edges of the tokens -/

/-- A token begins or ends between the two parts of a text. -/
inductive TokenEdge : List Char → List Char → Prop
  | before {kind : TokenKind} {text rest : List Char} (hne : text ≠ [])
      (h : lexeme (text ++ rest) = (some kind, text.length)) : TokenEdge [] (text ++ rest)
  | behind {kind : TokenKind} {text rest : List Char} (hne : text ≠ [])
      (h : lexeme (text ++ rest) = (some kind, text.length)) : TokenEdge text rest
  | beyond {kind : Option TokenKind} {text a b : List Char} (hne : text ≠ [])
      (h : lexeme (text ++ (a ++ b)) = (kind, text.length)) (hedge : TokenEdge a b) :
      TokenEdge (text ++ a) b

/-- A token does not begin with a blank. -/
theorem isBlank_head_token {kind : TokenKind} {c : Char} {cs : List Char} {n : Nat}
    (h : lexeme (c :: cs) = (some kind, n)) : isBlank c = false := by
  cases hc : isBlank c with
  | false => rfl
  | true =>
      rw [lexeme_blank hc] at h
      cases h

/-- An edge at the front of a text is the beginning of a token. -/
theorem TokenEdge.head {a b : List Char} (h : TokenEdge a b) (ha : a = []) :
    ∃ x ∈ b.head?, isBlank x = false := by
  cases h with
  | @before kind text rest hne hlexeme =>
      obtain ⟨c, cs, rfl⟩ := List.exists_cons_of_ne_nil hne
      exact ⟨c, rfl, isBlank_head_token hlexeme⟩
  | behind hne => exact absurd ha hne
  | beyond hne => exact absurd (List.append_eq_nil_iff.1 ha).1 hne

/-- A lexeme in front of blanks further on. -/
theorem bareTokens_lexeme_inserted {kind : Option TokenKind} {text a b : List Char} {g : Blanks}
    (hg : g.chars ≠ []) (hne : text ≠ []) (h : lexeme (text ++ (a ++ b)) = (kind, text.length))
    (hgap : kind = none → a = [] → ∃ x ∈ b.head?, isBlank x = false)
    (hclear : ∀ t ∈ bareTokens (text ++ (a ++ b)), t.kind ≠ .other)
    (ih : (∀ t ∈ bareTokens (a ++ b), t.kind ≠ .other) →
      bareTokens (a ++ (g.chars ++ b)) = bareTokens (a ++ b)) :
    bareTokens (text ++ (a ++ (g.chars ++ b))) = bareTokens (text ++ (a ++ b)) := by
  have htokens := bareTokens_lexeme text hne h
  rw [htokens] at hclear
  have hrest : ∀ t ∈ bareTokens (a ++ b), t.kind ≠ .other :=
    fun t ht => hclear t (List.mem_append_right _ ht)
  obtain ⟨c, cs, rfl⟩ := List.exists_cons_of_ne_nil hne
  cases hc : isBlank c with
  | true =>
      -- the lexeme is a run of blanks, of which there may now be more
      rw [List.cons_append, lexeme_blank hc] at h
      obtain ⟨-, hlength⟩ := Prod.mk.inj h
      have hblanks : ∀ x ∈ c :: cs, isBlank x = true := by
        intro x hx
        rcases List.mem_cons.1 hx with rfl | hx
        · exact hc
        · exact (takeWhile_length_eq (Nat.add_right_cancel hlength)).1 x hx
      rw [bareTokens_blank hblanks, bareTokens_blank hblanks, ih hrest]
  | false =>
      have hkind : kind ≠ some .other := by
        rintro rfl
        exact hclear _ (List.mem_append_left _ List.mem_cons_self) rfl
      have hinserted := lexeme_inserted hg hc hgap hrest hkind h
      rw [bareTokens_lexeme _ hne hinserted, ih hrest, htokens]

/-- **Blanks at a token's edge** change no token. -/
theorem bareTokens_inserted {a b : List Char} (hedge : TokenEdge a b) (g : Blanks)
    (hclear : ∀ t ∈ bareTokens (a ++ b), t.kind ≠ .other) :
    bareTokens (a ++ (g.chars ++ b)) = bareTokens (a ++ b) := by
  by_cases hg : g.chars = []
  · rw [hg, List.nil_append]
  -- over the lexemes in front of the edge
  induction hedge with
  | before hne h => exact bareTokens_blank g.blank _
  | @behind kind text rest hne h =>
      refine bareTokens_lexeme_inserted (a := []) hg hne h (fun hkind => nomatch hkind) hclear ?_
      exact fun _ => bareTokens_blank g.blank rest
  | @beyond kind text a b hne h hedge ih =>
      rw [List.append_assoc] at hclear ⊢
      rw [List.append_assoc]
      exact bareTokens_lexeme_inserted hg hne h (fun _ => hedge.head) hclear ih

/-! ### Places -/

/-- A place comes before another one. -/
def Place.Before (p q : Place) : Prop :=
  p.line < q.line ∨ p.line = q.line ∧ p.column < q.column

theorem Place.before_next (p : Place) (c : Char) : p.Before (p.next c) := by
  rw [Place.next]
  split
  · exact Or.inl (Nat.lt_succ_self p.line)
  · exact Or.inr ⟨rfl, Nat.lt_succ_self p.column⟩

theorem Place.Before.trans {p q r : Place} (h : p.Before q) (h' : q.Before r) : p.Before r := by
  simp only [Place.Before] at *
  omega

theorem Place.Before.ne {p q : Place} (h : p.Before q) : q ≠ p := by
  rintro rfl
  simp only [Place.Before] at h
  omega

theorem Place.before_advance (p : Place) {cs : List Char} (hne : cs ≠ []) :
    p.Before (p.advance cs) := by
  induction cs generalizing p with
  | nil => exact absurd rfl hne
  | cons c cs ih =>
      cases cs with
      | nil => exact p.before_next c
      | cons d cs => exact (p.before_next c).trans (ih (p.next c) (List.cons_ne_nil d cs))

theorem Place.advance_append (p : Place) (cs ds : List Char) :
    p.advance (cs ++ ds) = (p.advance cs).advance ds :=
  List.foldl_append

/-- **A place is reached once** on the way through a text. -/
theorem Place.advance_injective (p : Place) {front front' rest rest' : List Char}
    (htext : front ++ rest = front' ++ rest') (h : p.advance front = p.advance front') :
    front = front' := by
  rcases List.append_eq_append_iff.1 htext with ⟨more, rfl, -⟩ | ⟨more, rfl, -⟩
  · rw [Place.advance_append] at h
    by_cases hmore : more = []
    · rw [hmore, List.append_nil]
    · exact absurd h.symm ((p.advance front).before_advance hmore).ne
  · rw [Place.advance_append] at h
    by_cases hmore : more = []
    · rw [hmore, List.append_nil]
    · exact absurd h ((p.advance front').before_advance hmore).ne

/-! ### Where a token stands -/

/-- The token stands in the text at its place, between what is in front of it and what is behind
it. -/
structure Token.StandsIn (t : Token) (text : String) (front back : List Char) : Prop where
  split : text.toList = front ++ (t.text.toList ++ back)
  place : Place.start.advance front = ⟨t.line, t.column⟩

theorem Token.StandsIn.unique {t : Token} {text : String} {front back front' back' : List Char}
    (h : t.StandsIn text front back) (h' : t.StandsIn text front' back') :
    front = front' ∧ back = back' := by
  have hfront : front = front' :=
    Place.start.advance_injective (h.split.symm.trans h'.split) (h.place.trans h'.place.symm)
  have hback := h.split.symm.trans h'.split
  rw [hfront, List.append_cancel_left_eq, List.append_cancel_left_eq] at hback
  exact ⟨hfront, hback⟩

/-- A token of a text stands at its place, and begins and ends there. -/
theorem exists_edges (p : Place) (cs : List Char) {t : Token} (ht : t ∈ tokeniseFrom p cs) :
    ∃ front back, cs = front ++ (t.text.toList ++ back) ∧ p.advance front = ⟨t.line, t.column⟩ ∧
      TokenEdge front (t.text.toList ++ back) ∧ TokenEdge (front ++ t.text.toList) back := by
  induction p, cs using lexeme_induction with
  | nil p =>
      rw [tokeniseFrom_nil] at ht
      cases ht
  | cons p kind text rest htext h ih =>
      -- the token is that of the first lexeme, or stands in the rest
      rw [tokeniseFrom_lexeme p text htext h, List.mem_append, Option.mem_toList] at ht
      rcases ht with ht | ht
      · obtain ⟨k, rfl, rfl⟩ := Option.map_eq_some_iff.1 ht
        refine ⟨[], rest, ?_, rfl, ?_, ?_⟩
        · simp
        · simpa using TokenEdge.before htext h
        · simpa using TokenEdge.behind htext h
      · obtain ⟨front, back, hsplit, hplace, hbegin, hend⟩ := ih ht
        subst hsplit
        refine ⟨text ++ front, back, ?_, ?_, .beyond htext h hbegin, ?_⟩
        · rw [List.append_assoc]
        · rw [Place.advance_append, hplace]
        · rw [List.append_assoc]
          exact .beyond htext (by rwa [List.append_assoc]) hend

/-- **Every token stands somewhere.** -/
theorem exists_standsIn {text : String} {t : Token} (ht : t ∈ tokenise text) :
    ∃ front back, t.StandsIn text front back := by
  obtain ⟨front, back, hsplit, hplace, -, -⟩ := exists_edges .start text.toList ht
  exact ⟨front, back, hsplit, hplace⟩

/-- Where a token stands it begins and ends. -/
theorem Token.StandsIn.edges {text : String} {t : Token} {front back : List Char}
    (h : t.StandsIn text front back) (ht : t ∈ tokenise text) :
    TokenEdge front (t.text.toList ++ back) ∧ TokenEdge (front ++ t.text.toList) back := by
  obtain ⟨front', back', hsplit, hplace, hedges⟩ := exists_edges .start text.toList ht
  obtain ⟨rfl, rfl⟩ := h.unique ⟨hsplit, hplace⟩
  exact hedges

end LocalisedEnum

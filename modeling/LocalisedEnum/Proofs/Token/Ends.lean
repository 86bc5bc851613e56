import LocalisedEnum.Proofs.Token.Spacing

/-!
**What recognisers look for, and where they find it.**

Comments and literals go on up to their ends, which may be far away.  An end has no blank in it, so
that blanks put in somewhere let none be found that was not there.  And an end that is found is told
from the characters up to it, whatever follows: only a verbatim literal looks one character further.

Main definitions:

* `Local` — what is taken is told from what is taken.

Main results:

* `prefix_of_inserted`, `infix_of_inserted` — what has no blank in it is not found in or across
  blanks;
* `closingQuotes_eq_none`, `blockCommentEnd_eq_none`, `verbatimEnd_eq_none` — an end is found
  exactly when it is there;
* `escapedBody_of_escapedEnd`, `verbatimBody_of_verbatimEnd` — what is in front of the end of a
  literal;
* `local_closingQuotes`, `local_blockCommentEnd`, `local_escapedEnd` — ends are told from the
  characters up to them.
-/

set_option autoImplicit false
set_option relaxedAutoImplicit false

namespace LocalisedEnum

/-! ### What is looked for -/

section Looking

variable {front x b : List Char} {g : Blanks}

theorem isBlank_quotes (count : Nat) : ∀ c ∈ quotes count, isBlank c = false := by
  intro c hc
  rw [List.eq_of_mem_replicate hc]
  decide

/-- What has no blank in it does not reach into the blanks from in front of them. -/
theorem prefix_of_inserted (hg : g.chars ≠ []) (hfront : ∀ c ∈ front, isBlank c = false)
    (h : front <+: x ++ (g.chars ++ b)) : front <+: x := by
  induction front generalizing x with
  | nil => exact List.nil_prefix
  | cons c front ih =>
      cases x with
      | nil =>
          -- the first blank would be the character
          have hblank : isBlank c = true := by
            refine Blanks.head_append hg b c ?_
            obtain ⟨rest, hrest⟩ := h
            rw [List.nil_append] at hrest
            rw [← hrest]
            rfl
          rw [hfront c List.mem_cons_self] at hblank
          cases hblank
      | cons d x =>
          rw [List.cons_append, List.cons_prefix_cons] at h
          rw [List.cons_prefix_cons]
          exact ⟨h.1, ih (fun e he => hfront e (List.mem_cons_of_mem _ he)) h.2⟩

/-- What does not begin with a blank is found behind the blanks at the front. -/
theorem infix_of_blanks (hne : front ≠ []) (hfront : ∀ c ∈ front, isBlank c = false)
    {blanks : List Char} (hblanks : ∀ c ∈ blanks, isBlank c = true) (h : front <:+: blanks ++ b) :
    front <:+: b := by
  induction blanks with
  | nil => exact h
  | cons d blanks ih =>
      rw [List.cons_append, List.infix_cons_iff] at h
      rcases h with h | h
      · obtain ⟨c, cs, rfl⟩ := List.exists_cons_of_ne_nil hne
        have hd := hblanks d List.mem_cons_self
        rw [← (List.cons_prefix_cons.1 h).1, hfront c List.mem_cons_self] at hd
        cases hd
      · exact ih (fun c hc => hblanks c (List.mem_cons_of_mem _ hc)) h

/-- What has no blank in it is not found in or across the blanks. -/
theorem infix_of_inserted (hg : g.chars ≠ []) (hne : front ≠ [])
    (hfront : ∀ c ∈ front, isBlank c = false) (h : front <:+: x ++ (g.chars ++ b)) :
    front <:+: x ++ b := by
  induction x with
  | nil => exact infix_of_blanks hne hfront g.blank h
  | cons d x ih =>
      rw [List.cons_append, List.infix_cons_iff] at h ⊢
      rcases h with h | h
      · exact Or.inl ((prefix_of_inserted (x := d :: x) hg hfront h).trans
          (List.prefix_append (d :: x) b))
      · exact Or.inr (ih h)

theorem closingQuotes_eq_none {count : Nat} (hcount : 0 < count) {cs : List Char} :
    closingQuotes count cs = none ↔ ¬ quotes count <:+: cs := by
  induction cs with
  | nil =>
      have hne : quotes count ≠ [] := by simp [quotes, Nat.pos_iff_ne_zero.1 hcount]
      simp [closingQuotes, hne]
  | cons c cs ih =>
      rw [List.infix_cons_iff, not_or, closingQuotes, ← quotes, ← startsWith_iff]
      split
      · next h => simp [h]
      · next h => simp [h, ih]

theorem blockCommentEnd_eq_none {cs : List Char} :
    blockCommentEnd cs = none ↔ ¬ ['*', '/'] <:+: cs := by
  induction cs with
  | nil => simp [blockCommentEnd]
  | cons c cs ih =>
      rw [List.infix_cons_iff, not_or]
      by_cases h : ['*', '/'] <+: c :: cs
      · obtain ⟨rest, hrest⟩ := h
        rw [← hrest]
        simp [blockCommentEnd]
      · rw [blockCommentEnd.eq_3, Option.map_eq_none_iff, ih]
        · simp [h]
        · rintro tail rfl rfl
          exact h ⟨tail, rfl⟩

theorem verbatimEnd_eq_none {cs : List Char} : verbatimEnd cs = none ↔ '"' ∉ cs := by
  induction cs with
  | nil => simp [verbatimEnd]
  | cons c cs ih =>
      by_cases hc : c = '"'
      · subst hc
        cases cs with
        | nil => simp [verbatimEnd]
        | cons d cs =>
            by_cases hd : d = '"'
            · simp [hd, verbatimEnd]
            · rw [verbatimEnd.eq_3 _ fun rest h => hd (List.cons.inj h).1]
              simp
      · rw [verbatimEnd.eq_4 c cs (fun rest h _ => hc h) hc, Option.map_eq_none_iff, ih]
        simp [Ne.symm hc]

end Looking

/-! ### What is taken -/

/-- What is taken from a text is told from what is taken. -/
def Local (f : List Char → Option Nat) : Prop :=
  ∀ text x y : List Char, f (text ++ x) = some text.length → f (text ++ y) = some text.length

theorem le_of_closingQuotes {count n : Nat} {cs : List Char} (h : closingQuotes count cs = some n) :
    count ≤ n := by
  induction cs generalizing n with
  | nil => cases h
  | cons c cs ih =>
      rw [closingQuotes] at h
      split at h
      · cases h
        exact Nat.le_refl count
      · obtain ⟨m, hm, rfl⟩ := Option.map_eq_some_iff.1 h
        exact Nat.le_succ_of_le (ih hm)

/-- So many quotes at the front of a text stand in the part of it that is as long. -/
theorem startsWith_quotes_append {count : Nat} {text : List Char} (h : count ≤ text.length)
    (rest : List Char) :
    startsWith (quotes count) (text ++ rest) = true ↔ quotes count <+: text := by
  rw [startsWith_iff]
  refine ⟨fun hfront => ?_, fun hfront => hfront.trans (List.prefix_append text rest)⟩
  refine List.prefix_of_prefix_length_le hfront (List.prefix_append text rest) ?_
  rwa [quotes, List.length_replicate]

theorem local_closingQuotes {count : Nat} (hcount : 0 < count) : Local (closingQuotes count) := by
  intro text x y h
  induction text with
  | nil => exact absurd (le_of_closingQuotes h) (Nat.not_le.2 hcount)
  | cons c text ih =>
      have hx := startsWith_quotes_append (le_of_closingQuotes h) x
      have hy := startsWith_quotes_append (le_of_closingQuotes h) y
      rw [List.cons_append] at h hx hy ⊢
      rw [closingQuotes, ← quotes] at h ⊢
      by_cases hstart : quotes count <+: c :: text
      · rw [if_pos (hx.2 hstart)] at h
        rw [if_pos (hy.2 hstart), h]
      · rw [if_neg (mt hx.1 hstart)] at h
        rw [if_neg (mt hy.1 hstart)]
        obtain ⟨n, hn, hlength⟩ := Option.map_eq_some_iff.1 h
        rw [ih (hn.trans (congrArg some (Nat.add_right_cancel hlength)))]
        rfl

theorem le_of_blockCommentEnd {cs : List Char} {n : Nat} (h : blockCommentEnd cs = some n) :
    2 ≤ n := by
  induction cs using blockCommentEnd.induct generalizing n with
  | case1 rest =>
      cases h
      exact Nat.le_refl 2
  | case2 => cases h
  | case3 c rest hopen ih =>
      rw [blockCommentEnd.eq_3 c rest hopen] at h
      obtain ⟨m, hm, rfl⟩ := Option.map_eq_some_iff.1 h
      exact Nat.le_succ_of_le (ih hm)

theorem local_blockCommentEnd : Local blockCommentEnd := by
  intro text x y h
  induction text with
  | nil => exact absurd (le_of_blockCommentEnd h) (by simp)
  | cons c text ih =>
      have hlength := le_of_blockCommentEnd h
      cases text with
      | nil => exact absurd hlength (by simp)
      | cons d text =>
          simp only [List.cons_append] at h ih ⊢
          by_cases hclose : c = '*' ∧ d = '/'
          · obtain ⟨rfl, rfl⟩ := hclose
            exact h
          · have hopen : ∀ cs rest : List Char, c = '*' → d :: cs = '/' :: rest → False :=
              fun cs rest hc hd => hclose ⟨hc, (List.cons.inj hd).1⟩
            rw [blockCommentEnd.eq_3 c _ (hopen _)] at h ⊢
            obtain ⟨n, hn, hsum⟩ := Option.map_eq_some_iff.1 h
            rw [ih (hn.trans (congrArg some (Nat.add_right_cancel hsum)))]
            rfl

/-- The end of an escaped literal stands behind its inside. -/
theorem escapedBody_of_escapedEnd {mark : Char} {cs : List Char} {n : Nat}
    (h : escapedEnd mark cs = some n) :
    ∃ body rest, EscapedBody mark body ∧ cs = body ++ mark :: rest ∧ n = body.length + 1 := by
  induction cs using escapedEnd.induct mark generalizing n with
  | case1 => cases h
  | case2 => cases h
  | case3 rest => simp [escapedEnd] at h
  | case4 c rest hline ih =>
      rw [escapedEnd, if_neg hline] at h
      obtain ⟨m, hm, rfl⟩ := Option.map_eq_some_iff.1 h
      obtain ⟨body, tail, hbody, rfl, rfl⟩ := ih hm
      exact ⟨'\\' :: c :: body, tail, .escape hline hbody, rfl, rfl⟩
  | case5 rest hlast hescape =>
      rw [escapedEnd.eq_4 mark mark rest hlast hescape, if_pos rfl] at h
      cases h
      exact ⟨[], rest, .nil, rfl, rfl⟩
  | case6 rest hlast hescape hmark =>
      rw [escapedEnd.eq_4 mark '\n' rest hlast hescape, if_neg hmark, if_pos rfl] at h
      cases h
  | case7 c rest hlast hescape hmark hline ih =>
      rw [escapedEnd.eq_4 mark c rest hlast hescape, if_neg hmark, if_neg hline] at h
      obtain ⟨m, hm, rfl⟩ := Option.map_eq_some_iff.1 h
      obtain ⟨body, tail, hbody, rfl, rfl⟩ := ih hm
      have hslash : c ≠ '\\' := by
        rintro rfl
        cases hcs : body ++ mark :: tail with
        | nil => exact hlast rfl hcs
        | cons d ds => exact hescape d ds rfl hcs
      exact ⟨c :: body, tail, .plain hmark hslash hline hbody, rfl, rfl⟩

/-- What two texts have in common at the front. -/
theorem exists_of_append_eq {lead rest text x : List Char} (h : lead ++ rest = text ++ x)
    (hlength : lead.length ≤ text.length) : ∃ tail, text = lead ++ tail ∧ rest = tail ++ x := by
  have hlead : lead <+: text :=
    List.prefix_of_prefix_length_le ⟨rest, h⟩ (List.prefix_append text x) hlength
  obtain ⟨tail, rfl⟩ := hlead
  rw [List.append_assoc, List.append_cancel_left_eq] at h
  exact ⟨tail, rfl, h⟩

/-- What is taken, where it is as long as an inside and the mark behind it. -/
theorem eq_behind_end {mark : Char} {text x body rest : List Char}
    (h : text ++ x = body ++ mark :: rest) (hlength : text.length = body.length + 1) :
    text = body ++ [mark] := by
  have hsplit : (body ++ [mark]) ++ rest = text ++ x := by
    rw [h, List.append_assoc]
    rfl
  obtain ⟨tail, rfl, -⟩ := exists_of_append_eq hsplit (by simp [hlength])
  have htail : tail = [] := by simpa using hlength
  rw [htail, List.append_nil]

/-- An escaped literal's inside, where its end is taken. -/
theorem exists_escapedBody {mark : Char} {text x : List Char}
    (h : escapedEnd mark (text ++ x) = some text.length) :
    ∃ body, EscapedBody mark body ∧ text = body ++ [mark] := by
  obtain ⟨body, rest, hbody, hcs, hlength⟩ := escapedBody_of_escapedEnd h
  exact ⟨body, hbody, eq_behind_end hcs hlength⟩

theorem local_escapedEnd {mark : Char} (hslash : mark ≠ '\\') : Local (escapedEnd mark) := by
  intro text x y h
  obtain ⟨body, hbody, rfl⟩ := exists_escapedBody h
  rw [List.append_assoc, List.singleton_append, escapedEnd_body hslash hbody, List.length_append,
    List.length_singleton]

/-- The end of a verbatim literal that no quote follows stands behind its inside. -/
theorem verbatimBody_of_verbatimEnd {cs : List Char} {n : Nat} (h : verbatimEnd cs = some n)
    (hrest : (cs.drop n).head? ≠ some '"') :
    ∃ body rest, VerbatimBody body ∧ cs = body ++ '"' :: rest ∧ n = body.length + 1 := by
  induction cs using verbatimEnd.induct generalizing n with
  | case1 => cases h
  | case2 rest ih =>
      rw [verbatimEnd] at h
      cases hend : verbatimEnd rest with
      | none =>
          rw [hend] at h
          cases h
          exact absurd rfl hrest
      | some m =>
          rw [hend] at h
          cases h
          obtain ⟨body, tail, hbody, rfl, rfl⟩ := ih hend hrest
          exact ⟨'"' :: '"' :: body, tail, .pair hbody, rfl, rfl⟩
  | case3 rest hpair =>
      rw [verbatimEnd.eq_3 rest hpair] at h
      cases h
      exact ⟨[], rest, .nil, rfl, rfl⟩
  | case4 c rest hpair hquote ih =>
      rw [verbatimEnd.eq_4 c rest hpair hquote] at h
      obtain ⟨m, hm, rfl⟩ := Option.map_eq_some_iff.1 h
      obtain ⟨body, tail, hbody, rfl, rfl⟩ := ih hm hrest
      exact ⟨c :: body, tail, .plain hquote hbody, rfl, rfl⟩

/-- A verbatim literal's inside, where its end is taken and no quote follows. -/
theorem exists_verbatimBody {text x : List Char} (h : verbatimEnd (text ++ x) = some text.length)
    (hx : x.head? ≠ some '"') : ∃ body, VerbatimBody body ∧ text = body ++ ['"'] := by
  obtain ⟨body, rest, hbody, hcs, hlength⟩ :=
    verbatimBody_of_verbatimEnd h (by rwa [List.drop_left])
  exact ⟨body, hbody, eq_behind_end hcs hlength⟩

/-- A quote behind a verbatim literal is the last of the text. -/
theorem not_mem_of_verbatimEnd {cs rest : List Char} {n : Nat} (h : verbatimEnd cs = some n)
    (hrest : cs.drop n = '"' :: rest) : '"' ∉ rest := by
  induction cs using verbatimEnd.induct generalizing n with
  | case1 => cases h
  | case2 tail ih =>
      rw [verbatimEnd] at h
      cases hend : verbatimEnd tail with
      | none =>
          rw [hend] at h
          cases h
          cases hrest
          exact verbatimEnd_eq_none.1 hend
      | some m =>
          rw [hend] at h
          cases h
          exact ih hend hrest
  | case3 tail hpair =>
      rw [verbatimEnd.eq_3 tail hpair] at h
      cases h
      exact absurd hrest (hpair rest)
  | case4 c tail hpair hquote ih =>
      rw [verbatimEnd.eq_4 c tail hpair hquote] at h
      obtain ⟨m, hm, rfl⟩ := Option.map_eq_some_iff.1 h
      exact ih hm hrest

/-- A run that is taken is all of its class, and the character behind it is not. -/
theorem takeWhile_length_eq {p : Char → Bool} {text x : List Char}
    (h : ((text ++ x).takeWhile p).length = text.length) :
    (∀ c ∈ text, p c = true) ∧ ∀ c ∈ x.head?, p c = false := by
  induction text with
  | nil =>
      refine ⟨fun c hc => absurd hc List.not_mem_nil, fun c hc => ?_⟩
      obtain ⟨rest, rfl⟩ := List.head?_eq_some_iff.1 hc
      cases hp : p c with
      | false => rfl
      | true => simp [hp] at h
  | cons d text ih =>
      cases hp : p d with
      | false => simp [hp] at h
      | true =>
          have htext := ih (by simpa [hp] using h)
          refine ⟨fun c hc => ?_, htext.2⟩
          rcases List.mem_cons.1 hc with rfl | hc
          · exact hp
          · exact htext.1 c hc

end LocalisedEnum

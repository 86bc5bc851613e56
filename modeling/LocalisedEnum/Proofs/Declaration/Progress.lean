import LocalisedEnum.Proofs.Declaration.ScanLoops

/-!
**The walk makes progress.**

The loops of the walk take tokens in each round, and its readers take none back.  So whatever the
tokens are, the walk comes to an end, and when nothing is wrong with them it has read them all.

A block is read in rounds.  A round takes a semicolon or a declaration, and where the declaration
opens a block of its own, all of that block with its closing brace.  A member can end in front of
the brace that closes the block around it without a token of its own; then the round has taken the
attributes or the modifiers in front of it, because a round does not begin with a closing brace.

Main definitions:

* `WalkReader` — the readers of the walk;
* `Walk.Rounds` — the rounds of a block.

Main results:

* `WalkReader.suffix` — **no reader takes tokens back**;
* `Walk.Rounds.takes` — each round of a block takes a token;
* `Walk.exists_rounds` — **a walk that comes to its end** does so in rounds, at the end of the
  tokens;
* `walk_progress` — **the walk makes progress and reads everything**.
-/

set_option autoImplicit false
set_option relaxedAutoImplicit false

namespace LocalisedEnum

/-! ### Readers -/

/-- **The readers of the walk**: what each gives, and the tokens that remain. -/
inductive WalkReader : {α : Type} → (List Token → Except Fault (α × List Token)) → Prop
  | token : WalkReader nextToken
  | text (text : String) : WalkReader fun ts => expect text ts >>= fun rest => pure ((), rest)
  | group (opening closing : String) : WalkReader (takeGroup opening closing)
  | statement : WalkReader takeStatement
  | name : WalkReader qualifiedName
  | sections (path : String) : WalkReader (readSections path)
  | oneAttribute (path : String) : WalkReader (readAttribute path)
  | modifiers : WalkReader fun ts => .ok (readModifiers ts)
  | importName : WalkReader readUsing
  | enum (w : Walk) (path : String) (start : Token) (attributes : List Attribute)
      (modifiers : List String) : WalkReader (w.declareEnum path start attributes modifiers)
  | typeHeader (kind : String) (start : Token) : WalkReader (readTypeHeader kind start)
  | constants : WalkReader readConstants
  | member (modifiers : List String) : WalkReader (readMember modifiers)
  | declaration (w : Walk) (path : String) (start : Token) : WalkReader (w.declareFrom path start)

/-- **No reader takes tokens back.** -/
theorem WalkReader.suffix {α : Type} {read : List Token → Except Fault (α × List Token)}
    (h : WalkReader read) {ts rest : List Token} {a : α} (hread : read ts = .ok (a, rest)) :
    rest <:+ ts := by
  cases h with
  | token => exact (takesFront_nextToken ts).suffix hread
  | text text => exact (takesFront_expect () text ts).suffix hread
  | group opening closing => exact (takesFront_takeGroup opening closing ts).suffix hread
  | statement => exact (takesFront_takeStatement ts).suffix hread
  | name => exact (takesFront_qualifiedName ts).suffix hread
  | sections path => exact (takesFront_readSections path ts).suffix hread
  | oneAttribute path => exact (takesFront_readAttribute path ts).suffix hread
  | modifiers => exact (takesFront_readModifiers ts).suffix hread
  | importName => exact (takesFront_readUsing ts).suffix hread
  | enum w path start attributes modifiers =>
      exact (takesFront_declareEnum w path start attributes modifiers ts).suffix hread
  | typeHeader kind start => exact (takesFront_readTypeHeader kind start ts).suffix hread
  | constants => exact (takesFront_readConstants ts).suffix hread
  | member modifiers => exact (takesFront_readMember modifiers ts).suffix hread
  | declaration w path start => exact (takesFront_declareFrom w path start ts).suffix hread

/-! ### Rounds of a block -/

/-- **The rounds of a block**: a semicolon or a declaration in each, with the block that the
declaration opens. -/
inductive Walk.Rounds (path : String) : Nat → Walk → List Token → Walk → List Token → Prop
  | none (w : Walk) (ts : List Token) : Walk.Rounds path 0 w ts w ts
  | piece {n : Nat} {w w' w'' : Walk} {ts mid rest : List Token}
      (hstep : Walk.Step path w ts w' mid) (hsame : w'.outer = w.outer)
      (hrounds : Walk.Rounds path n w' mid w'' rest) : Walk.Rounds path (n + 1) w ts w'' rest
  | block {m n : Nat} {w opened done w' w'' : Walk} {t : Token} {ts inside behind rest : List Token}
      (hstep : Walk.Step path w ts opened inside) (hopens : opened.outer = w.scope :: w.outer)
      (hblock : Walk.Rounds path m opened inside done (t :: behind))
      (hbrace : t.text = closingBrace) (hclose : done.close? = some w')
      (hrounds : Walk.Rounds path n w' behind w'' rest) : Walk.Rounds path (n + 1) w ts w'' rest

namespace Walk

variable {path : String} {w w' : Walk} {ts rest : List Token}

theorem outer_of_close? {s : Scope} {outer : List Scope} (houter : w.outer = s :: outer)
    (hclose : w.close? = some w') : w'.outer = outer := by
  rw [close?, houter] at hclose
  cases hclose
  rfl

/-- Behind its rounds a block is as open as in front of them. -/
theorem Rounds.outer_eq {n : Nat} (h : Rounds path n w ts w' rest) : w'.outer = w.outer := by
  induction h with
  | none => rfl
  | piece _ hsame _ ih => exact ih.trans hsame
  | block _ hopens _ _ hclose _ ihblock ih =>
      exact ih.trans (outer_of_close? (ihblock.trans hopens) hclose)

/-- **Each round of a block takes a token**, and none is taken back. -/
theorem Rounds.takes {n : Nat} (h : Rounds path n w ts w' rest) :
    rest <:+ ts ∧ n + rest.length ≤ ts.length := by
  induction h with
  | none => exact ⟨List.suffix_rfl, Nat.le_of_eq (Nat.zero_add _)⟩
  | piece hstep _ _ ih =>
      have hfurther := hstep.furtherOn
      refine ⟨ih.1.trans hfurther.1, ?_⟩
      have := hfurther.2
      omega
  | @block m n w opened done w' w'' t ts inside behind rest hstep _ _ _ _ _ ihblock ih =>
      have hfurther := hstep.furtherOn
      have hbehind : behind <:+ inside := (List.suffix_cons t behind).trans ihblock.1
      refine ⟨ih.1.trans (hbehind.trans hfurther.1), ?_⟩
      have := hfurther.2
      have := hbehind.length_le
      omega

/-- A declaration leaves the scopes as open as they were, or opens one. -/
theorem Effect.outer_eq {start : Token} {attributes : List Attribute} {modifiers : List String}
    (h : Effect path w start attributes modifiers ts w' rest) :
    w'.outer = w.outer ∨ w'.outer = w.scope :: w.outer := by
  cases h with
  | namespaceBlock | typeBlock => exact .inr rfl
  | importGlobally | importLocally | namespaceLine | enum | typeLine | delegate | constants |
    member => exact .inl rfl

/-- A piece leaves the scopes as open as they were, or opens one, or is the brace that closes
one. -/
theorem Step.outer_cases (h : Step path w ts w' rest) : w'.outer = w.outer ∨
    w'.outer = w.scope :: w.outer ∨
    ∃ t, ts = t :: rest ∧ t.text = closingBrace ∧ w.close? = some w' := by
  cases h with
  | close hbrace hclose => exact .inr (.inr ⟨_, rfl, hbrace, hclose⟩)
  | semicolon => exact .inl rfl
  | declaration _ _ hdeclare =>
      obtain ⟨_, _, heffect⟩ := declaredAs hdeclare
      exact heffect.outer_eq.imp_right .inl

/-- **A walk that comes to its end** reads the block in rounds, and behind them is at the end of the
tokens or at the brace that closes the block. -/
theorem exists_rounds_of_run {done : Walk} (h : Walk.run path w ts = .ok done) : ∃ n w' rest,
    Rounds path n w ts w' rest ∧
    (rest = [] ∧ w' = done ∧ done.outer = [] ∨
      ∃ t behind w'', rest = t :: behind ∧ t.text = closingBrace ∧ w'.close? = some w'' ∧
        Walk.run path w'' behind = .ok done) := by
  induction hlength : ts.length using Nat.strongRecOn generalizing w ts with
  | ind length ih =>
  cases ts with
  | nil =>
      obtain ⟨rfl, houter⟩ := run_nil_eq_ok.1 h
      exact ⟨0, _, [], .none _ _, .inl ⟨rfl, rfl, houter⟩⟩
  | cons t ts =>
      obtain ⟨w', mid, hstep⟩ := exists_step h
      rw [hstep.run] at h
      have hmid : mid.length < length := hlength ▸ hstep.length_lt
      rcases hstep.outer_cases with hsame | hopens | ⟨t, hts, hbrace, hclose⟩
      · obtain ⟨n, last, rest, hrounds, hend⟩ := ih mid.length hmid h rfl
        exact ⟨n + 1, last, rest, .piece hstep hsame hrounds, hend⟩
      · obtain ⟨m, inside, rest, hblock,
            ⟨_, rfl, houter⟩ | ⟨t, behind, u, rfl, hbrace, hclose, hrun⟩⟩ :=
          ih mid.length hmid h rfl
        -- The block that has been opened is not closed at the end of the tokens.
        · rw [hblock.outer_eq, hopens] at houter
          cases houter
        · have hbehind : behind.length < length := by
            have := hblock.takes.1.length_le
            rw [List.length_cons] at this
            omega
          obtain ⟨n, last, rest, hrounds, hend⟩ := ih behind.length hbehind hrun rfl
          exact ⟨n + 1, last, rest, .block hstep hopens hblock hbrace hclose hrounds, hend⟩
      · exact ⟨0, w, t :: mid, hts ▸ .none _ _, .inr ⟨t, mid, w', rfl, hbrace, hclose, h⟩⟩

/-- **A walk over a file that comes to its end** does so in rounds, at the end of the tokens. -/
theorem exists_rounds {done : Walk} (h : Walk.run path .start ts = .ok done) :
    ∃ n ≤ ts.length, Rounds path n .start ts done [] := by
  obtain ⟨n, w', rest, hrounds, ⟨rfl, rfl, _⟩ | ⟨_, _, _, _, _, hclose, _⟩⟩ :=
    exists_rounds_of_run h
  · exact ⟨n, hrounds.takes.2, hrounds⟩
  · rw [close?, hrounds.outer_eq] at hclose
    cases hclose

end Walk

/-- **A member takes no token** in front of a closing brace. -/
theorem readMember_of_closingBrace {t : Token} (hbrace : t.text = closingBrace)
    (modifiers : List String) (ts : List Token) :
    readMember modifiers (t :: ts) = .ok (none, t :: ts) := by
  have hends : endsMemberHeader t = true := by
    rw [endsMemberHeader, hbrace]
    decide
  rw [readMember, memberHeader, if_pos ⟨rfl, hends⟩]
  exact if_pos hbrace

/-- **In front of a member that takes no token** stand attributes or modifiers, unless it begins
with a closing brace. -/
theorem furtherOn_of_member {path : String} {start : Token} {ts afterSections : List Token}
    {attributes : List Attribute} {property : Option PropertyDeclaration}
    (hstart : start.text ≠ closingBrace)
    (hsections : readSections path (start :: ts) = .ok (attributes, afterSections))
    (hmember : readMember (readModifiers afterSections).1 (readModifiers afterSections).2 =
      .ok (property, (readModifiers afterSections).2)) :
    FurtherOn (start :: ts) (readModifiers afterSections).2 := by
  have hsuffix := readModifiers_suffix hsections
  refine ⟨hsuffix, Nat.lt_of_le_of_ne hsuffix.length_le fun hlength => ?_⟩
  -- Where nothing has been taken the member begins with the first token, and takes it.
  rw [hsuffix.eq_of_length hlength] at hmember
  exact Nat.lt_irrefl _ (readMember_length_lt hstart hmember)

/-- **The walk makes progress and reads everything.**  A loop takes a token in each round behind
which it goes on, and is left after at most as many rounds as there are tokens with what the walk
gets from it.  No reader takes tokens back.  Each round of a block takes a token; a member takes
none in front of a closing brace, but then the attributes and modifiers in front of it have taken
some.  A walk that comes to its end is at the end of the tokens. -/
theorem walk_progress (path : String) :
    (∀ {σ : Type} {round : σ → List Token → Round σ}
        {outcome : σ → List Token → Except Fault (List Token)},
      ScanLoop round outcome → Progresses round ∧ ∀ s ts,
        (∃ n ≤ ts.length, LeftAfter round n s ts (outcome s ts)) ∧
        ∀ rest, outcome s ts = .ok rest → rest <:+ ts) ∧
    (∀ {α : Type} {read : List Token → Except Fault (α × List Token)}, WalkReader read →
      ∀ ts a rest, read ts = .ok (a, rest) → rest <:+ ts) ∧
    (∀ n w ts w' rest, Walk.Rounds path n w ts w' rest →
      rest <:+ ts ∧ n + rest.length ≤ ts.length) ∧
    (∀ t : Token, t.text = closingBrace → ∀ modifiers ts,
      readMember modifiers (t :: ts) = .ok (none, t :: ts)) ∧
    (∀ start ts attributes afterSections property, start.text ≠ closingBrace →
      readSections path (start :: ts) = .ok (attributes, afterSections) →
      readMember (readModifiers afterSections).1 (readModifiers afterSections).2 =
        .ok (property, (readModifiers afterSections).2) →
      FurtherOn (start :: ts) (readModifiers afterSections).2) ∧
    ∀ ts done, Walk.run path .start ts = .ok done →
      ∃ n ≤ ts.length, Walk.Rounds path n .start ts done [] := by
  refine ⟨fun h => ⟨h.progresses, fun s ts => ?_⟩, fun h ts a rest hread => h.suffix hread,
    fun n w ts w' rest h => h.takes, fun t hbrace => readMember_of_closingBrace hbrace,
    fun start ts attributes afterSections property hstart hsections hmember =>
      furtherOn_of_member hstart hsections hmember,
    fun ts done h => Walk.exists_rounds h⟩
  obtain ⟨n, result, hn, hleft⟩ := h.progresses.exists_leftAfter s ts
  obtain rfl := hleft.eq_outcome h.follows
  exact ⟨⟨n, hn, hleft⟩, fun rest hrest => LeftAfter.suffix (hrest ▸ hleft) h.progresses⟩

end LocalisedEnum

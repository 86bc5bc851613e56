import LocalisedEnum.Proofs.Declaration.Course

/-!
**What a declaration overlooks.**

A declaration knows a few braces: the one that opens the body of a type or the block of a namespace,
the two around the members of an enum, and the group that is the body of a member.  All its other
tokens it passes over, and a brace among these is read like any other token.  This module says, for
each kind of declaration, which tokens they are.

Main definitions:

* `Walk.BodyOverlooks` — the tokens of a declaration behind its modifiers, and those that it
  overlooks;
* `Walk.Overlooks` — the tokens of a declaration, and those that it overlooks, which may be
  attributes too.

Main results:

* `readTypeHeader_stop`, `readEnumMembers_closing` — what ends the header of a type and the members
  of an enum;
* `bodyOverlooks_of_declareBody`, `overlooks_of_declare` — **every declaration** is of one of these
  kinds.
-/

set_option autoImplicit false
set_option relaxedAutoImplicit false

namespace LocalisedEnum

/-! ### What ends a part -/

theorem readTypeHeader_stop {kind : String} {start : Token} {header : TypeHeader}
    {ts rest : List Token} (h : readTypeHeader kind start ts = .ok (header, rest)) :
    ∃ front stop, ts = front ++ stop :: rest ∧
      (stop.text = openingBrace ∧ header.hasBody = true ∨
        stop.text = ";" ∧ header.hasBody = false) := by
  obtain ⟨⟨name, afterName⟩, hname, h⟩ := bind_eq_ok.1 h
  obtain ⟨kindWords, hkind, _⟩ := (takesFront_skipRecordKind kind ts).front rfl
  obtain ⟨nameTokens, hnameTokens, _⟩ := (takesFront_nextToken _).front hname
  simp only at h
  split at h
  · next stop rest' hend =>
    cases h
    obtain ⟨bases, rfl, hstop, _⟩ := headerEnd_front hend
    refine ⟨kindWords ++ (nameTokens ++ bases), stop, by simpa [hnameTokens] using hkind, ?_⟩
    have hsemicolon : openingBrace ≠ ";" := by decide
    rcases hstop with hstop | hstop
    · exact Or.inl ⟨hstop, by simp [hstop, hsemicolon]⟩
    · exact Or.inr ⟨hstop, by simp [hstop]⟩
  · cases h

/-- The members of an enum end with a closing brace. -/
theorem readEnumMembers_closing {path enumName : String} {start : Token} {members : List String}
    {ts rest : List Token} (h : readEnumMembers path enumName start ts = .ok (members, rest)) :
    ∃ inside brace, ts = inside ++ brace :: rest ∧ brace.text = closingBrace := by
  fun_induction readEnumMembers path enumName start ts generalizing members with
  | case1 ts hhead =>
      cases ts with
      | nil => cases hhead
      | cons t ts =>
          cases h
          exact ⟨[], t, rfl, beq_iff_eq.1 hhead⟩
  | case2 => cases h
  | case3 => cases h
  | case4 ts _ member mid hmember more rest' hmore ih =>
      cases h
      obtain ⟨used, rfl, _⟩ := (takesFront_readEnumMember ..).front hmember
      obtain ⟨inside, brace, rfl, hbrace⟩ := ih hmore
      exact ⟨used ++ inside, brace, (List.append_assoc ..).symm, hbrace⟩

theorem skipAfterBraces_eq {header ts rest : List Token} {isProperty : Bool}
    (h : skipAfterBraces header isProperty ts = .ok rest) : ∃ back, ts = back ++ rest := by
  rw [skipAfterBraces] at h
  split at h
  · obtain ⟨⟨inside, mid⟩, hinside, heq⟩ := bind_eq_ok.1 h
    cases heq
    obtain ⟨back, hback, _⟩ := (takesFront_takeStatement ts).front hinside
    exact ⟨back, hback⟩
  · cases h
    exact ⟨[], rfl⟩

/-! ### Kinds of declarations -/

/-- The words behind whose header a scope is opened. -/
def blockWords : List String := "namespace" :: typeKeywords

/-- The words with which a declaration begins that is passed over up to its end. -/
def statementWords : List String := ["global", "using", "delegate"] ++ blockWords

/-- **What a declaration overlooks** behind its modifiers: the tokens that it takes in front of
`rest`, and those of them that it passes over. -/
inductive Walk.BodyOverlooks (w w' : Walk) (modifiers : List String) (rest : List Token) :
    List Token → List Token → Prop
  /-- A namespace or a type with a body, whose scope is opened. -/
  | block {head brace : Token} {header : List Token} (hhead : head.text ∈ blockWords)
      (hbrace : brace.text = openingBrace) (houter : w'.outer = w.scope :: w.outer) :
      Walk.BodyOverlooks w w' modifiers rest (head :: (header ++ [brace])) (head :: header)
  /-- An enum, with its header and with what stands between its members' braces. -/
  | enum {head name opening closing : Token} {header inside : List Token}
      (hhead : head.text = "enum") (hheader : ∀ t ∈ header, t.text ≠ openingBrace)
      (hopening : opening.text = openingBrace) (hclosing : closing.text = closingBrace)
      (houter : w'.outer = w.outer) :
      Walk.BodyOverlooks w w' modifiers rest
        (head :: name :: (header ++ opening :: (inside ++ [closing])))
        (head :: name :: (header ++ inside))
  /-- An import, a delegate, constants, or the header of a namespace or of a type without a body. -/
  | statement {head : Token} {more : List Token}
      (hhead : head.text ∈ statementWords ∨ "const" ∈ modifiers) (houter : w'.outer = w.outer) :
      Walk.BodyOverlooks w w' modifiers rest (head :: more) (head :: more)
  /-- A member whose header does not end with a brace that opens a body. -/
  | member {used header more : List Token} {stop : Token}
      (hheader : memberHeader 0 (used ++ rest) = some (header, stop, more))
      (hstop : stop.text ≠ openingBrace) (houter : w'.outer = w.outer) :
      Walk.BodyOverlooks w w' modifiers rest used used
  /-- A member with a body in braces, between its header and its initialiser. -/
  | body {header inside back : List Token} {opening closing : Token}
      (hheader : memberHeader 0 (header ++ opening :: (inside ++ closing :: (back ++ rest))) =
        some (header, opening, inside ++ closing :: (back ++ rest)))
      (hopening : opening.text = openingBrace)
      (hbody : groupInside openingBrace closingBrace 0 (inside ++ closing :: (back ++ rest)) =
        some (inside, back ++ rest)) (houter : w'.outer = w.outer) :
      Walk.BodyOverlooks w w' modifiers rest (header ++ opening :: (inside ++ closing :: back))
        (header ++ back)

section Kinds

variable {w w' : Walk} {path : String} {start head : Token} {attributes : List Attribute}
  {modifiers : List String} {ts rest : List Token}

/-- A namespace opens a scope behind a brace, or goes on behind a semicolon. -/
theorem bodyOverlooks_of_declareNamespace (h : w.declareNamespace ts = .ok (w', rest))
    (hhead : head.text = "namespace") :
    ∃ used overlooked, head :: ts = used ++ rest ∧
      w.BodyOverlooks w' modifiers rest used overlooked := by
  have hblock : head.text ∈ blockWords := hhead ▸ List.mem_cons_self
  have hword : head.text ∈ statementWords := List.mem_append_right _ hblock
  obtain ⟨⟨name, afterName⟩, hname, hending⟩ := bind_eq_ok.1 h
  obtain ⟨nameTokens, rfl, _⟩ := (takesFront_qualifiedName ts).front hname
  simp only at hending
  split at hending
  · cases hending
    refine ⟨head :: (nameTokens ++ afterName.take 1), _, ?_, .statement (Or.inl hword) rfl⟩
    rw [List.cons_append, List.append_assoc, List.take_append_drop]
  · obtain ⟨rest', hexpect, heq⟩ := bind_eq_ok.1 hending
    cases heq
    obtain ⟨brace, rfl, hbrace⟩ := expect_eq_ok.1 hexpect
    exact ⟨head :: (nameTokens ++ [brace]), _, by simp, .block hblock hbrace rfl⟩

theorem bodyOverlooks_of_declareEnum
    (h : w.declareEnum path start attributes modifiers ts = .ok (w', rest))
    (hhead : head.text = "enum") :
    ∃ used overlooked, head :: ts = used ++ rest ∧
      w.BodyOverlooks w' modifiers rest used overlooked := by
  obtain ⟨⟨name, members, rest'⟩, hbody, heq⟩ := bind_eq_ok.1 h
  cases heq
  obtain ⟨⟨nameToken, afterName⟩, hname, hbody⟩ := bind_eq_ok.1 hbody
  obtain ⟨⟨opening, body⟩, hopening, hbody⟩ := bind_eq_ok.1 hbody
  obtain ⟨⟨members', rest'⟩, hmembers, heq⟩ := bind_eq_ok.1 hbody
  cases heq
  obtain ⟨header, rfl, hopeningText, hheader⟩ := enumBrace_eq hopening
  obtain ⟨inside, closing, rfl, hclosing⟩ := readEnumMembers_closing hmembers
  cases ts with
  | nil => cases hname
  | cons t ts =>
      cases hname
      exact ⟨head :: nameToken :: (header ++ opening :: (inside ++ [closing])), _, by simp,
        .enum hhead hheader hopeningText hclosing rfl⟩

/-- A type opens a scope behind a brace, or ends with a semicolon. -/
theorem bodyOverlooks_of_declareType {kind : String}
    (h : w.declareType path kind start modifiers ts = .ok (w', rest))
    (hhead : head.text ∈ typeKeywords) :
    ∃ used overlooked, head :: ts = used ++ rest ∧
      w.BodyOverlooks w' modifiers rest used overlooked := by
  have hblock : head.text ∈ blockWords := List.mem_cons_of_mem _ hhead
  have hword : head.text ∈ statementWords := List.mem_append_right _ hblock
  obtain ⟨⟨header, rest'⟩, hheader, hdeclared⟩ := bind_eq_ok.1 h
  obtain ⟨front, stop, rfl, hstop⟩ := readTypeHeader_stop hheader
  rcases hstop with ⟨hbrace, hbody⟩ | ⟨_, hbody⟩
  · simp only [hbody, if_true] at hdeclared
    cases hdeclared
    exact ⟨head :: (front ++ [stop]), _, by simp, .block hblock hbrace rfl⟩
  · simp only [hbody, Bool.false_eq_true, if_false] at hdeclared
    cases hdeclared
    exact ⟨head :: (front ++ [stop]), _, by simp, .statement (Or.inl hword) rfl⟩

/-- A member has one body at the most, and this is a group of braces. -/
theorem bodyOverlooks_of_declareMember (h : w.declareMember modifiers ts = .ok (w', rest)) :
    ∃ used overlooked, ts = used ++ rest ∧ w.BodyOverlooks w' modifiers rest used overlooked := by
  obtain ⟨⟨property, rest'⟩, hmember, heq⟩ := bind_eq_ok.1 h
  cases heq
  obtain ⟨used, hused, _⟩ := (takesFront_readMember modifiers ts).front hmember
  obtain ⟨header, stop, more, hheader, hending⟩ := readMember_eq_ok.1 hmember
  have hother {w' : Walk} (houter : w'.outer = w.outer) (hstop : stop.text ≠ openingBrace) :
      ∃ used overlooked, ts = used ++ rest ∧ w.BodyOverlooks w' modifiers rest used overlooked :=
    ⟨used, used, hused, .member (hused ▸ hheader) hstop houter⟩
  cases hending with
  | block hstop => exact hother rfl (by rw [hstop]; decide)
  | semicolon hstop => exact hother rfl (by rw [hstop]; decide)
  | expression _ _ hstop _ => exact hother rfl hstop
  | @braces inside afterBraces _ hstop hgroup hskip =>
      obtain ⟨back, rfl⟩ := skipAfterBraces_eq hskip
      obtain ⟨_, _, ⟨⟩, _, hinside⟩ := takeGroup_eq_ok.1 hgroup
      obtain ⟨closing, rfl, _⟩ := groupInside_front hinside
      obtain ⟨rfl, _⟩ := memberHeader_front hheader
      exact
        ⟨header ++ stop :: (inside ++ closing :: back), _, by simp, .body hheader hstop hinside rfl⟩

/-- **A declaration behind its modifiers** is of one of these kinds. -/
theorem bodyOverlooks_of_declareBody
    (h : w.declareBody path start attributes modifiers ts = .ok (w', rest)) :
    ∃ used overlooked, ts = used ++ rest ∧ w.BodyOverlooks w' modifiers rest used overlooked := by
  cases ts with
  | nil =>
      rw [Walk.declareBody_nil] at h
      cases h
  | cons head ts =>
      have hstatement : head.text ∈ statementWords → w'.outer = w.outer →
          (∃ more, ts = more ++ rest) →
          ∃ used overlooked, head :: ts = used ++ rest ∧
            w.BodyOverlooks w' modifiers rest used overlooked := by
        rintro hhead houter ⟨more, rfl⟩
        exact ⟨head :: more, _, rfl, .statement (Or.inl hhead) houter⟩
      rw [Walk.declareBody_cons] at h
      revert h
      refine Walk.declareHead_cases (motive := fun x => x = .ok (w', rest) → _) ?importGlobally
        ?importLocally ?inNamespace ?enum ?type ?delegate ?constants ?member
      case importGlobally =>
        intro _ hhead _ h
        obtain ⟨used, hused, _⟩ := (takesFront_declareGlobalUsing w _).front h
        obtain ⟨_, _, heq⟩ := bind_eq_ok.1 h
        cases heq
        refine hstatement (by simp [statementWords, hhead]) rfl ⟨ts.take 1 ++ used, ?_⟩
        rw [List.append_assoc, ← hused, List.take_append_drop]
      case importLocally =>
        intro _ hhead h
        obtain ⟨used, hused, _⟩ := (takesFront_declareUsing w _).front h
        obtain ⟨_, _, heq⟩ := bind_eq_ok.1 h
        cases heq
        exact hstatement (by simp [statementWords, hhead]) rfl ⟨used, hused⟩
      case inNamespace => exact fun _ hhead h => bodyOverlooks_of_declareNamespace h hhead
      case enum => exact fun hhead h => bodyOverlooks_of_declareEnum h hhead
      case type => exact fun hhead h => bodyOverlooks_of_declareType h hhead
      case delegate =>
        intro hhead h
        obtain ⟨⟨inside, rest'⟩, hinside, heq⟩ := bind_eq_ok.1 h
        cases heq
        obtain ⟨used, hused, _⟩ := (takesFront_takeStatement ts).front hinside
        exact hstatement (by simp [statementWords, hhead]) rfl ⟨used, hused⟩
      case constants =>
        intro _ _ hconst h
        have hlength := Walk.declareConstants_length_lt h
        obtain ⟨used, hused, _⟩ := (takesFront_declareConstants w _).front h
        obtain ⟨t, used, rfl⟩ := List.exists_cons_of_ne_nil (ne_nil_of_taken hused hlength)
        obtain ⟨_, _, heq⟩ := bind_eq_ok.1 h
        cases heq
        exact ⟨t :: used, _, hused, .statement (Or.inr (List.contains_iff_mem.1 hconst)) rfl⟩
      case member => exact fun _ _ h => bodyOverlooks_of_declareMember h

end Kinds

/-! ### Declarations with their attributes -/

/-- **What a declaration overlooks**: the tokens that it takes in front of `rest`, and those of them
that it passes over, which are its attributes and what it overlooks behind its modifiers. -/
inductive Walk.Overlooks (path : String) (w w' : Walk) (rest : List Token) :
    List Token → List Token → Prop
  | intro {sections words body overlooked : List Token} {attributes : List Attribute}
      (hsections : readSections path (sections ++ (words ++ (body ++ rest))) =
        .ok (attributes, words ++ (body ++ rest)))
      (hwords : readModifiers (words ++ (body ++ rest)) = (words.map Token.text, body ++ rest))
      (hbody : w.BodyOverlooks w' (words.map Token.text) rest body overlooked) :
      Walk.Overlooks path w w' rest (sections ++ (words ++ body)) (sections ++ overlooked)

/-- **Every declaration** is its attributes, its modifiers, and one of the kinds behind them. -/
theorem overlooks_of_declare {w w' : Walk} {path : String} {start : Token} {ts rest : List Token}
    (h : w.declare path start ts = .ok (w', rest)) :
    ∃ used overlooked, start :: ts = used ++ rest ∧ w.Overlooks path w' rest used overlooked := by
  rw [Walk.declare_eq] at h
  obtain ⟨⟨attributes, afterSections⟩, hattributes, hbody⟩ := bind_eq_ok.1 h
  obtain ⟨sections, hsections, _⟩ := (takesFront_readSections path _).front hattributes
  obtain ⟨body, overlooked, hrest, hoverlooks⟩ := bodyOverlooks_of_declareBody hbody
  let words := afterSections.takeWhile isModifier
  have hwords : afterSections = words ++ (body ++ rest) := by
    rw [← hrest]
    exact List.takeWhile_append_dropWhile.symm
  have hmodifiers : readModifiers afterSections = (words.map Token.text, body ++ rest) := by
    rw [← hrest]
    rfl
  refine ⟨sections ++ (words ++ body), sections ++ overlooked, ?_, ?_⟩
  · rw [hsections, List.append_assoc, List.append_assoc, ← hwords]
  · refine .intro (?_ : _ = Except.ok (attributes, _)) ?_ hoverlooks
    · rw [← hwords, ← hsections, hattributes]
    · rw [← hwords, hmodifiers]

end LocalisedEnum

import LocalisedEnum.Proofs.Declaration.Course

/-!
**How the pieces of a file end.**

Each piece of a file ends with a brace, a semicolon, or the round bracket of a statement that begins
like an import.  Only what stands in front of a closing brace may end with another token, because
the brace is left for the block that it closes.  So a declaration never begins in the middle of
another one, and the token in front of it belongs neither to its attributes nor to its modifiers.

Main definitions:

* `LeftBehind` — tokens that are left behind a mark;
* `pieceEnds` — the marks with which pieces end.

Main results:

* `Walk.declareHead_ends` — **a declaration** ends with one of these marks, or in front of a closing
  brace;
* `Walk.Step.ends` — so does each piece of a file.
-/

set_option autoImplicit false
set_option relaxedAutoImplicit false

namespace LocalisedEnum

/-! ### Tokens behind a mark -/

/-- The tokens that are left when those up to a mark are taken. -/
def LeftBehind (marks : List String) (ts rest : List Token) : Prop :=
  ∃ used mark, mark.text ∈ marks ∧ ts = used ++ mark :: rest

section LeftBehind

variable {marks : List String} {ts mid rest : List Token}

theorem leftBehind_cons {mark : Token} (hmark : mark.text ∈ marks) (rest : List Token) :
    LeftBehind marks (mark :: rest) rest :=
  ⟨[], mark, hmark, rfl⟩

theorem LeftBehind.of_suffix (h : LeftBehind marks mid rest) (hmid : mid <:+ ts) :
    LeftBehind marks ts rest := by
  obtain ⟨used, mark, hmark, rfl⟩ := h
  obtain ⟨front, rfl⟩ := hmid
  exact ⟨front ++ used, mark, hmark, (List.append_assoc ..).symm⟩

theorem LeftBehind.mono {marks' : List String} (h : LeftBehind marks ts rest)
    (hsub : ∀ text ∈ marks, text ∈ marks') : LeftBehind marks' ts rest := by
  obtain ⟨used, mark, hmark, hts⟩ := h
  exact ⟨used, mark, hsub _ hmark, hts⟩

theorem leftBehind_of_headIs {text : String} (htext : text ∈ marks) (h : headIs text ts = true) :
    LeftBehind marks ts (ts.drop 1) := by
  cases ts with
  | nil => cases h
  | cons t ts => exact leftBehind_cons (beq_iff_eq.1 h ▸ htext) ts

theorem TakesFront.suffix {α : Type} {opens : List String}
    {read : List Token → Except Fault (α × List Token)} (h : TakesFront opens read ts) {a : α}
    (hread : read ts = .ok (a, rest)) : rest <:+ ts := by
  obtain ⟨used, rfl, _⟩ := h.front hread
  exact List.suffix_append used rest

theorem skip_suffix (text : String) (ts : List Token) : skip text ts <:+ ts :=
  (takesFront_skip text ts).suffix rfl

theorem sectionTarget_suffix (ts : List Token) : (sectionTarget ts).2 <:+ ts := by
  rw [sectionTarget.eq_def]
  split
  · split
    · exact List.suffix_append [_, _] _
    · exact List.suffix_refl _
  · exact List.suffix_refl _

end LeftBehind

/-! ### What each reader takes last -/

section Readers

variable {ts rest inside : List Token} {path : String} {start : Token}

theorem expect_ends {text : String} (h : expect text ts = .ok rest) :
    LeftBehind [text] ts rest := by
  obtain ⟨t, rfl, ht⟩ := expect_eq_ok.1 h
  exact leftBehind_cons (List.mem_singleton.2 ht) _

theorem takeGroup_ends {opening closing : String}
    (h : takeGroup opening closing ts = .ok (inside, rest)) : LeftBehind [closing] ts rest := by
  obtain ⟨t, behind, rfl, _, hinside⟩ := takeGroup_eq_ok.1 h
  obtain ⟨last, rfl, hlast, _⟩ := groupInside_front hinside
  exact ⟨t :: inside, last, List.mem_singleton.2 hlast, rfl⟩

theorem takeStatementFrom_ends {depth : Int} (h : takeStatementFrom depth ts = .ok (inside, rest)) :
    LeftBehind [";"] ts rest := by
  induction ts generalizing depth inside with
  | nil => cases h
  | cons t ts ih =>
      rcases takeStatementFrom_cons_eq_ok.1 h with ⟨ht, rfl, rfl⟩ | ⟨_, more, rfl, hmore⟩
      · exact leftBehind_cons (List.mem_singleton.2 ht.1) _
      · exact (ih hmore).of_suffix (List.suffix_cons t ts)

theorem takeStatement_ends (h : takeStatement ts = .ok (inside, rest)) : LeftBehind [";"] ts rest :=
  takeStatementFrom_ends h

theorem passedOver_ends {marks : List String}
    {read : List Token → Except Fault (List Token × List Token)} {name : Option String}
    (hread : ∀ {inside}, read ts = .ok (inside, rest) → LeftBehind marks ts rest)
    (h : passedOver read ts = .ok (name, rest)) : LeftBehind marks ts rest := by
  obtain ⟨⟨inside, mid⟩, hinside, heq⟩ := bind_eq_ok.1 h
  cases heq
  exact hread hinside

theorem readUsing_ends {name : Option String} (h : readUsing ts = .ok (name, rest)) :
    LeftBehind [";", ")"] ts rest := by
  have hstatement : ∀ {ts : List Token}, passedOver takeStatement ts = .ok (name, rest) →
      LeftBehind [";", ")"] ts rest := fun h =>
    (passedOver_ends takeStatement_ends h).mono (by decide)
  rw [readUsing_eq] at h
  split at h
  · exact (passedOver_ends takeGroup_ends h).mono (by decide)
  · split at h
    · exact hstatement h
    · obtain ⟨⟨written, mid⟩, hwritten, h⟩ := bind_eq_ok.1 h
      suffices hending : LeftBehind [";", ")"] mid rest from
        hending.of_suffix ((takesFront_qualifiedName ts).suffix hwritten)
      simp only [importEnding] at h
      split at h
      · next hhead =>
        cases h
        exact leftBehind_of_headIs (by decide) hhead
      · exact hstatement h

theorem readEnumMembers_ends {enumName : String} {members : List String}
    (h : readEnumMembers path enumName start ts = .ok (members, rest)) :
    LeftBehind [closingBrace] ts rest := by
  fun_induction readEnumMembers path enumName start ts generalizing members with
  | case1 ts hhead =>
    cases h
    exact leftBehind_of_headIs List.mem_cons_self hhead
  | case2 => cases h
  | case3 => cases h
  | case4 ts _ member mid hmember more rest' hmore ih =>
    cases h
    exact (ih hmore).of_suffix ((takesFront_readEnumMember path enumName start ts).suffix hmember)

theorem readEnumBody_ends {name : String} {members : List String}
    (h : readEnumBody path start ts = .ok (name, members, rest)) :
    LeftBehind [closingBrace] ts rest := by
  obtain ⟨⟨nameToken, afterName⟩, hname, h⟩ := bind_eq_ok.1 h
  obtain ⟨⟨brace, body⟩, hbrace, h⟩ := bind_eq_ok.1 h
  obtain ⟨⟨members', rest'⟩, hmembers, heq⟩ := bind_eq_ok.1 h
  cases heq
  have hbody : body <:+ afterName := (takesFront_enumBrace afterName).suffix hbrace
  exact (readEnumMembers_ends hmembers).of_suffix
    (hbody.trans ((takesFront_nextToken ts).suffix hname))

theorem readTypeHeader_ends {kind : String} {header : TypeHeader}
    (h : readTypeHeader kind start ts = .ok (header, rest)) :
    LeftBehind [openingBrace, ";"] ts rest := by
  obtain ⟨⟨name, afterName⟩, hname, h⟩ := bind_eq_ok.1 h
  have hafter : afterName <:+ ts := by
    have hkind := (takesFront_skipRecordKind kind ts).suffix rfl
    exact ((takesFront_nextToken _).suffix hname).trans hkind
  simp only at h
  split at h
  · next hheader =>
    cases h
    obtain ⟨used, rfl, hstop, _⟩ := headerEnd_front hheader
    refine LeftBehind.of_suffix ⟨used, _, ?_, rfl⟩ hafter
    rcases hstop with hstop | hstop <;> rw [hstop] <;> decide
  · cases h

theorem readConstants_ends {constants : List (String × CodeText)}
    (h : readConstants ts = .ok (constants, rest)) : LeftBehind [";"] ts rest := by
  obtain ⟨⟨inside, rest'⟩, hinside, h⟩ := bind_eq_ok.1 h
  obtain ⟨constants', _, heq⟩ := bind_eq_ok.1 h
  cases heq
  exact takeStatement_ends hinside

theorem readMember_ends {modifiers : List String} {property : Option PropertyDeclaration}
    (h : readMember modifiers ts = .ok (property, rest)) :
    LeftBehind [closingBrace, ";"] ts rest ∨ headIs closingBrace rest = true := by
  obtain ⟨header, stop, afterStop, hheader, hending⟩ := readMember_eq_ok.1 h
  obtain ⟨rfl, _⟩ := memberHeader_front hheader
  have hstop : stop :: afterStop <:+ header ++ stop :: afterStop := List.suffix_append ..
  cases hending with
  | block hbrace => exact .inr (beq_iff_eq.2 hbrace)
  | semicolon hsemicolon => exact .inl ⟨header, stop, by rw [hsemicolon]; decide, rfl⟩
  | braces _ hgroup hskip =>
      refine .inl ?_
      simp only [skipAfterBraces] at hskip
      split at hskip
      · obtain ⟨⟨statement, rest'⟩, hstatement, heq⟩ := bind_eq_ok.1 hskip
        cases heq
        have hafter :=
          (takesFront_takeGroup openingBrace closingBrace (stop :: afterStop)).suffix hgroup
        exact ((takeStatement_ends hstatement).mono (by decide)).of_suffix (hafter.trans hstop)
      · cases hskip
        exact ((takeGroup_ends hgroup).mono (by decide)).of_suffix hstop
  | expression _ _ _ hread =>
      have hafter : afterStop <:+ stop :: afterStop := List.suffix_cons ..
      exact .inl (((takeStatement_ends hread).mono (by decide)).of_suffix (hafter.trans hstop))

end Readers

/-! ### Declarations and pieces -/

/-- The marks with which the pieces of a file end. -/
def pieceEnds : List String := [openingBrace, closingBrace, ";", ")"]

namespace Walk

variable {w w' : Walk} {path : String} {start head : Token} {attributes : List Attribute}
  {modifiers : List String} {ts rest : List Token}

theorem declareNamespace_ends (h : w.declareNamespace ts = .ok (w', rest)) :
    LeftBehind pieceEnds ts rest := by
  obtain ⟨⟨name, afterName⟩, hname, h⟩ := bind_eq_ok.1 h
  have hafter : afterName <:+ ts := (takesFront_qualifiedName ts).suffix hname
  simp only at h
  split at h
  · next hsemicolon =>
    cases h
    exact (leftBehind_of_headIs (by decide) hsemicolon).of_suffix hafter
  · obtain ⟨rest', hexpect, h⟩ := bind_eq_ok.1 h
    cases h
    exact ((expect_ends hexpect).mono (by decide)).of_suffix hafter

/-- **A declaration** ends with one of the marks, or in front of a closing brace. -/
theorem declareHead_ends
    (h : w.declareHead path start attributes modifiers head ts = .ok (w', rest)) :
    LeftBehind pieceEnds (head :: ts) rest ∨ headIs closingBrace rest = true := by
  have hts : ts <:+ head :: ts := List.suffix_cons head ts
  revert h
  refine declareHead_cases (motive := fun x => x = .ok (w', rest) → _) ?importGlobally
    ?importLocally ?inNamespace ?enum ?type ?delegate ?constants ?member
  case importGlobally =>
    intro _ _ _ h
    obtain ⟨⟨name, rest'⟩, hread, heq⟩ := bind_eq_ok.1 h
    cases heq
    have hdrop : ts.drop 1 <:+ ts := List.drop_suffix 1 ts
    exact .inl (((readUsing_ends hread).mono (by decide)).of_suffix (hdrop.trans hts))
  case importLocally =>
    intro _ _ h
    obtain ⟨⟨name, rest'⟩, hread, heq⟩ := bind_eq_ok.1 h
    cases heq
    exact .inl (((readUsing_ends hread).mono (by decide)).of_suffix hts)
  case inNamespace => exact fun _ _ h => .inl ((declareNamespace_ends h).of_suffix hts)
  case enum =>
    intro _ h
    obtain ⟨⟨name, members, rest'⟩, hread, heq⟩ := bind_eq_ok.1 h
    cases heq
    exact .inl (((readEnumBody_ends hread).mono (by decide)).of_suffix hts)
  case type =>
    intro _ h
    obtain ⟨⟨header, rest'⟩, hheader, heq⟩ := bind_eq_ok.1 h
    have hrest : rest' = rest := by
      simp only at heq
      split at heq <;> cases heq <;> rfl
    exact .inl (((readTypeHeader_ends (hrest ▸ hheader)).mono (by decide)).of_suffix hts)
  case delegate =>
    intro _ h
    obtain ⟨⟨inside, rest'⟩, hread, heq⟩ := bind_eq_ok.1 h
    cases heq
    exact .inl (((takeStatement_ends hread).mono (by decide)).of_suffix hts)
  case constants =>
    intro _ _ _ h
    obtain ⟨⟨constants, rest'⟩, hread, heq⟩ := bind_eq_ok.1 h
    cases heq
    exact .inl ((readConstants_ends hread).mono (by decide))
  case member =>
    intro _ _ h
    obtain ⟨⟨property, rest'⟩, hread, heq⟩ := bind_eq_ok.1 h
    cases heq
    exact (readMember_ends hread).imp_left (LeftBehind.mono · (by decide))

/-- **Each piece of a file** ends with one of the marks, or in front of a closing brace. -/
theorem Step.ends (h : Step path w ts w' rest) :
    LeftBehind pieceEnds ts rest ∨ headIs closingBrace rest = true := by
  cases h with
  | close htext => exact .inl (leftBehind_cons (htext ▸ by decide) rest)
  | semicolon htext => exact .inl (leftBehind_cons (htext ▸ by decide) rest)
  | @declaration t _ ts _ _ _ hdeclare =>
      obtain ⟨⟨attributes, afterSections⟩, hsections, h⟩ := bind_eq_ok.1 hdeclare
      have hafter : (readModifiers afterSections).2 <:+ t :: ts :=
        ((takesFront_readModifiers afterSections).suffix rfl).trans
          ((takesFront_readSections path (t :: ts)).suffix hsections)
      simp only at h
      split at h
      · cases h
      · next head more hbody =>
        exact (declareHead_ends h).imp_left fun hends => hends.of_suffix (hbody ▸ hafter)

end Walk

end LocalisedEnum

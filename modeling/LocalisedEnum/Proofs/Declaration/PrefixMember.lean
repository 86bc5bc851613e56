import LocalisedEnum.Declaration.Member
import LocalisedEnum.Proofs.Declaration.Prefix

/-!
**The parts of a declaration are read from the front.**

Modifiers, imports, enums, headers of types, constants and members each take their own tokens and
leave the rest alone.  What follows matters in few places: a word behind the keyword of a record,
the sign of an initialiser behind the braces of a property, and the brace that closes the block
around a member.

Main definitions:

* `importEnding`, `memberEnding`, `headerEnding`, `braces` — the ends of an import, of an enum
  member, of the header of a type and of a member.

Main results:

* `takesFront_readModifiers`, `takesFront_readUsing` — modifiers and imports;
* `takesFront_readEnumBody`, `takesFront_readTypeHeader` — **enums and headers of types**;
* `takesFront_readConstants`, `takesFront_readMember` — **constants and members**.
-/

set_option autoImplicit false
set_option relaxedAutoImplicit false

namespace LocalisedEnum

/-! ### Modifiers and imports -/

theorem readModifiers_none {ts : List Token} (h : BeginsWithout modifierWords ts) :
    readModifiers ts = ([], ts) := by
  cases ts with
  | nil => rfl
  | cons t ts =>
      have ht : isModifier t = false := by simpa [isModifier] using beginsWithout_cons.1 h
      simp [readModifiers, ht]

/-- The modifiers at the front end with the first word that is none. -/
theorem readModifiers_append {words : List Token} {head : Token}
    (hwords : ∀ t ∈ words, isModifier t = true) (hhead : isModifier head = false)
    (ts : List Token) :
    readModifiers (words ++ head :: ts) = (words.map Token.text, head :: ts) := by
  rw [readModifiers, List.takeWhile_append_of_pos hwords, List.dropWhile_append_of_pos hwords,
    List.takeWhile_cons_of_neg (by rw [hhead]; exact Bool.false_ne_true),
    List.dropWhile_cons_of_neg (by rw [hhead]; exact Bool.false_ne_true), List.append_nil]

theorem beginsWithout_afterModifiers (ts : List Token) :
    BeginsWithout modifierWords (readModifiers ts).2 := by
  intro t ht
  have hno := List.head?_dropWhile_not isModifier ts
  simp only [readModifiers] at ht
  rw [Option.mem_def.1 ht] at hno
  simpa [isModifier] using hno

theorem takesFront_readModifiers (ts : List Token) :
    TakesFront modifierWords (fun ts => .ok (readModifiers ts)) ts := by
  constructor
  intro modifiers rest hread
  cases hread
  refine ⟨ts.takeWhile isModifier, List.takeWhile_append_dropWhile.symm, ?_⟩
  intro rest' hrest'
  have hnone :=
    readModifiers_none (hrest'.beginsWithout (fun _ h => h) (beginsWithout_afterModifiers ts))
  have htaken : ∀ t ∈ ts.takeWhile isModifier, isModifier t = true :=
    List.all_eq_true.1 List.all_takeWhile
  simp only [readModifiers, Prod.mk.injEq, List.map_eq_nil_iff] at hnone
  simp only [readModifiers, List.takeWhile_append_of_pos htaken,
    List.dropWhile_append_of_pos htaken, hnone.1, hnone.2, List.append_nil]

/-- Tokens that are passed over, so that no name is imported. -/
def passedOver (read : List Token → Except Fault (List Token × List Token)) (ts : List Token) :
    Except Fault (Option String × List Token) :=
  read ts >>= fun p => pure (none, p.2)

/-- The end of an import of which the name has been read. -/
def importEnding (name : String) (ts : List Token) : Except Fault (Option String × List Token) :=
  if headIs ";" ts then .ok (some (withoutStart globalMark name), ts.drop 1)
  else passedOver takeStatement ts

/-- An import that is passed over because of how it goes on. -/
def importsNothing (ts : List Token) : Bool :=
  headIs "static" ts || headIs "=" (ts.drop 1)

theorem readUsing_eq (ts : List Token) :
    readUsing ts = if headIs "(" ts then passedOver (takeGroup "(" ")") ts
      else if importsNothing ts then passedOver takeStatement ts
      else qualifiedName ts >>= fun p => importEnding p.1 p.2 :=
  rfl

theorem passedOver_length_lt {read : List Token → Except Fault (List Token × List Token)}
    {ts rest : List Token} {name : Option String}
    (hread : ∀ {inside}, read ts = .ok (inside, rest) → rest.length < ts.length)
    (h : passedOver read ts = .ok (name, rest)) : rest.length < ts.length := by
  obtain ⟨⟨inside, mid⟩, hinside, heq⟩ := bind_eq_ok.1 h
  cases heq
  exact hread hinside

theorem importEnding_length_lt {name : String} {result : Option String} {ts rest : List Token}
    (h : importEnding name ts = .ok (result, rest)) : rest.length < ts.length := by
  simp only [importEnding] at h
  split at h
  · next hhead =>
    cases h
    exact length_drop_one_lt_of_headIs hhead
  · exact passedOver_length_lt takeStatement_length_lt h

theorem takesFront_importEnding (name : String) (ts : List Token) :
    TakesFront [] (importEnding name) ts := by
  refine .ite (fun hhead => .dropOne hhead _)
    (fun _ => (takesFront_takeStatement ts).map fun _ => none) ?_
    (Or.inr fun h => passedOver_length_lt takeStatement_length_lt h)
  intro result rest hhead h
  cases h
  exact length_drop_one_lt_of_headIs hhead

/-- What imports something, or nothing, takes a token or more. -/
theorem importTaken_length_lt {ts rest : List Token} {name : Option String}
    (h : (if importsNothing ts then passedOver takeStatement ts
      else qualifiedName ts >>= fun p => importEnding p.1 p.2) = .ok (name, rest)) :
    rest.length < ts.length := by
  split at h
  · exact passedOver_length_lt takeStatement_length_lt h
  · obtain ⟨⟨_, mid⟩, hname, h⟩ := bind_eq_ok.1 h
    exact Nat.lt_trans (importEnding_length_lt h) (qualifiedName_length_lt hname)

/-- What stands behind the first token is looked at as well, but an import that takes a single token
leaves the sign that makes it an alias. -/
theorem importsNothing_of_taken {used rest rest' : List Token} {name : Option String}
    (h : (if importsNothing (used ++ rest) then passedOver takeStatement (used ++ rest)
      else qualifiedName (used ++ rest) >>= fun p => importEnding p.1 p.2) = .ok (name, rest))
    (hrest' : MayFollow [] rest rest') :
    importsNothing (used ++ rest') = importsNothing (used ++ rest) := by
  cases hc : importsNothing (used ++ rest) with
  | true =>
      obtain ⟨t, used, rfl⟩ :=
        List.exists_cons_of_ne_nil (ne_nil_of_taken rfl (importTaken_length_lt h))
      cases used with
      | cons u used => exact hc
      | nil =>
          simp only [importsNothing, List.cons_append, List.nil_append, List.drop_succ_cons,
            List.drop_zero, Bool.or_eq_true, headIs_cons] at hc ⊢
          refine hc.imp_right fun heq => ?_
          cases rest with
          | nil => cases heq
          | cons sign rest =>
              obtain ⟨ts', rfl⟩ := hrest'.exists_cons
                (beq_iff_eq.1 heq ▸ List.mem_cons_of_mem _ List.mem_cons_self)
              exact heq
  | false =>
      simp only [hc, Bool.false_eq_true, if_false] at h
      obtain ⟨⟨_, mid⟩, hname, h⟩ := bind_eq_ok.1 h
      -- a name takes a token, and what ends the import another one
      have hmid := qualifiedName_length_lt hname
      have hrest : rest.length < mid.length := importEnding_length_lt h
      match used, hc, hmid with
      | [], _, hmid => exact absurd hmid (by simp only [List.nil_append]; omega)
      | [_], _, hmid =>
          exact absurd hmid (by simp only [List.length_append, List.length_singleton]; omega)
      | _ :: _ :: _, hc, _ => exact hc

theorem takesFront_readUsing (ts : List Token) : TakesFront [] readUsing ts := by
  have hnamed := (takesFront_qualifiedName ts).bind importEnding
    (fun _ => takesFront_importEnding _ _) fun _ h => Or.inl (importEnding_length_lt h)
  have hstatement : TakesFront [] (passedOver takeStatement) ts :=
    (takesFront_takeStatement ts).map fun _ => none
  have hgroup : TakesFront [] (passedOver (takeGroup "(" ")")) ts :=
    (takesFront_takeGroup "(" ")" ts).map fun _ => none
  have hplain : TakesFront [] (fun ts => if importsNothing ts then passedOver takeStatement ts
      else qualifiedName ts >>= fun p => importEnding p.1 p.2) ts := by
    refine .choice (fun _ => hstatement) (fun _ => hnamed) ?_
    rintro name used rest rest' rfl h hrest'
    exact importsNothing_of_taken h hrest'
  rw [show readUsing = _ from funext readUsing_eq]
  exact .ite (fun _ => hgroup) (fun _ => hplain)
    (fun _ h => passedOver_length_lt takeGroup_length_lt h) (Or.inr importTaken_length_lt)

/-! ### Enums -/

theorem skipInitialiser_front {depth : Int} {ts rest : List Token}
    (h : skipInitialiser depth ts = some rest) :
    ∃ used stop more, rest = stop :: more ∧ ts = used ++ stop :: more ∧
      (stop.text = "," ∨ stop.text = closingBrace) ∧
      ∀ more', skipInitialiser depth (used ++ stop :: more') = some (stop :: more') := by
  induction ts generalizing depth with
  | nil => cases h
  | cons t ts ih =>
      simp only [skipInitialiser] at h
      split at h
      · next hstop =>
        cases h
        refine ⟨[], t, ts, rfl, rfl, hstop.2, ?_⟩
        intro more'
        rw [List.nil_append, skipInitialiser, if_pos hstop]
      · next hstop =>
        obtain ⟨used, stop, more, rfl, rfl, hend, hused⟩ := ih h
        refine ⟨t :: used, stop, more, rfl, rfl, hend, ?_⟩
        intro more'
        rw [List.cons_append, skipInitialiser, if_neg hstop, hused more']

/-- The rest of an enum member, behind its name. -/
def memberEnding (enumName : String) (start member : Token) (ts : List Token) :
    Except Fault (String × List Token) :=
  if member.kind = .identifier then
    match skipInitialiser 0 ts with
    | some rest => pure (member.plain, skip "," rest)
    | none => .error (.at (.unterminatedEnum enumName) start)
  else .error (.at (.notAMember member.text enumName) member)

/-- The comma behind a member is taken, and the brace that closes the enum is left. -/
theorem takesFront_memberEnding (enumName : String) (start member : Token) (ts : List Token) :
    TakesFront [] (memberEnding enumName start member) ts := by
  constructor
  intro name rest h
  simp only [memberEnding] at h
  split at h
  · next hkind =>
    split at h
    · next afterInitialiser hskip =>
      obtain ⟨used, stop, more, rfl, rfl, hend, hused⟩ := skipInitialiser_front hskip
      by_cases hcomma : stop.text = ","
      · rw [skip, if_pos hcomma] at h
        cases h
        refine ⟨used ++ [stop], by simp, ?_⟩
        intro rest' _
        rw [List.append_assoc, List.singleton_append, memberEnding, if_pos hkind, hused rest']
        simp only [skip, if_pos hcomma]
        rfl
      · rw [skip, if_neg hcomma] at h
        cases h
        refine ⟨used, rfl, ?_⟩
        intro rest' hrest'
        have hbrace : stop.text = closingBrace := hend.resolve_left hcomma
        obtain ⟨more', rfl⟩ := hrest'.exists_cons (hbrace ▸ List.mem_cons_self)
        rw [memberEnding, if_pos hkind, hused more']
        simp only [skip, if_neg hcomma]
        rfl
    · cases h
  · cases h

theorem takesFront_readEnumMember (path enumName : String) (start : Token) (ts : List Token) :
    TakesFront [] (readEnumMember path enumName start) ts := by
  let named := fun (ts : List Token) =>
    nextToken ts >>= fun p => memberEnding enumName start p.1 p.2
  have hnamed : ∀ ts, TakesFront [] named ts := fun ts =>
    (takesFront_nextToken ts).bind (memberEnding enumName start)
      (fun _ => takesFront_memberEnding _ _ _ _) fun _ _ => Or.inr (Or.inr (List.forall_mem_nil _))
  have hread : readEnumMember path enumName start =
      fun ts => readSections path ts >>= fun p => named p.2 :=
    rfl
  rw [hread]
  refine (takesFront_readSections path ts).bind (fun _ => named) (fun _ => hnamed _) ?_
  intro _ mid _ rest _ h
  obtain ⟨⟨member, afterMember⟩, hmember, h⟩ := bind_eq_ok.1 h
  exact Or.inl
    (Nat.lt_of_le_of_lt ((takesFront_memberEnding ..).length_le h) (nextToken_length_lt hmember))

theorem takesFront_readEnumMembers (path enumName : String) (start : Token) (ts : List Token) :
    TakesFront [] (readEnumMembers path enumName start) ts := by
  let others := fun (member : String) (ts : List Token) =>
    readEnumMembers path enumName start ts >>= fun more => pure (member :: more.1, more.2)
  have hread : readEnumMembers path enumName start = fun ts =>
      if headIs closingBrace ts then .ok ([], ts.drop 1)
      else readEnumMember path enumName start ts >>= fun p => others p.1 p.2 :=
    funext (readEnumMembers_eq path enumName start)
  have hshort : ∀ {member : String} {mid members rest}, others member mid = .ok (members, rest) →
      rest.length < mid.length := by
    intro member mid members rest h
    obtain ⟨⟨more, rest⟩, hmore, heq⟩ := bind_eq_ok.1 h
    cases heq
    exact readEnumMembers_length_lt hmore
  induction hlength : ts.length using Nat.strongRecOn generalizing ts with
  | ind n ih =>
  rw [hread]
  refine .ite (fun hhead => .dropOne hhead []) (fun _ => ?_) ?_ (Or.inr ?_)
  · refine (takesFront_readEnumMember path enumName start ts).bind others ?_ fun _ h =>
      Or.inl (hshort h)
    intro member mid hmember
    have hmid := readEnumMember_length_lt hmember
    exact (ih mid.length (hlength ▸ hmid) mid rfl).map (member :: ·)
  · intro members rest hhead h
    cases h
    exact length_drop_one_lt_of_headIs hhead
  · intro members rest h
    obtain ⟨⟨member, mid⟩, hmember, h⟩ := bind_eq_ok.1 h
    exact Nat.lt_trans (hshort h) (readEnumMember_length_lt hmember)

/-- The header of an enum ends with the first brace that opens. -/
theorem enumBrace_eq {ts rest : List Token} {brace : Token}
    (h : nextToken (ts.dropWhile (·.text != openingBrace)) = .ok (brace, rest)) :
    ∃ header, ts = header ++ brace :: rest ∧ brace.text = openingBrace ∧
      ∀ t ∈ header, t.text ≠ openingBrace := by
  have hbrace := List.head?_dropWhile_not (·.text != openingBrace) ts
  have hts := (List.takeWhile_append_dropWhile (p := (·.text != openingBrace)) (l := ts)).symm
  cases hdrop : ts.dropWhile (·.text != openingBrace) with
  | nil =>
      rw [hdrop] at h
      cases h
  | cons t more =>
      rw [hdrop] at h hbrace hts
      cases h
      refine ⟨ts.takeWhile (·.text != openingBrace), hts, by simpa using hbrace, ?_⟩
      intro t ht
      simpa using List.all_eq_true.1 List.all_takeWhile t ht

theorem takesFront_enumBrace (ts : List Token) :
    TakesFront [] (fun ts => nextToken (ts.dropWhile (·.text != openingBrace))) ts := by
  constructor
  intro brace rest h
  obtain ⟨header, rfl, hbrace, hheader⟩ := enumBrace_eq h
  refine ⟨header ++ [brace], by simp, ?_⟩
  intro rest' _
  have hpassed : ∀ t ∈ header, (t.text != openingBrace) = true :=
    fun t ht => bne_iff_ne.2 (hheader t ht)
  have hstop : (brace.text != openingBrace) = false := by simpa using hbrace
  rw [List.append_assoc, List.dropWhile_append_of_pos hpassed]
  simp only [List.singleton_append, List.dropWhile_cons, hstop]
  rfl

theorem takesFront_readEnumBody (path : String) (start : Token) (ts : List Token) :
    TakesFront [] (fun ts => readEnumBody path start ts >>= fun p => pure ((p.1, p.2.1), p.2.2))
      ts := by
  let members := fun (name : Token) (ts : List Token) =>
    readEnumMembers path name.plain start ts >>= fun p => pure ((name.plain, p.1), p.2)
  let body := fun (name : Token) (ts : List Token) =>
    nextToken (ts.dropWhile (·.text != openingBrace)) >>= fun p => members name p.2
  have hbody : ∀ (name : Token) (ts : List Token), TakesFront [] (body name) ts := by
    intro name ts
    exact (takesFront_enumBrace ts).bind (fun _ => members name)
      (fun _ => (takesFront_readEnumMembers _ _ _ _).map (Prod.mk name.plain))
      fun _ _ => Or.inr (Or.inr (List.forall_mem_nil _))
  have hread : (fun ts => readEnumBody path start ts >>= fun p => pure ((p.1, p.2.1), p.2.2)) =
      fun ts => nextToken ts >>= fun p => body p.1 p.2 := by
    funext ts
    simp only [readEnumBody, bind_assoc, pure_bind, body, members]
  rw [hread]
  exact (takesFront_nextToken ts).bind body (fun _ => hbody _ _) fun _ _ =>
    Or.inr (Or.inr (List.forall_mem_nil _))

/-! ### Types -/

/-- The header of a type ends with a brace or a semicolon, whatever follows. -/
theorem headerEnd_front {depth : Int} {ts rest : List Token} {stop : Token}
    (h : headerEnd depth ts = some (stop, rest)) :
    ∃ header, ts = header ++ stop :: rest ∧ (stop.text = openingBrace ∨ stop.text = ";") ∧
      ∀ rest', headerEnd depth (header ++ stop :: rest') = some (stop, rest') := by
  induction ts generalizing depth with
  | nil => cases h
  | cons t ts ih =>
      simp only [headerEnd] at h
      split at h
      · next hstop =>
        cases h
        refine ⟨[], rfl, hstop.2, ?_⟩
        intro rest'
        rw [List.nil_append, headerEnd, if_pos hstop]
      · next hstop =>
        obtain ⟨header, rfl, hends, hfront⟩ := ih h
        refine ⟨t :: header, rfl, hends, ?_⟩
        intro rest'
        rw [List.cons_append, headerEnd, if_neg hstop, hfront rest']

/-- The words that may follow the keyword of a record. -/
def recordKinds : List String := ["class", "struct"]

theorem takesFront_skipRecordKind (kind : String) (ts : List Token) :
    TakesFront recordKinds (fun ts => .ok ((), skipRecordKind kind ts)) ts := by
  have hread : (fun ts => (.ok ((), skipRecordKind kind ts) : Except Fault (Unit × List Token))) =
      fun ts =>
        if kind == "record" && (headIs "class" ts || headIs "struct" ts) then .ok ((), ts.drop 1)
        else .ok ((), ts) := by
    funext ts
    by_cases hkind : kind = "record"
    · cases hhead :
        (headIs "class" ts || headIs "struct" ts) <;> simp [skipRecordKind, hkind, hhead]
    · simp [skipRecordKind, hkind]
  have hshort : (kind == "record" && (headIs "class" ts || headIs "struct" ts)) = true →
      (ts.drop 1).length < ts.length := by
    intro h
    rcases Bool.or_eq_true_iff.1 (Bool.and_eq_true_iff.1 h).2 with h | h
    · exact length_drop_one_lt_of_headIs h
    · exact length_drop_one_lt_of_headIs h
  rw [hread]
  refine .choice (fun hc => ?_) (fun _ => .nothing ()) ?_
  · rcases Bool.or_eq_true_iff.1 (Bool.and_eq_true_iff.1 hc).2 with h | h
    · exact .dropOne h ()
    · exact .dropOne h ()
  · rintro _ used rest rest' hts h hrest'
    have hfalse : ∀ {text : String}, text ∈ recordKinds → headIs text (used ++ rest) = false →
        headIs text (used ++ rest') = false := fun htext => hrest'.headIs_append_eq_false htext
    cases hc : (kind == "record" && (headIs "class" ts || headIs "struct" ts)) with
    | true =>
        simp only [hc, if_true] at h
        cases h
        have hne := ne_nil_of_taken hts (hshort hc)
        simp only [headIs_append hne (ts.drop 1) rest', ← hts, hc]
    | false =>
        rw [hts] at hc
        by_cases hkind : (kind == "record") = true
        · rw [hkind, Bool.true_and, Bool.or_eq_false_iff] at hc
          rw [hfalse (by decide) hc.1, hfalse (by decide) hc.2, Bool.or_false, Bool.and_false]
        · rw [Bool.eq_false_iff.2 hkind, Bool.false_and]

/-- The end of the header of a type. -/
def headerEnding (start name : Token) (ts : List Token) : Except Fault (TypeHeader × List Token) :=
  match headerEnd 0 ts with
  | some (stop, rest) => pure (⟨name.plain, stop.text != ";"⟩, rest)
  | none => .error (.at (.missingBody name.plain) start)

theorem takesFront_headerEnding (start name : Token) (ts : List Token) :
    TakesFront [] (headerEnding start name) ts := by
  constructor
  intro header rest h
  simp only [headerEnding] at h
  split at h
  · next stop rest hend =>
    cases h
    obtain ⟨front, rfl, _, hfront⟩ := headerEnd_front hend
    refine ⟨front ++ [stop], by simp, ?_⟩
    intro rest' _
    simp only [headerEnding, List.append_assoc, List.singleton_append, hfront rest']
    rfl
  · cases h

theorem takesFront_readTypeHeader (kind : String) (start : Token) (ts : List Token) :
    TakesFront [] (readTypeHeader kind start) ts := by
  let named := fun (ts : List Token) => nextToken ts >>= fun p => headerEnding start p.1 p.2
  have hnamed : ∀ ts, TakesFront [] named ts := fun ts =>
    (takesFront_nextToken ts).bind (headerEnding start) (fun _ => takesFront_headerEnding _ _ _)
      fun _ _ => Or.inr (Or.inr (List.forall_mem_nil _))
  have hread : readTypeHeader kind start = fun ts => named (skipRecordKind kind ts) := rfl
  rw [hread]
  refine (takesFront_skipRecordKind kind ts).after (hnamed _) ?_
  intro header rest h
  obtain ⟨⟨name, afterName⟩, hname, h⟩ := bind_eq_ok.1 h
  exact Or.inl
    (Nat.lt_of_le_of_lt ((takesFront_headerEnding ..).length_le h) (nextToken_length_lt hname))

/-! ### Constants and members -/

theorem takesFront_readConstants (ts : List Token) : TakesFront [] readConstants ts := by
  constructor
  intro constants rest h
  obtain ⟨⟨inside, rest⟩, hinside, h⟩ := bind_eq_ok.1 h
  obtain ⟨constants, hconstants, heq⟩ := bind_eq_ok.1 h
  cases heq
  obtain ⟨used, rfl, hused⟩ := (takesFront_takeStatement ts).front hinside
  refine ⟨used, rfl, ?_⟩
  intro rest' hrest'
  exact bind_eq_ok.2 ⟨_, hused rest' hrest', bind_eq_ok.2 ⟨constants, hconstants, rfl⟩⟩

theorem memberHeader_front {depth : Int} {ts header rest : List Token} {stop : Token}
    (h : memberHeader depth ts = some (header, stop, rest)) :
    ts = header ++ stop :: rest ∧
      ∀ rest', memberHeader depth (header ++ stop :: rest') = some (header, stop, rest') := by
  induction ts generalizing depth header with
  | nil => cases h
  | cons t ts ih =>
      simp only [memberHeader] at h
      split at h
      · next hstop =>
        cases h
        refine ⟨rfl, ?_⟩
        intro rest'
        rw [List.nil_append, memberHeader, if_pos hstop]
      · next hstop =>
        obtain ⟨⟨header, stop, rest⟩, hmore, heq⟩ := Option.map_eq_some_iff.1 h
        cases heq
        obtain ⟨rfl, hused⟩ := ih hmore
        refine ⟨rfl, ?_⟩
        intro rest'
        rw [List.cons_append, memberHeader, if_neg hstop, hused rest']
        rfl

/-- Behind the braces of a member only an initialiser belongs to it. -/
theorem takesFront_skipAfterBraces (header : List Token) (property : Option PropertyDeclaration)
    (ts : List Token) :
    TakesFront ["="]
      (fun ts => skipAfterBraces header property.isSome ts >>= fun rest => pure (property, rest))
      ts := by
  let statement := fun (ts : List Token) => takeStatement ts >>= fun p => pure (property, p.2)
  have hread :
      (fun ts => skipAfterBraces header property.isSome ts >>= fun rest => pure (property, rest)) =
      fun ts =>
        if header.any (·.text == "=") || (property.isSome && headIs "=" ts) then statement ts
        else .ok (property, ts) := by
    funext ts
    rw [skipAfterBraces]
    split
    · simp only [bind_assoc, pure_bind, statement]
    · rfl
  have hstatement : TakesFront ["="] statement ts :=
    ((takesFront_takeStatement ts).map fun _ => property).anywhere
  have hshort : ∀ {a rest}, statement ts = .ok (a, rest) → rest.length < ts.length := by
    intro a rest h
    obtain ⟨⟨inside, mid⟩, hinside, heq⟩ := bind_eq_ok.1 h
    cases heq
    exact takeStatement_length_lt hinside
  rw [hread]
  refine .choice (fun _ => hstatement) (fun _ => .nothing property) ?_
  intro result used rest rest' hts h hrest'
  cases hc : (header.any (·.text == "=") || (property.isSome && headIs "=" ts)) with
  | true =>
      simp only [hc, if_true] at h
      rw [headIs_append (ne_nil_of_taken hts (hshort h)) rest, ← hts, hc]
  | false =>
      obtain ⟨hheader, hsign⟩ := Bool.or_eq_false_iff.1 hc
      rw [hheader, Bool.false_or]
      cases hproperty : property.isSome with
      | false => rfl
      | true =>
          rw [hproperty, Bool.true_and, hts] at hsign
          exact hrest'.headIs_append_eq_false List.mem_cons_self hsign

/-- The braces of a member, and what belongs to it behind them. -/
def braces (header : List Token) (property : Option PropertyDeclaration) (ts : List Token) :
    Except Fault (Option PropertyDeclaration × List Token) :=
  takeGroup openingBrace closingBrace ts >>= fun p =>
    skipAfterBraces header property.isSome p.2 >>= fun rest => pure (property, rest)

theorem takesFront_braces (header : List Token) (property : Option PropertyDeclaration)
    (ts : List Token) : TakesFront ["="] (braces header property) ts :=
  (takesFront_takeGroup openingBrace closingBrace ts).bind
    (fun _ ts => skipAfterBraces header property.isSome ts >>= fun rest => pure (property, rest))
    (fun _ => takesFront_skipAfterBraces _ _ _) fun _ _ => Or.inr (Or.inr (List.forall_mem_nil _))

theorem braces_length_lt {header ts rest : List Token}
    {property result : Option PropertyDeclaration}
    (h : braces header property ts = .ok (result, rest)) : rest.length < ts.length := by
  obtain ⟨⟨inside, mid⟩, hinside, h⟩ := bind_eq_ok.1 h
  exact Nat.lt_of_le_of_lt ((takesFront_skipAfterBraces ..).length_le h)
    (takeGroup_length_lt hinside)

/-- A member is taken up to its end, or up to the brace that closes the block around it. -/
theorem takesFront_readMember (modifiers : List String) (ts : List Token) :
    TakesFront ["="] (readMember modifiers) ts := by
  constructor
  intro property rest h
  obtain ⟨header, stop, afterStop, hheader, hending⟩ := readMember_eq_ok.1 h
  obtain ⟨rfl, hfront⟩ := memberHeader_front hheader
  cases hending with
  | block hbrace =>
      refine ⟨header, rfl, ?_⟩
      intro rest' hrest'
      obtain ⟨ts', rfl⟩ := hrest'.exists_cons (hbrace ▸ List.mem_cons_self)
      exact readMember_eq_ok.2 ⟨_, _, _, hfront ts', .block hbrace⟩
  | semicolon hsemicolon =>
      refine ⟨header ++ [stop], by simp, ?_⟩
      intro rest' _
      rw [List.append_assoc, List.singleton_append]
      exact readMember_eq_ok.2 ⟨_, _, _, hfront rest', .semicolon hsemicolon⟩
  | @braces inside afterBraces _ hopening hgroup hskip =>
      have hbraces : braces header (propertyOf header modifiers) (stop :: afterStop) =
          .ok (propertyOf header modifiers, rest) :=
        bind_eq_ok.2 ⟨_, hgroup, bind_eq_ok.2 ⟨_, hskip, rfl⟩⟩
      obtain ⟨used, hused, htaken⟩ := (takesFront_braces _ _ _).front hbraces
      -- the group begins with the token that ends the header
      obtain ⟨brace, used, rfl⟩ :=
        List.exists_cons_of_ne_nil (ne_nil_of_taken hused (braces_length_lt hbraces))
      cases hused
      refine ⟨header ++ stop :: used, by simp, ?_⟩
      intro rest' hrest'
      rw [List.append_assoc, List.cons_append]
      obtain ⟨⟨inside', afterBraces'⟩, hgroup', h'⟩ := bind_eq_ok.1 (htaken rest' hrest')
      obtain ⟨_, hskip', heq⟩ := bind_eq_ok.1 h'
      cases heq
      exact readMember_eq_ok.2 ⟨_, _, _, hfront _, .braces hopening hgroup' hskip'⟩
  | expression hblock hsemicolon hbraces hread =>
      obtain ⟨used, rfl, hused⟩ := (takesFront_takeStatement afterStop).front hread
      refine ⟨header ++ stop :: used, by simp, ?_⟩
      intro rest' hrest'
      rw [List.append_assoc, List.cons_append]
      have hread' := hused rest' (hrest'.mono (List.forall_mem_nil _))
      exact readMember_eq_ok.2 ⟨_, _, _, hfront _, .expression hblock hsemicolon hbraces hread'⟩

end LocalisedEnum

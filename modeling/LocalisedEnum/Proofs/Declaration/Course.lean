import LocalisedEnum.Declaration.Walk
import LocalisedEnum.Proofs.Declaration.PrefixMember

/-!
**The course of the walk.**

The walk cuts the tokens of a file into pieces: a closing brace, a semicolon, or a declaration, of
which the body of a type and the block of a namespace are no part.  A piece is found again in front
of other tokens, as long as these do not go on with it.

Main definitions:

* `Walk.Step` — one piece: the walk and the tokens in front of it, the walk and the tokens behind
  it;
* `Walk.Reaches` — some pieces in a row.

Main results:

* `takesFront_declareFrom` — **a declaration** is read the same in front of other tokens;
* `Walk.Step.front` — **a piece** is taken off the front;
* `Walk.Step.run`, `Walk.exists_step` — the walk over a file goes from piece to piece;
* `Walk.reaches_of_run`, `Walk.Reaches.invariant` — a walk that comes to its end, and what it keeps.
-/

set_option autoImplicit false
set_option relaxedAutoImplicit false

namespace LocalisedEnum

/-! ### Declarations -/

section Declarations

variable (w : Walk) (path : String) (start : Token) (attributes : List Attribute)
  (modifiers : List String)

theorem takesFront_declareEnum (ts : List Token) :
    TakesFront [] (w.declareEnum path start attributes modifiers) ts := by
  let declared := fun (p : String × List String) =>
    w.update fun s => { s with enums := s.enums ++ [{
      name := p.1
      namespaceName := w.scope.namespaceName
      accessibility := .ofModifiers modifiers w.scope.inType
      members := p.2
      attributes := attributes
      containingTypes := w.scope.containingTypes
      location := start.location path
      usings := w.scope.usings }] }
  have hread : w.declareEnum path start attributes modifiers = fun ts =>
      (readEnumBody path start ts >>= fun p => pure ((p.1, p.2.1), p.2.2)) >>=
        fun p => pure (declared p.1, p.2) := by
    funext ts
    simp only [bind_assoc, pure_bind]
    rfl
  rw [hread]
  exact (takesFront_readEnumBody path start ts).map declared

theorem takesFront_declareType (kind : String) (ts : List Token) :
    TakesFront [] (w.declareType path kind start modifiers) ts := by
  let declared := fun (header : TypeHeader) =>
    let declaration : TypeDeclaration :=
      { name := header.name
        namespaceName := w.scope.namespaceName
        kind := kind
        accessibility := .ofModifiers modifiers w.scope.inType
        properties := []
        containingTypes := w.scope.containingTypes
        location := start.location path
        constants := [] }
    if header.hasBody then w.enter (w.scope.openType declaration)
    else w.update fun s => { s with types := s.types ++ [declaration] }
  have hread : w.declareType path kind start modifiers = fun ts =>
      readTypeHeader kind start ts >>= fun p => pure (declared p.1, p.2) := by
    funext ts
    rw [Walk.declareType]
    congr 1
    funext ⟨header, rest⟩
    simp only [declared]
    split <;> rfl
  rw [hread]
  exact (takesFront_readTypeHeader kind start ts).map declared

theorem takesFront_expect {α : Type} (a : α) (text : String) (ts : List Token) :
    TakesFront [] (fun ts => expect text ts >>= fun rest => pure (a, rest)) ts := by
  constructor
  intro b rest h
  obtain ⟨mid, hmid, heq⟩ := bind_eq_ok.1 h
  cases heq
  obtain ⟨t, rfl, ht⟩ := expect_eq_ok.1 hmid
  refine ⟨[t], rfl, ?_⟩
  intro rest' _
  rw [List.singleton_append, expect_eq_ok.2 ⟨t, rfl, ht⟩]
  rfl

theorem takesFront_declareNamespace (ts : List Token) : TakesFront [] w.declareNamespace ts := by
  let ending := fun (name : String) (ts : List Token) =>
    if headIs ";" ts then
      .ok (w.update fun s => { s with namespaceName := s.fullNamespace name }, ts.drop 1)
    else expect openingBrace ts >>= fun rest => pure (w.enter (w.scope.openNamespace name), rest)
  have hread : w.declareNamespace = fun ts => qualifiedName ts >>= fun p => ending p.1 p.2 := rfl
  have hexpect : ∀ {name : String} {ts : List Token} {w' : Walk} {rest : List Token},
      (expect openingBrace ts >>= fun rest => pure (w.enter (w.scope.openNamespace name), rest)) =
        .ok (w', rest) → rest.length < ts.length := by
    intro name ts w' rest h
    obtain ⟨mid, hmid, heq⟩ := bind_eq_ok.1 h
    cases heq
    exact expect_length_lt hmid
  have hshort : ∀ {name : String} {ts : List Token} {w' : Walk} {rest : List Token},
      ending name ts = .ok (w', rest) → rest.length < ts.length := by
    intro name ts w' rest h
    simp only [ending] at h
    split at h
    · next hhead =>
      cases h
      exact length_drop_one_lt_of_headIs hhead
    · exact hexpect h
  rw [hread]
  refine (takesFront_qualifiedName ts).bind ending (fun {name mid} _ => ?_) fun _ h =>
    Or.inl (hshort h)
  refine .ite (fun hhead => .dropOne hhead _) (fun _ => takesFront_expect _ openingBrace mid) ?_
    (Or.inr hexpect)
  intro w' rest hhead h
  cases h
  exact length_drop_one_lt_of_headIs hhead

theorem takesFront_declareUsing (ts : List Token) : TakesFront [] w.declareUsing ts :=
  (takesFront_readUsing ts).map fun name =>
    w.update fun s => { s with usings := s.usings ++ name.toList }

theorem takesFront_declareGlobalUsing (ts : List Token) : TakesFront [] w.declareGlobalUsing ts :=
  (takesFront_readUsing ts).map fun name =>
    ({ w with globalUsings := w.globalUsings ++ name.toList } : Walk)

theorem takesFront_declareConstants (ts : List Token) : TakesFront [] w.declareConstants ts :=
  (takesFront_readConstants ts).map fun constants =>
    w.update fun s => { s with constants := assignAll constants s.constants }

theorem takesFront_declareMember (ts : List Token) :
    TakesFront ["="] (w.declareMember modifiers) ts :=
  (takesFront_readMember modifiers ts).map fun property =>
    w.update fun s => { s with properties := s.properties ++ property.toList }

/-- The declaration at the front that is no import for every file. -/
def Walk.declareKeyword : List Token → Except Fault (Walk × List Token)
  | [] => .error (.at .truncatedDeclaration start)
  | head :: rest =>
    if !w.scope.inType && head.text == "using" then w.declareUsing rest
    else if !w.scope.inType && head.text == "namespace" then w.declareNamespace rest
    else if head.text == "enum" then w.declareEnum path start attributes modifiers rest
    else if typeKeywords.contains head.text then w.declareType path head.text start modifiers rest
    else if head.text == "delegate" then takeStatement rest >>= fun p => pure (w, p.2)
    else if modifiers.contains "const" then w.declareConstants (head :: rest)
    else w.declareMember modifiers (head :: rest)

/-- Whether an import for every file stands in front. -/
def Walk.importsGlobally (ts : List Token) : Bool :=
  !w.scope.inType && headIs "global" ts && headIs "using" (ts.drop 1)

/-- The declaration at the front, whose attributes and modifiers have been read. -/
def Walk.declareBody (ts : List Token) : Except Fault (Walk × List Token) :=
  if w.importsGlobally ts then w.declareGlobalUsing (ts.drop 2)
  else w.declareKeyword path start attributes modifiers ts

theorem Walk.declareBody_cons (head : Token) (ts : List Token) :
    w.declareBody path start attributes modifiers (head :: ts) =
      w.declareHead path start attributes modifiers head ts := by
  rw [Walk.declareBody, Walk.importsGlobally, List.drop_succ_cons, List.drop_succ_cons]
  rfl

theorem Walk.declareBody_nil :
    w.declareBody path start attributes modifiers [] =
      .error (.at .truncatedDeclaration start) := by
  rw [Walk.declareBody, Walk.importsGlobally, headIs, Bool.and_false]
  rfl

theorem takesFront_declareKeyword (ts : List Token) :
    TakesFront ["="] (w.declareKeyword path start attributes modifiers) ts := by
  cases ts with
  | nil =>
      constructor
      intro w' rest h
      cases h
  | cons head ts =>
      by_cases husing : (!w.scope.inType && head.text == "using") = true
      · refine .behindHead (takesFront_declareUsing w ts).anywhere head fun ts => ?_
        rw [Walk.declareKeyword, if_pos husing]
      by_cases hnamespace : (!w.scope.inType && head.text == "namespace") = true
      · refine .behindHead (takesFront_declareNamespace w ts).anywhere head fun ts => ?_
        rw [Walk.declareKeyword, if_neg husing, if_pos hnamespace]
      by_cases henum : (head.text == "enum") = true
      · refine .behindHead (takesFront_declareEnum w path start attributes modifiers ts).anywhere
          head fun ts => ?_
        rw [Walk.declareKeyword, if_neg husing, if_neg hnamespace, if_pos henum]
      by_cases htype : typeKeywords.contains head.text = true
      · refine .behindHead (takesFront_declareType w path start modifiers head.text ts).anywhere
          head fun ts => ?_
        rw [Walk.declareKeyword, if_neg husing, if_neg hnamespace, if_neg henum, if_pos htype]
      by_cases hdelegate : (head.text == "delegate") = true
      · refine .behindHead ((takesFront_takeStatement ts).map fun _ => w).anywhere head fun ts => ?_
        rw [Walk.declareKeyword, if_neg husing, if_neg hnamespace, if_neg henum, if_neg htype,
          if_pos hdelegate]
      by_cases hconst : modifiers.contains "const" = true
      · refine .sameHead (takesFront_declareConstants w (head :: ts)).anywhere (fun ts => ?_)
          fun h => Or.inl (Walk.declareConstants_length_lt h)
        rw [Walk.declareKeyword, if_neg husing, if_neg hnamespace, if_neg henum, if_neg htype,
          if_neg hdelegate, if_pos hconst]
      · refine .sameHead (takesFront_declareMember w modifiers (head :: ts)) (fun ts => ?_) fun h =>
          ?_
        · rw [Walk.declareKeyword, if_neg husing, if_neg hnamespace, if_neg henum, if_neg htype,
            if_neg hdelegate, if_neg hconst]
        · by_cases hbrace : head.text = closingBrace
          · exact Or.inr hbrace
          · exact Or.inl (Walk.declareMember_length_lt hbrace h)

end Declarations

/-- A declaration takes a token, or it leaves a closing brace in front. -/
theorem declareBody_shrinks {w w' : Walk} {path : String} {start : Token}
    {attributes : List Attribute} {modifiers : List String} {ts rest : List Token}
    (h : w.declareBody path start attributes modifiers ts = .ok (w', rest)) :
    rest.length < ts.length ∨ headIs closingBrace ts = true := by
  cases ts with
  | nil =>
      rw [Walk.declareBody_nil] at h
      cases h
  | cons head ts =>
      rw [Walk.declareBody_cons] at h
      refine (Walk.declareHead_length h).imp_right fun hbrace => ?_
      exact beq_iff_eq.2 hbrace.1

/-- What may not stand behind a declaration: the sign of an initialiser, and the second word of
an import for every file. -/
def declarationMarks : List String := ["=", "using"]

/-- The words of an import for every file are found again behind the tokens that a declaration
takes. -/
theorem importsGlobally_append {w w' : Walk} {path : String} {start : Token}
    {attributes : List Attribute} {modifiers : List String} {used rest rest' : List Token}
    (h : w.declareBody path start attributes modifiers (used ++ rest) = .ok (w', rest))
    (hrest' : MayFollow declarationMarks rest rest') :
    w.importsGlobally (used ++ rest') = w.importsGlobally (used ++ rest) := by
  match used with
  | [] =>
      -- nothing is taken only in front of a closing brace, which is no word of an import
      have hbrace : headIs closingBrace rest = true :=
        (declareBody_shrinks h).resolve_left (Nat.lt_irrefl _)
      have hnone : ∀ ts, headIs closingBrace ts = true → w.importsGlobally ts = false := by
        intro ts hts
        cases ts with
        | nil => cases hts
        | cons t ts =>
            have ht : (t.text == "global") = false := by
              rw [headIs_cons, beq_iff_eq] at hts
              rw [hts]
              decide
            rw [Walk.importsGlobally, headIs_cons, ht, Bool.and_false, Bool.false_and]
      cases rest with
      | nil => cases hbrace
      | cons t rest =>
          obtain ⟨ts', rfl⟩ := hrest'.exists_cons (beq_iff_eq.1 hbrace ▸ List.mem_cons_self)
          rw [List.nil_append, List.nil_append, hnone _ hbrace, hnone _ (by exact hbrace)]
  | [t] =>
      cases hfront : (!w.scope.inType && headIs "global" (t :: rest)) with
      | false =>
          have hfront' : (!w.scope.inType && headIs "global" (t :: rest')) = false := hfront
          simp only [Walk.importsGlobally, List.singleton_append, hfront, hfront', Bool.false_and]
      | true =>
          have hfront' : (!w.scope.inType && headIs "global" (t :: rest')) = true := hfront
          have husing : headIs "using" rest = false := by
            rw [Bool.eq_false_iff]
            intro husing
            have himport : w.importsGlobally ([t] ++ rest) = true := by
              simp only [Walk.importsGlobally, List.singleton_append, hfront, List.drop_succ_cons,
                List.drop_zero, husing, Bool.and_true]
            rw [Walk.declareBody, if_pos himport] at h
            have hlength := Walk.declareGlobalUsing_length_lt h
            simp only [List.singleton_append, List.drop_succ_cons, List.length_drop] at hlength
            omega
          simp only [Walk.importsGlobally, List.singleton_append, hfront, hfront',
            List.drop_succ_cons, List.drop_zero, husing]
          exact congrArg (true && ·) (hrest'.headIs_eq_false (by decide) husing)
  | _ :: _ :: _ => rfl

theorem takesFront_declareBody (w : Walk) (path : String) (start : Token)
    (attributes : List Attribute) (modifiers : List String) (ts : List Token) :
    TakesFront declarationMarks (w.declareBody path start attributes modifiers) ts := by
  refine .choice (fun himport => ?_) (fun _ => (takesFront_declareKeyword ..).mono (by decide)) ?_
  · obtain ⟨first, second, ts, rfl⟩ : ∃ first second more, ts = first :: second :: more := by
      cases ts with
      | nil => simp [Walk.importsGlobally, headIs] at himport
      | cons first ts =>
          cases ts with
          | nil => simp [Walk.importsGlobally, headIs] at himport
          | cons second ts => exact ⟨first, second, ts, rfl⟩
    have himported : TakesFront declarationMarks w.declareGlobalUsing ts :=
      (takesFront_declareGlobalUsing w ts).anywhere
    exact .behindHead (.behindHead himported second fun _ => rfl) first fun _ => rfl
  · rintro w' used rest rest' rfl h hrest'
    exact importsGlobally_append h hrest'

/-- A declaration takes a token, or it leaves the end of the block around it. -/
theorem declareBody_leaves {w w' : Walk} {path : String} {start : Token}
    {attributes : List Attribute} {modifiers : List String} {ts rest : List Token}
    (h : w.declareBody path start attributes modifiers ts = .ok (w', rest)) :
    rest.length < ts.length ∨ headIs closingBrace rest = true := by
  obtain ⟨used, rfl, _⟩ := (takesFront_declareBody ..).front h
  cases used with
  | nil => exact declareBody_shrinks h
  | cons t used =>
      refine Or.inl ?_
      simp only [List.cons_append, List.length_cons, List.length_append]
      omega

/-- The declaration that stands at the front, with the token that tells where it begins. -/
def Walk.declareFrom (w : Walk) (path : String) (start : Token) (ts : List Token) :
    Except Fault (Walk × List Token) :=
  readSections path ts >>= fun p =>
    w.declareBody path start p.1 (readModifiers p.2).1 (readModifiers p.2).2

theorem Walk.declare_eq (w : Walk) (path : String) (start : Token) (ts : List Token) :
    w.declare path start ts = w.declareFrom path start (start :: ts) := by
  rw [Walk.declare, Walk.declareFrom]
  congr 1
  funext ⟨attributes, afterSections⟩
  simp only
  split
  · next hnil => rw [hnil, Walk.declareBody_nil]
  · next head rest hcons => rw [hcons, Walk.declareBody_cons]

/-- Where some tokens stand behind the attributes, they and what follows them are the rest of the
declaration. -/
theorem declareFrom_of_sections {path : String} {front behind : List Token}
    {attributes : List Attribute} (hsections : readSections path front = .ok (attributes, behind))
    (hne : behind ≠ []) (w : Walk) (start : Token) (more : List Token) :
    w.declareFrom path start (front ++ more) = w.declareBody path start attributes
      (readModifiers (behind ++ more)).1 (readModifiers (behind ++ more)).2 := by
  obtain ⟨sections, rfl, hbefore⟩ := (takesFront_readSections path front).front hsections
  have hmore : MayFollow sectionMarks behind (behind ++ more) := by
    obtain ⟨first, others, rfl⟩ := List.exists_cons_of_ne_nil hne
    exact .inl rfl
  rw [Walk.declareFrom, List.append_assoc, hbefore _ hmore]
  rfl

/-- A declaration without attributes begins with what stands behind them. -/
theorem front_eq_of_sections {path : String} {front behind : List Token}
    {attributes : List Attribute} (hsections : readSections path front = .ok (attributes, behind)) :
    headIs "[" front = true ∨ front = behind := by
  rw [readSections_eq] at hsections
  split at hsections
  · next hopen => exact .inl hopen
  · cases hsections
    exact .inr rfl

/-- **A declaration** is read the same in front of other tokens. -/
theorem takesFront_declareFrom (w : Walk) (path : String) (start : Token) (ts : List Token) :
    TakesFront declarationMarks (w.declareFrom path start) ts := by
  let modified := fun (attributes : List Attribute) (ts : List Token) =>
    (.ok (readModifiers ts) : Except Fault (List String × List Token)) >>=
      fun p => w.declareBody path start attributes p.1 p.2
  have hmodified : ∀ (attributes : List Attribute) (ts : List Token),
      TakesFront declarationMarks (modified attributes) ts := fun attributes ts =>
    (takesFront_readModifiers ts).bind (w.declareBody path start attributes)
      (fun _ => takesFront_declareBody ..) fun _ h => (declareBody_leaves h).imp_right Or.inl
  refine (takesFront_readSections path ts).bind modified (fun _ => hmodified _ _) ?_
  intro attributes mid w' rest _ h
  refine (declareBody_leaves h).imp (fun hlength => ?_) Or.inl
  exact Nat.lt_of_lt_of_le hlength ((takesFront_readModifiers mid).length_le rfl)

/-! ### Pieces -/

/-- **One piece of a file.**  The walk is in front of the first tokens and comes out behind the
piece, with the tokens that remain. -/
inductive Walk.Step (path : String) (w : Walk) : List Token → Walk → List Token → Prop
  | close {t : Token} {w' : Walk} {rest : List Token} (htext : t.text = closingBrace)
      (hclose : w.close? = some w') : Walk.Step path w (t :: rest) w' rest
  | semicolon {t : Token} {rest : List Token} (htext : t.text = ";") :
      Walk.Step path w (t :: rest) w rest
  | declaration {t : Token} {w' : Walk} {ts rest : List Token} (hbrace : t.text ≠ closingBrace)
      (hsemicolon : t.text ≠ ";") (hdeclare : w.declare path t ts = .ok (w', rest)) :
      Walk.Step path w (t :: ts) w' rest

namespace Walk

variable {path : String} {w w' : Walk} {ts rest : List Token}

/-- **A piece** is some tokens at the front, and it is the same piece in front of other tokens. -/
theorem Step.front (h : Step path w ts w' rest) :
    ∃ used, used ≠ [] ∧ ts = used ++ rest ∧
      ∀ rest', MayFollow declarationMarks rest rest' → Step path w (used ++ rest') w' rest' := by
  cases h with
  | @close t _ _ htext hclose =>
      exact ⟨[t], List.cons_ne_nil _ _, rfl, fun _ _ => .close htext hclose⟩
  | @semicolon t _ htext => exact ⟨[t], List.cons_ne_nil _ _, rfl, fun _ _ => .semicolon htext⟩
  | @declaration t _ ts _ hbrace hsemicolon hdeclare =>
      have hlength := declare_length_lt hbrace hdeclare
      rw [declare_eq] at hdeclare
      obtain ⟨used, hused, hfront⟩ := (takesFront_declareFrom w path t (t :: ts)).front hdeclare
      obtain ⟨u, used, rfl⟩ := List.exists_cons_of_ne_nil (ne_nil_of_taken hused hlength)
      cases hused
      refine ⟨t :: used, List.cons_ne_nil _ _, rfl, ?_⟩
      intro rest' hrest'
      refine .declaration hbrace hsemicolon ?_
      rw [declare_eq]
      exact hfront rest' hrest'

/-- The walk goes on alike where the first declaration is the same. -/
theorem run_congr {t : Token} {ts ts' : List Token} (hbrace : t.text ≠ closingBrace)
    (hsemicolon : t.text ≠ ";")
    (hdeclare : w.declareFrom path t (t :: ts) = w.declareFrom path t (t :: ts')) :
    Walk.run path w (t :: ts) = Walk.run path w (t :: ts') := by
  rw [run_cons, run_cons, if_neg hbrace, if_neg hbrace, if_neg hsemicolon, if_neg hsemicolon,
    declare_eq, declare_eq, hdeclare]

/-- Behind a piece the walk goes on as if it began there. -/
theorem Step.run (h : Step path w ts w' rest) : Walk.run path w ts = Walk.run path w' rest := by
  cases h with
  | close htext hclose => rw [run_cons, if_pos htext, hclose]
  | semicolon htext =>
      have hbrace : ";" ≠ closingBrace := by decide
      rw [run_cons, htext, if_neg hbrace, if_pos rfl]
  | declaration hbrace hsemicolon hdeclare =>
      rw [run_cons, if_neg hbrace, if_neg hsemicolon, hdeclare]
      rfl

/-- A piece takes a token or more. -/
theorem Step.length_lt (h : Step path w ts w' rest) : rest.length < ts.length := by
  obtain ⟨used, hne, rfl, _⟩ := h.front
  have hpositive := List.length_pos_iff.2 hne
  rw [List.length_append]
  omega

/-- At the end of the tokens only the scope of the file may be open. -/
theorem run_nil_eq_ok {done : Walk} :
    Walk.run path w [] = .ok done ↔ w = done ∧ done.outer = [] := by
  rw [Walk.run]
  constructor
  · intro h
    split at h
    · next houter =>
      cases h
      exact ⟨rfl, List.isEmpty_iff.1 houter⟩
    · cases h
  · rintro ⟨rfl, houter⟩
    rw [if_pos (List.isEmpty_iff.2 houter)]

/-- A walk that comes to the end passes a piece, as long as there are tokens. -/
theorem exists_step {t : Token} {done : Walk} (h : Walk.run path w (t :: ts) = .ok done) :
    ∃ w' rest, Step path w (t :: ts) w' rest := by
  rw [run_cons] at h
  by_cases hbrace : t.text = closingBrace
  · rw [if_pos hbrace] at h
    cases hclose : w.close? with
    | none =>
        rw [hclose] at h
        cases h
    | some w' => exact ⟨w', ts, .close hbrace hclose⟩
  · rw [if_neg hbrace] at h
    by_cases hsemicolon : t.text = ";"
    · exact ⟨w, ts, .semicolon hsemicolon⟩
    · rw [if_neg hsemicolon] at h
      obtain ⟨⟨w', rest⟩, hdeclare, _⟩ := bind_eq_ok.1 h
      exact ⟨w', rest, .declaration hbrace hsemicolon hdeclare⟩

end Walk

/-- **Some pieces in a row**, from one walk to another. -/
inductive Walk.Reaches (path : String) : Walk → List Token → Walk → List Token → Prop
  | refl (w : Walk) (ts : List Token) : Walk.Reaches path w ts w ts
  | step {w w' w'' : Walk} {ts mid rest : List Token} (hstep : Walk.Step path w ts w' mid)
      (hreaches : Walk.Reaches path w' mid w'' rest) : Walk.Reaches path w ts w'' rest

theorem Walk.Reaches.run {path : String} {w w' : Walk} {ts rest : List Token}
    (h : Walk.Reaches path w ts w' rest) : Walk.run path w ts = Walk.run path w' rest := by
  induction h with
  | refl => rfl
  | step hstep _ ih => exact hstep.run.trans ih

/-- **What every piece keeps**, some pieces in a row keep. -/
theorem Walk.Reaches.invariant {path : String} {P : Walk → List Token → Prop}
    (hstep : ∀ w ts w' rest, P w ts → Walk.Step path w ts w' rest → P w' rest) {w w' : Walk}
    {ts rest : List Token} (h : Walk.Reaches path w ts w' rest) (hP : P w ts) : P w' rest := by
  induction h with
  | refl => exact hP
  | step hpiece _ ih => exact ih (hstep _ _ _ _ hP hpiece)

/-- **A walk that comes to its end** passes pieces in a row, and at the end only the scope of the
file is open. -/
theorem Walk.reaches_of_run {path : String} {w done : Walk} {ts : List Token}
    (h : Walk.run path w ts = .ok done) : Walk.Reaches path w ts done [] ∧ done.outer = [] := by
  match ts with
  | [] =>
      obtain ⟨rfl, houter⟩ := Walk.run_nil_eq_ok.1 h
      exact ⟨.refl w [], houter⟩
  | t :: rest =>
      obtain ⟨w', rest', hpiece⟩ := Walk.exists_step h
      have hshort : rest'.length < (t :: rest).length := hpiece.length_lt
      rw [hpiece.run] at h
      exact (reaches_of_run h).imp_left (.step hpiece)
  termination_by ts.length
  decreasing_by exact hshort

end LocalisedEnum

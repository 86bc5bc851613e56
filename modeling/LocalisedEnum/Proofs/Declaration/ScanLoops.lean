import LocalisedEnum.Proofs.Declaration.Effects
import LocalisedEnum.Proofs.Declaration.PieceEnds

/-!
**The loops of the walk.**

The walk goes through its tokens in loops: over the inside of a group, a statement, the segments of
a name, sections of attributes and what is in them, modifiers, the headers of types and members, the
members of an enum and their initialisers, and over the pieces of a file.  A round of a loop looks
at the first tokens and either leaves the loop, perhaps with a fault, or goes on behind some tokens
that it has taken.

Most loops take one token in a round, until one stops them; others read a part in each round, until
its end stands in front.  A loop of either kind makes progress when its parts do.

Main definitions:

* `Round`, `LeftAfter` — what a round comes to, and the rounds after which a loop is left;
* `Progresses`, `Follows` — loops that make progress, and readers that give what a loop is left
  with;
* `TokenLoop`, `PartLoop` — the two kinds of loops;
* `ScanLoop` — **the loops of the walk**.

Main results:

* `Progresses.exists_leftAfter` — **a loop that makes progress is left**, after at most as many
  rounds as there are tokens;
* `ScanLoop.progresses` — every loop of the walk makes progress;
* `ScanLoop.follows` — what the walk gets from each loop is what it is left with.
-/

set_option autoImplicit false
set_option relaxedAutoImplicit false

namespace LocalisedEnum

/-! ### Rounds of a loop -/

/-- **Further on** in the tokens: some have been taken, and what remains is their end. -/
def FurtherOn (ts rest : List Token) : Prop :=
  rest <:+ ts ∧ rest.length < ts.length

theorem furtherOn_cons (t : Token) (ts : List Token) : FurtherOn (t :: ts) ts :=
  ⟨List.suffix_cons t ts, Nat.lt_succ_self _⟩

theorem FurtherOn.of_suffix {ts mid rest : List Token} (h : FurtherOn ts mid)
    (hrest : rest <:+ mid) : FurtherOn ts rest :=
  ⟨hrest.trans h.1, Nat.lt_of_le_of_lt hrest.length_le h.2⟩

/-- **What a round of a loop comes to**: the loop is left, with the tokens that remain or with a
fault, or it goes on. -/
inductive Round (σ : Type) where
  | leave (result : Except Fault (List Token))
  | again (state : σ) (rest : List Token)

/-- **The loop is left** with a result, after a number of rounds behind which it goes on. -/
inductive LeftAfter {σ : Type} (round : σ → List Token → Round σ) :
    Nat → σ → List Token → Except Fault (List Token) → Prop
  | leave {s : σ} {ts : List Token} {result : Except Fault (List Token)}
      (h : round s ts = .leave result) : LeftAfter round 0 s ts result
  | again {n : Nat} {s s' : σ} {ts rest : List Token} {result : Except Fault (List Token)}
      (h : round s ts = .again s' rest) (hrest : LeftAfter round n s' rest result) :
      LeftAfter round (n + 1) s ts result

/-- **A loop that makes progress**: a round behind which it goes on takes tokens, and no round takes
any back. -/
structure Progresses {σ : Type} (round : σ → List Token → Round σ) : Prop where
  again : ∀ {s s' ts rest}, round s ts = .again s' rest → FurtherOn ts rest
  leave : ∀ {s ts rest}, round s ts = .leave (.ok rest) → rest <:+ ts

section

variable {σ : Type} {round : σ → List Token → Round σ}

/-- **A loop that makes progress is left** after at most as many rounds as there are tokens. -/
theorem Progresses.exists_leftAfter (h : Progresses round) (s : σ) (ts : List Token) :
    ∃ n result, n ≤ ts.length ∧ LeftAfter round n s ts result := by
  induction hlength : ts.length using Nat.strongRecOn generalizing s ts with
  | ind length ih =>
  cases hround : round s ts with
  | leave result => exact ⟨0, result, Nat.zero_le _, .leave hround⟩
  | again s' rest =>
      have hless : rest.length < length := hlength ▸ (h.again hround).2
      obtain ⟨n, result, hn, hleft⟩ := ih rest.length hless s' rest rfl
      exact ⟨n + 1, result, Nat.lt_of_le_of_lt hn hless, .again hround hleft⟩

/-- What remains behind a loop that makes progress is the end of the tokens. -/
theorem LeftAfter.suffix {n : Nat} {s : σ} {ts rest : List Token}
    (hleft : LeftAfter round n s ts (.ok rest)) (h : Progresses round) : rest <:+ ts := by
  generalize hresult : Except.ok rest = result at hleft
  induction hleft with
  | leave hround => exact h.leave (hresult ▸ hround)
  | again hround _ ih => exact (ih hresult).trans (h.again hround).1

/-- **A reader follows a loop**: where the loop is left it gives the same, and otherwise what it
gives behind the round. -/
def Follows (outcome : σ → List Token → Except Fault (List Token))
    (round : σ → List Token → Round σ) : Prop :=
  ∀ s ts, outcome s ts = match round s ts with
    | .leave result => result
    | .again s' rest => outcome s' rest

/-- What a reader gives that follows a loop is what the loop is left with. -/
theorem LeftAfter.eq_outcome {n : Nat} {s : σ} {ts : List Token}
    {result : Except Fault (List Token)} {outcome : σ → List Token → Except Fault (List Token)}
    (hleft : LeftAfter round n s ts result) (hfollows : Follows outcome round) :
    outcome s ts = result := by
  induction hleft with
  | leave hround => rw [hfollows, hround]
  | again hround _ ih =>
      rw [hfollows, hround]
      exact ih

end

/-! ### Loops that take one token in a round -/

/-- **A loop that takes one token in a round**, until one stops it: which tokens do, whether the
loop takes the one that does, what it counts, and the fault of tokens that end without one, if that
is a fault. -/
structure TokenLoop (σ : Type) where
  stops : σ → Token → Bool
  takesStop : Bool
  count : σ → Token → σ
  unstopped : Option Fault

namespace TokenLoop

variable {σ : Type} (l : TokenLoop σ)

/-- How the loop ends without a token that stops it. -/
def atEnd : Except Fault (List Token) :=
  match l.unstopped with
  | some e => .error e
  | none => .ok []

/-- A round of the loop. -/
def round (s : σ) : List Token → Round σ
  | [] => .leave l.atEnd
  | t :: rest =>
    if l.stops s t then .leave (.ok (if l.takesStop then rest else t :: rest))
    else .again (l.count s t) rest

theorem progresses : Progresses l.round where
  again {s s' ts rest} h := by
    cases ts with
    | nil => cases h
    | cons t ts =>
        rw [round] at h
        split at h
        · cases h
        · cases h
          exact furtherOn_cons t _
  leave {s ts rest} h := by
    cases ts with
    | nil =>
        rw [round, atEnd, Round.leave.injEq] at h
        split at h
        · cases h
        · cases h
          exact List.suffix_rfl
    | cons t ts =>
        rw [round] at h
        split at h
        · cases h
          split
          · exact List.suffix_cons t _
          · exact List.suffix_rfl
        · cases h

theorem follows {outcome : σ → List Token → Except Fault (List Token)}
    (hnil : ∀ s, outcome s [] = l.atEnd)
    (hcons : ∀ s t rest, outcome s (t :: rest) =
      if l.stops s t then .ok (if l.takesStop then rest else t :: rest)
      else outcome (l.count s t) rest) :
    Follows outcome l.round := by
  intro s ts
  cases ts with
  | nil => exact hnil s
  | cons t rest =>
      rw [hcons, round]
      cases l.stops s t <;> rfl

end TokenLoop

/-- The loop over the inside of a group that has been opened. -/
def groupLoop (opening closing : String) (start : Token) : TokenLoop Nat where
  stops depth t := t.text != opening && t.text == closing && depth == 0
  takesStop := true
  count depth t :=
    if t.text = opening then depth + 1 else if t.text = closing then depth - 1 else depth
  unstopped := some (.at (.unclosed opening) start)

/-- The loop over a statement. -/
def statementLoop : TokenLoop Int where
  stops depth t := t.text == ";" && depth ≤ 0
  takesStop := true
  count depth t := depth + statementNesting t
  unstopped := some .endOfFile

/-- The loop over modifiers. -/
def modifierLoop : TokenLoop Unit where
  stops _ t := !isModifier t
  takesStop := false
  count _ _ := ()
  unstopped := none

/-- The loop over what precedes the opening brace of an enum. -/
def enumHeaderLoop : TokenLoop Unit where
  stops _ t := t.text == openingBrace
  takesStop := false
  count _ _ := ()
  unstopped := some .endOfFile

/-- The loop over the initialiser of a member of an enum. -/
def initialiserLoop (enumName : String) (start : Token) : TokenLoop Int where
  stops depth t := depth == 0 && (t.text == "," || t.text == closingBrace)
  takesStop := false
  count depth t := depth + roundNesting t
  unstopped := some (.at (.unterminatedEnum enumName) start)

/-- The loop over the header of a type. -/
def typeHeaderLoop (typeName : String) (start : Token) : TokenLoop Int where
  stops depth t := depth == 0 && (t.text == openingBrace || t.text == ";")
  takesStop := false
  count depth t := depth + headerNesting t
  unstopped := some (.at (.missingBody typeName) start)

/-- The loop over the header of a member. -/
def memberHeaderLoop : TokenLoop Int where
  stops depth t := depth == 0 && endsMemberHeader t
  takesStop := false
  count depth t := depth + roundNesting t
  unstopped := some (.malformed .truncatedMember none)

/-! ### Loops that read a part in a round -/

/-- **A loop that reads a part in a round**, until its end stands in front: where that is, whether
the loop takes the token there, how a part is read, and what is passed over behind one. -/
structure PartLoop (α : Type) where
  stops : List Token → Bool
  takesStop : Bool
  read : List Token → Except Fault (α × List Token)
  between : List Token → List Token

namespace PartLoop

variable {α : Type} (l : PartLoop α)

/-- A round of the loop. -/
def round (_ : Unit) (ts : List Token) : Round Unit :=
  if l.stops ts then .leave (.ok (if l.takesStop then ts.drop 1 else ts))
  else
    match l.read ts with
    | .ok (_, rest) => .again () (l.between rest)
    | .error e => .leave (.error e)

theorem progresses
    (hread : ∀ {ts a rest}, l.stops ts = false → l.read ts = .ok (a, rest) → FurtherOn ts rest)
    (hbetween : ∀ ts, l.between ts <:+ ts) : Progresses l.round where
  again {s s' ts rest} h := by
    rw [round] at h
    split at h
    · cases h
    · next hstops =>
      split at h
      · next a mid hmid =>
        cases h
        exact (hread (Bool.eq_false_iff.2 hstops) hmid).of_suffix (hbetween mid)
      · cases h
  leave {s ts rest} h := by
    rw [round] at h
    split at h
    · cases h
      split
      · exact List.drop_suffix 1 ts
      · exact List.suffix_rfl
    · split at h <;> cases h

theorem follows {outcome : Unit → List Token → Except Fault (List Token)}
    (hstops : ∀ ts, l.stops ts = true → outcome () ts = .ok (if l.takesStop then ts.drop 1 else ts))
    (hreads : ∀ ts, l.stops ts = false →
      outcome () ts = l.read ts >>= fun p => outcome () (l.between p.2)) :
    Follows outcome l.round := by
  intro s ts
  rw [round]
  cases h : l.stops ts with
  | true => exact hstops ts h
  | false =>
      rw [hreads ts h]
      cases l.read ts <;> rfl

end PartLoop

/-- The loop over sections of attributes. -/
def sectionLoop (path : String) : PartLoop (List Attribute) where
  stops ts := !headIs "[" ts
  takesStop := false
  read ts := readSectionItems path (sectionTarget (ts.drop 1)).2
  between := id

/-- The loop over the attributes of a section. -/
def sectionItemLoop (path : String) : PartLoop Attribute where
  stops := headIs "]"
  takesStop := true
  read := readAttribute path
  between := skip ","

/-- The loop over the members of an enum. -/
def enumMemberLoop (path enumName : String) (start : Token) : PartLoop String where
  stops := headIs closingBrace
  takesStop := true
  read := readEnumMember path enumName start
  between := id

/-! ### Loops over names and over pieces -/

/-- A round over the segments of a name: a mark and the segment behind it. -/
def segmentRound (name : String) : List Token → Round String
  | [] => .leave (.ok [])
  | [t] => .leave (if isNameMark t then .error .endOfFile else .ok [t])
  | t :: part :: rest =>
    if isNameMark t then .again (name ++ t.text ++ part.plain) rest
    else .leave (.ok (t :: part :: rest))

/-- A round over the pieces of a file: a closing brace, a semicolon or a declaration. -/
def pieceRound (path : String) (w : Walk) : List Token → Round Walk
  | [] => .leave (if w.outer.isEmpty then .ok [] else .error (.malformed .missingClosingBrace none))
  | t :: rest =>
    if t.text = closingBrace then
      match w.close? with
      | some w => .again w rest
      | none => .leave (.error (.at .strayClosingBrace t))
    else if t.text = ";" then .again w rest
    else
      match w.declare path t rest with
      | .ok (w, rest) => .again w rest
      | .error e => .leave (.error e)

/-! ### The loops of the walk -/

/-- The tokens behind what a reader has read, or the fault that it has found. -/
def remaining {α : Type} (read : Except Fault (α × List Token)) : Except Fault (List Token) :=
  read.map Prod.snd

/-- The tokens that are found, or the fault of their absence. -/
def orFault (found : Option (List Token)) (e : Fault) : Except Fault (List Token) :=
  match found with
  | some rest => .ok rest
  | none => .error e

/-- **The loops of the walk**: what each does in a round, and what the walk gets from it. -/
inductive ScanLoop :
    {σ : Type} → (σ → List Token → Round σ) → (σ → List Token → Except Fault (List Token)) → Prop
  | group (opening closing : String) (start : Token) :
      ScanLoop (groupLoop opening closing start).round fun depth ts =>
        orFault ((groupInside opening closing depth ts).map Prod.snd)
          (.at (.unclosed opening) start)
  | statement : ScanLoop statementLoop.round fun depth ts => remaining (takeStatementFrom depth ts)
  | segments : ScanLoop segmentRound fun name ts => remaining (qualifiedNameFrom name ts)
  | sections (path : String) : ScanLoop (sectionLoop path).round fun _ ts =>
      remaining (readSections path ts)
  | sectionItems (path : String) :
      ScanLoop (sectionItemLoop path).round fun _ ts => remaining (readSectionItems path ts)
  | modifiers : ScanLoop modifierLoop.round fun _ ts => .ok (readModifiers ts).2
  | enumHeader : ScanLoop enumHeaderLoop.round fun _ ts =>
      (nextToken (ts.dropWhile (·.text != openingBrace))).map fun (t, rest) => t :: rest
  | enumMembers (path enumName : String) (start : Token) :
      ScanLoop (enumMemberLoop path enumName start).round fun _ ts =>
        remaining (readEnumMembers path enumName start ts)
  | initialiser (enumName : String) (start : Token) :
      ScanLoop (initialiserLoop enumName start).round fun depth ts =>
        orFault (skipInitialiser depth ts) (.at (.unterminatedEnum enumName) start)
  | typeHeader (typeName : String) (start : Token) :
      ScanLoop (typeHeaderLoop typeName start).round fun depth ts =>
        orFault ((headerEnd depth ts).map fun (stop, rest) => stop :: rest)
          (.at (.missingBody typeName) start)
  | memberHeader : ScanLoop memberHeaderLoop.round fun depth ts =>
      orFault ((LocalisedEnum.memberHeader depth ts).map fun (_, stop, rest) => stop :: rest)
        (.malformed .truncatedMember none)
  | pieces (path : String) : ScanLoop (pieceRound path) fun w ts =>
      (Walk.run path w ts).map fun _ => []

/-! ### Every loop makes progress -/

section

variable {ts rest : List Token}

/-- A reader takes its tokens off the front, and it takes some. -/
theorem TakesFront.furtherOn {α : Type} {opens : List String}
    {read : List Token → Except Fault (α × List Token)} (h : TakesFront opens read ts) {a : α}
    (hread : read ts = .ok (a, rest)) (hless : rest.length < ts.length) : FurtherOn ts rest :=
  ⟨h.suffix hread, hless⟩

theorem progresses_segmentRound : Progresses segmentRound where
  again {s s' ts rest} h := by
    match ts with
    | [] => cases h
    | [t] => cases h
    | t :: part :: ts =>
        rw [segmentRound] at h
        split at h
        · cases h
          exact (furtherOn_cons t _).of_suffix (List.suffix_cons part _)
        · cases h
  leave {s ts rest} h := by
    match ts with
    | [] =>
        cases h
        exact List.suffix_rfl
    | [t] =>
        rw [segmentRound, Round.leave.injEq] at h
        split at h
        · cases h
        · cases h
          exact List.suffix_rfl
    | t :: part :: ts =>
        rw [segmentRound] at h
        split at h
        · cases h
        · cases h
          exact List.suffix_rfl

theorem pieceRound_eq_again {path : String} {w w' : Walk}
    (h : pieceRound path w ts = .again w' rest) : Walk.Step path w ts w' rest := by
  cases ts with
  | nil => cases h
  | cons t ts =>
      rw [pieceRound] at h
      split at h
      · next hbrace =>
        split at h
        · next hclose =>
          cases h
          exact .close hbrace hclose
        · cases h
      · next hbrace =>
        split at h
        · next hsemicolon =>
          cases h
          exact .semicolon hsemicolon
        · next hsemicolon =>
          split at h
          · next hdeclare =>
            cases h
            exact .declaration hbrace hsemicolon hdeclare
          · cases h

theorem Walk.Step.furtherOn {path : String} {w w' : Walk} (h : Walk.Step path w ts w' rest) :
    FurtherOn ts rest := by
  obtain ⟨used, _, rfl, _⟩ := h.front
  exact ⟨List.suffix_append used rest, h.length_lt⟩

theorem progresses_pieceRound (path : String) : Progresses (pieceRound path) where
  again h := (pieceRound_eq_again h).furtherOn
  leave {w ts rest} h := by
    cases ts with
    | nil =>
        rw [pieceRound, Round.leave.injEq] at h
        split at h
        · cases h
          exact List.suffix_rfl
        · cases h
    | cons t ts =>
        rw [pieceRound] at h
        split at h
        · split at h <;> cases h
        · split at h
          · cases h
          · split at h <;> cases h

end

theorem progresses_sectionLoop (path : String) : Progresses (sectionLoop path).round := by
  refine (sectionLoop path).progresses (fun {ts a rest} hstops hread => ?_) fun ts =>
    List.suffix_rfl
  have hopen : headIs "[" ts = true := by simpa [sectionLoop] using hstops
  have hbracket : FurtherOn ts (ts.drop 1) :=
    ⟨List.drop_suffix 1 ts, length_drop_one_lt_of_headIs hopen⟩
  exact hbracket.of_suffix
    (((takesFront_readSectionItems path _).suffix hread).trans (sectionTarget_suffix _))

theorem progresses_sectionItemLoop (path : String) : Progresses (sectionItemLoop path).round := by
  refine (sectionItemLoop path).progresses (fun {ts a rest} _ hread => ?_) (skip_suffix ",")
  exact (takesFront_readAttribute path ts).furtherOn hread (readAttribute_length_lt hread)

theorem progresses_enumMemberLoop (path enumName : String) (start : Token) :
    Progresses (enumMemberLoop path enumName start).round := by
  refine (enumMemberLoop path enumName start).progresses (fun {ts a rest} _ hread => ?_) fun ts =>
    List.suffix_rfl
  exact (takesFront_readEnumMember path enumName start ts).furtherOn hread
    (readEnumMember_length_lt hread)

/-- **Every loop of the walk makes progress.** -/
theorem ScanLoop.progresses {σ : Type} {round : σ → List Token → Round σ}
    {outcome : σ → List Token → Except Fault (List Token)} (h : ScanLoop round outcome) :
    Progresses round := by
  cases h with
  | group opening closing start => exact (groupLoop opening closing start).progresses
  | statement => exact statementLoop.progresses
  | segments => exact progresses_segmentRound
  | sections path => exact progresses_sectionLoop path
  | sectionItems path => exact progresses_sectionItemLoop path
  | modifiers => exact modifierLoop.progresses
  | enumHeader => exact enumHeaderLoop.progresses
  | enumMembers path enumName start => exact progresses_enumMemberLoop path enumName start
  | initialiser enumName start => exact (initialiserLoop enumName start).progresses
  | typeHeader typeName start => exact (typeHeaderLoop typeName start).progresses
  | memberHeader => exact memberHeaderLoop.progresses
  | pieces path => exact progresses_pieceRound path

/-! ### What the walk gets from its loops -/

theorem follows_groupLoop (opening closing : String) (start : Token) :
    Follows
      (fun depth ts => orFault ((groupInside opening closing depth ts).map Prod.snd)
        (.at (.unclosed opening) start)) (groupLoop opening closing start).round := by
  refine (groupLoop opening closing start).follows (fun _ => rfl) fun depth t rest => ?_
  by_cases hopening : t.text = opening
  · simp [groupLoop, groupInside_opening depth rest hopening, hopening, Function.comp_def]
  · by_cases hclosing : t.text = closing
    · have hne : closing ≠ opening := hclosing ▸ hopening
      cases depth with
      | zero => simp [groupLoop, groupInside_end rest hopening hclosing, hclosing, hne, orFault]
      | succ depth =>
          simp [groupLoop, groupInside_closing depth rest hopening hclosing, hclosing, hne,
            Function.comp_def]
    · simp [groupLoop, groupInside_other depth rest hopening hclosing, hopening, hclosing,
        Function.comp_def]

theorem follows_statementLoop :
    Follows (fun depth ts => remaining (takeStatementFrom depth ts)) statementLoop.round := by
  refine statementLoop.follows (fun _ => rfl) fun depth t rest => ?_
  simp only [remaining, takeStatementFrom, statementLoop, Bool.and_eq_true, beq_iff_eq,
    decide_eq_true_eq]
  split
  · rfl
  · cases takeStatementFrom (depth + statementNesting t) rest <;> rfl

theorem follows_segmentRound :
    Follows (fun name ts => remaining (qualifiedNameFrom name ts)) segmentRound := by
  intro name ts
  match ts with
  | [] => rfl
  | [t] =>
      simp only [qualifiedNameFrom, segmentRound]
      split <;> rfl
  | t :: part :: rest =>
      simp only [qualifiedNameFrom, segmentRound]
      split <;> rfl

/-- What remains behind two parts in a row is what remains behind the second. -/
theorem remaining_bind {α β γ : Type} (read : Except Fault (α × List Token))
    (next : List Token → Except Fault (β × List Token)) (join : α → β → γ) :
    (remaining do
      let (a, rest) ← read
      let (b, rest) ← next rest
      return (join a b, rest)) = read >>= fun p => remaining (next p.2) := by
  rcases read with e | ⟨a, rest⟩
  · rfl
  · show remaining (next rest >>= fun p => pure (join a p.1, p.2)) = remaining (next rest)
    cases next rest <;> rfl

theorem follows_sectionLoop (path : String) :
    Follows (fun _ ts => remaining (readSections path ts)) (sectionLoop path).round := by
  refine (sectionLoop path).follows (fun ts h => ?_) fun ts h => ?_
  · have hopen : ¬headIs "[" ts = true := by simpa [sectionLoop] using h
    rw [readSections_eq, if_neg hopen]
    rfl
  · have hopen : headIs "[" ts = true := by simpa [sectionLoop] using h
    rw [readSections_eq, if_pos hopen]
    exact remaining_bind (readSectionItems path (sectionTarget (ts.drop 1)).2) (readSections path)
      fun items more => keptItems (sectionTarget (ts.drop 1)).1 items ++ more

theorem follows_sectionItemLoop (path : String) :
    Follows (fun _ ts => remaining (readSectionItems path ts)) (sectionItemLoop path).round := by
  refine (sectionItemLoop path).follows (fun ts h => ?_) fun ts h => ?_
  · have hclose : headIs "]" ts = true := h
    rw [readSectionItems_eq, if_pos hclose]
    rfl
  · have hclose : headIs "]" ts = false := h
    rw [readSectionItems_eq, if_neg (Bool.eq_false_iff.1 hclose)]
    exact remaining_bind (readAttribute path ts) (fun rest => readSectionItems path (skip "," rest))
      List.cons

theorem follows_enumMemberLoop (path enumName : String) (start : Token) :
    Follows (fun _ ts => remaining (readEnumMembers path enumName start ts))
      (enumMemberLoop path enumName start).round := by
  refine (enumMemberLoop path enumName start).follows (fun ts h => ?_) fun ts h => ?_
  · have hclose : headIs closingBrace ts = true := h
    rw [readEnumMembers_eq, if_pos hclose]
    rfl
  · have hclose : headIs closingBrace ts = false := h
    rw [readEnumMembers_eq, if_neg (Bool.eq_false_iff.1 hclose)]
    exact remaining_bind (readEnumMember path enumName start ts)
      (readEnumMembers path enumName start) List.cons

theorem follows_modifierLoop :
    Follows (fun _ ts => .ok (readModifiers ts).2) modifierLoop.round := by
  refine modifierLoop.follows (fun _ => rfl) fun _ t rest => ?_
  by_cases hmodifier : isModifier t = true <;> simp [modifierLoop, readModifiers, hmodifier]

theorem follows_enumHeaderLoop :
    Follows
      (fun _ ts =>
        (nextToken (ts.dropWhile (·.text != openingBrace))).map fun (t, rest) => t :: rest)
      enumHeaderLoop.round := by
  refine enumHeaderLoop.follows (fun _ => rfl) fun _ t rest => ?_
  by_cases hbrace : t.text = openingBrace <;> simp [enumHeaderLoop, hbrace, nextToken, Except.map]

theorem follows_initialiserLoop (enumName : String) (start : Token) :
    Follows
      (fun depth ts => orFault (skipInitialiser depth ts) (.at (.unterminatedEnum enumName) start))
      (initialiserLoop enumName start).round := by
  refine (initialiserLoop enumName start).follows (fun _ => rfl) fun depth t rest => ?_
  simp only [initialiserLoop, skipInitialiser, Bool.and_eq_true, Bool.or_eq_true, beq_iff_eq]
  split <;> rfl

theorem follows_typeHeaderLoop (typeName : String) (start : Token) :
    Follows (fun depth ts => orFault ((headerEnd depth ts).map fun (stop, rest) => stop :: rest)
      (.at (.missingBody typeName) start)) (typeHeaderLoop typeName start).round := by
  refine (typeHeaderLoop typeName start).follows (fun _ => rfl) fun depth t rest => ?_
  simp only [typeHeaderLoop, headerEnd, Bool.and_eq_true, Bool.or_eq_true, beq_iff_eq]
  split <;> rfl

theorem follows_memberHeaderLoop :
    Follows
      (fun depth ts => orFault ((memberHeader depth ts).map fun (_, stop, rest) => stop :: rest)
        (.malformed .truncatedMember none)) memberHeaderLoop.round := by
  refine memberHeaderLoop.follows (fun _ => rfl) fun depth t rest => ?_
  simp only [memberHeaderLoop, memberHeader, Bool.and_eq_true, beq_iff_eq]
  split
  · rfl
  · rw [Option.map_map]
    rfl

theorem follows_pieceRound (path : String) :
    Follows (fun w ts => (Walk.run path w ts).map fun _ => []) (pieceRound path) := by
  intro w ts
  cases ts with
  | nil =>
      simp only [Walk.run, pieceRound]
      split <;> rfl
  | cons t rest =>
      simp only [Walk.run_cons, pieceRound]
      split
      · cases w.close? <;> rfl
      · split
        · rfl
        · cases w.declare path t rest <;> rfl

/-- **What the walk gets from each loop** is what the loop is left with. -/
theorem ScanLoop.follows {σ : Type} {round : σ → List Token → Round σ}
    {outcome : σ → List Token → Except Fault (List Token)} (h : ScanLoop round outcome) :
    Follows outcome round := by
  cases h with
  | group opening closing start => exact follows_groupLoop opening closing start
  | statement => exact follows_statementLoop
  | segments => exact follows_segmentRound
  | sections path => exact follows_sectionLoop path
  | sectionItems path => exact follows_sectionItemLoop path
  | modifiers => exact follows_modifierLoop
  | enumHeader => exact follows_enumHeaderLoop
  | enumMembers path enumName start => exact follows_enumMemberLoop path enumName start
  | initialiser enumName start => exact follows_initialiserLoop enumName start
  | typeHeader typeName start => exact follows_typeHeaderLoop typeName start
  | memberHeader => exact follows_memberHeaderLoop
  | pieces path => exact follows_pieceRound path

end LocalisedEnum

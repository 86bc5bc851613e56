import LocalisedEnum.Proofs.Declaration.Course
import LocalisedEnum.Proofs.Declaration.Overlong
import Mathlib.Control.Monad.Basic

/-!
**The expressions that are evaluated.**

Most of a file is passed over: bodies, initialisers, base lists.  Two kinds of expressions are
evaluated while the file is read, the arguments of attributes and the initialisers of constants, and
each of them as soon as the walk comes to it.  If such an expression has no value, this ends the
reading of the file with a fault of its own kind, which nothing else leaves behind.

What a reader comes to is described without the faults: it comes to an expression when everything in
front of this has been read.  So the descriptions are made for expressions with any property.

Main definitions:

* `NeverEscapes` — a reader that evaluates nothing;
* `LoopMeets` — a reader of one item after the other comes to an expression;
* `AttributeMeets`, `SectionsMeet`, `EnumMeets`, `ConstantsMeet` — a reader comes to an expression;
* `DeclarationMeets`, `Walk.Meets` — and so does a walk.

Main results:

* `loop_escape_iff` — a loop fails for an escape exactly when it comes to an item that does;
* `readSections_escape_iff`, `readEnumBody_escape_iff`, `readConstants_escape_iff` — a reader fails
  for an escape exactly when it comes to an expression that has no value;
* `run_escape_iff` — and so does a walk;
* `readSource_escape_iff` — **what comes of reading a text**.
-/

set_option autoImplicit false
set_option relaxedAutoImplicit false

namespace LocalisedEnum

/-! ### Readers that evaluate nothing -/

/-- A reader that does not fail for an escape. -/
structure NeverEscapes {α : Type} (x : Except Fault α) : Prop where
  ne_error : ∀ e, x ≠ .error (.escape e)

namespace NeverEscapes

theorem ok {α : Type} (a : α) : NeverEscapes (.ok a : Except Fault α) :=
  ⟨nofun⟩

theorem malformed {α : Type} (cause : FaultCause) (line : Option Nat) :
    NeverEscapes (.error (.malformed cause line) : Except Fault α) :=
  ⟨nofun⟩

theorem bind {α β : Type} {x : Except Fault α} {f : α → Except Fault β} (hx : NeverEscapes x)
    (hf : ∀ a, NeverEscapes (f a)) : NeverEscapes (x >>= f) := by
  refine ⟨fun e h => ?_⟩
  rcases bind_eq_error.1 h with h | ⟨a, _, h⟩
  · exact hx.ne_error e h
  · exact (hf a).ne_error e h

/-- Where the first step does not fail for an escape, the chain does so only behind it. -/
theorem bind_eq_error_iff {α β : Type} {x : Except Fault α} {f : α → Except Fault β}
    (hx : NeverEscapes x) {e : EscapeError} :
    (x >>= f) = .error (.escape e) ↔ ∃ a, x = .ok a ∧ f a = .error (.escape e) := by
  rw [bind_eq_error]
  exact ⟨fun h => h.resolve_left (hx.ne_error e), Or.inr⟩

end NeverEscapes

theorem nextToken_neverEscapes (ts : List Token) : NeverEscapes (nextToken ts) := by
  cases ts with
  | nil => exact .malformed ..
  | cons => exact .ok _

theorem expect_neverEscapes (text : String) (ts : List Token) : NeverEscapes (expect text ts) := by
  cases ts with
  | nil => exact .malformed ..
  | cons t ts =>
      rw [expect]
      split
      · exact .ok _
      · exact .malformed ..

theorem qualifiedName_neverEscapes (ts : List Token) : NeverEscapes (qualifiedName ts) := by
  cases ts with
  | nil => exact .malformed ..
  | cons t ts =>
      rw [qualifiedName]
      fun_induction qualifiedNameFrom t.plain ts with
      | case1 => exact .ok _
      | case2 => exact .malformed ..
      | case3 => exact .ok _
      | case4 _ _ _ _ _ ih => exact ih
      | case5 => exact .ok _

theorem takeGroup_neverEscapes (opening closing : String) (ts : List Token) :
    NeverEscapes (takeGroup opening closing ts) := by
  cases ts with
  | nil => exact .malformed ..
  | cons t ts =>
      rw [takeGroup]
      split
      · split
        · exact .ok _
        · exact .malformed ..
      · exact .malformed ..

theorem takeStatementFrom_neverEscapes (depth : Int) (ts : List Token) :
    NeverEscapes (takeStatementFrom depth ts) := by
  induction ts generalizing depth with
  | nil => exact .malformed ..
  | cons t ts ih =>
      rw [takeStatementFrom]
      split
      · exact .ok _
      · split
        · exact .ok _
        · next e he => exact ⟨fun e' h => (ih _).ne_error e' (he.trans h)⟩

theorem takeStatement_neverEscapes (ts : List Token) : NeverEscapes (takeStatement ts) :=
  takeStatementFrom_neverEscapes 0 ts

theorem withTypeArguments_neverEscapes (name : String) (ts : List Token) :
    NeverEscapes (withTypeArguments name ts) := by
  rw [withTypeArguments]
  split
  · split
    · exact .ok _
    · next e he =>
      refine ⟨fun e' h => (takeGroup_neverEscapes "<" ">" ts).ne_error e' ?_⟩
      cases h
      exact he
  · exact .ok _

theorem readArgumentList_neverEscapes (ts : List Token) : NeverEscapes (readArgumentList ts) := by
  rw [readArgumentList]
  split
  · split
    · exact .ok _
    · next e he =>
      refine ⟨fun e' h => (takeGroup_neverEscapes "(" ")" ts).ne_error e' ?_⟩
      cases h
      exact he
  · exact .ok _

theorem readUsing_neverEscapes (ts : List Token) : NeverEscapes (readUsing ts) := by
  rw [readUsing]
  split
  · exact (takeGroup_neverEscapes ..).bind fun _ => .ok _
  · split
    · exact (takeStatement_neverEscapes ts).bind fun _ => .ok _
    · refine (qualifiedName_neverEscapes ts).bind fun _ => ?_
      simp only
      split
      · exact .ok _
      · exact (takeStatement_neverEscapes _).bind fun _ => .ok _

theorem readTypeHeader_neverEscapes (kind : String) (start : Token) (ts : List Token) :
    NeverEscapes (readTypeHeader kind start ts) := by
  refine (nextToken_neverEscapes _).bind fun ⟨name, afterName⟩ => ?_
  simp only
  split
  · exact .ok _
  · exact .malformed ..

theorem skipAfterBraces_neverEscapes (header : List Token) (isProperty : Bool) (ts : List Token) :
    NeverEscapes (skipAfterBraces header isProperty ts) := by
  rw [skipAfterBraces]
  split
  · exact (takeStatement_neverEscapes ts).bind fun _ => .ok _
  · exact .ok _

theorem readMember_neverEscapes (modifiers : List String) (ts : List Token) :
    NeverEscapes (readMember modifiers ts) := by
  rw [readMember]
  split
  · exact .malformed ..
  · next header stop rest _ =>
    simp only
    split
    · exact .ok _
    · split
      · exact .ok _
      · split
        · refine (takeGroup_neverEscapes ..).bind fun p => ?_
          exact (skipAfterBraces_neverEscapes ..).bind fun _ => .ok _
        · exact (takeStatement_neverEscapes rest).bind fun _ => .ok _

/-! ### Loops -/

section

variable {α β : Type} (goesOn : List Token → Bool)
  (one : List Token → Except Fault (β × List Token)) (after : List Token → List Token)
  (meets : List Token → Prop)

/-- A reader that takes one item after the other comes to an expression: in the item at the front,
or behind it. -/
inductive LoopMeets : List Token → Prop
  | here {ts : List Token} (hgo : goesOn ts = true) (h : meets ts) : LoopMeets ts
  | there {ts mid : List Token} {item : β} (hgo : goesOn ts = true)
      (hread : one ts = .ok (item, mid)) (h : LoopMeets (after mid)) : LoopMeets ts

variable {goesOn} {one} {after} {meets}

theorem loopMeets_iff {ts : List Token} :
    LoopMeets goesOn one after meets ts ↔ goesOn ts = true ∧ (meets ts ∨
      ∃ p, one ts = .ok p ∧ LoopMeets goesOn one after meets (after p.2)) := by
  constructor
  · intro h
    cases h with
    | here hgo h => exact ⟨hgo, Or.inl h⟩
    | there hgo hread h => exact ⟨hgo, Or.inr ⟨_, hread, h⟩⟩
  · rintro ⟨hgo, h | ⟨p, hread, h⟩⟩
    · exact .here hgo h
    · exact .there hgo hread h

/-- **A loop fails for an escape** exactly when it comes to an item that does. -/
theorem loop_escape_iff {e : EscapeError} {read : List Token → Except Fault (α × List Token)}
    (combine : List Token → β → α → α) (done : List Token → α × List Token)
    (hread : ∀ ts, read ts = if goesOn ts then
      one ts >>= fun p => read (after p.2) >>= fun q => pure (combine ts p.1 q.1, q.2)
      else .ok (done ts))
    (hshrinks : ∀ ts p, goesOn ts = true → one ts = .ok p → (after p.2).length < ts.length)
    (hone : ∀ ts, one ts = .error (.escape e) ↔ meets ts) (ts : List Token) :
    read ts = .error (.escape e) ↔ LoopMeets goesOn one after meets ts := by
  rw [hread, loopMeets_iff]
  cases hgo : goesOn ts with
  | false => simp
  | true =>
      simp only [if_true, true_and]
      rw [bind_eq_error, hone]
      refine or_congr_right (exists_congr fun p => and_congr_right fun hp => ?_)
      rw [bind_pure_eq_error]
      exact loop_escape_iff combine done hread hshrinks hone (after p.2)
  termination_by ts.length
  decreasing_by exact hshrinks ts p hgo hp

end

/-! ### Attributes -/

section

variable (P : List Token → Prop)

/-- The reader of an attribute comes to an expression with the property: its name and its arguments
are there. -/
inductive AttributeMeets (ts : List Token) : Prop
  | mk {name full : String} {afterName afterTypes rest : List Token} {arguments : List (List Token)}
      (hname : qualifiedName ts = .ok (name, afterName))
      (htypes : withTypeArguments name afterName = .ok (full, afterTypes))
      (harguments : readArgumentList afterTypes = .ok (arguments, rest))
      (h : ArgumentsMeet P arguments) : AttributeMeets ts

/-- One of the attributes up to the end of a section has such an expression. -/
def SectionItemsMeet (path : String) : List Token → Prop :=
  LoopMeets (!headIs "]" ·) (readAttribute path) (skip ",") (AttributeMeets P)

/-- The section at the front, behind its target. -/
def readSection (path : String) (ts : List Token) : Except Fault (List Attribute × List Token) :=
  readSectionItems path (sectionTarget (ts.drop 1)).2

/-- One of the sections at the front has such an expression. -/
def SectionsMeet (path : String) : List Token → Prop :=
  LoopMeets (headIs "[") (readSection path) id fun ts =>
    SectionItemsMeet P path (sectionTarget (ts.drop 1)).2

/-- The attributes of one of the members of an enum have such an expression. -/
def EnumMembersMeet (path enumName : String) (start : Token) : List Token → Prop :=
  LoopMeets (!headIs closingBrace ·) (readEnumMember path enumName start) id (SectionsMeet P path)

/-- The reader of an enum, behind its keyword, comes to such an expression. -/
inductive EnumMeets (path : String) (start : Token) (ts : List Token) : Prop
  | mk {name brace : Token} {afterName body : List Token}
      (hname : nextToken ts = .ok (name, afterName))
      (hbrace : nextToken (afterName.dropWhile (·.text != openingBrace)) = .ok (brace, body))
      (h : EnumMembersMeet P path name.plain start body) : EnumMeets path start ts

end

theorem readAttribute_escape_iff {path : String} {e : EscapeError} (ts : List Token) :
    readAttribute path ts = .error (.escape e) ↔ AttributeMeets (OverlongSum e) ts := by
  rw [readAttribute, (qualifiedName_neverEscapes ts).bind_eq_error_iff]
  constructor
  · rintro ⟨⟨name, afterName⟩, hname, h⟩
    obtain ⟨⟨full, afterTypes⟩, htypes, h⟩ :=
      (withTypeArguments_neverEscapes ..).bind_eq_error_iff.1 h
    obtain ⟨⟨arguments, rest⟩, harguments, h⟩ :=
      (readArgumentList_neverEscapes _).bind_eq_error_iff.1 h
    simp only [bind_pure_eq_error, orEscapeFault_eq_error] at h
    exact .mk hname htypes harguments (withArguments_eq_error_iff.1 h)
  · rintro ⟨hname, htypes, harguments, h⟩
    refine ⟨_, hname, (withTypeArguments_neverEscapes ..).bind_eq_error_iff.2 ⟨_, htypes, ?_⟩⟩
    refine (readArgumentList_neverEscapes _).bind_eq_error_iff.2 ⟨_, harguments, ?_⟩
    simp only [bind_pure_eq_error, orEscapeFault_eq_error]
    exact withArguments_eq_error_iff.2 h

theorem readSectionItems_escape_iff {path : String} {e : EscapeError} (ts : List Token) :
    readSectionItems path ts = .error (.escape e) ↔ SectionItemsMeet (OverlongSum e) path ts := by
  refine loop_escape_iff (fun _ a more => a :: more) (fun ts => ([], ts.drop 1)) (fun ts => ?_)
    (fun ts p _ hp => ?_) readAttribute_escape_iff ts
  · rw [readSectionItems_eq]
    cases headIs "]" ts <;> rfl
  · exact Nat.lt_of_le_of_lt (skip_length_le ..) (readAttribute_length_lt hp)

/-- **Sections of attributes** fail for an escape exactly when they come to an argument that has no
value. -/
theorem readSections_escape_iff {path : String} {e : EscapeError} (ts : List Token) :
    readSections path ts = .error (.escape e) ↔ SectionsMeet (OverlongSum e) path ts := by
  refine loop_escape_iff
    (fun ts items more => keptItems (sectionTarget (ts.drop 1)).1 items ++ more)
    (fun ts => ([], ts)) (fun ts => ?_) (fun ts p hopening hp => ?_)
    (fun ts => readSectionItems_escape_iff _) ts
  · rw [readSections_eq]
    cases headIs "[" ts <;> rfl
  · have hitems := readSectionItems_length_lt hp
    have htarget := sectionTarget_length_le (ts.drop 1)
    have hbracket := length_drop_one_lt_of_headIs hopening
    exact Nat.lt_trans (Nat.lt_of_lt_of_le hitems htarget) hbracket

/-! ### Enums -/

theorem readEnumMember_escape_iff {path enumName : String} {start : Token} {e : EscapeError}
    (ts : List Token) :
    readEnumMember path enumName start ts = .error (.escape e) ↔
      SectionsMeet (OverlongSum e) path ts := by
  rw [readEnumMember, bind_eq_error, readSections_escape_iff]
  refine or_iff_left ?_
  rintro ⟨⟨attributes, afterSections⟩, _, h⟩
  refine ((nextToken_neverEscapes afterSections).bind fun ⟨member, afterMember⟩ => ?_).ne_error e h
  simp only
  split
  · split
    · exact .ok _
    · exact .malformed ..
  · exact .malformed ..

theorem readEnumMembers_escape_iff {path enumName : String} {start : Token} {e : EscapeError}
    (ts : List Token) :
    readEnumMembers path enumName start ts = .error (.escape e) ↔
      EnumMembersMeet (OverlongSum e) path enumName start ts := by
  refine loop_escape_iff (fun _ member more => member :: more) (fun ts => ([], ts.drop 1))
    (fun ts => ?_) (fun ts p _ hp => readEnumMember_length_lt hp) readEnumMember_escape_iff ts
  rw [readEnumMembers_eq]
  cases headIs closingBrace ts <;> rfl

theorem readEnumBody_escape_iff {path : String} {start : Token} {ts : List Token}
    {e : EscapeError} :
    readEnumBody path start ts = .error (.escape e) ↔ EnumMeets (OverlongSum e) path start ts := by
  rw [readEnumBody, (nextToken_neverEscapes ts).bind_eq_error_iff]
  constructor
  · rintro ⟨⟨name, afterName⟩, hname, h⟩
    obtain ⟨⟨brace, body⟩, hbrace, h⟩ := (nextToken_neverEscapes _).bind_eq_error_iff.1 h
    refine .mk hname hbrace ((readEnumMembers_escape_iff body).1 ?_)
    exact (bind_ok_eq_error fun _ => ⟨_, rfl⟩).1 h
  · rintro ⟨hname, hbrace, h⟩
    refine ⟨_, hname, (nextToken_neverEscapes _).bind_eq_error_iff.2 ⟨_, hbrace, ?_⟩⟩
    exact (bind_ok_eq_error fun _ => ⟨_, rfl⟩).2 ((readEnumMembers_escape_iff _).2 h)

/-! ### Constants -/

/-- The initialiser of one of the constants has the property, and those in front of it have
values. -/
inductive ConstantsMeet (P : List Token → Prop) (ts : List Token) : Prop
  | mk {inside rest : List Token} (hread : takeStatement ts = .ok (inside, rest))
      (h : FirstOf (fun declarator => ∀ initialiser ∈ initialiserOf? declarator, Valued initialiser)
        (fun declarator => ∃ initialiser ∈ initialiserOf? declarator, P initialiser)
        (splitArguments inside)) : ConstantsMeet P ts

theorem readConstants_escape_iff {ts : List Token} {e : EscapeError} :
    readConstants ts = .error (.escape e) ↔ ConstantsMeet (OverlongSum e) ts := by
  have hconstants : ∀ inside,
      orEscapeFault (constantsOf (splitArguments inside)) = .error (.escape e) ↔
        FirstOf (fun declarator => ∀ initialiser ∈ initialiserOf? declarator, Valued initialiser)
          (fun declarator => ∃ initialiser ∈ initialiserOf? declarator, OverlongSum e initialiser)
          (splitArguments inside) := by
    intro inside
    rw [orEscapeFault_eq_error, constantsOf, bind_pure_eq_error, mapM_eq_error_iff]
    simp only [exists_constantOf_iff, constantOf_eq_error_iff]
  rw [readConstants, (takeStatement_neverEscapes ts).bind_eq_error_iff]
  constructor
  · rintro ⟨⟨inside, rest⟩, hread, h⟩
    exact .mk hread ((hconstants inside).1 (bind_pure_eq_error.1 h))
  · rintro ⟨hread, h⟩
    exact ⟨_, hread, bind_pure_eq_error.2 ((hconstants _).2 h)⟩

/-! ### Declarations -/

theorem declareUsing_neverEscapes (w : Walk) (ts : List Token) : NeverEscapes (w.declareUsing ts) :=
  (readUsing_neverEscapes ts).bind fun _ => .ok _

theorem declareGlobalUsing_neverEscapes (w : Walk) (ts : List Token) :
    NeverEscapes (w.declareGlobalUsing ts) :=
  (readUsing_neverEscapes ts).bind fun _ => .ok _

theorem declareNamespace_neverEscapes (w : Walk) (ts : List Token) :
    NeverEscapes (w.declareNamespace ts) := by
  refine (qualifiedName_neverEscapes ts).bind fun ⟨name, afterName⟩ => ?_
  simp only
  split
  · exact .ok _
  · exact (expect_neverEscapes ..).bind fun _ => .ok _

theorem declareType_neverEscapes (w : Walk) (path kind : String) (start : Token)
    (modifiers : List String) (ts : List Token) :
    NeverEscapes (w.declareType path kind start modifiers ts) := by
  refine (readTypeHeader_neverEscapes kind start ts).bind fun ⟨header, rest⟩ => ?_
  simp only
  split <;> exact .ok _

theorem declareMember_neverEscapes (w : Walk) (modifiers : List String) (ts : List Token) :
    NeverEscapes (w.declareMember modifiers ts) :=
  (readMember_neverEscapes modifiers ts).bind fun _ => .ok _

/-- What stands behind the modifiers is read as constants: none of the words in front of other
declarations stands there, and imports and namespaces are such where they may be declared. -/
structure Walk.ReadsConstants (w : Walk) (modifiers : List String) (head : Token)
    (rest : List Token) : Prop where
  const : modifiers.contains "const" = true
  keyword : head.text ∉ "enum" :: "delegate" :: typeKeywords
  level : w.scope.inType = true ∨
    head.text ≠ "using" ∧ head.text ≠ "namespace" ∧
    ¬ (head.text = "global" ∧ headIs "using" rest = true)

/-- The walk comes, in the declaration at the front, to an expression with the property: in an
attribute of the declaration, in one of an enum member, or in a constant. -/
inductive DeclarationMeets (P : List Token → Prop) (w : Walk) (path : String) (start : Token)
    (ts : List Token) : Prop
  | attributes (h : SectionsMeet P path ts) : DeclarationMeets P w path start ts
  | members {attributes : List Attribute} {afterSections rest : List Token} {head : Token}
      (hsections : readSections path ts = .ok (attributes, afterSections))
      (hhead : (readModifiers afterSections).2 = head :: rest) (henum : head.text = "enum")
      (h : EnumMeets P path start rest) : DeclarationMeets P w path start ts
  | constants {attributes : List Attribute} {afterSections rest : List Token} {head : Token}
      (hsections : readSections path ts = .ok (attributes, afterSections))
      (hhead : (readModifiers afterSections).2 = head :: rest)
      (hreads : w.ReadsConstants (readModifiers afterSections).1 head rest)
      (h : ConstantsMeet P (head :: rest)) : DeclarationMeets P w path start ts

theorem declareEnum_escape_iff {w : Walk} {path : String} {start : Token}
    {attributes : List Attribute} {modifiers : List String} {ts : List Token} {e : EscapeError} :
    w.declareEnum path start attributes modifiers ts = .error (.escape e) ↔
      EnumMeets (OverlongSum e) path start ts :=
  (bind_ok_eq_error fun _ => ⟨_, rfl⟩).trans readEnumBody_escape_iff

theorem declareConstants_escape_iff {w : Walk} {ts : List Token} {e : EscapeError} :
    w.declareConstants ts = .error (.escape e) ↔ ConstantsMeet (OverlongSum e) ts :=
  (bind_ok_eq_error fun _ => ⟨_, rfl⟩).trans readConstants_escape_iff

/-- Behind the attributes only enums and constants have expressions. -/
theorem declareHead_escape_iff {w : Walk} {path : String} {start head : Token}
    {attributes : List Attribute} {modifiers : List String} {rest : List Token} {e : EscapeError} :
    w.declareHead path start attributes modifiers head rest = .error (.escape e) ↔
      head.text = "enum" ∧ EnumMeets (OverlongSum e) path start rest ∨
      w.ReadsConstants modifiers head rest ∧ ConstantsMeet (OverlongSum e) (head :: rest) := by
  -- a declaration of another kind has neither
  have hother : ∀ {x : Except Fault (Walk × List Token)}, NeverEscapes x → head.text ≠ "enum" →
      ¬ w.ReadsConstants modifiers head rest → (x = .error (.escape e) ↔
        head.text = "enum" ∧ EnumMeets (OverlongSum e) path start rest ∨
          w.ReadsConstants modifiers head rest ∧ ConstantsMeet (OverlongSum e) (head :: rest)) := by
    intro x hx henum hreads
    refine iff_of_false (hx.ne_error e) ?_
    rintro (⟨h, _⟩ | ⟨h, _⟩)
    · exact henum h
    · exact hreads h
  refine Walk.declareHead_cases (motive := fun x => x = .error (.escape e) ↔ _) ?importGlobally
    ?importLocally ?inNamespace ?enum ?type ?delegate ?constants ?member
  case importGlobally =>
    intro hlevel hhead husing
    refine hother (declareGlobalUsing_neverEscapes ..) (by rw [hhead]; decide) fun h => ?_
    exact h.level.elim (fun hin => by simp [hlevel] at hin) fun h => h.2.2 ⟨hhead, husing⟩
  case importLocally =>
    intro hlevel hhead
    refine hother (declareUsing_neverEscapes ..) (by rw [hhead]; decide) fun h => ?_
    exact h.level.elim (fun hin => by simp [hlevel] at hin) fun h => h.1 hhead
  case inNamespace =>
    intro hlevel hhead
    refine hother (declareNamespace_neverEscapes ..) (by rw [hhead]; decide) fun h => ?_
    exact h.level.elim (fun hin => by simp [hlevel] at hin) fun h => h.2.1 hhead
  case enum =>
    intro hhead
    have hreads : ¬ w.ReadsConstants modifiers head rest := fun h => h.keyword (by simp [hhead])
    simp [hhead, hreads, declareEnum_escape_iff]
  case type =>
    intro hhead
    have henum : head.text ≠ "enum" := fun h => absurd (h ▸ hhead) (by decide)
    refine hother (declareType_neverEscapes ..) henum fun h => h.keyword ?_
    exact List.mem_cons_of_mem _ (List.mem_cons_of_mem _ hhead)
  case delegate =>
    intro hhead
    refine hother ((takeStatement_neverEscapes rest).bind fun _ => .ok _) (by rw [hhead]; decide)
      fun h => h.keyword ?_
    simp [hhead]
  case constants =>
    intro hkeyword hlevel hconst
    have henum : head.text ≠ "enum" := fun h => hkeyword (h ▸ List.mem_cons_self)
    have hreads : w.ReadsConstants modifiers head rest := ⟨hconst, hkeyword, hlevel⟩
    simp [henum, hreads, declareConstants_escape_iff]
  case member =>
    intro hkeyword hconst
    refine hother (declareMember_neverEscapes ..) (fun h => hkeyword (h ▸ List.mem_cons_self))
      fun h => ?_
    rw [h.const] at hconst
    cases hconst

theorem declareBody_escape_iff {w : Walk} {path : String} {start : Token}
    {attributes : List Attribute} {modifiers : List String} {ts : List Token} {e : EscapeError} :
    w.declareBody path start attributes modifiers ts = .error (.escape e) ↔
      ∃ head rest, ts = head :: rest ∧
        (head.text = "enum" ∧ EnumMeets (OverlongSum e) path start rest ∨
          w.ReadsConstants modifiers head rest ∧ ConstantsMeet (OverlongSum e) (head :: rest)) := by
  cases ts with
  | nil =>
      rw [Walk.declareBody_nil]
      refine iff_of_false ((NeverEscapes.malformed _ _).ne_error e) ?_
      rintro ⟨_, _, h, _⟩
      cases h
  | cons head rest =>
      rw [Walk.declareBody_cons, declareHead_escape_iff]
      constructor
      · exact fun h => ⟨head, rest, rfl, h⟩
      · rintro ⟨_, _, heq, h⟩
        cases heq
        exact h

theorem declare_escape_iff {w : Walk} {path : String} {start : Token} {rest : List Token}
    {e : EscapeError} :
    w.declare path start rest = .error (.escape e) ↔
      DeclarationMeets (OverlongSum e) w path start (start :: rest) := by
  rw [Walk.declare_eq, Walk.declareFrom, bind_eq_error, readSections_escape_iff]
  constructor
  · rintro (h | ⟨⟨attributes, afterSections⟩, hsections, h⟩)
    · exact .attributes h
    · obtain ⟨head, rest, hhead, ⟨henum, h⟩ | ⟨hreads, h⟩⟩ := declareBody_escape_iff.1 h
      · exact .members hsections hhead henum h
      · exact .constants hsections hhead hreads h
  · intro h
    cases h with
    | attributes h => exact Or.inl h
    | members hsections hhead henum h =>
        exact Or.inr ⟨_, hsections, declareBody_escape_iff.2 ⟨_, _, hhead, Or.inl ⟨henum, h⟩⟩⟩
    | constants hsections hhead hreads h =>
        exact Or.inr ⟨_, hsections, declareBody_escape_iff.2 ⟨_, _, hhead, Or.inr ⟨hreads, h⟩⟩⟩

/-! ### The walk -/

/-- **The walk comes to an expression with the property**: it gets as far as a declaration, and
comes to the expression in this declaration. -/
inductive Walk.Meets (P : List Token → Prop) (path : String) (w : Walk) (ts : List Token) : Prop
  | mk {w' : Walk} {t : Token} {rest : List Token}
      (hreaches : Walk.Reaches path w ts w' (t :: rest)) (hbrace : t.text ≠ closingBrace)
      (hsemicolon : t.text ≠ ";") (h : DeclarationMeets P w' path t (t :: rest)) :
      Walk.Meets P path w ts

theorem Walk.Meets.behind {P : List Token → Prop} {path : String} {w w' : Walk}
    {ts rest : List Token} (hstep : Walk.Step path w ts w' rest) (h : Walk.Meets P path w' rest) :
    Walk.Meets P path w ts := by
  obtain ⟨hreaches, hbrace, hsemicolon, h⟩ := h
  exact .mk (.step hstep hreaches) hbrace hsemicolon h

theorem meets_of_run_escape {path : String} {e : EscapeError} (w : Walk) (ts : List Token)
    (h : Walk.run path w ts = .error (.escape e)) : Walk.Meets (OverlongSum e) path w ts := by
  match ts with
  | [] =>
      rw [Walk.run] at h
      split at h <;> cases h
  | t :: rest =>
      rw [Walk.run_cons] at h
      by_cases hbrace : t.text = closingBrace
      · rw [if_pos hbrace] at h
        cases hclose : w.close? with
        | none =>
            rw [hclose] at h
            cases h
        | some w' =>
            rw [hclose] at h
            exact .behind (.close hbrace hclose) (meets_of_run_escape w' rest h)
      · rw [if_neg hbrace] at h
        by_cases hsemicolon : t.text = ";"
        · rw [if_pos hsemicolon] at h
          exact .behind (.semicolon hsemicolon) (meets_of_run_escape w rest h)
        · rw [if_neg hsemicolon] at h
          rcases bind_eq_error.1 h with h | ⟨⟨w', rest'⟩, hdeclare, h⟩
          · exact .mk (.refl w _) hbrace hsemicolon (declare_escape_iff.1 h)
          · exact .behind (.declaration hbrace hsemicolon hdeclare) (meets_of_run_escape w' rest' h)
  termination_by ts.length
  decreasing_by
    · exact Nat.lt_succ_self _
    · exact Nat.lt_succ_self _
    · exact Walk.declare_length_lt hbrace hdeclare

/-- **A walk ends with an escape** exactly when it comes to a sum that has no value. -/
theorem run_escape_iff {path : String} {w : Walk} {ts : List Token} {e : EscapeError} :
    Walk.run path w ts = .error (.escape e) ↔ Walk.Meets (OverlongSum e) path w ts := by
  refine ⟨meets_of_run_escape w ts, ?_⟩
  rintro ⟨hreaches, hbrace, hsemicolon, h⟩
  rw [hreaches.run, Walk.run_cons, if_neg hbrace, if_neg hsemicolon, declare_escape_iff.2 h]
  rfl

/-- **What comes of reading a text.**  The text is refused for an escape exactly when the walk over
its tokens comes to a sum of literals one of which has an escape past the end of Unicode, and
nothing of this kind comes before.  Otherwise the text is read, or it is refused with a cause and a
line of the file. -/
theorem readSource_escape_iff (path text : String) :
    (∀ e, readSource path text = .error (.escape e) ↔
      Walk.Meets (OverlongSum e) path .start (tokenise text)) ∧
    ((∃ file, readSource path text = .ok file) ∨
      (∃ line cause, readSource path text = .error (.malformed path line cause)) ∨
        ∃ e, Walk.Meets (OverlongSum e) path .start (tokenise text)) := by
  have hescape : ∀ e, readSource path text = .error (.escape e) ↔
      Walk.run path .start (tokenise text) = .error (.escape e) := by
    intro e
    refine readTokens_eq_error.trans ⟨?_, fun h => ⟨_, h, rfl⟩⟩
    rintro ⟨fault, hfault, hshown⟩
    cases fault with
    | malformed cause line => cases hshown
    | escape e =>
        cases hshown
        exact hfault
  refine ⟨fun e => (hescape e).trans run_escape_iff, ?_⟩
  cases hread : readSource path text with
  | ok file => exact Or.inl ⟨file, rfl⟩
  | error error =>
      obtain ⟨fault, hfault, rfl⟩ := readTokens_eq_error.1 hread
      cases fault with
      | malformed cause line => exact Or.inr (Or.inl ⟨_, _, rfl⟩)
      | escape e => exact Or.inr (Or.inr ⟨e, run_escape_iff.1 hfault⟩)

/-- The argument of an attribute whose escape is past the end of Unicode, and one past the machine
integers. -/
theorem readSource_overlong :
    readSource "File0.cs" "[A(\"\\U00110000\")] enum E \x7b X \x7d" =
      .error (.escape .pastUnicode) ∧
    readSource "File0.cs" "[A(\"\\UFFFFFFFF\")] enum E \x7b X \x7d" =
      .error (.escape .pastMachineInteger) := by
  decide +kernel

end LocalisedEnum

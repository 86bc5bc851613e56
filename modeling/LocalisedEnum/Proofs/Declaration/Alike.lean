import LocalisedEnum.Compilation
import LocalisedEnum.Proofs.Declaration.Effects
import LocalisedEnum.Proofs.Declaration.Evaluated
import Mathlib.Data.List.Forall2

/-!
**The walk does not read the enums it has declared.**

Enums are put into a scope and handed to the scope around it, and nothing on the way looks at them.
So two walks that differ in their enums only go the same way over the same tokens, and differ in
their enums only at the end.  The same holds where one declaration has other attributes in front of
it.

Main definitions:

* `Scope.Alike`, `Walk.Alike` — scopes and walks that differ in enums only, which are related by
  pairs;
* `ReplacedAttributes` — an enum, or the same enum with other attributes.

Main results:

* `Walk.Alike.step`, `Walk.Alike.run` — **the walk** from alike walks;
* `Walk.Reaches.front` — what is reached in front of some tokens is reached in front of others;
* `run_replacedAttributes` — **the walk over a file** in which one declaration has other attributes.
-/

set_option autoImplicit false
set_option relaxedAutoImplicit false

namespace LocalisedEnum

/-! ### Alike walks -/

section

variable {R : EnumDeclaration → EnumDeclaration → Prop}

/-- Scopes that differ in their enums only. -/
inductive Scope.Alike (R : EnumDeclaration → EnumDeclaration → Prop) (s : Scope) : Scope → Prop
  | intro {enums : List EnumDeclaration} (henums : List.Forall₂ R s.enums enums) :
      Scope.Alike R s { s with enums := enums }

/-- Walks that differ in the enums of their scopes only. -/
inductive Walk.Alike (R : EnumDeclaration → EnumDeclaration → Prop) : Walk → Walk → Prop
  | intro {s s' : Scope} {outer outer' : List Scope} {globalUsings : List String}
      (hscope : s.Alike R s') (houter : List.Forall₂ (Scope.Alike R) outer outer') :
      Walk.Alike R ⟨s, outer, globalUsings⟩ ⟨s', outer', globalUsings⟩

theorem Scope.Alike.refl (hR : ∀ e, R e e) (s : Scope) : s.Alike R s :=
  .intro (List.forall₂_same.2 fun e _ => hR e)

theorem Walk.Alike.refl (hR : ∀ e, R e e) (w : Walk) : w.Alike R w :=
  .intro (.refl hR w.scope) (List.forall₂_same.2 fun s _ => .refl hR s)

/-- What a scope takes over from one inside it. -/
theorem Scope.Alike.absorb {s s' inside inside' : Scope} (h : s.Alike R s')
    (hinside : inside.Alike R inside') : (s.absorb inside).Alike R (s'.absorb inside') := by
  cases h with
  | intro henums =>
      cases hinside with
      | intro hinner => exact .intro (List.rel_append henums hinner)

theorem Walk.Alike.close {w w' next : Walk} (h : w.Alike R w') (hclose : w.close? = some next) :
    ∃ next', w'.close? = some next' ∧ next.Alike R next' := by
  cases h with
  | intro hscope houter =>
      cases houter with
      | nil => cases hclose
      | cons hnext houter =>
          cases hclose
          exact ⟨_, rfl, .intro (hnext.absorb hscope) houter⟩

/-! ### Declarations -/

/-- Where the first outcome is a walk in front of some tokens, so is the second, and the walks are
alike. -/
def GoesAlike (R : EnumDeclaration → EnumDeclaration → Prop)
    (x y : Except Fault (Walk × List Token)) : Prop :=
  ∀ w rest, x = .ok (w, rest) → ∃ w', y = .ok (w', rest) ∧ w.Alike R w'

theorem GoesAlike.ok {w w' : Walk} (h : w.Alike R w') (rest : List Token) :
    GoesAlike R (.ok (w, rest)) (.ok (w', rest)) := by
  intro next rest' heq
  cases heq
  exact ⟨w', rfl, h⟩

theorem GoesAlike.bind {α : Type} {x : Except Fault α} {f g : α → Except Fault (Walk × List Token)}
    (h : ∀ a, GoesAlike R (f a) (g a)) : GoesAlike R (x >>= f) (x >>= g) := by
  intro w rest heq
  obtain ⟨a, hx, hf⟩ := bind_eq_ok.1 heq
  obtain ⟨w', hg, halike⟩ := h a w rest hf
  exact ⟨w', bind_eq_ok.2 ⟨a, hx, hg⟩, halike⟩

section Declarations

variable {w w' : Walk} (h : w.Alike R w')
include h

theorem Walk.Alike.declareEnum {path : String} {start : Token}
    {attributes attributes' : List Attribute} {modifiers : List String}
    (hdeclared : ∀ name members, R
      (w.scope.declaredEnum path start attributes modifiers name members)
      (w.scope.declaredEnum path start attributes' modifiers name members)) (ts : List Token) :
    GoesAlike R (w.declareEnum path start attributes modifiers ts)
      (w'.declareEnum path start attributes' modifiers ts) := by
  refine .bind fun (name, members, rest) => .ok ?_ rest
  cases h with
  | intro hscope houter =>
      cases hscope with
      | intro henums =>
          exact .intro (.intro (List.rel_append henums (.cons (hdeclared name members) .nil)))
            houter

theorem Walk.Alike.declareType (path kind : String) (start : Token) (modifiers : List String)
    (ts : List Token) :
    GoesAlike R (w.declareType path kind start modifiers ts)
      (w'.declareType path kind start modifiers ts) := by
  refine .bind fun (header, rest) => ?_
  cases h with
  | intro hscope houter =>
      cases hscope with
      | intro henums =>
          simp only
          split
          · exact .ok (.intro (.intro .nil) (.cons (.intro henums) houter)) rest
          · refine .ok ?_ rest
            exact .intro (.intro henums) houter

theorem Walk.Alike.declareNamespace (ts : List Token) :
    GoesAlike R (w.declareNamespace ts) (w'.declareNamespace ts) := by
  refine .bind fun (name, afterName) => ?_
  cases h with
  | intro hscope houter =>
      cases hscope with
      | intro henums =>
          simp only
          split
          · refine .ok ?_ _
            exact .intro (.intro henums) houter
          · exact .bind fun rest => .ok (.intro (.intro .nil) (.cons (.intro henums) houter)) rest

theorem Walk.Alike.declareUsing (ts : List Token) :
    GoesAlike R (w.declareUsing ts) (w'.declareUsing ts) := by
  refine .bind fun (name, rest) => .ok ?_ rest
  cases h with
  | intro hscope houter =>
      cases hscope with
      | intro henums => exact .intro (.intro henums) houter

theorem Walk.Alike.declareGlobalUsing (ts : List Token) :
    GoesAlike R (w.declareGlobalUsing ts) (w'.declareGlobalUsing ts) := by
  refine .bind fun (name, rest) => .ok ?_ rest
  cases h with
  | intro hscope houter => exact .intro hscope houter

theorem Walk.Alike.declareConstants (ts : List Token) :
    GoesAlike R (w.declareConstants ts) (w'.declareConstants ts) := by
  refine .bind fun (constants, rest) => .ok ?_ rest
  cases h with
  | intro hscope houter =>
      cases hscope with
      | intro henums => exact .intro (.intro henums) houter

theorem Walk.Alike.declareMember (modifiers : List String) (ts : List Token) :
    GoesAlike R (w.declareMember modifiers ts) (w'.declareMember modifiers ts) := by
  refine .bind fun (property, rest) => .ok ?_ rest
  cases h with
  | intro hscope houter =>
      cases hscope with
      | intro henums => exact .intro (.intro henums) houter

theorem Walk.Alike.inType : w'.scope.inType = w.scope.inType := by
  cases h with
  | intro hscope _ =>
      cases hscope
      rfl

/-- **A declaration** in front of alike walks, whose attributes only matter to an enum. -/
theorem Walk.Alike.declareHead {path : String} {start : Token}
    {attributes attributes' : List Attribute} {modifiers : List String}
    (hdeclared : ∀ name members, R
      (w.scope.declaredEnum path start attributes modifiers name members)
      (w.scope.declaredEnum path start attributes' modifiers name members)) (head : Token)
    (ts : List Token) :
    GoesAlike R (w.declareHead path start attributes modifiers head ts)
      (w'.declareHead path start attributes' modifiers head ts) := by
  simp only [Walk.declareHead, h.inType]
  split
  · exact h.declareGlobalUsing (ts.drop 1)
  split
  · exact h.declareUsing ts
  split
  · exact h.declareNamespace ts
  split
  · exact h.declareEnum hdeclared ts
  split
  · exact h.declareType path head.text start modifiers ts
  split
  · refine .bind ?_
    rintro ⟨_, rest⟩
    exact .ok h rest
  split
  · exact h.declareConstants (head :: ts)
  · exact h.declareMember modifiers (head :: ts)

end Declarations

/-- The same declaration behind two readings of its attributes. -/
theorem Walk.Alike.declareFrom {w w' : Walk} (h : w.Alike R w') {path : String} {start : Token}
    {ts ts' afterSections : List Token} {attributes attributes' : List Attribute}
    (hread : readSections path ts = .ok (attributes, afterSections))
    (hread' : readSections path ts' = .ok (attributes', afterSections))
    (hdeclared : ∀ modifiers name members,
      R (w.scope.declaredEnum path start attributes modifiers name members)
        (w.scope.declaredEnum path start attributes' modifiers name members)) :
    GoesAlike R (w.declareFrom path start ts) (w'.declareFrom path start ts') := by
  rw [Walk.declareFrom, Walk.declareFrom, hread, hread']
  change GoesAlike R
    (w.declareBody path start attributes (readModifiers afterSections).1
      (readModifiers afterSections).2)
    (w'.declareBody path start attributes' (readModifiers afterSections).1
      (readModifiers afterSections).2)
  cases (readModifiers afterSections).2 with
  | nil =>
      rw [Walk.declareBody_nil]
      intro _ _ heq
      cases heq
  | cons head rest =>
      rw [Walk.declareBody_cons, Walk.declareBody_cons]
      exact h.declareHead (hdeclared _) head rest

/-! ### Pieces and whole files -/

/-- **A piece** in front of alike walks. -/
theorem Walk.Alike.step (hR : ∀ e, R e e) {path : String} {w w' next : Walk} {ts rest : List Token}
    (h : w.Alike R w') (hstep : Walk.Step path w ts next rest) :
    ∃ next', Walk.Step path w' ts next' rest ∧ next.Alike R next' := by
  cases hstep with
  | close htext hclose =>
      obtain ⟨next', hclose', halike⟩ := h.close hclose
      exact ⟨next', .close htext hclose', halike⟩
  | semicolon htext => exact ⟨w', .semicolon htext, h⟩
  | declaration hbrace hsemicolon hdeclare =>
      rw [Walk.declare_eq] at hdeclare
      obtain ⟨⟨attributes, afterSections⟩, hread, _⟩ := bind_eq_ok.1 hdeclare
      obtain ⟨next', hdeclare', halike⟩ :=
        h.declareFrom hread hread (fun _ _ _ => hR _) _ _ hdeclare
      rw [← Walk.declare_eq] at hdeclare'
      exact ⟨next', .declaration hbrace hsemicolon hdeclare', halike⟩

/-- **The walk** from alike walks comes to alike ends. -/
theorem Walk.Alike.run (hR : ∀ e, R e e) {path : String} {w w' done : Walk} {ts : List Token}
    (h : w.Alike R w') (hrun : Walk.run path w ts = .ok done) :
    ∃ done', Walk.run path w' ts = .ok done' ∧ done.Alike R done' := by
  have hstep : ∀ v us v' rest, (∃ u, v.Alike R u ∧ Walk.run path w' ts = Walk.run path u us) →
      Walk.Step path v us v' rest →
      ∃ u, v'.Alike R u ∧ Walk.run path w' ts = Walk.run path u rest := by
    rintro v us v' rest ⟨u, halike, heq⟩ hpiece
    obtain ⟨u', hpiece', halike'⟩ := halike.step hR hpiece
    exact ⟨u', halike', heq.trans hpiece'.run⟩
  obtain ⟨⟨done', halike, heq⟩, houter⟩ := Walk.run_invariant hstep w ts ⟨w', h, rfl⟩ hrun
  refine ⟨done', ?_, halike⟩
  rw [heq, Walk.run]
  cases halike with
  | intro _ houters =>
      cases houter
      cases houters
      rfl

end

/-! ### Other attributes in front of one declaration -/

/-- What is reached in front of some tokens is reached in front of others that begin with the same
token. -/
theorem Walk.Reaches.front {path : String} {w w' : Walk} {ts rest : List Token}
    (h : Walk.Reaches path w ts w' rest) :
    ∃ used, ts = used ++ rest ∧
      ∀ rest', rest'.head? = rest.head? → Walk.Reaches path w (used ++ rest') w' rest' := by
  induction h with
  | refl w ts => exact ⟨[], rfl, fun rest' _ => .refl w rest'⟩
  | step hstep _ ih =>
      obtain ⟨used, rfl, hbehind⟩ := ih
      obtain ⟨piece, _, rfl, hpiece⟩ := hstep.front
      refine ⟨piece ++ used, (List.append_assoc ..).symm, fun rest' hhead => ?_⟩
      rw [List.append_assoc]
      refine .step (hpiece _ (.inl ?_)) (hbehind rest' hhead)
      rw [List.head?_append, List.head?_append, hhead]

/-- An enum, or the same enum with other attributes in the place of those that it has. -/
inductive ReplacedAttributes (context : LookupContext) (attributes attributes' : List Attribute)
    (e : EnumDeclaration) : EnumDeclaration → Prop
  | same : ReplacedAttributes context attributes attributes' e e
  | replaced (hcontext : e.context = context) (hattributes : e.attributes = attributes) :
      ReplacedAttributes context attributes attributes' e { e with attributes := attributes' }

/-- Where names are looked up that are used in a scope. -/
def Scope.context (s : Scope) : LookupContext :=
  ⟨s.namespaceName, s.usings, s.containingTypes⟩

/-- **The walk over a file** in which one declaration has other attributes in front of it. -/
theorem run_replacedAttributes {path : String} {w done : Walk} {front ts ts' rest : List Token}
    {attributes attributes' : List Attribute} (hrun : Walk.run path .start (front ++ ts) = .ok done)
    (hreaches : Walk.Reaches path .start (front ++ ts) w ts) (hhead : ts'.head? = ts.head?)
    (hread : readSections path ts = .ok (attributes, rest))
    (hread' : readSections path ts' = .ok (attributes', rest)) :
    ∃ done', Walk.run path .start (front ++ ts') = .ok done' ∧
      done.Alike (ReplacedAttributes w.scope.context attributes attributes') done' := by
  have hrefl : ∀ e, ReplacedAttributes w.scope.context attributes attributes' e e := fun e => .same
  obtain ⟨used, hused, hfront⟩ := hreaches.front
  cases List.append_cancel_right hused
  rw [hreaches.run] at hrun
  rw [(hfront ts' hhead).run]
  cases ts with
  | nil =>
      cases List.head?_eq_none_iff.1 hhead
      exact ⟨done, hrun, .refl hrefl done⟩
  | cons t ts =>
      obtain ⟨us, rfl⟩ := List.head?_eq_some_iff.1 hhead
      by_cases hbracket : t.text = "["
      · have hbrace : t.text ≠ closingBrace := by
          rw [hbracket]
          decide
        have hsemicolon : t.text ≠ ";" := by
          rw [hbracket]
          decide
        rw [Walk.run_cons, if_neg hbrace, if_neg hsemicolon] at hrun
        obtain ⟨⟨next, behind⟩, hdeclare, hrun⟩ := bind_eq_ok.1 hrun
        rw [Walk.declare_eq] at hdeclare
        obtain ⟨next', hdeclare', halike⟩ := (Walk.Alike.refl hrefl w).declareFrom hread hread'
          (fun _ _ _ => .replaced rfl rfl) next behind hdeclare
        rw [← Walk.declare_eq] at hdeclare'
        rw [(Walk.Step.declaration hbrace hsemicolon hdeclare').run]
        exact halike.run hrefl hrun
      · -- without a section there are no attributes, and the tokens are the same
        have hnone : ∀ tail, readSections path (t :: tail) = .ok ([], t :: tail) := by
          intro tail
          have hno : ¬headIs "[" (t :: tail) = true := mt beq_iff_eq.1 hbracket
          rw [readSections_eq, if_neg hno]
        rw [hnone] at hread hread'
        cases hread
        cases hread'
        exact ⟨done, hrun, .refl hrefl done⟩

end LocalisedEnum

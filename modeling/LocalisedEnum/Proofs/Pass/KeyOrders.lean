import LocalisedEnum.Proofs.Pass.Isolation

/-!
**Passes in different orders.**

A process goes through the names of the values in a request in an order of its own, and the first
value that is no text ends the reading.  Whether there is such a value does not depend on the order;
which one is met first does.  So passes in two orders leave the same sources, and the same
diagnostics but that the failure of an enum may be put down to another value of the same attribute.
Where no attribute gives two such values, nothing differs at all.

Main definitions:

* `Settings.withKeyOrder` — settings with another order;
* `Attribute.GivesNoText` — a value that is to be a text and is none;
* `Diagnostic.Alike` — diagnostics that are the same but for which of these values they name;
* `PassResult.Alike` — results that are the same but for that.

Main results:

* `ofAttribute_alike` — the request of an attribute, read in two orders;
* `runPass_alike` — **passes in two orders**;
* `PassResult.Alike.diagnostics_eq` — where nothing differs.
-/

set_option autoImplicit false
set_option relaxedAutoImplicit false

namespace LocalisedEnum

/-- The settings with another order of the names in a request. -/
def Settings.withKeyOrder (s : Settings) (order : KeyOrder) : Settings :=
  { s with keyOrder := order }

@[simp]
theorem Settings.keyOrder_withKeyOrder (s : Settings) (order : KeyOrder) :
    (s.withKeyOrder order).keyOrder = order :=
  rfl

/-! ### Values that are no texts -/

/-- **A value that is to be a text and is none**: neither a text nor null. -/
structure Attribute.GivesNoText (a : Attribute) (key : String) (value : ArgumentValue) : Prop where
  asked : key ∈ requestKeys
  given : valueOf? key a.named = some value
  ne_null : value ≠ .null
  ne_text : ∀ t, value ≠ .text t

theorem textOf_eq_error {request : Request} {key : String} {f : Failure}
    (h : request.textOf key = .error f) :
    ∃ value, valueOf? key request.named = some value ∧ value ≠ .null ∧ (∀ t, value ≠ .text t) ∧
      f = .notAText request.variant key value := by
  rw [Request.textOf] at h
  split at h
  · cases h
  · cases h
  · cases h
  · next value hnull htext hvalue =>
    cases h
    exact ⟨value, hvalue, hnull, htext, rfl⟩

/-- **The request of an attribute, read in two orders**: it is the same, or it fails in both at a
value that is no text. -/
theorem ofAttribute_alike (order order' : KeyOrder) (v : Variant) (a : Attribute) :
    Request.ofAttribute order' v a = Request.ofAttribute order v a ∨ ∃ key value key' value',
      a.GivesNoText key value ∧ a.GivesNoText key' value' ∧
      Request.ofAttribute order v a = .error (.notAText v key value) ∧
      Request.ofAttribute order' v a = .error (.notAText v key' value') := by
  rw [Request.ofAttribute, Request.ofAttribute]
  cases resourceOf v a.positional with
  | error f => exact .inl rfl
  | ok resource =>
      simp only [bind, Except.bind]
      split
      · exact .inl rfl
      · have hgives : ∀ {order : KeyOrder} {f : Failure},
            order.keys.mapM (Request.mk v resource (sortNamed a.named)).textOf = .error f →
              ∃ key value, a.GivesNoText key value ∧ f = .notAText v key value := by
          intro order f hf
          obtain ⟨key, hkey, hf⟩ := mapM_eq_error hf
          obtain ⟨value, hvalue, hnull, htext, rfl⟩ := textOf_eq_error hf
          rw [valueOf?_sortNamed] at hvalue
          exact ⟨key, value, ⟨order.mem_keys.1 hkey, hvalue, hnull, htext⟩, rfl⟩
        -- both orders come to the same names, so what one of them can read the other can
        have hsame : ∀ order order' : KeyOrder, order.keys ⊆ order'.keys :=
          fun order order' _ hkey => order'.mem_keys.2 (order.mem_keys.1 hkey)
        cases hread : order.keys.mapM (Request.mk v resource (sortNamed a.named)).textOf with
        | ok texts =>
            obtain ⟨texts', hread'⟩ := exists_mapM_of_subset hread (hsame order' order)
            rw [hread']
            exact .inl rfl
        | error f =>
            cases hread' : order'.keys.mapM (Request.mk v resource (sortNamed a.named)).textOf with
            | ok texts' =>
                obtain ⟨texts, hread''⟩ := exists_mapM_of_subset hread' (hsame order order')
                cases hread.symm.trans hread''
            | error f' =>
                obtain ⟨key, value, hvalue, rfl⟩ := hgives hread
                obtain ⟨key', value', hvalue', rfl⟩ := hgives hread'
                exact .inr ⟨key, value, key', value', hvalue, hvalue', rfl, rfl⟩

/-- Two values that are no texts, read in two orders. -/
example :
    let a : Attribute :=
      ⟨"WithLiteralLocalisation", [.typeOf "R"],
        [("DefaultPropertyName", .integer 1), ("MethodName", .integer 2)], none⟩
    Request.ofAttribute .listed .literal a =
        .error (.notAText .literal "DefaultPropertyName" (.integer 1)) ∧
      Request.ofAttribute ⟨requestKeys.reverse, List.reverse_perm _⟩ .literal a =
        .error (.notAText .literal "MethodName" (.integer 2)) :=
  ⟨by cbv, by cbv⟩

/-! ### Failures -/

/-- Failures of an enum that are the same, but that they may name different values of an attribute
that are no texts. -/
inductive Failure.Alike (c : Compilation) (e : EnumDeclaration) (f : Failure) : Failure → Prop
  | refl : Alike c e f f
  | otherValue {a : Attribute} {v : Variant} {key key' : String} {value value' : ArgumentValue}
      (ha : a ∈ e.attributes) (h : (bindConstants c e.context a).GivesNoText key value)
      (h' : (bindConstants c e.context a).GivesNoText key' value')
      (hf : f = .notAText v key value) : Alike c e f (.notAText v key' value')

/-- What a step leaves, beside what it leaves in another order: the same, or a failure that is
alike. -/
inductive LeavesAlike (c : Compilation) (e : EnumDeclaration) {α : Type}
    (x : List LogEntry × Except Failure α) : List LogEntry × Except Failure α → Prop
  | same : LeavesAlike c e x x
  | failed {log : List LogEntry} {f f' : Failure} (h : f.Alike c e f') (hx : x = (log, .error f)) :
      LeavesAlike c e x (log, .error f')

section Enum

variable (settings : Settings) (order : KeyOrder) (c : Compilation)

theorem processAttribute_alike (e : EnumDeclaration) (v : Variant) {a : Attribute}
    (ha : a ∈ e.attributes) :
    LeavesAlike c e (processAttribute settings c e v a)
      (processAttribute (settings.withKeyOrder order) c e v a) := by
  rw [processAttribute, processAttribute, Settings.keyOrder_withKeyOrder]
  rcases ofAttribute_alike settings.keyOrder order v (bindConstants c e.context a) with
    hsame | ⟨key, value, key', value', hvalue, hvalue', hf, hf'⟩
  · rw [hsame]
    exact .same
  · rw [hf, hf']
    exact .failed (.otherValue ha hvalue hvalue' rfl) rfl

theorem processAttributes_alike {e : EnumDeclaration} {attributes : List (Variant × Attribute)}
    (hattributes : ∀ entry ∈ attributes, entry.2 ∈ e.attributes) :
    LeavesAlike c e (processAttributes settings c e attributes)
      (processAttributes (settings.withKeyOrder order) c e attributes) := by
  induction attributes with
  | nil => exact .same
  | cons entry rest ih =>
      obtain ⟨v, a⟩ := entry
      obtain ⟨ha, hrest⟩ := List.forall_mem_cons.1 hattributes
      have hfirst := processAttribute_alike settings order c e v ha
      have hrest := ih hrest
      rw [processAttributes, processAttributes]
      generalize processAttribute settings c e v a = x,
        processAttribute (settings.withKeyOrder order) c e v a = x' at hfirst
      generalize processAttributes settings c e rest = y,
        processAttributes (settings.withKeyOrder order) c e rest = y' at hrest
      cases hfirst with
      | failed h hx =>
          subst hx
          exact .failed h rfl
      | same =>
          obtain ⟨log, f | ⟨mapping, errors⟩⟩ := x
          · exact .same
          · cases hrest with
            | same => exact .same
            | failed h hy =>
                subst hy
                exact .failed h rfl

/-! ### Diagnostics -/

/-- **Diagnostics that are the same**, but that they may put the failure of an enum down to
different values of an attribute that are no texts. -/
inductive Diagnostic.Alike (d : Diagnostic) : Diagnostic → Prop
  | refl : Alike d d
  | otherValue {e : EnumDeclaration} {f f' : Failure} (he : e ∈ candidateEnums c)
      (h : f.Alike c e f') (hd : d = internalDiagnostic f) : Alike d (internalDiagnostic f')

/-- **What an enum leaves in another order**: the same sources, and diagnostics that are alike. -/
theorem processEnum_alike_order {e : EnumDeclaration} (he : e ∈ candidateEnums c) :
    (processEnum (settings.withKeyOrder order) c e).sources = (processEnum settings c e).sources ∧
      List.Forall₂ (Diagnostic.Alike c) (processEnum settings c e).diagnostics
        (processEnum (settings.withKeyOrder order) c e).diagnostics := by
  have hrefl : ∀ ds : List Diagnostic, List.Forall₂ (Diagnostic.Alike c) ds ds := fun ds =>
    List.forall₂_same.2 fun d _ => .refl
  rw [processEnum, processEnum]
  cases hfound : localisationAttributes e with
  | error f => exact ⟨rfl, hrefl _⟩
  | ok attributes =>
      have halike := processAttributes_alike settings order c fun entry hentry =>
        mem_of_localisationAttributes hfound hentry
      simp only
      generalize processAttributes settings c e attributes = x,
        processAttributes (settings.withKeyOrder order) c e attributes = x' at halike
      cases halike with
      | same => exact ⟨rfl, hrefl _⟩
      | failed h hx =>
          subst hx
          exact ⟨rfl, .cons (Diagnostic.Alike.otherValue he h rfl) .nil⟩

end Enum

/-! ### Passes -/

/-- **Results that are the same** but for diagnostics that are alike. -/
structure PassResult.Alike (c : Compilation) (result result' : PassResult) : Prop where
  sources : result'.sources = result.sources
  diagnostics : List.Forall₂ (Diagnostic.Alike c) result.diagnostics.items result'.diagnostics.items

/-- **Passes in two orders** leave the same sources, and diagnostics that are alike. -/
theorem runPass_alike (settings : Settings) (order : KeyOrder) (c : Compilation) :
    (runPass settings c).Alike c (runPass (settings.withKeyOrder order) c) where
  sources := by
    simp only [runPass]
    split
    · rfl
    · refine absorbAll_sources_congr (List.forall₂_same.2 fun e he => ⟨rfl, ?_⟩) rfl
      exact (processEnum_alike_order settings order c he).1
  diagnostics := by
    rw [runPass_diagnostics, runPass_diagnostics]
    have hsame : List.Forall₂ (fun e e' => e = e' ∧ e ∈ candidateEnums c) (candidateEnums c)
        (candidateEnums c) :=
      List.forall₂_same.2 fun e he => ⟨rfl, he⟩
    refine List.rel_flatMap hsame ?_
    rintro e _ ⟨rfl, he⟩
    exact (processEnum_alike_order settings order c he).2

/-- No attribute gives two values that are to be texts and are none. -/
def Compilation.GivesOneNoText (c : Compilation) : Prop :=
  ∀ e ∈ candidateEnums c, ∀ a ∈ e.attributes, ∀ key value key' value',
    (bindConstants c e.context a).GivesNoText key value →
      (bindConstants c e.context a).GivesNoText key' value' → key = key'

namespace PassResult.Alike

variable {c : Compilation} {result result' : PassResult} (h : result.Alike c result')
include h

theorem hintNames_eq : result'.hintNames = result.hintNames := by
  rw [hintNames, hintNames, h.sources]

theorem errorCount_eq : result'.diagnostics.errorCount = result.diagnostics.errorCount := by
  have hitems := h.diagnostics
  rw [DiagnosticBag.errorCount, DiagnosticBag.errorCount]
  generalize result.diagnostics.items = ds, result'.diagnostics.items = ds' at hitems
  induction hitems with
  | nil => rfl
  | @cons d d' _ _ hd _ ih =>
      have hseverity : d'.severity = d.severity := by
        cases hd with
        | refl => rfl
        | otherValue _ _ hd =>
            rw [hd]
            rfl
      rw [List.countP_cons, List.countP_cons, ih, hseverity]

/-- **Where nothing differs**: no attribute gives two values that are no texts. -/
theorem diagnostics_eq (hone : c.GivesOneNoText) : result'.diagnostics = result.diagnostics := by
  have heq : ∀ d d', Diagnostic.Alike c d d' → d = d' := by
    intro d d' hd
    cases hd with
    | refl => rfl
    | otherValue he hf hd =>
        rw [hd]
        cases hf with
        | refl => rfl
        | otherValue ha hvalue hvalue' hf =>
            -- one name has one value
            obtain rfl := hone _ he _ ha _ _ _ _ hvalue hvalue'
            cases hvalue.given.symm.trans hvalue'.given
            rw [hf]
  have hitems := List.forall₂_eq_eq_eq ▸ h.diagnostics.imp heq
  exact congrArg DiagnosticBag.mk hitems.symm

end PassResult.Alike

end LocalisedEnum

import LocalisedEnum.Proofs.Extension.MethodReading
import Mathlib.Data.List.Find

/-!
**What a generated method means.**

Once the method of a mapping is read as a program, running the program shows what each value gets,
and the sections of the program show what the mapping binds.  Both rest on labels: a label is the
type and the name as they are written, and writing a name, which puts a mark in front of reserved
words, does not make it another name.

Main definitions:

* `Mapping.meaning` — what a value gets: its own property, or that of the default, or an exception.

Main results:

* `escapeName_injective`, `typeText_injective` — names and types that are written alike are the
  same;
* `run?_program` — **running the program** gives each value what it means;
* `program_injective` — mappings with the same program are the same, but for what is not in the
  method;
* `methodText_meaning` — **the method means the mapping**.
-/

set_option autoImplicit false
set_option relaxedAutoImplicit false

namespace LocalisedEnum

/-! ### Labels tell values apart -/

/-- A marked name is no name without a mark. -/
theorem marked_ne {text other : String} (h : isIdentifier other = true) : "@" ++ text ≠ other := by
  rintro rfl
  have hmark : '@' ∈ ("@" ++ text).toList := by simp
  exact absurd (isWord_of_mem_identifier h hmark) (by decide)

/-- **Writing a name** does not make it another name. -/
theorem escapeName_injective {name other : String} (hname : isIdentifier name = true)
    (hother : isIdentifier other = true) (h : escapeName name = escapeName other) :
    name = other := by
  rw [escapeName, escapeName] at h
  split at h <;> split at h
  · exact (String.append_right_inj _).1 h
  · exact absurd h (marked_ne hother)
  · exact absurd h.symm (marked_ne hname)
  · exact h

theorem labelOf_injective (m : Mapping) {member other : String}
    (hmember : isIdentifier member = true) (hother : isIdentifier other = true)
    (h : m.labelOf member = m.labelOf other) : member = other :=
  escapeName_injective hmember hother ((String.append_right_inj _).1 h)

/-! ### Running the program -/

/-- The reference that a value is bound to, the first if there are several. -/
def Mapping.ownReference? (m : Mapping) (member : String) : Option String :=
  (m.bindings.find? (·.member == member)).map (·.reference)

/-- What the method hands over for a reference: the string of the property, or that string with the
detail put into it. -/
def Variant.handsOver (variant : Variant) (reference : String) : MethodText :=
  match variant with
  | .literal => .property reference
  | .formatted => .formatted (.property reference) detailParameter

/-- **What a value means:** its own property, or else that of the default, or else an exception. -/
def Mapping.meaning (m : Mapping) (member : String) : MethodEnd :=
  match (m.ownReference? member).or m.defaultBinding.bound? with
  | some reference => .text (m.variant.handsOver reference)
  | none => .exception refusal

/-- A reference is no single name. -/
theorem IsReference.ne_identifier {reference name : String} (h : IsReference reference)
    (hname : isIdentifier name = true) : name ≠ reference := by
  rintro rfl
  obtain ⟨n, hn⟩ := h
  have hcolon : ':' ∈ name.toList := by
    rw [hn, String.toList_append]
    exact List.mem_append_left _ (by decide)
  exact absurd (isWord_of_mem_identifier hname hcolon) (by decide)

/-- The section that is taken for a value: that of its first binding, or else the default
section. -/
theorem selected?_program {m : Mapping} (h : m.PlainlyNamed) {member : String}
    (hmember : isIdentifier member = true) :
    m.program.selected? (m.labelOf member) =
      some (((m.bindings.find? (·.member == member)).map m.caseSection).getD m.defaultSection) := by
  have hlabel : ∀ b ∈ m.bindings,
      ((m.caseSection b).label == some (m.labelOf member)) = (b.member == member) := by
    intro b hb
    rw [Bool.eq_iff_iff, beq_iff_eq, beq_iff_eq]
    constructor
    · intro heq
      exact labelOf_injective m (h.bindings b hb).1 hmember (Option.some.inj heq)
    · rintro rfl
      rfl
  have hcase : (m.bindings.map m.caseSection).find? (·.label == some (m.labelOf member)) =
      (m.bindings.find? (·.member == member)).map m.caseSection := by
    rw [List.find?_map]
    exact congrArg (Option.map m.caseSection) (List.find?_congr hlabel)
  have hnone : (m.bindings.map m.caseSection).find? (·.label == none) = none := by
    rw [List.find?_eq_none]
    rintro s hs heq
    obtain ⟨b, _, rfl⟩ := List.mem_map.1 hs
    cases beq_iff_eq.1 heq
  rw [SwitchMethod.selected?, Mapping.program, List.find?_append, List.find?_append, hcase, hnone]
  cases m.bindings.find? (·.member == member) <;> rfl

/-- The locals when the switch is reached. -/
def Mapping.locals (m : Mapping) : Locals :=
  if m.variant.hasDetail then [("discoveredValue", none)] else []

theorem isAboutReceiver_program (m : Mapping) : m.program.isAboutReceiver = true := by
  simp [SwitchMethod.isAboutReceiver, Mapping.program, Mapping.parameters]

theorem runStatements_front (m : Mapping) :
    runStatements m.program.parameterNames [] m.program.front = some (.onward m.locals) := by
  rw [Mapping.locals, Mapping.program]
  cases m.variant <;> rfl

/-- No name in the method stands for anything but the property that a reference names. -/
theorem nameText?_reference (m : Mapping) {reference : String} (h : IsReference reference) :
    nameText? m.program.parameterNames m.locals reference = some (.property reference) := by
  have hvalue : valueParameter ≠ reference := h.ne_identifier (by decide)
  have hdetail : detailParameter ≠ reference := h.ne_identifier (by decide)
  have hlocal : "discoveredValue" ≠ reference := h.ne_identifier (by decide)
  rw [Mapping.locals, SwitchMethod.parameterNames, Mapping.program, Mapping.parameters]
  cases m.variant with
  | literal => simp [nameText?, valueOf?, Variant.hasDetail, hvalue.symm]
  | formatted => simp [nameText?, valueOf?, Variant.hasDetail, hvalue.symm, hdetail.symm, hlocal]

/-- **A branch** that takes the string from a reference hands it over. -/
theorem run?_of_branch {m : Mapping} {label reference : String} {taken : SwitchSection}
    (htaken : m.program.selected? label = some taken)
    (hbody : taken.body = branchStatements m.variant reference) (h : IsReference reference) :
    m.program.run? label = some (.text (m.variant.handsOver reference)) := by
  have hname := nameText?_reference m h
  cases hvariant : m.variant with
  | literal =>
      have hflow : runStatements m.program.parameterNames m.locals taken.body =
          some (.leavesMethod (.text (.property reference))) := by
        rw [hbody, hvariant]
        simp [branchStatements, runStatements, CallExpression.text?, hname]
      rw [SwitchMethod.run?_eq (isAboutReceiver_program m) (runStatements_front m) htaken hflow]
      rfl
  | formatted =>
      -- the string is stored, and formatted behind the switch
      have hflow : runStatements m.program.parameterNames m.locals taken.body =
          some (.leavesSwitch [("discoveredValue", some (.property reference))]) := by
        have hlocals : m.locals = [("discoveredValue", none)] := by
          rw [Mapping.locals, hvariant]
          rfl
        rw [hbody, hvariant]
        rw [hlocals] at hname ⊢
        simp [branchStatements, runStatements, CallExpression.text?, hname, valueOf?, assign]
      have hback : runStatements m.program.parameterNames
            [("discoveredValue", some (.property reference))] m.program.back =
          some (.leavesMethod (.text (Variant.formatted.handsOver reference))) := by
        rw [SwitchMethod.parameterNames, Mapping.program, Mapping.parameters, hvariant]
        rfl
      rw [SwitchMethod.run?_eq (isAboutReceiver_program m) (runStatements_front m) htaken hflow,
        SwitchMethod.behindSection?, hback]

/-- **Running the program** gives each value what it means. -/
theorem run?_program {m : Mapping} (h : m.PlainlyNamed) {member : String}
    (hmember : isIdentifier member = true) :
    m.program.run? (m.labelOf member) = some (m.meaning member) := by
  have htaken := selected?_program h hmember
  rw [Mapping.meaning, Mapping.ownReference?]
  cases hfind : m.bindings.find? (·.member == member) with
  | some b =>
      rw [hfind] at htaken
      exact run?_of_branch htaken rfl (h.bindings b (List.mem_of_find?_eq_some hfind)).2
  | none =>
      rw [hfind] at htaken
      cases hbound : m.defaultBinding.bound? with
      | some reference =>
          refine run?_of_branch htaken ?_ (h.bound reference hbound)
          simp [Mapping.defaultSection, hbound]
      | none =>
          have hflow : runStatements m.program.parameterNames m.locals m.defaultSection.body =
              some (.leavesMethod (.exception refusal)) := by
            simp [Mapping.defaultSection, hbound, runStatements]
          rw [SwitchMethod.run?_eq (isAboutReceiver_program m) (runStatements_front m) htaken hflow]
          rfl

/-! ### The program shows the mapping -/

/-- Lists are the same if their images are and equal images are those of equal elements. -/
theorem eq_of_map_eq {α β : Type} {f g : α → β} {xs ys : List α}
    (h : ∀ x ∈ xs, ∀ y ∈ ys, f x = g y → x = y) (heq : xs.map f = ys.map g) : xs = ys := by
  induction xs generalizing ys with
  | nil =>
      cases ys with
      | nil => rfl
      | cons y ys => cases heq
  | cons x xs ih =>
      cases ys with
      | nil => cases heq
      | cons y ys =>
          obtain ⟨hhead, htail⟩ := List.cons.inj heq
          rw [h x List.mem_cons_self y List.mem_cons_self hhead,
            ih (fun a ha b hb => h a (List.mem_cons_of_mem _ ha) b (List.mem_cons_of_mem _ hb))
              htail]

theorem Word.eq_of_escapeName {w w' : Word} (h : escapeName w.text = escapeName w'.text) :
    w = w' := by
  obtain ⟨text, hw⟩ := w
  obtain ⟨text', hw'⟩ := w'
  obtain rfl : text = text' := escapeName_injective hw hw' h
  rfl

/-- **Types that are written alike** are the same. -/
theorem typeText_injective {e e' : EnumView} {n n' : DottedName} (hname : e.typeReference = n.text)
    (hname' : e'.typeReference = n'.text) (h : e.typeText = e'.typeText) :
    e.typeReference = e'.typeReference := by
  have hwords : (n.head :: n.tail).map (fun w => escapeName w.text) =
      (n'.head :: n'.tail).map fun w => escapeName w.text := by
    have hsplit := congrArg (splitString '.') h
    rw [splitString_typeText, splitString_typeText, hname, hname', splitString_dotted,
      splitString_dotted, List.map_map, List.map_map] at hsplit
    exact hsplit
  have hsame : n.head :: n.tail = n'.head :: n'.tail :=
    eq_of_map_eq (fun _ _ _ _ => Word.eq_of_escapeName) hwords
  have htext := congrArg (List.map (·.text)) hsame
  rw [hname, hname', DottedName.text, DottedName.text]
  exact congrArg joinDots htext

theorem branchStatements_injective {variant : Variant} {reference other : String}
    (h : branchStatements variant reference = branchStatements variant other) :
    reference = other := by
  cases variant <;> simpa [branchStatements] using h

theorem branchStatements_ne_refusal (variant : Variant) (reference : String) :
    branchStatements variant reference ≠ [.throws refusal] := by
  cases variant <;> simp [branchStatements]

/-- Among names the default has a reference as soon as one is recorded. -/
theorem Mapping.PlainlyNamed.bound_eq {m : Mapping} (h : m.PlainlyNamed) :
    m.defaultBinding.bound? = m.defaultBinding.reference := by
  rw [DefaultBinding.bound?]
  cases hreference : m.defaultBinding.reference with
  | none => rfl
  | some reference =>
      obtain ⟨n, rfl⟩ := h.fallback reference hreference
      have hne : globalMark ++ n.text ≠ "" := by
        intro hempty
        have hlength := congrArg String.length hempty
        rw [String.length_append, show globalMark.length = 8 by decide] at hlength
        simp at hlength
      simp [hne]

/-- Among names the section of a value leads back to its binding. -/
theorem caseSection_injective {m m' : Mapping} (hvariant : m.variant = m'.variant)
    (htype : m.view.typeText = m'.view.typeText) {b b' : Binding}
    (hb : isIdentifier b.member = true) (hb' : isIdentifier b'.member = true)
    (h : m.caseSection b = m'.caseSection b') : b = b' := by
  have hlabel : m.labelOf b.member = m'.labelOf b'.member :=
    Option.some.inj (congrArg SwitchSection.label h)
  have hbody : branchStatements m.variant b.reference = branchStatements m'.variant b'.reference :=
    congrArg SwitchSection.body h
  rw [Mapping.labelOf, Mapping.labelOf, ← htype] at hlabel
  rw [← hvariant] at hbody
  obtain ⟨member, reference⟩ := b
  obtain rfl : member = b'.member := labelOf_injective m hb hb' hlabel
  obtain rfl : reference = b'.reference := branchStatements_injective hbody
  rfl

/-- The section of all other values leads back to the default. -/
theorem bound_eq_of_defaultSection {m m' : Mapping} (hvariant : m.variant = m'.variant)
    (h : m.defaultSection = m'.defaultSection) :
    m.defaultBinding.bound? = m'.defaultBinding.bound? := by
  have hbody := congrArg SwitchSection.body h
  rw [Mapping.defaultSection, Mapping.defaultSection, ← hvariant] at hbody
  cases hbound : m.defaultBinding.bound? with
  | none =>
      cases hbound' : m'.defaultBinding.bound? with
      | none => rfl
      | some other =>
          rw [hbound, hbound'] at hbody
          exact absurd hbody.symm (branchStatements_ne_refusal _ _)
  | some reference =>
      cases hbound' : m'.defaultBinding.bound? with
      | none =>
          rw [hbound, hbound'] at hbody
          exact absurd hbody (branchStatements_ne_refusal _ _)
      | some other =>
          rw [hbound, hbound'] at hbody
          rw [branchStatements_injective hbody]

/-- **Mappings with the same program** are the same, but for what is not in the method. -/
theorem program_injective {m m' : Mapping} (h : m.PlainlyNamed) (h' : m'.PlainlyNamed)
    (heq : m.program = m'.program) :
    m.variant = m'.variant ∧ m.methodName = m'.methodName ∧
      m.view.typeReference = m'.view.typeReference ∧ m.bindings = m'.bindings ∧
      m.defaultBinding.reference = m'.defaultBinding.reference := by
  obtain ⟨n, htype⟩ := h.typeReference
  obtain ⟨n', htype'⟩ := h'.typeReference
  have hparameters : m.parameters = m'.parameters := congrArg SwitchMethod.parameters heq
  have hname : m.methodName = m'.methodName := by
    rw [← h.ofString_writtenMethod, ← h'.ofString_writtenMethod]
    exact congrArg (CodeText.ofString ·.name) heq
  have hsections : m.bindings.map m.caseSection ++ [m.defaultSection] =
      m'.bindings.map m'.caseSection ++ [m'.defaultSection] := congrArg SwitchMethod.sections heq
  obtain ⟨hcases, hdefault⟩ := List.append_inj' hsections rfl
  obtain ⟨hreceiver, hdetail⟩ := List.cons.inj hparameters
  have htypeText : m.view.typeText = m'.view.typeText := congrArg Parameter.type hreceiver
  have hvariant : m.variant = m'.variant := by
    revert hdetail
    cases m.variant <;> cases m'.variant <;> simp [Variant.hasDetail]
  refine ⟨hvariant, hname, typeText_injective htype htype' htypeText, ?_, ?_⟩
  · exact eq_of_map_eq (fun b hb b' hb' =>
      caseSection_injective hvariant htypeText (h.bindings b hb).1 (h'.bindings b' hb').1) hcases
  · rw [← h.bound_eq, ← h'.bound_eq]
    exact bound_eq_of_defaultSection hvariant (List.cons.inj hdefault).1

/-! ### The method means the mapping -/

/-- Among bindings of different values each is the first of its value. -/
theorem ownReference?_of_mem {m : Mapping} (hdistinct : (m.bindings.map (·.member)).Nodup)
    {b : Binding} (hb : b ∈ m.bindings) : m.ownReference? b.member = some b.reference := by
  rw [Mapping.ownReference?]
  generalize m.bindings = bindings at hdistinct hb
  induction bindings with
  | nil => cases hb
  | cons first bindings ih =>
      rw [List.map_cons, List.nodup_cons] at hdistinct
      rcases List.mem_cons.1 hb with rfl | hb
      · simp
      · have hne : first.member ≠ b.member := by
          intro heq
          exact hdistinct.1 (heq ▸ List.mem_map_of_mem hb)
        rw [List.find?_cons_of_neg (by simpa using hne)]
        exact ih hdistinct.2 hb

/-- **The method of a mapping means the mapping.**  It is read as a method with the name and the
parameters of the mapping, and running it gives each value of the enum what it means: the property
that it is bound to, or else that of the default, or else an exception.  Two mappings with the same
method are of the same variant, with the same name of the method, the same type, the same bindings
and the same default. -/
theorem methodText_meaning {m : Mapping} (h : m.PlainlyNamed) :
    (∃ method : SwitchMethod, switchMethod? (bareTokens m.methodText.toList) = some method ∧
      .ofString method.name = m.methodName ∧ method.parameters = m.parameters ∧
      (∀ member ∈ m.view.members, method.run? (m.labelOf member) = some (m.meaning member)) ∧
      ((m.bindings.map (·.member)).Nodup → ∀ b ∈ m.bindings,
        method.run? (m.labelOf b.member) = some (.text (m.variant.handsOver b.reference)))) ∧
    ∀ m' : Mapping, m'.PlainlyNamed → m.methodText = m'.methodText →
      m.variant = m'.variant ∧ m.methodName = m'.methodName ∧
        m.view.typeReference = m'.view.typeReference ∧ m.bindings = m'.bindings ∧
        m.defaultBinding.reference = m'.defaultBinding.reference := by
  refine ⟨⟨m.program, switchMethod?_methodText h, h.ofString_writtenMethod, rfl, ?_, ?_⟩, ?_⟩
  · intro member hmember
    exact run?_program h (h.members member hmember)
  · intro hdistinct b hb
    rw [run?_program h (h.bindings b hb).1, Mapping.meaning, ownReference?_of_mem hdistinct hb]
    rfl
  · intro m' h' htext
    have hprogram : some m.program = some m'.program := by
      rw [← switchMethod?_methodText h, ← switchMethod?_methodText h', htext]
    exact program_injective h h' (Option.some.inj hprogram)

/-- A mapping with reserved words for the names of a type and of a value, and without a default. -/
def signalMapping (variant : Variant) : Mapping where
  view :=
    { name := "Signal"
      namespaceName := ""
      accessibility := .publicLevel
      members := ["event", "None"]
      typeReference := "class.Signal"
      location := none }
  variant := variant
  methodName := .ofString "Describe"
  defaultBinding := ⟨none, none⟩
  bindings := [⟨"event", "global::Texts.Event"⟩]

/-- The method of the formatted variant is run for both values, and it is not that of the literal
variant. -/
theorem methodText_meaning_signal :
    (∀ variant, (signalMapping variant).PlainlyNamed) ∧
    (∃ method : SwitchMethod,
      switchMethod? (bareTokens (signalMapping .formatted).methodText.toList) = some method ∧
      method.run? "@class.Signal.@event" =
        some (.text (.formatted (.property "global::Texts.Event") "detail")) ∧
      method.run? "@class.Signal.None" = some (.exception refusal)) ∧
    (signalMapping .formatted).methodText ≠ (signalMapping .literal).methodText := by
  have hnames : ∀ variant, (signalMapping variant).PlainlyNamed := by
    intro variant
    exact
      { members := (by decide : ∀ member ∈ ["event", "None"], isIdentifier member = true)
        typeReference := ⟨⟨⟨"class", by decide⟩, [⟨"Signal", by decide⟩]⟩, rfl⟩
        methodName := ⟨⟨⟨"Describe", by decide⟩, false⟩, rfl⟩
        bindings := by
          intro b hb
          rw [List.mem_singleton.1 hb]
          exact ⟨by decide, ⟨⟨"Texts", by decide⟩, [⟨"Event", by decide⟩]⟩, by decide⟩
        fallback := fun _ hreference => nomatch hreference }
  obtain ⟨⟨method, hread, _, _, hrun, _⟩, hinjective⟩ := methodText_meaning (hnames .formatted)
  refine ⟨hnames, ⟨method, hread, ?_, ?_⟩, ?_⟩
  · exact hrun "event" (by decide)
  · exact hrun "None" (by decide)
  · intro htext
    cases (hinjective _ (hnames .literal) htext).1

end LocalisedEnum

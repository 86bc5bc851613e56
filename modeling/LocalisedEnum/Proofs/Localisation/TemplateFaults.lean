import LocalisedEnum.Localisation.Mapping
import LocalisedEnum.Proofs.Localisation.WrittenTemplate
import LocalisedEnum.Proofs.Pass.Resolution

/-!
**The first fault of a template.**

A template is rendered from the left, and the first part that cannot be rendered ends it.  Three
things are at fault: a brace that begins no part, an index for which there is no argument, and a
width that no text can have.  None depends on the names that are put in.

A width counts as a fault of another category than the two others.  So a template may be malformed,
or refer to an argument that is not there, and yet fail for a width that stands in front.

Main definitions:

* `TemplatePart.fault?` — what is wrong with a part;
* `FirstFault` — where a template fails, and why;
* `FaultyFrom` — a stray brace, or an index above 1;
* `FirstFaulty`, `FirstWide` — what the first thing wrong with a template is;
* `ShortDigitRuns` — the texts whose numbers are read at all.

Main results:

* `formatName_eq_error_iff`, `bindMembers_eq_error_iff` — **when a template fails**;
* `firstFault_attributeData_iff`, `firstFault_width_iff` — what its first fault is, by the category
  of the failure;
* `malformed_or_refersAbove_iff` — where a template has a stray brace or an index above 1;
* `firstFaulty_of_noWideItem` — without widths past all bounds one of these is the first fault.
-/

set_option autoImplicit false
set_option relaxedAutoImplicit false

namespace LocalisedEnum

/-! ### Faults of parts -/

/-- The width that an alignment asks for. -/
def WrittenAlignment.number (a : WrittenAlignment) : Nat :=
  ofDigits 10 (digitsOf a.width)

/-- What is wrong with an alignment: its width is past all bounds. -/
def WrittenAlignment.fault? (a : WrittenAlignment) : Option TemplateFault :=
  if greatestMachineInteger < a.number then some .widthPastMachineInteger
  else if unboundedWidth ≤ a.number then some .widthPastMemory
  else none

/-- The index of an item. -/
def WrittenItem.number (i : WrittenItem) : Nat :=
  ofDigits 10 (digitsOf i.index)

/-- What is wrong with an item: there is no argument for its index, or its alignment is at fault. -/
def WrittenItem.fault? (i : WrittenItem) : Option TemplateFault :=
  if 1 < i.number then some (.unknownArgument i.number)
  else i.alignment.bind WrittenAlignment.fault?

/-- What is wrong with a part. -/
def TemplatePart.fault? : TemplatePart → Option TemplateFault
  | .plain _ _ => none
  | .brace _ _ => none
  | .item i => i.fault?

/-- **The texts whose numbers are read at all**: none of their runs of digits is longer than the
limit. -/
def ShortDigitRuns (t : CodeText) : Prop :=
  ∀ run, IsDigitRun run → run <:+: t → run.length ≤ decimalLimit

theorem ShortDigitRuns.of_part {t t' : CodeText} (h : ShortDigitRuns t') (hin : t <:+: t') :
    ShortDigitRuns t :=
  fun run hrun hrunIn => h run hrun (hrunIn.trans hin)

theorem templateNumber_run {run : CodeText} (hrun : IsDigitRun run)
    (hshort : run.length ≤ decimalLimit) :
    templateNumber (digitsOf run) = .ok (ofDigits 10 (digitsOf run)) := by
  rw [templateNumber, length_digitsOf hrun.digits]
  exact if_neg (Nat.not_lt.2 hshort)

theorem WrittenItem.index_in_text (i : WrittenItem) : i.index <:+: (TemplatePart.item i).text :=
  ⟨[.scalar '\x7b'], i.textBehindIndex ++ [.scalar '\x7d'], by
    rw [TemplatePart.text, inner, List.append_assoc, List.singleton_append]⟩

theorem WrittenItem.width_in_text {i : WrittenItem} {a : WrittenAlignment}
    (ha : i.alignment = some a) : a.width <:+: (TemplatePart.item i).text := by
  refine ⟨.scalar '\x7b' ::
      (i.index ++ .scalar ',' :: (a.blanks ++ if a.toLeft then [.scalar '-'] else [])),
    formatText i.format ++ [.scalar '\x7d'], ?_⟩
  rw [TemplatePart.text, inner, textBehindIndex, ha, alignmentText, WrittenAlignment.text]
  simp only [List.append_assoc, List.cons_append]

section Render

variable {names : List CodeText} {f : TemplateFault}

/-- What goes through has no fault. -/
theorem ok_eq_error_iff_none {ε α : Type} {x : α} {e : ε} :
    (Except.ok x : Except ε α) = .error e ↔ none = some e := by
  constructor <;> intro h <;> cases h

/-- A text is aligned, unless the alignment is at fault. -/
theorem align_eq_error_iff {t : CodeText} {a : WrittenAlignment}
    (hshort : a.width.length ≤ decimalLimit) :
    align t (some a.alignment) = .error f ↔ a.fault? = some f := by
  rw [align, WrittenAlignment.alignment, templateNumber_run a.digits hshort,
    ← WrittenAlignment.number, WrittenAlignment.fault?]
  change (if greatestMachineInteger < a.number then _
    else if unboundedWidth ≤ a.number then _ else _) = _ ↔ _
  split
  · exact ⟨fun h => by cases h; rfl, fun h => by cases h; rfl⟩
  · split
    · exact ⟨fun h => by cases h; rfl, fun h => by cases h; rfl⟩
    · exact ok_eq_error_iff_none

/-- A part is rendered, unless it is at fault. -/
theorem render_eq_error_iff (hnames : names.length = 2) {part : TemplatePart}
    (hshort : ShortDigitRuns part.text) :
    part.piece.render names = .error f ↔ part.fault? = some f := by
  cases part with
  | plain p h => exact ok_eq_error_iff_none
  | brace p h => exact ok_eq_error_iff_none
  | item i =>
      have hindex : templateNumber (digitsOf i.index) = .ok i.number :=
        templateNumber_run i.digits (hshort _ i.digits i.index_in_text)
      change (templateNumber (digitsOf i.index) >>= _) = _ ↔ i.fault? = some f
      rw [hindex, WrittenItem.fault?]
      simp only [bind, Except.bind]
      by_cases habove : 1 < i.number
      · rw [List.getElem?_eq_none (by omega), if_pos habove]
        exact ⟨fun h => by cases h; rfl, fun h => by cases h; rfl⟩
      · rw [List.getElem?_eq_getElem (by omega), if_neg habove]
        cases halignment : i.alignment with
        | none => exact ok_eq_error_iff_none
        | some a =>
            exact align_eq_error_iff (hshort _ a.digits (WrittenItem.width_in_text halignment))

/-- A step for each item fails as the first does that fails. -/
theorem mapM_cons_eq_error_iff {ε α β : Type} {g : α → Except ε β} {x : α} {xs : List α} {e : ε} :
    (x :: xs).mapM g = .error e ↔
      g x = .error e ∨ (∀ e', g x ≠ .error e') ∧ xs.mapM g = .error e := by
  rw [List.mapM_cons, bind_eq_error]
  refine or_congr Iff.rfl ?_
  constructor
  · rintro ⟨y, hy, h⟩
    refine ⟨fun e' he => ?_, bind_pure_eq_error.1 h⟩
    rw [hy] at he
    cases he
  · rintro ⟨hx, h⟩
    cases hy : g x with
    | error e' => exact absurd hy (hx e')
    | ok y => exact ⟨y, rfl, bind_pure_eq_error.2 h⟩

/-! ### The first fault -/

/-- A fault at the front of a text. -/
inductive FaultAt (t : CodeText) : TemplateFault → Prop
  | stray (h : StrayBrace t) : FaultAt t .strayBrace
  | part {part : TemplatePart} {rest : CodeText} {f : TemplateFault} (ht : t = part.text ++ rest)
      (hfault : part.fault? = some f) : FaultAt t f

/-- **The first fault of a template**: the parts in front of it are without faults. -/
def FirstFault (t : CodeText) (f : TemplateFault) : Prop :=
  ∃ parts rest, t = writeTemplate parts ++ rest ∧ (∀ part ∈ parts, part.fault? = none) ∧
    FaultAt rest f

theorem FirstFault.cons {part : TemplatePart} {rest : CodeText} (hpart : part.fault? = none)
    (h : FirstFault rest f) : FirstFault (part.text ++ rest) f := by
  obtain ⟨parts, behind, rfl, hparts, hfault⟩ := h
  refine ⟨part :: parts, behind, ?_, List.forall_mem_cons.2 ⟨hpart, hparts⟩, hfault⟩
  rw [writeTemplate_cons, List.append_assoc]

theorem mapM_render_of_firstFault (hnames : names.length = 2) {t : CodeText}
    (hshort : ShortDigitRuns t) (h : FirstFault t f) :
    (templatePieces t).mapM (·.render names) = .error f := by
  obtain ⟨parts, rest, rfl, hparts, hfault⟩ := h
  induction parts with
  | nil =>
      rw [writeTemplate_nil, List.nil_append] at hshort ⊢
      cases hfault with
      | stray hstray =>
          obtain ⟨pieces, hpieces⟩ := templatePieces_stray hstray
          rw [hpieces, mapM_cons_eq_error_iff]
          exact .inl rfl
      | @part part behind _ ht hfault =>
          subst ht
          rw [templatePieces_part, mapM_cons_eq_error_iff]
          exact .inl
            ((render_eq_error_iff hnames (hshort.of_part (List.prefix_append _ _).isInfix)).2
              hfault)
  | cons part parts ih =>
      obtain ⟨hpart, hparts⟩ := List.forall_mem_cons.1 hparts
      rw [writeTemplate_cons, List.append_assoc] at hshort ⊢
      rw [templatePieces_part, mapM_cons_eq_error_iff]
      refine .inr ⟨fun f' hf' => ?_, ih (hshort.of_part (List.suffix_append _ _).isInfix) hparts⟩
      rw [render_eq_error_iff hnames (hshort.of_part (List.prefix_append _ _).isInfix),
        hpart] at hf'
      cases hf'

theorem firstFault_of_mapM_render (hnames : names.length = 2) {t : CodeText}
    (hshort : ShortDigitRuns t) (h : (templatePieces t).mapM (·.render names) = .error f) :
    FirstFault t f := by
  obtain ⟨parts, rest, rfl, hrest⟩ := exists_parts t
  induction parts with
  | nil =>
      refine ⟨[], rest, rfl, fun _ hpart => absurd hpart List.not_mem_nil, ?_⟩
      rw [writeTemplate_nil, List.nil_append] at h
      rcases hrest with rfl | hstray
      · rw [templatePieces] at h
        cases h
      · obtain ⟨pieces, hpieces⟩ := templatePieces_stray hstray
        rw [hpieces, mapM_cons_eq_error_iff] at h
        rcases h with h | ⟨hnot, -⟩
        · cases h
          exact .stray hstray
        · exact absurd rfl (hnot .strayBrace)
  | cons part parts ih =>
      rw [writeTemplate_cons, List.append_assoc] at hshort h ⊢
      have hpart : ∀ f', part.piece.render names = .error f' ↔ part.fault? = some f' := fun f' =>
        render_eq_error_iff hnames (hshort.of_part (List.prefix_append _ _).isInfix)
      rw [templatePieces_part, mapM_cons_eq_error_iff] at h
      rcases h with h | ⟨hnot, h⟩
      · exact ⟨[], _, rfl, fun _ hpart => absurd hpart List.not_mem_nil, .part rfl ((hpart f).1 h)⟩
      · have hnone : part.fault? = none :=
          Option.eq_none_iff_forall_ne_some.2 fun f' hf' => hnot f' ((hpart f').2 hf')
        exact .cons hnone (ih (hshort.of_part (List.suffix_append _ _).isInfix) h)

end Render

section Names

variable {t : CodeText} {failure : Failure}

/-- **A template fails** for its first fault, whatever the names are. -/
theorem formatName_eq_error_iff (hshort : ShortDigitRuns t) (enumName valueName : String) :
    formatName t enumName valueName = .error failure ↔
      ∃ f, FirstFault t f ∧ failure = .template t f := by
  have hrender : ∀ f,
      renderPieces [.ofString enumName, .ofString valueName] (templatePieces t) = .error f ↔
        FirstFault t f := by
    intro f
    rw [renderPieces, bind_pure_eq_error]
    exact ⟨firstFault_of_mapM_render rfl hshort, mapM_render_of_firstFault rfl hshort⟩
  rw [formatName]
  cases hresult : renderPieces [.ofString enumName, .ofString valueName] (templatePieces t) with
  | ok name =>
      refine ⟨fun h => (ok_ne_error _ _ h).elim, ?_⟩
      rintro ⟨f, hf, -⟩
      rw [← hrender, hresult] at hf
      cases hf
  | error f =>
      constructor
      · intro h
        cases h
        exact ⟨f, (hrender f).1 hresult, rfl⟩
      · rintro ⟨f', hf', rfl⟩
        rw [← hrender, hresult] at hf'
        cases hf'
        rfl

/-- **The values of an enum are not bound** exactly if there is one, and the template fails. -/
theorem bindMembers_eq_error_iff (hshort : ShortDigitRuns t) (r : ResourceMembers) (e : EnumView) :
    bindMembers r t e = .error failure ↔
      e.members ≠ [] ∧ ∃ f, FirstFault t f ∧ failure = .template t f := by
  constructor
  · intro h
    obtain ⟨member, hmem, h⟩ := mapM_eq_error h
    exact ⟨List.ne_nil_of_mem hmem, (formatName_eq_error_iff hshort _ _).1 (bind_pure_eq_error.1 h)⟩
  · rintro ⟨hne, hfault⟩
    obtain ⟨member, members, hmembers⟩ := List.exists_cons_of_ne_nil hne
    rw [bindMembers, hmembers, mapM_cons_eq_error_iff]
    exact .inl (bind_pure_eq_error.2 ((formatName_eq_error_iff hshort _ _).2 hfault))

end Names

/-! ### Malformed templates and indices above 1 -/

/-- **A stray brace, or an item with an index above 1**, at the front of a text. -/
inductive FaultyFrom (t : CodeText) : Prop
  | stray (h : StrayBrace t)
  | above {i : WrittenItem} {rest : CodeText} (ht : t = (TemplatePart.item i).text ++ rest)
      (h : 1 < i.number)

/-- **A template that refers to an index above 1**. -/
def RefersAbove (t : CodeText) : Prop :=
  ∃ parts i rest, t = writeTemplate parts ++ ((TemplatePart.item i).text ++ rest) ∧ 1 < i.number

/-- An item that asks for a width past all bounds. -/
def WrittenItem.IsWide (i : WrittenItem) : Prop :=
  ∃ a ∈ i.alignment, unboundedWidth ≤ a.number

/-- A part that is rendered: it is no item with an index above 1, and none that is wide. -/
def TemplatePart.Fits (part : TemplatePart) : Prop :=
  ∀ i, part = .item i → i.number ≤ 1 ∧ ¬ i.IsWide

theorem WrittenAlignment.fault?_eq_none_iff {a : WrittenAlignment} :
    a.fault? = none ↔ a.number < unboundedWidth := by
  have hle : unboundedWidth ≤ greatestMachineInteger := by decide
  rw [fault?]
  split
  · exact ⟨fun h => (Option.some_ne_none _ h).elim, fun h => by omega⟩
  · split
    · exact ⟨fun h => (Option.some_ne_none _ h).elim, fun h => by omega⟩
    · exact ⟨fun _ => by omega, fun _ => rfl⟩

theorem WrittenItem.isWide_iff {i : WrittenItem} :
    i.IsWide ↔ i.alignment.bind WrittenAlignment.fault? ≠ none := by
  rw [IsWide]
  cases i.alignment with
  | none => exact ⟨by rintro ⟨_, ⟨⟩, -⟩, fun h => absurd rfl h⟩
  | some a =>
      rw [Option.bind_some, Ne, WrittenAlignment.fault?_eq_none_iff, Nat.not_lt]
      exact ⟨fun ⟨a', ha', h⟩ => by cases ha'; exact h, fun h => ⟨a, rfl, h⟩⟩

theorem TemplatePart.fault?_eq_none_iff {part : TemplatePart} : part.fault? = none ↔ part.Fits := by
  cases part with
  | plain p h => exact ⟨by rintro - _ ⟨⟩, fun _ => rfl⟩
  | brace p h => exact ⟨by rintro - _ ⟨⟩, fun _ => rfl⟩
  | item i =>
      rw [TemplatePart.fault?, WrittenItem.fault?, Fits]
      have hwide := i.isWide_iff
      constructor
      · rintro h _ ⟨⟩
        split at h
        · cases h
        · exact ⟨by omega, fun hw => hwide.1 hw h⟩
      · intro h
        obtain ⟨hnumber, hnot⟩ := h i rfl
        rw [if_neg (by omega)]
        exact not_not.1 fun hne => hnot (hwide.2 hne)

/-- The parts in front of a place, and what stands there, with a property of each. -/
theorem FirstFault.of_fits {t : CodeText} {parts : List TemplatePart} {rest : CodeText}
    {f : TemplateFault} (ht : t = writeTemplate parts ++ rest) (hfits : ∀ part ∈ parts, part.Fits)
    (h : FaultAt rest f) : FirstFault t f :=
  ⟨parts, rest, ht, fun part hpart => TemplatePart.fault?_eq_none_iff.2 (hfits part hpart), h⟩

theorem WrittenAlignment.fault?_category {a : WrittenAlignment} {t : CodeText} {f : TemplateFault}
    (h : a.fault? = some f) : (Failure.template t f).category ≠ .attributeData := by
  rw [fault?] at h
  split at h
  · cases h
    rintro ⟨⟩
  · split at h
    · cases h
      rintro ⟨⟩
    · cases h

/-- A part with a fault is an item whose index is above 1, or one that is wide. -/
theorem TemplatePart.fault?_eq_some {part : TemplatePart} {f : TemplateFault}
    (h : part.fault? = some f) :
    ∃ i, part = .item i ∧
      (1 < i.number ∧ f = .unknownArgument i.number ∨
        i.number ≤ 1 ∧ i.IsWide ∧ ∀ t, (Failure.template t f).category ≠ .attributeData) := by
  cases part with
  | plain p hp => cases h
  | brace p hp => cases h
  | item i =>
      refine ⟨i, rfl, ?_⟩
      rw [fault?, WrittenItem.fault?] at h
      split at h
      · next habove =>
        cases h
        exact .inl ⟨habove, rfl⟩
      · next habove =>
        obtain ⟨a, ha, hfault⟩ := Option.bind_eq_some_iff.1 h
        refine .inr ⟨by omega, i.isWide_iff.2 ?_, fun t => WrittenAlignment.fault?_category hfault⟩
        rw [h]
        intro hnone
        cases hnone

/-- **The first thing wrong with a template is a stray brace or an index above 1.** -/
def FirstFaulty (t : CodeText) : Prop :=
  ∃ parts rest, t = writeTemplate parts ++ rest ∧ (∀ part ∈ parts, part.Fits) ∧ FaultyFrom rest

/-- **The first thing wrong with a template is a width** past all bounds. -/
def FirstWide (t : CodeText) : Prop :=
  ∃ parts i rest, t = writeTemplate parts ++ ((TemplatePart.item i).text ++ rest) ∧
    (∀ part ∈ parts, part.Fits) ∧ i.number ≤ 1 ∧ i.IsWide

section Places

variable {t : CodeText}

/-- **A template fails with bad data** exactly if a stray brace, or an index above 1, is the first
thing wrong. -/
theorem firstFault_attributeData_iff :
    (∃ f, FirstFault t f ∧ (Failure.template t f).category = .attributeData) ↔ FirstFaulty t := by
  constructor
  · rintro ⟨f, ⟨parts, rest, ht, hparts, hfault⟩, hcategory⟩
    refine
      ⟨parts, rest, ht, fun part hpart => TemplatePart.fault?_eq_none_iff.1 (hparts part hpart), ?_⟩
    cases hfault with
    | stray h => exact .stray h
    | part hrest hfault =>
        obtain ⟨i, rfl, ⟨habove, -⟩ | ⟨-, -, hother⟩⟩ := TemplatePart.fault?_eq_some hfault
        · exact .above hrest habove
        · exact absurd hcategory (hother t)
  · rintro ⟨parts, rest, ht, hfits, hstray | ⟨hrest, habove⟩⟩
    · exact ⟨.strayBrace, .of_fits ht hfits (.stray hstray), rfl⟩
    · exact ⟨_, .of_fits ht hfits (.part hrest (if_pos habove)), rfl⟩

/-- **A template fails with anything else** exactly if an item that is wide is the first thing
wrong. -/
theorem firstFault_width_iff :
    (∃ f, FirstFault t f ∧ (Failure.template t f).category ≠ .attributeData) ↔ FirstWide t := by
  constructor
  · rintro ⟨f, ⟨parts, rest, ht, hparts, hfault⟩, hcategory⟩
    have hfits : ∀ part ∈ parts, part.Fits :=
      fun part hpart => TemplatePart.fault?_eq_none_iff.1 (hparts part hpart)
    cases hfault with
    | stray h => exact absurd rfl hcategory
    | part hrest hfault =>
        obtain ⟨i, rfl, ⟨-, rfl⟩ | ⟨hnumber, hwide, -⟩⟩ := TemplatePart.fault?_eq_some hfault
        · exact absurd rfl hcategory
        · exact ⟨parts, i, _, hrest ▸ ht, hfits, hnumber, hwide⟩
  · rintro ⟨parts, i, rest, ht, hfits, hnumber, hwide⟩
    obtain ⟨f, hf⟩ := Option.ne_none_iff_exists'.1 (i.isWide_iff.1 hwide)
    have hfault : (TemplatePart.item i).fault? = some f := (if_neg (Nat.not_lt.2 hnumber)).trans hf
    obtain ⟨a, -, ha⟩ := Option.bind_eq_some_iff.1 hf
    exact ⟨f, .of_fits ht hfits (.part rfl hfault), WrittenAlignment.fault?_category ha⟩

/-- **A template is malformed or refers to an index above 1** exactly if a stray brace, or such an
item, stands in it. -/
theorem malformed_or_refersAbove_iff :
    ¬ WellFormedTemplate t ∨ RefersAbove t ↔
      ∃ parts rest, t = writeTemplate parts ++ rest ∧ FaultyFrom rest := by
  constructor
  · rintro (hmalformed | ⟨parts, i, rest, ht, habove⟩)
    · obtain ⟨parts, rest, ht, rfl | hstray⟩ := exists_parts t
      · exact absurd ⟨parts, ht.trans (List.append_nil _)⟩ hmalformed
      · exact ⟨parts, rest, ht, .stray hstray⟩
    · exact ⟨parts, _, ht, .above rfl habove⟩
  · rintro ⟨parts, rest, ht, hstray | ⟨hrest, habove⟩⟩
    · refine .inl fun hwell => strayBrace_not_mem_pieces_iff.2 hwell ?_
      obtain ⟨pieces, hpieces⟩ := templatePieces_stray hstray
      rw [ht, templatePieces_parts, hpieces]
      exact List.mem_append_right _ List.mem_cons_self
    · exact .inr ⟨parts, _, _, hrest ▸ ht, habove⟩

/-- No item of a template is wide. -/
def NoWideItem (t : CodeText) : Prop :=
  ∀ parts i rest, t = writeTemplate parts ++ ((TemplatePart.item i).text ++ rest) → ¬ i.IsWide

/-- Where no item is wide, **the first stray brace or index above 1 is the first fault**. -/
theorem firstFaulty_of_noWideItem (hwide : NoWideItem t) {parts : List TemplatePart}
    {rest : CodeText} (ht : t = writeTemplate parts ++ rest) (hfaulty : FaultyFrom rest) :
    FirstFaulty t := by
  induction parts generalizing t with
  | nil => exact ⟨[], rest, ht, fun _ hpart => absurd hpart List.not_mem_nil, hfaulty⟩
  | cons part parts ih =>
      rw [writeTemplate_cons, List.append_assoc] at ht
      by_cases hfits : part.Fits
      · have hbehind : NoWideItem (writeTemplate parts ++ rest) := by
          intro parts' i rest' heq
          refine hwide (part :: parts') i rest' ?_
          rw [ht, heq, writeTemplate_cons, List.append_assoc]
        obtain ⟨parts', rest', heq, hparts, hfaulty'⟩ := ih hbehind rfl
        refine ⟨part :: parts', rest', ?_, List.forall_mem_cons.2 ⟨hfits, hparts⟩, hfaulty'⟩
        rw [ht, heq, writeTemplate_cons, List.append_assoc]
      · rw [← TemplatePart.fault?_eq_none_iff] at hfits
        obtain ⟨f, hf⟩ := Option.ne_none_iff_exists'.1 hfits
        obtain ⟨i, rfl, ⟨habove, -⟩ | ⟨-, hitem, -⟩⟩ := TemplatePart.fault?_eq_some hf
        · exact ⟨[], t, rfl, fun _ hpart => absurd hpart List.not_mem_nil, .above ht habove⟩
        · exact absurd hitem (hwide [] i _ ht)

end Places

end LocalisedEnum

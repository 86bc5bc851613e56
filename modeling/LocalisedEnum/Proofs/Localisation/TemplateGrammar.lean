import LocalisedEnum.Proofs.Localisation.TemplateFaults

/-!
**The names that templates make.**

A template makes a name exactly if it is a row of parts, no item of which refers to an argument that
is not there or asks for a width that no text can have.  The name is what the parts stand for, one
after the other: a character for itself, a doubled brace for one brace, an item for the name of the
enum or of the value.  An alignment adds blanks to the name, and never takes anything away from it.

So a template can be put together from texts and items: with the braces of the texts doubled it
gives the texts and the names back.  Texts that end or begin with braces beside an item make no
difference.

Main definitions:

* `WrittenAlignment.pad`, `TemplatePart.rendered` — what a part stands for;
* `ObeysGrammar` — a template of characters, doubled braces and items of the two arguments;
* `TemplateChunk` — texts and items, and how they are written in a template.

Main results:

* `exists_fits_or_firstFault` — a template is rendered part by part, or has a first fault;
* `formatName_eq_ok_iff` — **the name that a template makes**;
* `formatName_chunks` — texts with doubled braces, and items, are given back;
* `formatName_grammar` — **what becomes of a template**, with its failures.
-/

set_option autoImplicit false
set_option relaxedAutoImplicit false

namespace LocalisedEnum

/-! ### What parts stand for -/

/-- A name with the blanks that are missing to a width, in front of it or behind it. -/
def WrittenAlignment.pad (a : WrittenAlignment) (name : CodeText) : CodeText :=
  let blanks := List.replicate (a.number - name.length) (CodePoint.scalar ' ')
  if a.toLeft then name ++ blanks else blanks ++ name

/-- The argument of an item, with the padding of the item. -/
def WrittenItem.rendered (i : WrittenItem) (enumName valueName : CodeText) : CodeText :=
  let name := if i.number = 0 then enumName else valueName
  match i.alignment with
  | some a => a.pad name
  | none => name

/-- What a part stands for. -/
def TemplatePart.rendered (enumName valueName : CodeText) : TemplatePart → CodeText
  | plain p _ => [p]
  | brace p _ => [p]
  | item i => i.rendered enumName valueName

/-! ### Rendering -/

section Render

variable {enumName valueName : CodeText}

/-- A name is padded as its alignment asks, if there is room. -/
theorem align_of_not_wide {a : WrittenAlignment} (hshort : a.width.length ≤ decimalLimit)
    (hroom : a.number < unboundedWidth) (name : CodeText) :
    align name (some a.alignment) = .ok (a.pad name) := by
  have hmachine : ¬ greatestMachineInteger < a.number := by
    have hle : unboundedWidth ≤ greatestMachineInteger := by decide
    omega
  rw [align, WrittenAlignment.alignment, templateNumber_run a.digits hshort,
    ← WrittenAlignment.number]
  change (if greatestMachineInteger < a.number then _
    else if unboundedWidth ≤ a.number then _ else _) = _
  rw [if_neg hmachine, if_neg (Nat.not_le.2 hroom)]
  rfl

theorem render_item_of_fits {i : WrittenItem} (hshort : ShortDigitRuns (TemplatePart.item i).text)
    (hnumber : i.number ≤ 1) (hnarrow : ¬ i.IsWide) :
    i.piece.render [enumName, valueName] = .ok (i.rendered enumName valueName) := by
  have hindex : templateNumber (digitsOf i.index) = .ok i.number :=
    templateNumber_run i.digits (hshort _ i.digits i.index_in_text)
  have hname : [enumName, valueName][i.number]? =
      some (if i.number = 0 then enumName else valueName) := by
    rcases Nat.le_one_iff_eq_zero_or_eq_one.1 hnumber with h | h <;> rw [h] <;> rfl
  change (templateNumber (digitsOf i.index) >>= _) = _
  rw [hindex, WrittenItem.rendered]
  simp only [bind, Except.bind, hname]
  cases halignment : i.alignment with
  | none => rfl
  | some a =>
      refine align_of_not_wide (hshort _ a.digits (WrittenItem.width_in_text halignment)) ?_ _
      exact Nat.lt_of_not_le fun h => hnarrow ⟨a, halignment, h⟩

/-- **A part without faults is rendered** as what it stands for. -/
theorem render_of_fits {part : TemplatePart} (hshort : ShortDigitRuns part.text)
    (hfits : part.Fits) :
    part.piece.render [enumName, valueName] = .ok (part.rendered enumName valueName) := by
  cases part with
  | plain p h => rfl
  | brace p h => rfl
  | item i =>
      obtain ⟨hnumber, hnarrow⟩ := hfits i rfl
      exact render_item_of_fits hshort hnumber hnarrow

/-- **A row of parts without faults is rendered** part by part. -/
theorem renderPieces_of_fits {parts : List TemplatePart}
    (hshort : ∀ part ∈ parts, ShortDigitRuns part.text) (hfits : ∀ part ∈ parts, part.Fits) :
    renderPieces [enumName, valueName] (templatePieces (writeTemplate parts)) =
      .ok (parts.flatMap (TemplatePart.rendered enumName valueName)) := by
  have hpieces : templatePieces (writeTemplate parts) = parts.map TemplatePart.piece := by
    have hparts := templatePieces_parts parts []
    rwa [List.append_nil, templatePieces, List.append_nil] at hparts
  have hrendered : (parts.map TemplatePart.piece).mapM (·.render [enumName, valueName]) =
      .ok (parts.map (TemplatePart.rendered enumName valueName)) := by
    refine mapM_of_forall₂ (List.forall₂_map_left_iff.2 (List.forall₂_map_right_iff.2 ?_))
    exact List.forall₂_same.2 fun part hpart =>
      render_of_fits (hshort part hpart) (hfits part hpart)
  rw [renderPieces, hpieces, hrendered, List.flatMap]
  rfl

end Render

/-- A template is a row of parts without faults, or the first thing wrong with it is a fault. -/
theorem exists_fits_or_firstFault (t : CodeText) :
    (∃ parts, t = writeTemplate parts ∧ ∀ part ∈ parts, part.Fits) ∨ ∃ f, FirstFault t f := by
  obtain ⟨parts, rest, rfl, hrest⟩ := exists_parts t
  induction parts with
  | nil =>
      rcases hrest with rfl | hstray
      · exact .inl ⟨[], rfl, List.forall_mem_nil _⟩
      · exact .inr ⟨.strayBrace, [], rest, rfl, List.forall_mem_nil _, .stray hstray⟩
  | cons part parts ih =>
      rw [writeTemplate_cons, List.append_assoc]
      cases hfault : part.fault? with
      | some f => exact .inr ⟨f, [], _, rfl, List.forall_mem_nil _, .part rfl hfault⟩
      | none =>
          rcases ih with ⟨parts', heq, hfits⟩ | ⟨f, hf⟩
          · refine .inl ⟨part :: parts', ?_, ?_⟩
            · rw [heq, writeTemplate_cons]
            · exact List.forall_mem_cons.2 ⟨TemplatePart.fault?_eq_none_iff.1 hfault, hfits⟩
          · exact .inr ⟨f, .cons hfault hf⟩

/-! ### Names -/

section Names

variable {t : CodeText} {enumName valueName : String}

/-- A row of parts without faults makes the name that the parts stand for. -/
theorem formatName_of_fits {parts : List TemplatePart}
    (hshort : ∀ part ∈ parts, ShortDigitRuns part.text) (hfits : ∀ part ∈ parts, part.Fits) :
    formatName (writeTemplate parts) enumName valueName =
      .ok (parts.flatMap (TemplatePart.rendered (.ofString enumName) (.ofString valueName))) := by
  rw [formatName, renderPieces_of_fits hshort hfits]

theorem shortDigitRuns_of_length {t : CodeText} (h : t.length ≤ decimalLimit) : ShortDigitRuns t :=
  fun _ _ hin => hin.length_le.trans h

/-- The digit runs of a part are among those of the template. -/
theorem ShortDigitRuns.of_mem {parts : List TemplatePart} (h : ShortDigitRuns (writeTemplate parts))
    {part : TemplatePart} (hpart : part ∈ parts) : ShortDigitRuns part.text := by
  obtain ⟨front, back, rfl⟩ := List.append_of_mem hpart
  refine h.of_part ⟨writeTemplate front, writeTemplate back, ?_⟩
  rw [writeTemplate, writeTemplate, writeTemplate, List.flatMap_append, List.flatMap_cons,
    List.append_assoc]

/-- **The name that a template makes**: it is a row of parts without faults, and the name is what
they stand for. -/
theorem formatName_eq_ok_iff (hshort : ShortDigitRuns t) {name : CodeText} :
    formatName t enumName valueName = .ok name ↔ ∃ parts, t = writeTemplate parts ∧
      (∀ part ∈ parts, part.Fits) ∧
      name = parts.flatMap (TemplatePart.rendered (.ofString enumName) (.ofString valueName)) := by
  constructor
  · intro h
    rcases exists_fits_or_firstFault t with ⟨parts, rfl, hfits⟩ | ⟨f, hf⟩
    · rw [formatName_of_fits (fun _ hpart => hshort.of_mem hpart) hfits] at h
      cases h
      exact ⟨parts, rfl, hfits, rfl⟩
    · rw [(formatName_eq_error_iff hshort enumName valueName).2 ⟨f, hf, rfl⟩] at h
      cases h
  · rintro ⟨parts, rfl, hfits, rfl⟩
    exact formatName_of_fits (fun _ hpart => hshort.of_mem hpart) hfits

/-- A template fails in one of some categories exactly if its first fault is in one of them. -/
theorem exists_formatName_eq_error_iff (hshort : ShortDigitRuns t) (enumName valueName : String)
    (P : FailureCategory → Prop) :
    (∃ f, formatName t enumName valueName = .error f ∧ P f.category) ↔
      ∃ f, FirstFault t f ∧ P (Failure.template t f).category := by
  simp only [formatName_eq_error_iff hshort]
  constructor
  · rintro ⟨_, ⟨f, hf, rfl⟩, hP⟩
    exact ⟨f, hf, hP⟩
  · rintro ⟨f, hf, hP⟩
    exact ⟨_, ⟨f, hf, rfl⟩, hP⟩

end Names

/-! ### Templates that obey the grammar -/

/-- **A template that obeys the grammar**: characters that are no braces, doubled braces, and items
for the two arguments. -/
def ObeysGrammar (t : CodeText) : Prop :=
  ∃ parts, t = writeTemplate parts ∧ ∀ i, TemplatePart.item i ∈ parts → i.number ≤ 1

theorem NoWideItem.not_firstWide {t : CodeText} (h : NoWideItem t) : ¬ FirstWide t := by
  rintro ⟨parts, i, rest, ht, -, -, hwide⟩
  exact h parts i rest ht hwide

theorem obeysGrammar_iff_of_noWideItem {t : CodeText} (hwide : NoWideItem t) :
    ObeysGrammar t ↔ ∃ parts, t = writeTemplate parts ∧ ∀ part ∈ parts, part.Fits := by
  refine exists_congr fun parts =>
    and_congr_right fun ht => ⟨fun hnumber part hpart i hi => ?_, fun hfits i hi => ?_⟩
  · subst hi
    obtain ⟨front, back, rfl⟩ := List.append_of_mem hpart
    refine ⟨hnumber i hpart, hwide front i (writeTemplate back) ?_⟩
    rw [ht, writeTemplate, writeTemplate, writeTemplate, List.flatMap_append, List.flatMap_cons]
  · exact (hfits _ hi i rfl).1

/-! ### Texts and items -/

/-- A text, or an item, to be written into a template. -/
inductive TemplateChunk where
  | text (t : CodeText)
  | item (i : WrittenItem)

namespace TemplateChunk

/-- A text is written with its braces doubled, an item as it is. -/
def written : TemplateChunk → CodeText
  | text t => t.flatMap fun p => if p.isBrace then [p, p] else [p]
  | item i => (TemplatePart.item i).text

/-- What a text or an item stands for. -/
def rendered (enumName valueName : CodeText) : TemplateChunk → CodeText
  | text t => t
  | item i => i.rendered enumName valueName

/-- A code point as a part of a template. -/
def partOf (p : CodePoint) : TemplatePart :=
  if h : p.isBrace = true then .brace p h else .plain p (Bool.eq_false_iff.2 h)

/-- The parts that a text or an item is written as. -/
def parts : TemplateChunk → List TemplatePart
  | text t => t.map partOf
  | item i => [.item i]

theorem text_partOf (p : CodePoint) : (partOf p).text = if p.isBrace then [p, p] else [p] := by
  rw [partOf]
  split <;> rfl

theorem rendered_partOf (enumName valueName : CodeText) (p : CodePoint) :
    (partOf p).rendered enumName valueName = [p] := by
  rw [partOf]
  split <;> rfl

theorem writeTemplate_parts (c : TemplateChunk) : writeTemplate c.parts = c.written := by
  cases c with
  | text t =>
      rw [parts, written, writeTemplate, List.flatMap_map]
      exact congrArg (t.flatMap ·) (funext text_partOf)
  | item i => exact List.flatMap_singleton _ _

theorem flatMap_rendered_parts (enumName valueName : CodeText) (c : TemplateChunk) :
    c.parts.flatMap (TemplatePart.rendered enumName valueName) = c.rendered enumName valueName := by
  cases c with
  | text t =>
      rw [parts, rendered, List.flatMap_map]
      simp only [rendered_partOf, List.flatMap_singleton']
  | item i => exact List.flatMap_singleton _ _

end TemplateChunk

/-- The parts of texts are short and without faults; so it is the items that matter. -/
theorem forall_mem_parts {P : TemplatePart → Prop} (hplain : ∀ p h, P (.plain p h))
    (hbrace : ∀ p h, P (.brace p h)) {chunks : List TemplateChunk}
    (hitem : ∀ i, .item i ∈ chunks → P (.item i)) :
    ∀ part ∈ chunks.flatMap TemplateChunk.parts, P part := by
  intro part hpart
  obtain ⟨chunk, hchunk, hpart⟩ := List.mem_flatMap.1 hpart
  cases chunk with
  | item i =>
      rw [List.mem_singleton.1 hpart]
      exact hitem i hchunk
  | text t =>
      obtain ⟨p, -, rfl⟩ := List.mem_map.1 hpart
      rw [TemplateChunk.partOf]
      split
      · exact hbrace p _
      · exact hplain p _

/-- **Texts and items are given back**: with the braces of the texts doubled they make a template
that stands for them. -/
theorem formatName_chunks {chunks : List TemplateChunk}
    (hshort : ∀ i, .item i ∈ chunks → ShortDigitRuns (TemplatePart.item i).text)
    (hnumber : ∀ i, .item i ∈ chunks → i.number ≤ 1) (hnarrow : ∀ i, .item i ∈ chunks → ¬ i.IsWide)
    (enumName valueName : String) :
    formatName (chunks.flatMap TemplateChunk.written) enumName valueName =
      .ok (chunks.flatMap (TemplateChunk.rendered (.ofString enumName) (.ofString valueName))) := by
  have hwritten : chunks.flatMap TemplateChunk.written =
      writeTemplate (chunks.flatMap TemplateChunk.parts) := by
    rw [writeTemplate, List.flatMap_assoc]
    exact congrArg (chunks.flatMap ·) (funext fun c => c.writeTemplate_parts.symm)
  have hrendered : chunks.flatMap
        (TemplateChunk.rendered (.ofString enumName) (.ofString valueName)) =
      (chunks.flatMap TemplateChunk.parts).flatMap
        (TemplatePart.rendered (.ofString enumName) (.ofString valueName)) := by
    rw [List.flatMap_assoc]
    exact congrArg (chunks.flatMap ·) (funext fun c => (c.flatMap_rendered_parts _ _).symm)
  rw [hwritten, hrendered]
  refine formatName_of_fits (forall_mem_parts ?_ ?_ hshort) (forall_mem_parts ?_ ?_ ?_)
  · exact fun p _ => shortDigitRuns_of_length (t := [p]) (Nat.le_of_ble_eq_true rfl)
  · exact fun p _ => shortDigitRuns_of_length (t := [p, p]) (Nat.le_of_ble_eq_true rfl)
  · rintro p hp i ⟨⟩
  · rintro p hp i ⟨⟩
  · rintro i hi _ ⟨⟩
    exact ⟨hnumber i hi, hnarrow i hi⟩

/-! ### What becomes of a template -/

/-- **What becomes of a template** whose runs of digits are short.  It makes a name exactly if it is
a row of parts without faults; it fails with bad data, or with another failure, by what is wrong
with it first.  So where no width is past all bounds, the templates that make a name are those that
obey the grammar, and all others fail with bad data.  And texts and items, written one after the
other, are given back. -/
theorem formatName_grammar {t : CodeText} (hshort : ShortDigitRuns t)
    (enumName valueName : String) :
    (∀ name, formatName t enumName valueName = .ok name ↔
      ∃ parts, t = writeTemplate parts ∧ (∀ part ∈ parts, part.Fits) ∧
        name = parts.flatMap (TemplatePart.rendered (.ofString enumName) (.ofString valueName))) ∧
    ((∃ f, formatName t enumName valueName = .error f ∧ f.category = .attributeData) ↔
      FirstFaulty t) ∧
    ((∃ f, formatName t enumName valueName = .error f ∧ f.category ≠ .attributeData) ↔
      FirstWide t) ∧
    (NoWideItem t →
      ((∃ name, formatName t enumName valueName = .ok name) ↔ ObeysGrammar t) ∧
      ((∃ f, formatName t enumName valueName = .error f ∧ f.category = .attributeData) ↔
        ¬ ObeysGrammar t)) ∧
    ∀ chunks : List TemplateChunk, t = chunks.flatMap TemplateChunk.written →
      (∀ i, .item i ∈ chunks → i.number ≤ 1 ∧ ¬ i.IsWide) →
      formatName t enumName valueName = .ok
        (chunks.flatMap (TemplateChunk.rendered (.ofString enumName) (.ofString valueName))) := by
  have hdata := exists_formatName_eq_error_iff hshort enumName valueName (· = .attributeData)
  have hother := exists_formatName_eq_error_iff hshort enumName valueName (· ≠ .attributeData)
  refine ⟨fun name => formatName_eq_ok_iff hshort, hdata.trans firstFault_attributeData_iff,
    hother.trans firstFault_width_iff, fun hwide => ?_, ?_⟩
  · have hok : (∃ name, formatName t enumName valueName = .ok name) ↔ ObeysGrammar t := by
      rw [obeysGrammar_iff_of_noWideItem hwide]
      constructor
      · rintro ⟨name, hname⟩
        obtain ⟨parts, ht, hfits, -⟩ := (formatName_eq_ok_iff hshort).1 hname
        exact ⟨parts, ht, hfits⟩
      · rintro ⟨parts, ht, hfits⟩
        exact ⟨_, (formatName_eq_ok_iff hshort).2 ⟨parts, ht, hfits, rfl⟩⟩
    refine ⟨hok, hdata.trans ?_⟩
    rw [← hok]
    constructor
    · rintro ⟨f, hf, hcategory⟩ ⟨name, hname⟩
      rw [(formatName_eq_error_iff hshort enumName valueName).2 ⟨f, hf, rfl⟩] at hname
      cases hname
    · intro hnone
      by_contra hfaultless
      rcases exists_fits_or_firstFault t with ⟨parts, ht, hfits⟩ | ⟨f, hf⟩
      · exact hnone ⟨_, (formatName_eq_ok_iff hshort).2 ⟨parts, ht, hfits, rfl⟩⟩
      · exact hwide.not_firstWide
          (firstFault_width_iff.1 ⟨f, hf, fun hcategory => hfaultless ⟨f, hf, hcategory⟩⟩)
  · rintro chunks rfl hitems
    refine formatName_chunks (fun i hi => ?_) (fun i hi => (hitems i hi).1)
      (fun i hi => (hitems i hi).2) _ _
    obtain ⟨front, back, rfl⟩ := List.append_of_mem hi
    refine hshort.of_part
      ⟨front.flatMap TemplateChunk.written, back.flatMap TemplateChunk.written, ?_⟩
    rw [List.flatMap_append, List.flatMap_cons, List.append_assoc]
    rfl

/-- A number in a template, in decimal digits. -/
def decimalText (n : Nat) : CodeText :=
  .ofString (toString n)

theorem isDigitRun_decimalText (n : Nat) : IsDigitRun (decimalText n) := by
  rw [decimalText, CodeText.ofString, Nat.toString_eq_ofList_toDigits, String.toList_ofList]
  refine ⟨fun h => Nat.toDigits_ne_nil (List.map_eq_nil_iff.1 h), fun p hp => ?_⟩
  obtain ⟨d, hd, rfl⟩ := List.mem_map.1 hp
  exact isDigit_of_ascii (ascii_of_mem_toDigits hd)

theorem blank_of_nil : ∀ p ∈ ([] : CodeText), p.isBlank = true :=
  List.forall_mem_nil _

theorem noBrace_of_none : ∀ f ∈ (none : Option CodeText), ∀ p ∈ f, p.isBrace = false :=
  fun _ hf => (Option.not_mem_none _ hf).elim

/-- An item for an argument, with a width and no format. -/
def alignedItem (index : Nat) (toLeft : Bool) (width : Nat) : WrittenItem where
  index := decimalText index
  alignment := some
    { blanks := [], toLeft := toLeft, width := decimalText width, blank := blank_of_nil,
      digits := isDigitRun_decimalText width }
  format := none
  digits := isDigitRun_decimalText index
  plain := noBrace_of_none

/-- The enum's name, in more columns than there can be. -/
def endlessItem : WrittenItem :=
  alignedItem 0 false 9223372036854775808

/-- An item in braces is padded inside them.  A template that obeys the grammar may fail, and one
that is malformed may fail in another category than bad data, for a width in front of what is wrong
with it. -/
theorem formatName_grammar_columns :
    formatName (.ofString "\x7b\x7b\x7b1,-4\x7d\x7d\x7d") "E" "Val" =
      .ok (.ofString "\x7bVal \x7d") ∧
    (ObeysGrammar (.ofString "\x7b0,9223372036854775808\x7d") ∧
      ∃ f, formatName (.ofString "\x7b0,9223372036854775808\x7d") "E" "V" = .error f ∧
        f.category ≠ .attributeData) ∧
    ¬ WellFormedTemplate (.ofString "\x7b0,9223372036854775808\x7d\x7d") ∧
    ∃ f, formatName (.ofString "\x7b0,9223372036854775808\x7d\x7d") "E" "V" = .error f ∧
      f.category ≠ .attributeData := by
  have hcolumn : ShortDigitRuns (.ofString "\x7b\x7b\x7b1,-4\x7d\x7d\x7d") :=
    shortDigitRuns_of_length (by decide)
  have hendless : ShortDigitRuns (.ofString "\x7b0,9223372036854775808\x7d") :=
    shortDigitRuns_of_length (by decide)
  have hstray : ShortDigitRuns (.ofString "\x7b0,9223372036854775808\x7d\x7d") :=
    shortDigitRuns_of_length (by decide)
  refine ⟨?_, ⟨⟨[.item endlessItem], by decide, ?_⟩, ?_⟩, ?_, ?_⟩
  · obtain ⟨-, -, -, -, hchunks⟩ := formatName_grammar hcolumn "E" "Val"
    refine hchunks
      [.text (.ofString "\x7b"), .item (alignedItem 1 true 4), .text (.ofString "\x7d")] (by decide)
      ?_
    intro i hi
    rcases List.mem_cons.1 hi with h | hi
    · cases h
    · rcases List.mem_cons.1 hi with h | hi
      · cases h
        refine ⟨by decide, ?_⟩
        rintro ⟨_, ⟨⟩, hwide⟩
        revert hwide
        decide
      · cases List.mem_singleton.1 hi
  · intro i hi
    cases List.mem_singleton.1 hi
    decide
  · obtain ⟨-, -, hother, -⟩ := formatName_grammar hendless "E" "V"
    exact hother.2
      ⟨[], endlessItem, [], by decide, List.forall_mem_nil _, by decide, _, rfl, by decide⟩
  · rw [← strayBrace_not_mem_pieces_iff, not_not]
    decide +kernel
  · obtain ⟨-, -, hother, -⟩ := formatName_grammar hstray "E" "V"
    exact hother.2 ⟨[], endlessItem, [.scalar '\x7d'], by decide, List.forall_mem_nil _, by decide,
      _, rfl, by decide⟩

end LocalisedEnum

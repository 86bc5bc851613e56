import LocalisedEnum.Localisation.Template
import LocalisedEnum.Proofs.Token.Lexeme
import Mathlib.Data.List.TakeWhile

/-!
**Naming templates as they are written.**

A template that obeys the rules is a row of parts: characters that are no braces, braces that are
written twice, and items.  The scan of a template takes it to pieces from the left and always goes
on, a brace that begins no part being a piece of its own.  So the pieces of a template are those of
the parts at its front, and what stands behind these parts is either nothing or a stray brace.

Main definitions:

* `WrittenItem`, `TemplatePart` — the parts of a template, and `writeTemplate`, the text that they
  make up;
* `WellFormedTemplate` — a template that is a row of parts;
* `StrayBrace` — a text that begins with a brace, and with no part.

Main results:

* `itemAfterBrace?_eq_some_iff` — **an item is read** exactly where one is written;
* `templatePieces_part`, `templatePieces_stray` — the pieces of a template from those of its rest;
* `exists_parts` — **every template** is a row of parts with nothing behind it, or a stray brace;
* `strayBrace_not_mem_pieces_iff` — a template is a row of parts exactly if no piece of it is a
  stray brace.
-/

set_option autoImplicit false
set_option relaxedAutoImplicit false

namespace LocalisedEnum

/-! ### Kinds of code points -/

/-- The marks of an item. -/
def itemMarks : List Char := ['\x7b', '\x7d', ',', ':', '-']

theorem isDigit_of_mem_itemMarks {c : Char} (h : c ∈ itemMarks) :
    (CodePoint.scalar c).isDigit = false := by
  have hall : itemMarks.all (fun c => !(CodePoint.scalar c).isDigit) = true := by decide
  have hc := List.all_eq_true.1 hall c h
  rwa [Bool.not_eq_true'] at hc

theorem isDigit_of_isBlank {p : CodePoint} (h : p.isBlank = true) : p.isDigit = false := by
  cases p with
  | surrogate n range => cases h
  | scalar c =>
      exact forall_blank (P := fun c => (CodePoint.scalar c).isDigit = false) (by decide +kernel) h

theorem isBlank_of_isDigit {p : CodePoint} (h : p.isDigit = true) : p.isBlank = false := by
  cases hblank : p.isBlank with
  | false => rfl
  | true =>
      rw [isDigit_of_isBlank hblank] at h
      cases h

/-- A digit is none of the marks. -/
theorem ne_of_isDigit {p : CodePoint} (h : p.isDigit = true) {c : Char} (hc : c ∈ itemMarks) :
    p ≠ .scalar c := by
  rintro rfl
  rw [isDigit_of_mem_itemMarks hc] at h
  cases h

theorem behind?_eq_some_iff {c : Char} {t rest : CodeText} :
    behind? c t = some rest ↔ t = .scalar c :: rest := by
  constructor
  · intro h
    match t with
    | [] => cases h
    | .surrogate _ _ :: _ => cases h
    | .scalar d :: tail =>
        rw [behind?] at h
        split at h
        · next hd =>
          cases h
          rw [hd]
        · cases h
  · rintro rfl
    exact if_pos rfl

theorem behind?_eq_none {c : Char} {t : CodeText} (h : ∀ p ∈ t.head?, p ≠ .scalar c) :
    behind? c t = none := by
  rw [Option.eq_none_iff_forall_ne_some]
  rintro rest hrest
  rw [behind?_eq_some_iff] at hrest
  subst hrest
  exact h _ rfl rfl

/-- A run of things of a class ends where one outside the class follows. -/
theorem takeWhile_dropWhile_run {α : Type} {p : α → Bool} {t rest : List α}
    (ht : ∀ x ∈ t, p x = true) (hrest : ∀ x ∈ rest.head?, p x = false) :
    (t ++ rest).takeWhile p = t ∧ (t ++ rest).dropWhile p = rest := by
  rw [List.takeWhile_append_of_pos ht, List.dropWhile_append_of_pos ht]
  cases rest with
  | nil => exact ⟨List.append_nil t, rfl⟩
  | cons x rest =>
      rw [List.takeWhile_cons, List.dropWhile_cons, hrest x rfl]
      exact ⟨List.append_nil t, rfl⟩

/-! ### Items -/

/-- **A run of decimal digits**, which is not empty. -/
structure IsDigitRun (t : CodeText) : Prop where
  ne_nil : t ≠ []
  digits : ∀ p ∈ t, p.isDigit = true

/-- The worths of the digits in a text. -/
def digitsOf (t : CodeText) : List Nat :=
  t.filterMap CodePoint.digitValue?

/-- An alignment as it stands behind its comma: blanks, perhaps a minus sign, and the width. -/
structure WrittenAlignment where
  blanks : CodeText
  toLeft : Bool
  width : CodeText
  blank : ∀ p ∈ blanks, p.isBlank = true
  digits : IsDigitRun width

/-- The code points of an alignment behind its comma. -/
def WrittenAlignment.text (a : WrittenAlignment) : CodeText :=
  a.blanks ++ ((if a.toLeft then [.scalar '-'] else []) ++ a.width)

/-- The alignment that is written. -/
def WrittenAlignment.alignment (a : WrittenAlignment) : Alignment :=
  ⟨a.toLeft, digitsOf a.width⟩

/-- An item as it is written: an index, and perhaps an alignment and a format without braces. -/
structure WrittenItem where
  index : CodeText
  alignment : Option WrittenAlignment
  format : Option CodeText
  digits : IsDigitRun index
  plain : ∀ f ∈ format, ∀ p ∈ f, p.isBrace = false

/-- The code points of an alignment with its comma, if there is one. -/
def alignmentText : Option WrittenAlignment → CodeText
  | some a => .scalar ',' :: a.text
  | none => []

/-- The code points of a format with its colon, if there is one. -/
def formatText : Option CodeText → CodeText
  | some f => .scalar ':' :: f
  | none => []

namespace WrittenItem

/-- The code points of an item between its index and its closing brace. -/
def textBehindIndex (i : WrittenItem) : CodeText :=
  alignmentText i.alignment ++ formatText i.format

/-- The code points of an item behind its opening brace. -/
def inner (i : WrittenItem) : CodeText :=
  i.index ++ (i.textBehindIndex ++ [.scalar '\x7d'])

/-- The piece that is written. -/
def piece (i : WrittenItem) : TemplatePiece :=
  .item (digitsOf i.index) (i.alignment.map WrittenAlignment.alignment)

end WrittenItem

theorem isEmpty_digitsOf {t : CodeText} (h : ∀ p ∈ t, p.isDigit = true) :
    (digitsOf t).isEmpty = t.isEmpty := by
  cases t with
  | nil => rfl
  | cons p t =>
      obtain ⟨value, hvalue⟩ := Option.isSome_iff_exists.1 (h p List.mem_cons_self)
      rw [digitsOf, List.filterMap_cons, hvalue]
      rfl

theorem length_digitsOf {t : CodeText} (h : ∀ p ∈ t, p.isDigit = true) :
    (digitsOf t).length = t.length := by
  rw [digitsOf, List.filterMap_length_eq_length.2 h]

theorem takeDigits_run {t rest : CodeText} (ht : ∀ p ∈ t, p.isDigit = true)
    (hrest : ∀ p ∈ rest.head?, p.isDigit = false) :
    takeDigits (t ++ rest) = (digitsOf t, rest) := by
  obtain ⟨hfront, hback⟩ := takeWhile_dropWhile_run ht hrest
  rw [takeDigits, hfront, hback, digitsOf]

/-- Every text is a run of digits, which may be empty, in front of something else. -/
theorem exists_digits (t : CodeText) : ∃ run rest, t = run ++ rest ∧ (∀ p ∈ run, p.isDigit = true) ∧
    (∀ p ∈ rest.head?, p.isDigit = false) ∧ takeDigits t = (digitsOf run, rest) := by
  refine ⟨t.takeWhile CodePoint.isDigit, t.dropWhile CodePoint.isDigit,
    List.takeWhile_append_dropWhile.symm, ?_, ?_, rfl⟩
  · exact fun p hp => List.mem_takeWhile_imp hp
  · intro p hp
    have hhead := List.head?_dropWhile_not CodePoint.isDigit t
    rw [hp] at hhead
    simpa using hhead

section Alignment

variable {rest : CodeText}

theorem alignmentAfterComma?_text (a : WrittenAlignment)
    (hrest : ∀ p ∈ rest.head?, p.isDigit = false) :
    alignmentAfterComma? (a.text ++ rest) = some (a.alignment, rest) := by
  have hfirst : ∀ p ∈ a.width.head?, p.isDigit = true :=
    fun p hp => a.digits.digits p (List.mem_of_head? hp)
  have hsigned :
      ∀ p ∈ ((if a.toLeft then [.scalar '-'] else []) ++ (a.width ++ rest) : CodeText).head?,
        p.isBlank = false := by
    obtain ⟨first, more, hwidth⟩ := List.exists_cons_of_ne_nil a.digits.ne_nil
    intro p hp
    cases hleft : a.toLeft with
    | true =>
        rw [hleft] at hp
        cases hp
        decide
    | false =>
        rw [hleft, hwidth] at hp
        cases hp
        exact isBlank_of_isDigit (a.digits.digits _ (hwidth ▸ List.mem_cons_self))
  have hdrop : (a.text ++ rest).dropWhile CodePoint.isBlank =
      (if a.toLeft then [.scalar '-'] else []) ++ (a.width ++ rest) := by
    rw [WrittenAlignment.text, List.append_assoc, List.append_assoc]
    exact (takeWhile_dropWhile_run a.blank hsigned).2
  have hminus : behind? '-' (a.width ++ rest) = none := by
    refine behind?_eq_none fun p hp => ?_
    obtain ⟨first, more, hwidth⟩ := List.exists_cons_of_ne_nil a.digits.ne_nil
    rw [hwidth] at hp
    cases hp
    exact ne_of_isDigit (a.digits.digits _ (hwidth ▸ List.mem_cons_self)) (by decide)
  have hwidth : (digitsOf a.width).isEmpty = false := by
    rw [isEmpty_digitsOf a.digits.digits, List.isEmpty_eq_false_iff]
    exact a.digits.ne_nil
  simp only [alignmentAfterComma?, hdrop]
  cases hleft : a.toLeft with
  | true =>
      have hbehind : behind? '-' ([.scalar '-'] ++ (a.width ++ rest)) = some (a.width ++ rest) :=
        behind?_eq_some_iff.2 rfl
      simp only [if_true, hbehind, Option.getD_some, takeDigits_run a.digits.digits hrest, hwidth,
        Bool.false_eq_true, if_false, Option.isSome_some, WrittenAlignment.alignment, hleft]
  | false =>
      simp only [Bool.false_eq_true, if_false, List.nil_append, hminus, Option.getD_none,
        takeDigits_run a.digits.digits hrest, hwidth, Option.isSome_none,
        WrittenAlignment.alignment, hleft]

theorem exists_writtenAlignment {t : CodeText} {alignment : Alignment}
    (h : alignmentAfterComma? t = some (alignment, rest)) :
    ∃ a : WrittenAlignment, t = a.text ++ rest ∧ alignment = a.alignment := by
  simp only [alignmentAfterComma?] at h
  generalize hsigned : t.dropWhile CodePoint.isBlank = signed at h
  have ht : t = t.takeWhile CodePoint.isBlank ++ signed := by
    rw [← hsigned, List.takeWhile_append_dropWhile]
  have hblank : ∀ p ∈ t.takeWhile CodePoint.isBlank, p.isBlank = true :=
    fun p hp => List.mem_takeWhile_imp hp
  obtain ⟨run, behind, hrun, hdigits, -, htake⟩ := exists_digits ((behind? '-' signed).getD signed)
  rw [htake] at h
  split at h
  · cases h
  · next hwidth =>
    cases h
    rw [Bool.not_eq_true, isEmpty_digitsOf hdigits, List.isEmpty_eq_false_iff] at hwidth
    refine ⟨⟨t.takeWhile CodePoint.isBlank, (behind? '-' signed).isSome, run, hblank, hwidth,
        hdigits⟩, ?_, rfl⟩
    rw [WrittenAlignment.text, List.append_assoc, List.append_assoc, ← hrun]
    refine ht.trans (congrArg _ ?_)
    cases hminus : behind? '-' signed with
    | none => rfl
    | some unsigned =>
        rw [behind?_eq_some_iff.1 hminus]
        rfl

end Alignment

/-- What follows the index of an item, or an alignment: no digit. -/
theorem isDigit_head_marks {marks : CodeText} {rest : CodeText}
    (h : ∀ p ∈ marks.head?, ∃ c ∈ itemMarks, p = .scalar c) :
    ∀ p ∈ (marks ++ (.scalar '\x7d' :: rest)).head?, p.isDigit = false := by
  intro p hp
  cases marks with
  | nil =>
      cases hp
      exact isDigit_of_mem_itemMarks (by decide)
  | cons first more =>
      cases hp
      obtain ⟨c, hc, rfl⟩ := h _ rfl
      exact isDigit_of_mem_itemMarks hc

section Item

variable {rest : CodeText}

theorem dropFormat_text (format : Option CodeText)
    (hplain : ∀ f ∈ format, ∀ p ∈ f, p.isBrace = false) :
    dropFormat (formatText format ++ (.scalar '\x7d' :: rest)) = .scalar '\x7d' :: rest := by
  cases format with
  | none =>
      have hnone : behind? ':' (.scalar '\x7d' :: rest) = none := behind?_eq_none fun p hp => by
        cases hp
        decide
      simp only [formatText, List.nil_append, dropFormat, hnone]
  | some f =>
      have hcolon : behind? ':' (.scalar ':' :: (f ++ (.scalar '\x7d' :: rest))) =
          some (f ++ (.scalar '\x7d' :: rest)) := behind?_eq_some_iff.2 rfl
      simp only [formatText, List.cons_append, dropFormat, hcolon]
      refine (takeWhile_dropWhile_run (fun p hp => ?_) fun p hp => ?_).2
      · rw [hplain f rfl p hp]
        rfl
      · cases hp
        decide

theorem takeAlignment_text (i : WrittenItem) :
    takeAlignment (i.textBehindIndex ++ (.scalar '\x7d' :: rest)) = (i.alignment.map
        WrittenAlignment.alignment, formatText i.format ++ (.scalar '\x7d' :: rest)) := by
  rw [WrittenItem.textBehindIndex, List.append_assoc]
  generalize hbehind : formatText i.format ++ (.scalar '\x7d' :: rest) = behind
  have hhead : ∀ p ∈ behind.head?, p = .scalar ':' ∨ p = .scalar '\x7d' := by
    intro p hp
    rw [← hbehind] at hp
    cases hformat : i.format with
    | none =>
        rw [hformat] at hp
        cases hp
        exact .inr rfl
    | some f =>
        rw [hformat] at hp
        cases hp
        exact .inl rfl
  have hdigit : ∀ p ∈ behind.head?, p.isDigit = false := by
    intro p hp
    rcases hhead p hp with rfl | rfl <;> exact isDigit_of_mem_itemMarks (by decide)
  cases halignment : i.alignment with
  | none =>
      have hnone : behind? ',' behind = none := by
        refine behind?_eq_none fun p hp => ?_
        rcases hhead p hp with rfl | rfl <;> decide
      simp only [alignmentText, List.nil_append, takeAlignment, hnone, Option.bind_none,
        Option.map_none]
  | some a =>
      have hsome : behind? ',' (.scalar ',' :: (a.text ++ behind)) = some (a.text ++ behind) :=
        behind?_eq_some_iff.2 rfl
      simp only [alignmentText, List.cons_append, takeAlignment, hsome, Option.bind_some,
        alignmentAfterComma?_text a hdigit, Option.map_some]

theorem itemAfterBrace?_inner (i : WrittenItem) (rest : CodeText) :
    itemAfterBrace? (i.inner ++ rest) = some (i.piece, rest) := by
  have hdigit : ∀ p ∈ (i.textBehindIndex ++ (.scalar '\x7d' :: rest)).head?, p.isDigit = false := by
    refine isDigit_head_marks fun p hp => ?_
    rw [WrittenItem.textBehindIndex] at hp
    cases halignment : i.alignment with
    | some a =>
        rw [halignment] at hp
        cases hp
        exact ⟨',', by decide, rfl⟩
    | none =>
        rw [halignment] at hp
        cases hformat : i.format with
        | some f =>
            rw [hformat] at hp
            cases hp
            exact ⟨':', by decide, rfl⟩
        | none =>
            rw [hformat] at hp
            cases hp
  have hindex : (digitsOf i.index).isEmpty = false := by
    rw [isEmpty_digitsOf i.digits.digits, List.isEmpty_eq_false_iff]
    exact i.digits.ne_nil
  have hclose : behind? '\x7d' (.scalar '\x7d' :: rest) = some rest := behind?_eq_some_iff.2 rfl
  rw [WrittenItem.inner, List.append_assoc, List.append_assoc]
  simp only [itemAfterBrace?, List.singleton_append, takeDigits_run i.digits.digits hdigit,
    takeAlignment_text i, dropFormat_text i.format i.plain, hclose, hindex, Bool.false_eq_true,
    if_false, Option.map_some]
  rfl

theorem exists_alignment (t : CodeText) :
    ∃ a : Option WrittenAlignment, t = alignmentText a ++ (takeAlignment t).2 ∧
      (takeAlignment t).1 = a.map WrittenAlignment.alignment := by
  rw [takeAlignment]
  split
  · next alignment behind h =>
    obtain ⟨afterComma, hcomma, halignment⟩ := Option.bind_eq_some_iff.1 h
    obtain ⟨a, rfl, rfl⟩ := exists_writtenAlignment halignment
    exact ⟨some a, behind?_eq_some_iff.1 hcomma, rfl⟩
  · exact ⟨none, rfl, rfl⟩

theorem exists_format (t : CodeText) : ∃ f : Option CodeText, t = formatText f ++ dropFormat t ∧
    ∀ format ∈ f, ∀ p ∈ format, p.isBrace = false := by
  rw [dropFormat]
  split
  · next behind h =>
    refine ⟨some (behind.takeWhile (!·.isBrace)), ?_, ?_⟩
    · rw [behind?_eq_some_iff.1 h, formatText, List.cons_append, List.takeWhile_append_dropWhile]
    · rintro _ ⟨⟩ p hp
      simpa using List.mem_takeWhile_imp hp
  · exact ⟨none, rfl, fun _ h => nomatch h⟩

/-- **An item is read** exactly where one is written. -/
theorem itemAfterBrace?_eq_some_iff {t : CodeText} {piece : TemplatePiece} :
    itemAfterBrace? t = some (piece, rest) ↔
      ∃ i : WrittenItem, t = i.inner ++ rest ∧ piece = i.piece := by
  constructor
  · intro h
    obtain ⟨index, afterIndex, rfl, hdigits, -, htake⟩ := exists_digits t
    simp only [itemAfterBrace?, htake] at h
    split at h
    · cases h
    · next hindex =>
      rw [Bool.not_eq_true, isEmpty_digitsOf hdigits, List.isEmpty_eq_false_iff] at hindex
      obtain ⟨closed, hclose, heq⟩ := Option.map_eq_some_iff.1 h
      cases heq
      rw [behind?_eq_some_iff] at hclose
      obtain ⟨alignment, hafterIndex, halignment⟩ := exists_alignment afterIndex
      obtain ⟨format, hafterAlignment, hplain⟩ := exists_format (takeAlignment afterIndex).2
      refine ⟨⟨index, alignment, format, ⟨hindex, hdigits⟩, hplain⟩, ?_, ?_⟩
      · rw [hclose] at hafterAlignment
        rw [hafterAlignment] at hafterIndex
        rw [WrittenItem.inner, WrittenItem.textBehindIndex, List.append_assoc, List.append_assoc,
          List.append_assoc, List.singleton_append, ← hafterIndex]
      · rw [WrittenItem.piece, halignment]
  · rintro ⟨i, rfl, rfl⟩
    exact itemAfterBrace?_inner i rest

end Item

/-! ### Parts -/

/-- **A part of a template**: a code point that is no brace, a brace that is written twice, or an
item. -/
inductive TemplatePart where
  | plain (p : CodePoint) (h : p.isBrace = false)
  | brace (p : CodePoint) (h : p.isBrace = true)
  | item (i : WrittenItem)

namespace TemplatePart

/-- The code points of a part. -/
def text : TemplatePart → CodeText
  | plain p _ => [p]
  | brace p _ => [p, p]
  | item i => .scalar '\x7b' :: i.inner

/-- The piece that a part is read as. -/
def piece : TemplatePart → TemplatePiece
  | plain p _ => .literal p
  | brace p _ => .literal p
  | item i => i.piece

theorem piece_ne_strayBrace (part : TemplatePart) : part.piece ≠ .strayBrace := by
  intro h
  cases part <;> cases h

end TemplatePart

/-- The template with the given parts. -/
def writeTemplate (parts : List TemplatePart) : CodeText :=
  parts.flatMap TemplatePart.text

@[simp] theorem writeTemplate_nil : writeTemplate [] = [] := rfl

@[simp] theorem writeTemplate_cons (part : TemplatePart) (parts : List TemplatePart) :
    writeTemplate (part :: parts) = part.text ++ writeTemplate parts := rfl

/-- **A template that obeys the rules** is a row of parts. -/
def WellFormedTemplate (t : CodeText) : Prop :=
  ∃ parts, t = writeTemplate parts

/-- **A brace that begins no part.** -/
structure StrayBrace (t : CodeText) : Prop where
  brace : ∃ p ∈ t.head?, p.isBrace = true
  noPart : ∀ part : TemplatePart, ¬ part.text <+: t

/-! ### Pieces -/

theorem head_inner (i : WrittenItem) (rest : CodeText) :
    (i.inner ++ rest).head? ≠ some (.scalar '\x7b') := by
  obtain ⟨first, more, hindex⟩ := List.exists_cons_of_ne_nil i.digits.ne_nil
  rw [WrittenItem.inner, hindex]
  intro h
  have hdigit := i.digits.digits first (hindex ▸ List.mem_cons_self)
  exact ne_of_isDigit hdigit (c := '\x7b') (by decide) (Option.some.inj h)

/-- **The pieces of a template** that begins with a part. -/
theorem templatePieces_part (part : TemplatePart) (rest : CodeText) :
    templatePieces (part.text ++ rest) = part.piece :: templatePieces rest := by
  cases part with
  | plain p h =>
      rw [TemplatePart.text, List.singleton_append, templatePieces, h]
      rfl
  | brace p h =>
      have hdouble : ((p :: rest).head? == some p) = true := beq_iff_eq.2 rfl
      rw [TemplatePart.text, List.cons_append, List.singleton_append, templatePieces, h, hdouble]
      rfl
  | item i =>
      have hsingle : ((i.inner ++ rest).head? == some (.scalar '\x7b')) = false :=
        beq_eq_false_iff_ne.2 (head_inner i rest)
      have hbrace : (CodePoint.scalar '\x7b').isBrace = true := rfl
      rw [TemplatePart.text, List.cons_append, templatePieces, hbrace, hsingle]
      simp only [if_true, Bool.false_eq_true, if_false]
      split
      · next piece behind h =>
        rw [itemAfterBrace?_inner] at h
        cases h
        rfl
      · next h =>
        rw [itemAfterBrace?_inner] at h
        cases h

theorem templatePieces_parts (parts : List TemplatePart) (rest : CodeText) :
    templatePieces (writeTemplate parts ++ rest) =
      parts.map TemplatePart.piece ++ templatePieces rest := by
  induction parts with
  | nil => rfl
  | cons part parts ih =>
      rw [writeTemplate_cons, List.append_assoc, templatePieces_part, ih]
      rfl

/-- A stray brace is a piece of its own. -/
theorem templatePieces_stray {t : CodeText} (h : StrayBrace t) :
    ∃ pieces, templatePieces t = .strayBrace :: pieces := by
  obtain ⟨p, hp, hbrace⟩ := h.brace
  cases t with
  | nil => cases hp
  | cons q rest =>
      cases hp
      have hsingle : (rest.head? == some p) = false := by
        rw [beq_eq_false_iff_ne]
        intro hhead
        obtain ⟨more, rfl⟩ := List.head?_eq_some_iff.1 hhead
        exact h.noPart (.brace p hbrace) ⟨more, rfl⟩
      rw [templatePieces, hbrace, hsingle]
      simp only [if_true, Bool.false_eq_true, if_false]
      split
      · next hopen =>
        subst hopen
        split
        · next piece behind hitem =>
          obtain ⟨i, rfl, -⟩ := itemAfterBrace?_eq_some_iff.1 hitem
          exact absurd ⟨behind, rfl⟩ (h.noPart (.item i))
        · exact ⟨_, rfl⟩
      · exact ⟨_, rfl⟩

/-- A template that is not empty begins with a part or with a stray brace. -/
theorem exists_part_or_stray {t : CodeText} (hne : t ≠ []) :
    (∃ part rest, t = TemplatePart.text part ++ rest) ∨ StrayBrace t := by
  obtain ⟨p, rest, rfl⟩ := List.exists_cons_of_ne_nil hne
  cases hbrace : p.isBrace with
  | false => exact .inl ⟨.plain p hbrace, rest, rfl⟩
  | true =>
      by_cases hpart : ∃ part : TemplatePart, part.text <+: p :: rest
      · obtain ⟨part, behind, heq⟩ := hpart
        exact .inl ⟨part, behind, heq.symm⟩
      · exact .inr ⟨⟨p, rfl, hbrace⟩, fun part hpart' => hpart ⟨part, hpart'⟩⟩

theorem TemplatePart.text_ne_nil (part : TemplatePart) : part.text ≠ [] := by
  cases part <;> exact List.cons_ne_nil _ _

/-- **Every template** is a row of parts with nothing behind it, or with a stray brace. -/
theorem exists_parts (t : CodeText) :
    ∃ parts rest, t = writeTemplate parts ++ rest ∧ (rest = [] ∨ StrayBrace rest) := by
  by_cases hne : t = []
  · exact ⟨[], [], hne, .inl rfl⟩
  rcases exists_part_or_stray hne with ⟨part, behind, hpart⟩ | hstray
  · have hlt : behind.length < t.length := by
      have hpos := List.length_pos_iff.2 part.text_ne_nil
      rw [hpart, List.length_append]
      omega
    obtain ⟨parts, rest, hbehind, hrest⟩ := exists_parts behind
    refine ⟨part :: parts, rest, ?_, hrest⟩
    rw [hpart, hbehind, writeTemplate_cons, List.append_assoc]
  · exact ⟨[], t, rfl, .inr hstray⟩
  termination_by t.length
  decreasing_by exact hlt

theorem strayBrace_not_mem_map_piece (parts : List TemplatePart) :
    TemplatePiece.strayBrace ∉ parts.map TemplatePart.piece := by
  intro h
  obtain ⟨part, _, hpart⟩ := List.mem_map.1 h
  exact part.piece_ne_strayBrace hpart

/-- **A template obeys the rules** exactly if no piece of it is a stray brace. -/
theorem strayBrace_not_mem_pieces_iff {t : CodeText} :
    TemplatePiece.strayBrace ∉ templatePieces t ↔ WellFormedTemplate t := by
  constructor
  · intro h
    obtain ⟨parts, rest, rfl, rfl | hstray⟩ := exists_parts t
    · exact ⟨parts, List.append_nil _⟩
    · obtain ⟨pieces, hpieces⟩ := templatePieces_stray hstray
      refine absurd ?_ h
      rw [templatePieces_parts, hpieces]
      exact List.mem_append_right _ List.mem_cons_self
  · rintro ⟨parts, rfl⟩
    have hpieces := templatePieces_parts parts []
    rw [List.append_nil] at hpieces
    rw [hpieces, templatePieces, List.append_nil]
    exact strayBrace_not_mem_map_piece parts

end LocalisedEnum

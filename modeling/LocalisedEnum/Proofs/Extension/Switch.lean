import LocalisedEnum.Extension.Source

/-!
**Generated methods, read as a switch.**

What a generated method does with a value is decided by its lines alone: the first case whose label
is the label of the value, or else the default branch, is taken, and the branch either yields a
reference or refuses.  The literal variant returns the reference.  The formatted variant stores it,
breaks out of the switch, and formats it behind the switch.

The reader below knows the layout of the lines and nothing of mappings.

Main definitions:

* `BranchEffect` — a reference, or a refusal;
* `caseBody?`, `defaultBody?`, `branchEffect?` — the parts of a switch;
* `switchCases` — the labels of a switch with what their branches do;
* `switchEffect?` — what a method does with the value of a label;
* `Mapping.effectOn?` — what the method of a mapping does with a member.

Main results:

* `effectOn?_eq` — **the method of a mapping** yields the reference of the first binding whose label
  is that of the member, or else that of the default, or refuses;
* `switchCases_methodLines`, `defaultBody?_effect` — **the cases of the method** are the bindings of
  the mapping, and its default is that of the mapping.
-/

set_option autoImplicit false
set_option relaxedAutoImplicit false

namespace LocalisedEnum

/-! ### Text between two marks -/

/-- What stands between `lead` and `tail` in a text that begins and ends so. -/
def between? (lead tail line : String) : Option String :=
  (afterStart? lead line).bind (beforeEnd? tail)

theorem between?_append (lead inside tail : String) :
    between? lead tail (lead ++ inside ++ tail) = some inside := by
  have hstart : afterStart? lead (lead ++ inside ++ tail) = some (inside ++ tail) := by
    simp [afterStart?, String.toList_append, List.append_assoc]
  rw [between?, hstart, Option.bind_some, beforeEnd?, dropEnd?, String.toList_append,
    List.reverse_append, dropStart?_append]
  simp

theorem between?_eq_none {lead tail line : String} (h : dropStart? lead.toList line.toList = none) :
    between? lead tail line = none := by
  simp [between?, afterStart?, h]

/-! ### The parts of a switch -/

/-- What a branch does: it yields a reference, or it throws. -/
inductive BranchEffect where
  | value (reference : String)
  | refusal
  deriving DecidableEq, Repr

/-- How the line of a case begins. -/
def caseLead : String := margin 2 ++ "case "

/-- The line of the default. -/
def defaultLine : String := margin 2 ++ "default:"

/-- The line that ends the switch. -/
def switchEnd : String := margin 1 ++ "\x7d"

/-- The line behind the switch that puts the detail into the string. -/
def formatLine : String :=
  margin 1 ++ "return string.Format(discoveredValue, " ++ detailParameter ++ ");"

/-- The label of the line of a case. -/
def caseLabel? (line : String) : Option String :=
  between? caseLead ":" line

/-- The lines behind the first case with a label. -/
def caseBody? (label : String) : List String → Option (List String)
  | [] => none
  | line :: rest => if caseLabel? line = some label then some rest else caseBody? label rest

/-- The lines behind a line. -/
def linesBehind? (wanted : String) : List String → Option (List String)
  | [] => none
  | line :: rest => if line = wanted then some rest else linesBehind? wanted rest

/-- The lines behind the mark of the default. -/
def defaultBody? (lines : List String) : Option (List String) :=
  linesBehind? defaultLine lines

/-- What the branch at the front does: the literal variant returns, the formatted variant stores the
reference and breaks, and either may throw. -/
def branchEffect? (variant : Variant) : List String → Option BranchEffect
  | [] => none
  | line :: rest =>
    if line = refusalLine then some .refusal
    else match variant with
      | .literal => (between? (margin 3 ++ "return ") ";" line).map .value
      | .formatted =>
        if rest.head? = some (margin 3 ++ "break;") then
          (between? (margin 3 ++ "discoveredValue = ") ";" line).map .value
        else none

/-- The cases of a switch, in order: the label of each, and what its branch does. -/
def switchCases (variant : Variant) : List String → List (String × Option BranchEffect)
  | [] => []
  | line :: rest =>
    ((caseLabel? line).map (·, branchEffect? variant rest)).toList ++ switchCases variant rest

/-- Whether a value that the switch has found leaves the method: at once in the literal variant, by
the line behind the switch in the formatted variant. -/
def leavesMethod (variant : Variant) (lines : List String) : Bool :=
  !variant.hasDetail || ((linesBehind? switchEnd lines).bind List.head?) == some formatLine

/-- The lines of the branch that is taken for a label: those of its own case, or else the
default's. -/
def selectedBody? (label : String) (lines : List String) : Option (List String) :=
  (caseBody? label lines).or (defaultBody? lines)

/-- What a method with the given lines does with the value of a label. -/
def switchEffect? (variant : Variant) (label : String) (lines : List String) :
    Option BranchEffect :=
  if leavesMethod variant lines then (selectedBody? label lines).bind (branchEffect? variant)
  else none

namespace Mapping

/-- The label of a member in the method of a mapping. -/
def labelOf (m : Mapping) (member : String) : String :=
  m.view.typeText ++ "." ++ escapeName member

/-- What the method of a mapping does with a member. -/
def effectOn? (m : Mapping) (member : String) : Option BranchEffect :=
  switchEffect? m.variant (m.labelOf member) m.methodLines

end Mapping

/-! ### Lines that are no case, no default and no end -/

/-- A line that a reader of a switch passes over: no case, no mark of the default, and not the
end. -/
structure InertLine (line : String) : Prop where
  noCase : caseLabel? line = none
  noDefault : line ≠ defaultLine
  noEnd : line ≠ switchEnd

theorem caseLabel?_eq_none {line : String} (h : dropStart? caseLead.toList line.toList = none) :
    caseLabel? line = none :=
  between?_eq_none h

theorem caseBody?_append {label : String} {lines : List String}
    (h : ∀ line ∈ lines, caseLabel? line = none) (rest : List String) :
    caseBody? label (lines ++ rest) = caseBody? label rest := by
  induction lines with
  | nil => rfl
  | cons line lines ih =>
      have hline : caseLabel? line ≠ some label := by simp [h line List.mem_cons_self]
      rw [List.cons_append, caseBody?, if_neg hline]
      exact ih fun l hl => h l (List.mem_cons_of_mem _ hl)

theorem switchCases_append {variant : Variant} {lines : List String}
    (h : ∀ line ∈ lines, caseLabel? line = none) (rest : List String) :
    switchCases variant (lines ++ rest) = switchCases variant rest := by
  induction lines with
  | nil => rfl
  | cons line lines ih =>
      rw [List.cons_append, switchCases, h line List.mem_cons_self]
      exact ih fun l hl => h l (List.mem_cons_of_mem _ hl)

theorem linesBehind?_append {wanted : String} {lines : List String}
    (h : ∀ line ∈ lines, line ≠ wanted) (rest : List String) :
    linesBehind? wanted (lines ++ rest) = linesBehind? wanted rest := by
  induction lines with
  | nil => rfl
  | cons line lines ih =>
      rw [List.cons_append, linesBehind?, if_neg (h line List.mem_cons_self)]
      exact ih fun l hl => h l (List.mem_cons_of_mem _ hl)

/-! ### The lines of a branch -/

theorem noCase_branchLines (variant : Variant) (reference : String) :
    ∀ line ∈ branchLines variant reference, caseLabel? line = none := by
  intro line hline
  refine caseLabel?_eq_none ?_
  cases variant <;> simp only [branchLines, List.mem_cons, List.not_mem_nil, or_false] at hline
  · subst hline
    simp [caseLead, margin, indentUnit, String.join, dropStart?]
  · rcases hline with rfl | rfl <;> simp [caseLead, margin, indentUnit, String.join, dropStart?]

/-- A line that stands three levels deep is neither the mark of the default nor the end. -/
theorem deepLine_ne (text : String) :
    margin 3 ++ text ≠ defaultLine ∧ margin 3 ++ text ≠ switchEnd := by
  constructor <;> intro h <;> have h := congrArg String.toList h
  · simp [defaultLine, margin, indentUnit, String.join] at h
  · simp [switchEnd, margin, indentUnit, String.join] at h

theorem deepLine_of_mem_branchLines {variant : Variant} {reference line : String}
    (h : line ∈ branchLines variant reference) : ∃ text, line = margin 3 ++ text := by
  cases variant <;> simp only [branchLines, List.mem_cons, List.not_mem_nil, or_false] at h
  · exact ⟨"return " ++ reference ++ ";", by rw [h, String.append_assoc, String.append_assoc,
      String.append_assoc]⟩
  · rcases h with h | h
    · exact ⟨"discoveredValue = " ++ reference ++ ";", by rw [h, String.append_assoc,
        String.append_assoc, String.append_assoc]⟩
    · exact ⟨"break;", h⟩

theorem inertLine_of_mem_branchLines {variant : Variant} {reference line : String}
    (h : line ∈ branchLines variant reference) : InertLine line := by
  obtain ⟨text, htext⟩ := deepLine_of_mem_branchLines h
  refine ⟨noCase_branchLines variant reference line h, ?_, ?_⟩
  · rw [htext]
    exact (deepLine_ne text).1
  · rw [htext]
    exact (deepLine_ne text).2

theorem returnLine_ne_refusalLine (lead text : String)
    (h : lead = "return " ∨ lead = "discoveredValue = ") :
    margin 3 ++ lead ++ text ≠ refusalLine := by
  intro heq
  have heq := congrArg String.toList heq
  rcases h with rfl | rfl <;> simp [refusalLine, margin, indentUnit, String.join] at heq

/-- The lines that take the string from a reference yield the reference. -/
theorem branchEffect?_branchLines (variant : Variant) (reference : String) (rest : List String) :
    branchEffect? variant (branchLines variant reference ++ rest) = some (.value reference) := by
  cases variant with
  | literal =>
      have hne := returnLine_ne_refusalLine "return " (reference ++ ";") (Or.inl rfl)
      rw [← String.append_assoc] at hne
      simp only [branchLines, List.cons_append, branchEffect?, if_neg hne, between?_append,
        Option.map_some]
  | formatted =>
      have hne := returnLine_ne_refusalLine "discoveredValue = " (reference ++ ";") (Or.inr rfl)
      rw [← String.append_assoc] at hne
      simp only [branchLines, List.cons_append, branchEffect?, if_neg hne, List.head?_cons,
        if_true, between?_append, Option.map_some]

theorem branchEffect?_refusalLine (variant : Variant) (rest : List String) :
    branchEffect? variant (refusalLine :: rest) = some .refusal := by
  simp [branchEffect?]

/-! ### The lines of the cases -/

theorem caseLabel?_caseLine (typeText member : String) :
    caseLabel? (margin 2 ++ "case " ++ typeText ++ "." ++ escapeName member ++ ":") =
      some (typeText ++ "." ++ escapeName member) := by
  have h := between?_append caseLead (typeText ++ "." ++ escapeName member) ":"
  simpa only [caseLabel?, caseLead, String.append_assoc] using h

theorem caseLine_ne (text : String) :
    margin 2 ++ "case " ++ text ≠ defaultLine ∧ margin 2 ++ "case " ++ text ≠ switchEnd := by
  constructor <;> intro h <;> have h := congrArg String.toList h
  · simp [defaultLine, margin, indentUnit, String.join] at h
  · simp [switchEnd, margin, indentUnit, String.join] at h

/-- The lines of cases hold neither the mark of the default nor the end of the switch. -/
theorem caseLines_ne {variant : Variant} {typeText : String} {bs : List Binding} {line : String}
    (h : line ∈ bs.flatMap (caseLines variant typeText)) :
    line ≠ defaultLine ∧ line ≠ switchEnd := by
  obtain ⟨b, _, hline⟩ := List.mem_flatMap.1 h
  rcases List.mem_cons.1 hline with rfl | hline
  · have h := caseLine_ne (typeText ++ ("." ++ (escapeName b.member ++ ":")))
    simpa only [String.append_assoc] using h
  · exact
      ⟨(inertLine_of_mem_branchLines hline).noDefault, (inertLine_of_mem_branchLines hline).noEnd⟩

variable {variant : Variant} {typeText label : String} {bs : List Binding} {rest : List String}

/-- Behind the case of a label stand the lines of its branch; a label without a case is passed
over. -/
theorem caseBody?_caseLines (b : Binding) :
    caseBody? label (caseLines variant typeText b ++ rest) =
      if typeText ++ "." ++ escapeName b.member = label then
        some (branchLines variant b.reference ++ rest)
      else caseBody? label rest := by
  rw [caseLines, List.cons_append, caseBody?, caseLabel?_caseLine]
  by_cases h : typeText ++ "." ++ escapeName b.member = label
  · rw [if_pos (congrArg some h), if_pos h]
  · rw [if_neg (fun heq => h (Option.some.inj heq)), if_neg h]
    exact caseBody?_append (noCase_branchLines variant b.reference) rest

theorem caseBody?_eq_none
    (h : bs.find? (fun b => typeText ++ "." ++ escapeName b.member == label) = none) :
    caseBody? label (bs.flatMap (caseLines variant typeText) ++ rest) = caseBody? label rest := by
  induction bs with
  | nil => rfl
  | cons b more ih =>
      rw [List.find?_cons] at h
      split at h
      · cases h
      · next hb =>
        rw [List.flatMap_cons, List.append_assoc, caseBody?_caseLines,
          if_neg (by simpa using hb)]
        exact ih h

theorem caseBody?_eq_some {b : Binding}
    (h : bs.find? (fun b => typeText ++ "." ++ escapeName b.member == label) = some b) :
    ∃ tail, caseBody? label (bs.flatMap (caseLines variant typeText) ++ rest) =
      some (branchLines variant b.reference ++ tail) := by
  induction bs with
  | nil => cases h
  | cons b' more ih =>
      rw [List.find?_cons] at h
      rw [List.flatMap_cons, List.append_assoc, caseBody?_caseLines]
      split at h
      · next hb =>
        cases h
        exact ⟨_, if_pos (by simpa using hb)⟩
      · next hb =>
        rw [if_neg (by simpa using hb)]
        exact ih h

/-- The cases that are written for bindings are these bindings. -/
theorem switchCases_caseLines :
    switchCases variant (bs.flatMap (caseLines variant typeText) ++ rest) =
      bs.map (fun b => (typeText ++ "." ++ escapeName b.member, some (.value b.reference))) ++
        switchCases variant rest := by
  induction bs with
  | nil => rfl
  | cons b more ih =>
      rw [List.flatMap_cons, List.append_assoc, caseLines, List.cons_append, switchCases,
        caseLabel?_caseLine, branchEffect?_branchLines,
        switchCases_append (noCase_branchLines variant b.reference), ih]
      rfl

/-! ### The lines of a method -/

namespace Mapping

/-- The lines of a method in front of the first case. -/
def openingLines (m : Mapping) : List String :=
  [m.signature, "\x7b"]
    ++ (if m.variant.hasDetail then [margin 1 ++ "string discoveredValue;"] else [])
    ++ [margin 1 ++ "switch (" ++ valueParameter ++ ")", margin 1 ++ "\x7b"]

/-- The lines of a method behind the switch. -/
def closingLines (m : Mapping) : List String :=
  (if m.variant.hasDetail then [formatLine] else []) ++ ["\x7d"]

theorem methodLines_eq (m : Mapping) :
    m.methodLines = m.openingLines ++ (m.bindings.flatMap (caseLines m.variant m.view.typeText)
      ++ (defaultLines m.variant m.defaultBinding ++ switchEnd :: m.closingLines)) := by
  simp [methodLines, openingLines, closingLines, switchEnd, formatLine]

end Mapping

theorem inertLine_signature (m : Mapping) : InertLine m.signature := by
  obtain ⟨text, htext⟩ : ∃ text, m.signature = "public static string " ++ text := by
    rw [Mapping.signature_eq]
    generalize (if m.variant.hasDetail then ", string " ++ detailParameter else "") = detail
    refine ⟨m.writtenMethod ++ ("(this " ++ (m.view.typeText ++ (" " ++ (valueParameter ++
      (detail ++ ")"))))), ?_⟩
    simp only [String.append_assoc]
  rw [htext]
  refine ⟨caseLabel?_eq_none ?_, ?_, ?_⟩
  · simp [caseLead, margin, indentUnit, String.join, dropStart?]
  · intro h
    have h := congrArg String.toList h
    simp [defaultLine, margin, indentUnit, String.join] at h
  · intro h
    have h := congrArg String.toList h
    simp [switchEnd, margin, indentUnit, String.join] at h

theorem inertLine_of_mem_openingLines {m : Mapping} {line : String} (h : line ∈ m.openingLines) :
    InertLine line := by
  have hfixed : ∀ line ∈ ["\x7b", margin 1 ++ "string discoveredValue;",
      margin 1 ++ "switch (" ++ valueParameter ++ ")", margin 1 ++ "\x7b"], InertLine line := by
    intro line hline
    simp only [List.mem_cons, List.not_mem_nil, or_false] at hline
    rcases hline with rfl | rfl | rfl | rfl <;> exact ⟨by decide, by decide, by decide⟩
  have hcases : line = m.signature ∨ line ∈ ["\x7b", margin 1 ++ "string discoveredValue;",
      margin 1 ++ "switch (" ++ valueParameter ++ ")", margin 1 ++ "\x7b"] := by
    rw [Mapping.openingLines] at h
    cases hdetail : m.variant.hasDetail <;> simp [hdetail] at h ⊢ <;> grind
  -- the signature holds names of the mapping, the other lines are fixed
  rcases hcases with rfl | hline
  · exact inertLine_signature m
  · exact hfixed line hline

theorem refusalLine_eq : ∃ text, refusalLine = margin 3 ++ text := by
  refine ⟨"throw new global::System.ArgumentOutOfRangeException(nameof(" ++
      (valueParameter ++ ("), " ++ (valueParameter ++ ", \"Provided value was invalid\");"))), ?_⟩
  simp only [refusalLine, String.append_assoc]

theorem noCase_refusalLine : caseLabel? refusalLine = none := by
  refine caseLabel?_eq_none ?_
  simp [refusalLine, caseLead, margin, indentUnit, String.join, dropStart?]

/-- The lines of the default hold no case, and no end of the switch. -/
theorem defaultLines_inert {variant : Variant} {d : DefaultBinding} {line : String}
    (h : line ∈ defaultLines variant d) : caseLabel? line = none ∧ line ≠ switchEnd := by
  rcases List.mem_cons.1 h with rfl | h
  · exact ⟨by decide, by decide⟩
  · split at h
    · exact ⟨(inertLine_of_mem_branchLines h).noCase, (inertLine_of_mem_branchLines h).noEnd⟩
    · rw [List.mem_singleton.1 h]
      obtain ⟨text, htext⟩ := refusalLine_eq
      exact ⟨noCase_refusalLine, htext ▸ (deepLine_ne text).2⟩

/-! ### What a method does -/

theorem branchEffect?_defaultLines (variant : Variant) (d : DefaultBinding) (rest : List String) :
    (defaultBody? (defaultLines variant d ++ rest)).bind (branchEffect? variant) =
      some (match d.bound? with
        | some reference => .value reference
        | none => .refusal) := by
  rw [defaultLines, List.cons_append, defaultBody?, ← defaultLine, linesBehind?, if_pos rfl,
    Option.bind_some]
  cases d.bound? with
  | some reference => exact branchEffect?_branchLines variant reference rest
  | none => exact branchEffect?_refusalLine variant rest

theorem leavesMethod_methodLines (m : Mapping) : leavesMethod m.variant m.methodLines = true := by
  have hend : linesBehind? switchEnd m.methodLines = some m.closingLines := by
    rw [Mapping.methodLines_eq,
      linesBehind?_append fun line hline => (inertLine_of_mem_openingLines hline).noEnd,
      linesBehind?_append fun line hline => (caseLines_ne hline).2,
      linesBehind?_append fun line hline => (defaultLines_inert hline).2,
      linesBehind?, if_pos rfl]
  cases hdetail : m.variant.hasDetail with
  | false => simp [leavesMethod, hdetail]
  | true => simp [leavesMethod, hend, Mapping.closingLines, hdetail]

theorem caseBody?_methodLines (m : Mapping) (label : String) :
    caseBody? label m.methodLines =
      caseBody? label (m.bindings.flatMap (caseLines m.variant m.view.typeText)
        ++ (defaultLines m.variant m.defaultBinding ++ switchEnd :: m.closingLines)) := by
  rw [Mapping.methodLines_eq]
  exact caseBody?_append (fun line hline => (inertLine_of_mem_openingLines hline).noCase) _

/-- From the default on there is no case. -/
theorem noCase_closing (m : Mapping) {line : String}
    (h : line ∈ defaultLines m.variant m.defaultBinding ++ switchEnd :: m.closingLines) :
    caseLabel? line = none := by
  have hfixed : ∀ line ∈ [switchEnd, formatLine, "\x7d"], caseLabel? line = none := by
    decide
  rcases List.mem_append.1 h with hdefault | hclosing
  · exact (defaultLines_inert hdefault).1
  · refine hfixed line ?_
    rw [Mapping.closingLines] at hclosing
    cases hdetail : m.variant.hasDetail <;> simp [hdetail] at hclosing ⊢ <;> grind

theorem caseBody?_closing (m : Mapping) (label : String) :
    caseBody? label (defaultLines m.variant m.defaultBinding ++ switchEnd :: m.closingLines) =
      none := by
  rw [← List.append_nil (defaultLines _ _ ++ _),
    caseBody?_append fun line hline => noCase_closing m hline]
  rfl

/-- **The cases of the method of a mapping** are its bindings, in order. -/
theorem switchCases_methodLines (m : Mapping) :
    switchCases m.variant m.methodLines =
      m.bindings.map fun b => (m.labelOf b.member, some (.value b.reference)) := by
  have hclosing : switchCases m.variant
        (defaultLines m.variant m.defaultBinding ++ switchEnd :: m.closingLines) =
      [] := by
    rw [← List.append_nil (defaultLines _ _ ++ _),
      switchCases_append fun line hline => noCase_closing m hline]
    rfl
  rw [Mapping.methodLines_eq,
    switchCases_append fun line hline => (inertLine_of_mem_openingLines hline).noCase,
    switchCases_caseLines, hclosing, List.append_nil]
  rfl

theorem defaultBody?_methodLines (m : Mapping) :
    defaultBody? m.methodLines =
      defaultBody? (defaultLines m.variant m.defaultBinding ++ switchEnd :: m.closingLines) := by
  rw [Mapping.methodLines_eq, defaultBody?,
    linesBehind?_append fun line hline => (inertLine_of_mem_openingLines hline).noDefault,
    linesBehind?_append fun line hline => (caseLines_ne hline).1]
  rfl

/-- **The default of the method of a mapping** yields the reference that the default is bound to, or
throws. -/
theorem defaultBody?_effect (m : Mapping) :
    (defaultBody? m.methodLines).bind (branchEffect? m.variant) =
      some (match m.defaultBinding.bound? with
        | some reference => .value reference
        | none => .refusal) := by
  rw [defaultBody?_methodLines, branchEffect?_defaultLines]

/-- **What the method of a mapping does with a member**: it yields the reference of the first
binding whose label is that of the member; without one it yields the default, and without a default
it throws. -/
theorem effectOn?_eq (m : Mapping) (member : String) :
    m.effectOn? member = some (match
        m.bindings.find? (fun b => m.labelOf b.member == m.labelOf member),
        m.defaultBinding.bound? with
      | some b, _ => .value b.reference
      | none, some reference => .value reference
      | none, none => .refusal) := by
  rw [Mapping.effectOn?, switchEffect?, if_pos (leavesMethod_methodLines m), selectedBody?,
    caseBody?_methodLines, defaultBody?_methodLines]
  -- the first case with the label decides, and the default only where there is none
  cases hfind : m.bindings.find? (fun b => m.labelOf b.member == m.labelOf member) with
  | some b =>
      obtain ⟨tail, htail⟩ : ∃ tail, caseBody? (m.labelOf member)
          (m.bindings.flatMap (caseLines m.variant m.view.typeText)
            ++ (defaultLines m.variant m.defaultBinding ++ switchEnd :: m.closingLines)) =
          some (branchLines m.variant b.reference ++ tail) :=
        caseBody?_eq_some hfind
      rw [htail, Option.some_or, Option.bind_some]
      exact branchEffect?_branchLines m.variant b.reference tail
  | none =>
      rw [caseBody?_eq_none hfind, caseBody?_closing, Option.none_or, branchEffect?_defaultLines]
      cases m.defaultBinding.bound? <;> rfl

end LocalisedEnum

import LocalisedEnum.Proofs.Declaration.Printing
import LocalisedEnum.Proofs.Extension.AttributeTree

/-!
**Generated code reads back.**

What is generated is code again, and so it can be read.  The file for a mapping declares one class,
the extension class of the enum, and nothing that could be taken for an enum, a property or a
constant; the file for an attribute declares the class of the attribute with its properties.  Both
stand in the namespace that they were generated for.

Main definitions:

* `Mapping.extensionType`, `attributeType` — the class that a generated file declares.

Main results:

* `readSource_sourceText` — generated code declares what its tree declares;
* `readSource_generated` — **generated code reads back**.
-/

set_option autoImplicit false
set_option relaxedAutoImplicit false

namespace LocalisedEnum

/-! ### Namespaces -/

theorem lexemes_bare (n : DottedName) : (n.written .bare).lexemes = n.lexemes := by
  simp [DottedName.written, WrittenName.lexemes, DottedName.lexemes, List.flatMap_map]
  rfl

theorem isBlankString_dotted (n : DottedName) : isBlankString n.text = false := by
  obtain ⟨c, cs, hcs, hc, _⟩ := isIdentifier_iff.1 n.head.identifier
  have hblank : isBlank c = false := by
    rw [Bool.eq_false_iff]
    intro hblank
    have hword := isWord_of_isWordStart hc
    rw [isWord_of_isBlank hblank] at hword
    cases hword
  rw [isBlankString, ← charsOf_bare, lexemes_bare, DottedName.lexemes, charsOf_cons,
    Word.lexeme_text, hcs, List.cons_append, List.all_cons, hblank, Bool.false_and]

theorem spelledLine_namespace (n : DottedName) :
    SpelledLine ("namespace " ++ n.text) (.word "namespace" (by decide) :: n.lexemes) := by
  have hline := SpelledLine.ofPieces 0
    [.word "namespace" (by decide), .blank, .name (n.written .bare)]
    (show ("namespace " ++ n.text).toList = _ by simp [charsOf_bare]) rfl
  simpa [lexemes_bare] using hline

/-- Code in a namespace has the tokens of a tree that declares the same in this namespace. -/
theorem SpelledText.inNamespace {namespaceName code : String} {d : Declarations}
    (hname : IsNamespace namespaceName) (husings : d.usings = [])
    (h : SpelledText code d.lexemes) :
    ∃ d' : Declarations, SpelledText (inNamespace namespaceName code) d'.lexemes ∧
      ∀ path, d'.file path = ⟨path, [], d.enums ⟨path, namespaceName, [], []⟩,
        d.types ⟨path, namespaceName, [], []⟩, []⟩ := by
  rw [LocalisedEnum.inNamespace]
  rcases hname with rfl | ⟨n, rfl⟩
  · refine ⟨d, h, ?_⟩
    intro path
    rw [Declarations.file, husings]
  · rw [isBlankString_dotted, if_neg Bool.false_ne_true]
    refine ⟨.block n d .nil, ?_, ?_⟩
    · simpa [Declarations.lexemes] using SpelledText.inBlock (spelledLine_namespace n) h
    · intro path
      have hqualify : qualify "" n.text = n.text := rfl
      simp [Declarations.file, Declarations.usings, Declarations.enums, Declarations.types,
        Surroundings.inNamespace, hqualify]

/-- Generated code declares what its tree declares, in the namespace that it is generated for. -/
theorem readSource_sourceText (path : String) {namespaceName code : String} {d : Declarations}
    (hname : IsNamespace namespaceName) (husings : d.usings = [])
    (h : SpelledText code d.lexemes) :
    ∃ file, readSource path (sourceText namespaceName code) = .ok file ∧
      file.unplaced = ⟨path, [], d.enums ⟨path, namespaceName, [], []⟩,
        d.types ⟨path, namespaceName, [], []⟩, []⟩ := by
  obtain ⟨d', htext, hfile⟩ := h.inNamespace hname husings
  obtain ⟨file, hread, hunplaced⟩ := readSource_of_lexemes path htext.inFile.bareTokens
  exact ⟨file, hread, hunplaced.trans (hfile path)⟩

/-! ### The generated files -/

/-- The class in the file of a mapping. -/
def Mapping.extensionType (m : Mapping) (path : String) : TypeDeclaration where
  name := m.view.extensionClassName
  namespaceName := m.view.namespaceName
  kind := "class"
  accessibility := if m.view.accessibility = .publicLevel then .publicLevel else .internalLevel
  properties := []
  containingTypes := []
  location := ⟨path, 0, 0⟩
  constants := []

/-- The class in the file of a variant's attribute. -/
def attributeType (variant : Variant) (namespaceName path : String) : TypeDeclaration where
  name := attributeClassName variant
  namespaceName := namespaceName
  kind := "class"
  accessibility := .internalLevel
  properties :=
    [⟨"ResourceManager", "global::System.Type", false⟩, ⟨"DefaultPropertyName", "string", false⟩,
      ⟨"ResourceNameFormat", "string", false⟩, ⟨"MethodName", "string", false⟩]
  containingTypes := []
  location := ⟨path, 0, 0⟩
  constants := []

/-- The class that the tree of a mapping declares. -/
theorem types_classTree {m : Mapping} (h : m.WellNamed) (d : MethodSyntax) (path : String) :
    (Declarations.type (classSyntax m.view h.enumName) (.method d .nil) .nil).types
        ⟨path, m.view.namespaceName, [], []⟩ = [m.extensionType path] := by
  have haccess : declaredAccessibility ⟨path, m.view.namespaceName, [], []⟩
      (classSyntax m.view h.enumName).modifiers =
        if m.view.accessibility = .publicLevel then .publicLevel else .internalLevel := by
    rw [classSyntax]
    cases m.view.accessibility <;> rfl
  simp only [Declarations.types, TypeBody.types, TypeSyntax.declaration, haccess, List.append_nil]
  rfl

/-- The class that the tree of an attribute declares. -/
theorem types_attributeTree (variant : Variant) (namespaceName path : String) :
    (attributeTree variant).types ⟨path, namespaceName, [], []⟩ =
      [attributeType variant namespaceName path] := by
  rfl

/-- **Generated code reads back.**  The file of a mapping whose names are names declares the
extension class of the enum, without properties and constants, and nothing else; the file of an
attribute declares the class of the attribute with its four properties, and nothing else. -/
theorem readSource_generated (path : String) :
    (∀ m : Mapping, m.WellNamed → ∃ text file, m.sourceText = .ok text ∧
      readSource path text = .ok file ∧
      file.unplaced = ⟨path, [], [], [m.extensionType path], []⟩) ∧
    ∀ (variant : Variant) (namespaceName : String), IsNamespace namespaceName →
      ∃ file, readSource path (attributeText variant namespaceName) = .ok file ∧
        file.unplaced = ⟨path, [], [], [attributeType variant namespaceName path], []⟩ := by
  constructor
  · intro m h
    obtain ⟨d, htext⟩ := exists_classTree h
    obtain ⟨file, hread, hfile⟩ := readSource_sourceText path h.namespaceName rfl htext
    refine ⟨sourceText m.view.namespaceName m.classText, file, ?_, hread, ?_⟩
    · rw [Mapping.sourceText, List.isEmpty_eq_false_iff.2 h.members]
      rfl
    · rw [hfile, types_classTree h d path]
      rfl
  · intro variant namespaceName h
    obtain ⟨file, hread, hfile⟩ :=
      readSource_sourceText path h rfl (spelledText_attribute variant)
    refine ⟨file, hread, ?_⟩
    rw [hfile, types_attributeTree]
    rfl

/-- A mapping of a nested enum, whose method has a reserved word for a name. -/
def shadeMapping : Mapping where
  view :=
    { name := "Shade"
      namespaceName := "Paint.Colours"
      accessibility := .publicLevel
      members := ["Dark", "Light"]
      typeReference := "Palette.Shade"
      location := none }
  variant := .formatted
  methodName := .ofString "@string"
  defaultBinding := ⟨none, some "global::Paint.Strings.Other"⟩
  bindings := [⟨"Dark", "global::Paint.Strings.Dark"⟩]

/-- The file of this mapping and the file of its attribute read back. -/
theorem readSource_generated_shade :
    shadeMapping.WellNamed ∧
    (∃ text file, shadeMapping.sourceText = .ok text ∧ readSource "Shade.cs" text = .ok file ∧
      file.unplaced = ⟨"Shade.cs", [], [], [shadeMapping.extensionType "Shade.cs"], []⟩) ∧
    IsNamespace "Paint.Colours" ∧
    ∃ file, readSource "Shade.cs" (attributeText .formatted "Paint.Colours") = .ok file ∧
      file.unplaced =
        ⟨"Shade.cs", [], [], [attributeType .formatted "Paint.Colours" "Shade.cs"], []⟩ := by
  have hnamespace : IsNamespace "Paint.Colours" :=
    .inr ⟨⟨⟨"Paint", by decide⟩, [⟨"Colours", by decide⟩]⟩, by decide⟩
  have hnames : shadeMapping.WellNamed :=
    { members := by decide
      enumName := by decide
      typeReference := ⟨⟨⟨"Palette", by decide⟩, [⟨"Shade", by decide⟩]⟩, by decide⟩
      namespaceName := hnamespace
      methodName := ⟨⟨⟨"string", by decide⟩, true⟩, by decide⟩
      bindings := by
        intro b hb
        rw [List.mem_singleton.1 hb]
        refine
          ⟨by decide, ⟨⟨"Paint", by decide⟩, [⟨"Strings", by decide⟩, ⟨"Dark", by decide⟩]⟩, ?_⟩
        decide
      fallback := by
        intro reference hreference
        obtain rfl := Option.some.inj hreference
        refine ⟨⟨⟨"Paint", by decide⟩, [⟨"Strings", by decide⟩, ⟨"Other", by decide⟩]⟩, ?_⟩
        decide }
  exact ⟨hnames, (readSource_generated "Shade.cs").1 shadeMapping hnames, hnamespace,
    (readSource_generated "Shade.cs").2 .formatted "Paint.Colours" hnamespace⟩

end LocalisedEnum

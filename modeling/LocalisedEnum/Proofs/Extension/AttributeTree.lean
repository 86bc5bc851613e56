import LocalisedEnum.Extension.AttributeClass
import LocalisedEnum.Proofs.Extension.ExtensionTree

/-!
**The attribute classes as trees.**

The lines of the class of a variant's attribute are read as the tokens of a tree: a class with an
attribute of its own and a base, with a constructor and four properties in it.  The documentation in
front of it leaves no token.

Main definitions:

* `usageSection`, `constructorSyntax`, `accessorProperty` — the parts of the class;
* `attributeTree` — the class.

Main results:

* `spelledText_attribute` — **the lines of the class** are read as the tree.
-/

set_option autoImplicit false
set_option relaxedAutoImplicit false

namespace LocalisedEnum

/-! ### The header of the class -/

/-- The name of the class of an attribute. -/
def attributeClassWord (variant : Variant) : Word :=
  ⟨attributeClassName variant, by cases variant <;> decide⟩

/-- The arguments that say where an attribute may stand. -/
def usagePieces : List CodePiece :=
  pieces ["global", "::", "System", ".", "AttributeTargets", ".", "Enum", ",", " ", "AllowMultiple",
    " ", "=", " ", "false", ",", " ", "Inherited", " ", "=", " ", "true"]

/-- The attribute that says where an attribute may stand. -/
def usageSection : SectionSyntax where
  target := none
  first :=
    { head := ⟨"global", isIdentifier_global⟩
      tail := [(.colons, ⟨"System", by decide⟩), (.point, ⟨"AttributeUsage", by decide⟩)]
      typeArguments := none
      arguments := some (.ofPieces usagePieces rfl) }
  others := []

/-- The class of an attribute without its body. -/
def attributeClassSyntax (variant : Variant) : TypeSyntax where
  sections := [usageSection]
  modifiers := [⟨"internal", internal_isModifier⟩, ⟨"sealed", by decide⟩]
  keyword := .classType
  name := ⟨attributeClassWord variant, by cases variant <;> decide⟩
  bases := some
    { lexemes := lexemesOf (pieces ["global", "::", "System", ".", "Attribute"])
      plain := by decide }

theorem spelledLine_usage : SpelledLine
    ("[global::System.AttributeUsage(global::System.AttributeTargets.Enum, AllowMultiple = false, "
      ++ "Inherited = true)]") usageSection.lexemes := by
  refine .ofPieces 0 (pieces ["[", "global", "::", "System", ".", "AttributeUsage", "("]
    ++ (usagePieces ++ pieces [")", "]"])) ?_ rfl
  simp (disch := decide) [usagePieces, spell_pieces]

theorem spelledLine_attributeClass (variant : Variant) : ∃ ts,
    (attributeClassSyntax variant).lexemes =
      usageSection.lexemes ++ (ts ++ [Bracket.curly.opening]) ∧
    SpelledLine
      ("internal sealed class " ++ attributeClassName variant ++ " : global::System.Attribute")
      ts := by
  refine ⟨_, ?_, .ofPieces 0 (pieces ["internal", " ", "sealed", " ", "class", " "]
    ++ .segment (.bare (attributeClassWord variant))
    :: pieces [" ", ":", " ", "global", "::", "System", ".", "Attribute"]) ?_ rfl⟩
  · rfl
  · simp (disch := decide) [spell_pieces, attributeClassWord]

/-! ### The members of the class -/

/-- The constructor of an attribute class. -/
def constructorSyntax (variant : Variant) : MethodSyntax where
  modifiers := [⟨"public", public_isModifier⟩]
  noConst := by decide
  head := attributeClassWord variant
  head_ordinary := by cases variant <;> decide
  suffix :=
    .group .round
      (.ofPieces (pieces ["global", "::", "System", ".", "Type", "resourceManager"]) rfl) .nil
  parameters := List.mem_cons_self
  open_ended := by decide
  noDefaults := by decide
  body := .ofPieces (pieces ["ResourceManager", "=", "resourceManager", ";"]) rfl

/-- A property with the given accessors, which anyone may use. -/
def accessorProperty (type : PropertyType) (name : Name) (accessors : Nested) : PropertySyntax where
  modifiers := [⟨"public", public_isModifier⟩]
  noConst := by decide
  type := type
  name := name
  body := .accessors accessors

/-- The type of strings, as the type of a property. -/
def stringType : PropertyType where
  head := ⟨"string", isIdentifier_string⟩
  head_ordinary := string_ordinary
  suffix := .nil
  plain := by decide
  complete := by decide

/-- The type of types, as the type of a property. -/
def systemType : PropertyType where
  head := ⟨"global", isIdentifier_global⟩
  head_ordinary := by decide
  suffix := .ofPieces (pieces ["::", "System", ".", "Type"]) rfl
  plain := by decide
  complete := by decide

/-- A property that can be read. -/
def readProperty (type : PropertyType) (name : Name) : PropertySyntax :=
  accessorProperty type name (.ofPieces (pieces ["get", ";"]) rfl)

/-- A property that can be read and written. -/
def writeProperty (type : PropertyType) (name : Name) : PropertySyntax :=
  accessorProperty type name (.ofPieces (pieces ["get", ";", "set", ";"]) rfl)

theorem spelledLine_readProperty (name : Name) :
    SpelledLine (accessorLine "global::System.Type" name.text "get;")
      (readProperty systemType name).lexemes := by
  refine .ofPieces 1 (pieces ["public", " ", "global", "::", "System", ".", "Type", " "]
    ++ .segment (.bare name.toWord) :: pieces [" ", "\x7b", " ", "get", ";", " ", "\x7d"]) ?_ rfl
  simp (disch := decide) [accessorLine, spell_pieces]

theorem spelledLine_writeProperty (name : Name) :
    SpelledLine (accessorLine "string" name.text "get; set;")
      (writeProperty stringType name).lexemes := by
  refine .ofPieces 1 (pieces ["public", " ", "string", " "] ++ .segment (.bare name.toWord)
    :: pieces [" ", "\x7b", " ", "get", ";", " ", "set", ";", " ", "\x7d"]) ?_ rfl
  simp (disch := decide) [accessorLine, spell_pieces]

theorem spelledLines_constructor (variant : Variant) :
    SpelledLines [margin 1 ++ "public " ++ attributeClassName variant
        ++ "(global::System.Type resourceManager)", margin 1 ++ "\x7b",
        margin 2 ++ "ResourceManager = resourceManager;", margin 1 ++ "\x7d"]
      (constructorSyntax variant).lexemes := by
  have hheader : SpelledLine (margin 1 ++ "public " ++ attributeClassName variant
      ++ "(global::System.Type resourceManager)")
      ((⟨"public", by decide⟩ : Modifier).lexeme :: (attributeClassWord variant).lexeme
        :: (constructorSyntax variant).suffix.lexemes) := by
    refine .ofPieces 1 (pieces ["public", " "] ++ .segment (.bare (attributeClassWord variant))
      :: pieces ["(", "global", "::", "System", ".", "Type", " ", "resourceManager", ")"]) ?_ rfl
    simp (disch := decide) [attributeClassWord, spell_pieces]
  have hbody : SpelledLine (margin 2 ++ "ResourceManager = resourceManager;")
      (constructorSyntax variant).body.lexemes := by
    refine .ofPieces 2 (pieces ["ResourceManager", " ", "=", " ", "resourceManager", ";"]) ?_ rfl
    simp (disch := decide) [spell_pieces]
  have hlines := SpelledLines.cons hheader (.cons (openingLine.behindMargin 1)
    (.cons hbody (.single (closingLine.behindMargin 1))))
  exact hlines

/-! ### The class -/

/-- The names of the properties that can be written. -/
def writtenNames : List Name :=
  [⟨⟨"DefaultPropertyName", by decide⟩, by decide⟩,
    ⟨⟨"ResourceNameFormat", by decide⟩, by decide⟩, ⟨⟨"MethodName", by decide⟩, by decide⟩]

/-- The properties of an attribute class. -/
def attributeProperties : List PropertySyntax :=
  readProperty systemType ⟨⟨"ResourceManager", by decide⟩, by decide⟩
    :: writtenNames.map (writeProperty stringType)

/-- Properties in front of other members. -/
def withProperties (ps : List PropertySyntax) (rest : TypeBody) : TypeBody :=
  ps.foldr .property rest

theorem lexemes_withProperties (ps : List PropertySyntax) (rest : TypeBody) :
    (withProperties ps rest).lexemes = ps.flatMap PropertySyntax.lexemes ++ rest.lexemes := by
  induction ps with
  | nil => rfl
  | cons p ps ih =>
      rw [withProperties, List.foldr_cons, ← withProperties, TypeBody.lexemes, ih,
        List.flatMap_cons, List.append_assoc]

theorem spelledLines_properties :
    SpelledLines (accessorLine "global::System.Type" "ResourceManager" "get;"
        :: writtenNames.map fun name => accessorLine "string" name.text "get; set;")
      (attributeProperties.flatMap PropertySyntax.lexemes) := by
  have hwritten : ∀ names : List Name,
      SpelledLines (names.map fun name => accessorLine "string" name.text "get; set;")
        ((names.map (writeProperty stringType)).flatMap PropertySyntax.lexemes) := by
    intro names
    induction names with
    | nil => exact .nil
    | cons name names ih => exact .cons (spelledLine_writeProperty name) ih
  rw [attributeProperties, List.flatMap_cons]
  exact .cons (spelledLine_readProperty ⟨⟨"ResourceManager", by decide⟩, by decide⟩)
    (hwritten writtenNames)

/-- The class of a variant's attribute. -/
def attributeTree (variant : Variant) : Declarations :=
  .type (attributeClassSyntax variant)
    (.method (constructorSyntax variant) (withProperties attributeProperties .nil)) .nil

/-- The documentation of the class leaves no token. -/
theorem spelledLines_documentation (variant : Variant) :
    SpelledLines ["/// <summary>",
      "/// Generates a " ++ methodHint variant
        ++ " extension method for the annotated enum, looking up",
      "/// each value on <see cref=\"ResourceManager\"/> by the name",
      "/// <c>string.Format(ResourceNameFormat, enumTypeName, valueName)</c>.",
      "/// </summary>"] [] := by
  have hhint : OneLine (methodHint variant) := by
    cases variant <;> exact oneLine_ofList (by decide)
  have hmethod : SpelledLine ("/// Generates a " ++ methodHint variant
      ++ " extension method for the annotated enum, looking up") [] := by
    refine .comment ("/ Generates a ".toList ++ ((methodHint variant).toList
      ++ " extension method for the annotated enum, looking up".toList)) ?_
      (((oneLine_ofList (by decide)).append hhint).append (oneLine_ofList (by decide)))
    rw [String.toList_append, String.toList_append, List.append_assoc]
    rfl
  exact .cons (.comment_ofList (by decide)) (.cons hmethod (.cons (.comment_ofList (by decide))
    (.cons (.comment_ofList (by decide)) (.single (.comment_ofList (by decide))))))

/-- **The lines of the class** are read as the tree. -/
theorem spelledText_attribute (variant : Variant) :
    SpelledText (unlines (attributeLines variant)) (attributeTree variant).lexemes := by
  obtain ⟨ts, hheader, hclass⟩ := spelledLine_attributeClass variant
  have hmembers := (spelledLines_constructor variant).append
    (.cons .empty (spelledLines_properties.append (.single closingLine)))
  have hlines := (spelledLines_documentation variant).append
    (.cons spelledLine_usage (.cons hclass (.cons openingLine hmembers)))
  refine ⟨attributeLines variant, List.cons_ne_nil _ _, rfl, ?_⟩
  rw [attributeTree, Declarations.lexemes, Declarations.lexemes, TypeBody.lexemes,
    lexemes_withProperties, TypeBody.lexemes, hheader, attributeLines]
  simpa only [writtenNames, List.map_cons, List.map_nil, List.cons_append, List.nil_append,
    List.append_nil, List.append_assoc] using hlines

end LocalisedEnum

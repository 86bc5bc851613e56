import LocalisedEnum.Declaration.Walk
import LocalisedEnum.Proofs.Pass.Coverage

/-!
**Reserved words in generated code.**

Names are recorded without the mark that lets a reserved word be used as a name, and four kinds of
them come back in generated code: the namespace, the type of the enum, its values, and the
properties that hold the strings.  The type and the values are written with their marks, whatever
they are.  The namespace and the properties are written as they are recorded; so a reserved word
stands bare in an extension class exactly if one of them has it.

Main definitions:

* `WrittenNames` — the names that go into a file, as they are written there;
* `WrittenNames.fileText` — the file that these names make up;
* `Mapping.writtenNames` — the names in the file of a mapping.

Main results:

* `sourceText_writtenNames` — the file of a mapping is made up of these names and of nothing else;
* `keyword_mem_segments` — where the reserved words in a file come from;
* `runPass_reserved_words` — **the reserved words in the sources of a pass**;
* `runPass_reserved_event` — a pass that writes one.
-/

set_option autoImplicit false
set_option relaxedAutoImplicit false

namespace LocalisedEnum

/-! ### The names in a file -/

/-- **The names that go into a file**, as they are written there: those of the namespace and the
type, the label and the property of each branch, and the property of the last branch. -/
structure WrittenNames where
  namespaceName : String
  typeName : String
  branches : List (String × String)
  fallback : Option String
  deriving DecidableEq, Repr

namespace WrittenNames

/-- The lines of a method with these names. -/
def methodLines (n : WrittenNames) (variant : Variant) (methodName : String) : List String :=
  ["public static string " ++ methodName ++ "(this " ++ n.typeName ++ " " ++ valueParameter
      ++ (if variant.hasDetail then ", string " ++ detailParameter else "") ++ ")", "\x7b"]
    ++ (if variant.hasDetail then [margin 1 ++ "string discoveredValue;"] else [])
    ++ [margin 1 ++ "switch (" ++ valueParameter ++ ")", margin 1 ++ "\x7b"]
    ++ (n.branches.flatMap fun b =>
      (margin 2 ++ "case " ++ n.typeName ++ "." ++ b.1 ++ ":") :: branchLines variant b.2)
    ++ ((margin 2 ++ "default:") :: (n.fallback.map (branchLines variant)).getD [refusalLine])
    ++ [margin 1 ++ "\x7d"]
    ++ (if variant.hasDetail then
        [margin 1 ++ "return string.Format(discoveredValue, " ++ detailParameter ++ ");"]
      else [])
    ++ ["\x7d"]

/-- The file with these names, whose class has the given head. -/
def fileText (n : WrittenNames) (classHead : String) (variant : Variant) (methodName : String) :
    String :=
  sourceText n.namespaceName (inBlock classHead (unlines (n.methodLines variant methodName)))

/-- The segments of the namespace in the head of a file.  The global namespace, which is blank, has
none. -/
def namespaceSegments (n : WrittenNames) : List String :=
  if isBlankString n.namespaceName then [] else splitString '.' n.namespaceName

/-- The properties in a file. -/
def references (n : WrittenNames) : List String :=
  n.branches.map (·.2) ++ n.fallback.toList

/-- The segments of a property behind the mark that makes it absolute. -/
def referenceSegments (reference : String) : List String :=
  splitString '.' (withoutStart globalMark reference)

/-- **The names in a file, segment by segment.** -/
def segments (n : WrittenNames) : List String :=
  n.namespaceSegments ++ (splitString '.' n.typeName
    ++ (n.branches.map (·.1) ++ n.references.flatMap referenceSegments))

end WrittenNames

namespace Mapping

/-- The names in the file of a mapping.  The type and the labels get the marks that they need. -/
def writtenNames (m : Mapping) : WrittenNames where
  namespaceName := m.view.namespaceName
  typeName := m.view.typeText
  branches := m.bindings.map fun b => (escapeName b.member, b.reference)
  fallback := m.defaultBinding.bound?

/-- The head of the class in the file of a mapping. -/
def classHead (m : Mapping) : String :=
  accessibilityText m.view.accessibility ++ "static partial class " ++ m.view.extensionClassName

/-- **The file of a mapping** is made up of the names as they are written. -/
theorem sourceText_writtenNames {m : Mapping} {text : String} (h : m.sourceText = .ok text) :
    text = m.writtenNames.fileText m.classHead m.variant m.writtenMethod := by
  have hdefault : defaultLines m.variant m.defaultBinding =
      (margin 2 ++ "default:") ::
        (m.defaultBinding.bound?.map (branchLines m.variant)).getD [refusalLine] := by
    rw [defaultLines]
    cases m.defaultBinding.bound? <;> rfl
  have hlines : m.methodLines = m.writtenNames.methodLines m.variant m.writtenMethod := by
    rw [methodLines, signature_eq, hdefault, WrittenNames.methodLines, writtenNames,
      List.flatMap_map]
    rfl
  rw [Mapping.sourceText] at h
  split at h
  · cases h
  · cases h
    rw [WrittenNames.fileText, ← hlines]
    rfl

end Mapping

/-- **The reserved words in a file** come from the namespace and the properties, which are written
as they are recorded, and never from the type or from a value. -/
theorem keyword_mem_segments (m : Mapping) {word : String} (hword : word ∈ keywords) :
    word ∈ m.writtenNames.segments ↔ word ∈ m.writtenNames.namespaceSegments ∨
      ∃ reference ∈ m.writtenNames.references, word ∈ WrittenNames.referenceSegments reference := by
  have htype : word ∉ splitString '.' m.writtenNames.typeName := by
    rw [show m.writtenNames.typeName = m.view.typeText from rfl, splitString_typeText]
    intro hmem
    obtain ⟨segment, _, rfl⟩ := List.mem_map.1 hmem
    exact escapeName_not_mem_keywords segment hword
  have hlabels : word ∉ m.writtenNames.branches.map (·.1) := by
    intro hmem
    obtain ⟨branch, hbranch, rfl⟩ := List.mem_map.1 hmem
    obtain ⟨b, _, rfl⟩ := List.mem_map.1 hbranch
    exact escapeName_not_mem_keywords b.member hword
  simp only [WrittenNames.segments, List.mem_append, List.mem_flatMap]
  constructor
  · rintro (hhead | hmem | hmem | hreference)
    · exact Or.inl hhead
    · exact absurd hmem htype
    · exact absurd hmem hlabels
    · exact Or.inr hreference
  · rintro (hhead | hreference)
    · exact Or.inl hhead
    · exact Or.inr (Or.inr (Or.inr hreference))

/-! ### The sources of a pass -/

section Pass

variable {settings : Settings} {c : Compilation} {e : EnumDeclaration}

/-- **The properties in the file of a mapping** are offered by the type that the request is for. -/
theorem exists_reference?_of_mem_references {v : Variant} {a : Attribute} {m : Mapping}
    {errors : List GenerationError} (h : attributeResult settings c e (v, a) = .ok (some m, errors))
    {reference : String} (hreference : reference ∈ m.writtenNames.references) :
    ∃ request name,
      Request.ofAttribute settings.keyOrder v (bindConstants c e.context a) = .ok request ∧
      (resourceMembers c e.context request.resource).reference? name = some reference := by
  obtain ⟨request, _, _, _, references, hrequest, _, hreferences, _, _, rfl⟩ :=
    attributeResult_eq_some h
  rcases List.mem_append.1 hreference with hmem | hmem
  · obtain ⟨branch, hbranch, rfl⟩ := List.mem_map.1 hmem
    obtain ⟨b, hb, rfl⟩ := List.mem_map.1 hbranch
    obtain ⟨_, _, _, name, hname⟩ :=
      exists_left_of_mem (bindMembers_eq_ok hreferences) (mem_boundMembers.1 hb)
    exact ⟨request, name, hrequest, hname.symm⟩
  · obtain ⟨name, hname⟩ := bound?_bindDefault (Option.mem_toList.1 hmem)
    exact ⟨request, name, hrequest, hname⟩

/-- They are static string properties of declared types. -/
theorem stringProperty_of_mem_references {v : Variant} {a : Attribute} {m : Mapping}
    {errors : List GenerationError} (h : attributeResult settings c e (v, a) = .ok (some m, errors))
    {reference : String} (hreference : reference ∈ m.writtenNames.references) :
    StringProperty c reference := by
  obtain ⟨_, _, _, hname⟩ := exists_reference?_of_mem_references h hreference
  exact stringProperty_of_reference? hname

/-- A text that an enum has left is written from a mapping whose properties are declared. -/
theorem exists_sourceOf {s : GeneratedSource} (hs : s ∈ (processEnum settings c e).sources) :
    ∃ v m, SourceOf settings c e v m s.text ∧
      ∀ reference ∈ m.writtenNames.references, StringProperty c reference := by
  obtain ⟨v, m, hsource, _⟩ := (isBlock_processEnum settings c e).refusal (List.mem_map_of_mem hs)
  obtain ⟨attributes, a, errors, _, _, hresult⟩ := hsource.resolved
  exact ⟨v, m, hsource, fun reference => stringProperty_of_mem_references hresult⟩

end Pass

/-- **The reserved words in the sources of a pass.**  Behind the attribute classes each source of a
pass is the file of a mapping of an enum: it is made up of the names of the mapping, and the
properties among these are static string properties of declared types.  A reserved word stands bare
among the names exactly if it is a segment of the namespace or of one of the properties as they are
recorded; the type and the values never have one. -/
theorem runPass_reserved_words (settings : Settings) (c : Compilation) : ∃ extensions,
    (runPass settings c).sources = leadingSources settings c ++ extensions ∧
    ∀ s ∈ extensions, ∃ e ∈ candidateEnums c, ∃ v m, SourceOf settings c e v m s.text ∧
      s.text = m.writtenNames.fileText m.classHead m.variant m.writtenMethod ∧
      (∀ reference ∈ m.writtenNames.references, StringProperty c reference) ∧
      ∀ word ∈ keywords, (word ∈ m.writtenNames.segments ↔ word ∈ m.writtenNames.namespaceSegments ∨
        ∃ reference ∈ m.writtenNames.references,
          word ∈ WrittenNames.referenceSegments reference) := by
  obtain ⟨extensions, hsources, htexts⟩ := runPass_texts settings c
  refine ⟨extensions, hsources, ?_⟩
  intro s hs
  have htext : s.text ∈ (candidateEnums c).flatMap
      fun e => (processEnum settings c e).sources.map (·.text) := htexts ▸ List.mem_map_of_mem hs
  obtain ⟨e, he, htext⟩ := List.mem_flatMap.1 htext
  obtain ⟨source, hsource, heq⟩ := List.mem_map.1 htext
  obtain ⟨v, m, hm, hreferences⟩ := exists_sourceOf hsource
  rw [heq] at hm
  exact ⟨e, he, v, m, hm, Mapping.sourceText_writtenNames hm.written, hreferences,
    fun _ => keyword_mem_segments m⟩

/-- An enum in a namespace that has a reserved word for its name, and the type with its string. -/
def eventText : String :=
  "namespace @event \x7b [WithLiteralLocalisation(typeof(R))] public enum E \x7b A \x7d " ++
    "public class R \x7b public static string EADescription \x7b get; \x7d \x7d \x7d"

/-- The settings of a pass without the attribute classes. -/
def quietSettings : Settings :=
  Settings.standard.override ⟨none, some false, none, none, none⟩

/-- The attribute of the enum in this text. -/
def eventAttribute : Attribute :=
  ⟨"WithLiteralLocalisation", [.typeOf "R"], [], some ⟨"File0.cs", 1, 21⟩⟩

/-- The enum in this text. -/
def eventEnum : EnumDeclaration where
  name := "E"
  namespaceName := "event"
  accessibility := .publicLevel
  members := ["A"]
  attributes := [eventAttribute]
  containingTypes := []
  location := ⟨"File0.cs", 1, 20⟩
  usings := []

/-- The declarations of this text. -/
def eventFile : SourceFile where
  path := "File0.cs"
  usings := []
  globalUsings := []
  enums := [eventEnum]
  types :=
    [{ name := "R"
       namespaceName := "event"
       kind := "class"
       accessibility := .publicLevel
       properties := [⟨"EADescription", "string", true⟩]
       containingTypes := []
       location := ⟨"File0.cs", 1, 77⟩
       constants := [] }]

/-- The mapping of the enum. -/
def eventMapping : Mapping where
  view := eventEnum.view
  variant := .literal
  methodName := .ofString "GetDescription"
  defaultBinding := ⟨none, none⟩
  bindings := [⟨"A", "global::event.R.EADescription"⟩]

theorem processEnum_event :
    (processEnum quietSettings ⟨[eventFile]⟩ eventEnum).sources =
      [⟨eventMapping.fileName, sourceText "event" eventMapping.classText⟩] := by
  have hattributes : localisationAttributes eventEnum = .ok [(.literal, eventAttribute)] := by
    decide +kernel
  have hmappings :
      (processAttributes quietSettings ⟨[eventFile]⟩ eventEnum [(.literal, eventAttribute)]).2 =
        .ok ([eventMapping], []) := by
    decide +kernel
  rw [processEnum, hattributes]
  cases hprocess : processAttributes quietSettings ⟨[eventFile]⟩ eventEnum
    [(.literal, eventAttribute)] with
  | mk log result =>
      rw [hprocess] at hmappings
      simp only at hmappings
      subst hmappings
      have hsource : [eventMapping].mapM Mapping.source =
          .ok [⟨eventMapping.fileName, sourceText "event" eventMapping.classText⟩] := rfl
      simp only [hprocess, hsource]

/-- The namespace of this text and the property in it are written without the mark that they have in
the text. -/
theorem runPass_reserved_event :
    readSource eventFile.path eventText = .ok eventFile ∧ "event" ∈ keywords ∧
      (runPass quietSettings ⟨[eventFile]⟩).sources.map (·.text) =
        [generatedHeader ++ "\n" ++ inBlock "namespace event" eventMapping.classText ++ "\n"] ∧
      margin 3 ++ "return global::event.R.EADescription;" ∈ eventMapping.methodLines := by
  refine ⟨by decide +kernel, by decide, ?_, by decide +kernel⟩
  obtain ⟨extensions, hsources, htexts⟩ := runPass_texts quietSettings ⟨[eventFile]⟩
  have hleading : leadingSources quietSettings ⟨[eventFile]⟩ = [] := by decide +kernel
  have hcandidates : candidateEnums ⟨[eventFile]⟩ = [eventEnum] := by decide +kernel
  have hhead : inNamespace "event" eventMapping.classText =
      inBlock "namespace event" eventMapping.classText := by
    rw [inNamespace, if_neg (by decide)]
    rfl
  rw [hsources, hleading, List.nil_append, htexts, hcandidates, List.flatMap_singleton,
    processEnum_event, List.map_singleton, sourceText, hhead]

end LocalisedEnum

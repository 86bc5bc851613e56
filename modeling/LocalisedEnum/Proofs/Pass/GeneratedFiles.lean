import LocalisedEnum.Discovery
import LocalisedEnum.Proofs.Encoding.RoundTrip
import LocalisedEnum.Proofs.Pass.InertFiles
import LocalisedEnum.Proofs.Pass.LineEnds

/-!
**What a pass produces has nothing to offer to another.**

The sources of a pass over names that are identifiers can be read again.  An attribute may put a
line feed behind the name of a method, which makes two lines of the first line of the method; the
tokens are the same.  What is read is the one class that the source was generated for, and it has
nothing to offer: so a file that holds such a source may stand among the files of any pass.

Main definitions:

* `Settings.IdentifierNames` — settings in which the names are identifiers;
* `IsOutput` — the octets of a source of some pass over identifiers.

Main results:

* `Mapping.NamedAround.readSource` — the file of a mapping is read as its class;
* `exists_inert_of_mem_sources` — **what is read of a source of a pass**;
* `IsOutput.readSource` — and of the octets of one.
-/

set_option autoImplicit false
set_option relaxedAutoImplicit false

namespace LocalisedEnum

/-! ### Reading the file of a mapping -/

/-- The first line of a method: two lines, when a line feed stands behind the name. -/
theorem spelledText_signature (m : Mapping) {method : Segment}
    (hmethod : m.methodName = .ofString method.lexeme.text ∨
      m.methodName = .ofString (method.lexeme.text ++ "\n")) {n : DottedName}
    (htype : m.view.typeReference = n.text) :
    SpelledText m.signature
      (lexemesOf (signaturePieces m.variant method (n.written .escaped))) := by
  rcases hmethod with hmethod | hmethod
  · exact .ofLine (spelledLine_signature m hmethod htype)
  · have hfront : SpelledLine ("public static string " ++ method.lexeme.text)
        (lexemesOf
          (pieces ["public", " ", "static", " ", "string", " "] ++ [.segment method])) := by
      refine .ofPieces 0 _ ?_ rfl
      simp (disch := decide) [spell_pieces]
    have hback : SpelledLine
        ("(this " ++ m.view.typeText ++ " " ++ valueParameter ++
          (if m.variant.hasDetail then ", string " ++ detailParameter else "") ++ ")")
        (lexemesOf
          (pieces ["("] ++ (parameterPieces m.variant (n.written .escaped) ++ pieces [")"]))) := by
      refine .ofPieces 0 _ ?_ ?_
      · cases m.variant <;> simp (disch := decide)
          [parameterPieces, spell_pieces, charsOf_typeText htype, Variant.hasDetail]
      · cases m.variant <;> rfl
    have htokens : lexemesOf (signaturePieces m.variant method (n.written .escaped)) =
        lexemesOf (pieces ["public", " ", "static", " ", "string", " "] ++ [.segment method]) ++
          lexemesOf
            (pieces ["("] ++ (parameterPieces m.variant (n.written .escaped) ++ pieces [")"])) := by
      rw [← lexemesOf_append, signaturePieces, List.append_assoc, List.singleton_append]
    have hlines := (SpelledLines.single hfront).append (.single hback)
    rw [← htokens, List.singleton_append] at hlines
    refine ⟨_, List.cons_ne_nil _ _, ?_, hlines⟩
    rw [m.signature_eq, m.writtenMethod_of_eq hmethod, ← String.toList_inj, toList_unlines_cons,
      unlines_singleton]
    simp only [String.toList_append, List.append_assoc]
    rfl

/-- **The file of a mapping is read as its class**, whether or not a line feed stands behind the
name of the method. -/
theorem Mapping.NamedAround.readSource {m : Mapping} (h : m.NamedAround)
    (hmethod : ∃ s : Segment, m.methodName = .ofString s.lexeme.text ∨
      m.methodName = .ofString (s.lexeme.text ++ "\n")) (path : String) {text : String}
    (htext : m.sourceText = .ok text) :
    ∃ file, LocalisedEnum.readSource path text = .ok file ∧
      file.unplaced = ⟨path, [], [], [m.extensionType path], []⟩ := by
  obtain ⟨method, hmethod⟩ := hmethod
  obtain ⟨n, htype⟩ := h.typeReference
  -- The body of the method and the class around it do not depend on the name.
  have hplain := h.wellNamed method
  obtain ⟨body, hbody⟩ := balancedLines_body hplain
  have hclass := ((spelledText_signature m hmethod htype).withBody hbody).inClass h.enumName
  obtain ⟨file, hread, hfile⟩ := readSource_sourceText path h.namespaceName rfl hclass
  rw [Mapping.sourceText, List.isEmpty_eq_false_iff.2 h.members] at htext
  cases htext
  refine ⟨file, hread, ?_⟩
  rw [hfile, types_classTree hplain _ path]
  rfl

/-! ### What is read -/

theorem SourceFile.inert_of_unplaced {file : SourceFile} {path : String} {t : TypeDeclaration}
    (h : file.unplaced = ⟨path, [], [], [t], []⟩) (ht : t.Inert) : file.Inert := by
  obtain ⟨_, _, enums, types, _⟩ := file
  obtain ⟨-, -, henums, htypes, rfl⟩ := SourceFile.mk.inj h
  obtain ⟨t', rfl, rfl⟩ := List.map_eq_singleton_iff.1 htypes
  refine ⟨List.map_eq_nil_iff.1 henums, fun u hu => ?_, rfl⟩
  obtain rfl := List.mem_singleton.1 hu
  exact ⟨ht.strings, ht.constants, ht.generated⟩

theorem joinDots_singleton (name : String) : joinDots [name] = name := by
  rw [joinDots, joinWith, String.intercalate_singleton]

theorem Mapping.inert_extensionType (m : Mapping) (h : isIdentifier m.view.name = true)
    (path : String) : (m.extensionType path).Inert where
  strings := rfl
  constants := rfl
  generated := ⟨⟨m.view.extensionClassName, isIdentifier_className h⟩, .inl ⟨m.view.name, rfl⟩,
    congrArg (qualify _) (joinDots_singleton _)⟩

theorem inert_attributeType (variant : Variant) (namespaceName path : String) :
    (attributeType variant namespaceName path).Inert where
  strings := rfl
  constants := rfl
  generated :=
    ⟨attributeClassWord variant, .inr ⟨variant, rfl⟩, congrArg (qualify _) (joinDots_singleton _)⟩

/-- Settings in which the namespace of the attribute classes and the name of the method are made of
identifiers. -/
structure Settings.IdentifierNames (settings : Settings) : Prop where
  attributeNamespace : IsNamespace settings.attributeNamespace
  methodName : ∃ s : Segment, settings.methodName = s.lexeme.text

theorem Settings.IdentifierNames.noReturns {settings : Settings} (h : settings.IdentifierNames) :
    NoReturns settings.attributeNamespace ∧ NoReturns settings.methodName := by
  obtain ⟨s, hs⟩ := h.methodName
  exact ⟨h.attributeNamespace.noReturns, hs ▸ noReturns_segment s⟩

/-- **What is read of a source of a pass** over identifiers has nothing to offer. -/
theorem exists_inert_of_mem_sources {settings : Settings} {c : Compilation}
    (hsettings : settings.IdentifierNames) (hc : c.IdentifierNames) {s : GeneratedSource}
    (hs : s ∈ (runPass settings c).sources) (path : String) :
    ∃ file, readSource path s.text = .ok file ∧ file.Inert := by
  rcases exists_of_mem_sources hs with ⟨variant, rfl⟩ | ⟨e, he, v, m, hm⟩
  · obtain ⟨file, hread, hfile⟩ :=
      readSource_sourceText path hsettings.attributeNamespace rfl (spelledText_attribute variant)
    rw [types_attributeTree] at hfile
    exact ⟨file, hread, SourceFile.inert_of_unplaced hfile (inert_attributeType ..)⟩
  · have hmethod : ∃ s : Segment, m.methodName = .ofString s.lexeme.text ∨
        m.methodName = .ofString (s.lexeme.text ++ "\n") := by
      rcases hm.methodName with heq | hasked
      · obtain ⟨s, hs⟩ := hsettings.methodName
        exact ⟨s, .inl (heq.trans (congrArg _ hs))⟩
      · exact hasked
    have hnamed := hm.namedAround hc he
    obtain ⟨file, hread, hfile⟩ := hnamed.readSource hmethod path hm.written
    exact
      ⟨file, hread, SourceFile.inert_of_unplaced hfile (m.inert_extensionType hnamed.enumName path)⟩

/-! ### What is read of a file -/

theorem withoutUtf8Mark_of_ne {b : UInt8} (h : b ≠ 0xEF) (octets : Octets) :
    withoutUtf8Mark (b :: octets) = b :: octets := by
  have hmark : utf8Mark = 0xEF :: [0xBB, 0xBF] := rfl
  rw [withoutUtf8Mark, hmark, List.isPrefixOf, List.isPrefixOf, beq_eq_false_iff_ne.2 h,
    beq_eq_false_iff_ne.2 h.symm]
  rfl

/-- A text that may stand in a generated file is read as it was written. -/
theorem sourceFileText_utf8Text {s : String} (h : IsGeneratedText s) :
    sourceFileText (utf8Text s) = s := by
  obtain ⟨rest, hrest⟩ := Option.isSome_iff_exists.1 h.header
  rw [dropStart?_eq_some_iff] at hrest
  -- The text begins with a stroke, and so with none of the octets of the mark.
  have hmark : withoutUtf8Mark (utf8Text s) = utf8Text s := by
    rw [utf8Text, hrest]
    exact withoutUtf8Mark_of_ne (b := 0x2F) (by decide) _
  have hpieces : (Encoding.utf8Marked.read (utf8Text s)).pieces = utf8Pieces (utf8Text s) :=
    congrArg utf8Pieces hmark
  rw [sourceFileText, hpieces, utf8Text, utf8Pieces_flatMap, lenientText_pieces,
    unifyLineEnds_eq_self h.noReturns, String.ofList_toList]

/-- **The octets of a source** of some pass over identifiers. -/
def IsOutput (octets : Octets) : Prop :=
  ∃ settings c s, Settings.IdentifierNames settings ∧ Compilation.IdentifierNames c ∧
    s ∈ (runPass settings c).sources ∧ octets = utf8Text s.text

/-- **What is read of the octets of a source** has nothing to offer. -/
theorem IsOutput.readSource {octets : Octets} (h : IsOutput octets) (path : String) :
    ∃ file, LocalisedEnum.readSource path (sourceFileText octets) = .ok file ∧ file.Inert := by
  obtain ⟨settings, c, s, hsettings, hc, hs, rfl⟩ := h
  rw [sourceFileText_utf8Text
    (isGeneratedText_of_mem_sources hc hsettings.noReturns.1 hsettings.noReturns.2 hs)]
  exact exists_inert_of_mem_sources hsettings hc hs path

end LocalisedEnum

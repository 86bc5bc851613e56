import LocalisedEnum.Proofs.Pass.Identifiers

/-!
**The line ends of what is generated.**

A text that is read from a file has line feeds for carriage returns.  What is generated has no
carriage returns where the names in it have none, so that it is read as it was written.  And it
begins with the line by which generated files are known.

Main definitions:

* `NoReturns` — texts without carriage returns;
* `IsGeneratedText` — such texts that begin as generated files do.

Main results:

* `noReturns_methodText` — the method of a mapping;
* `isGeneratedText_of_mem_sources` — **the texts of a pass**.
-/

set_option autoImplicit false
set_option relaxedAutoImplicit false

namespace LocalisedEnum

/-! ### Texts without carriage returns -/

/-- A text without carriage returns. -/
def NoReturns (s : String) : Prop :=
  '\r' ∉ s.toList

instance (s : String) : Decidable (NoReturns s) :=
  inferInstanceAs (Decidable ('\r' ∉ s.toList))

@[simp] theorem noReturns_append {s s' : String} :
    NoReturns (s ++ s') ↔ NoReturns s ∧ NoReturns s' := by
  simp only [NoReturns, String.toList_append, List.mem_append, not_or]

/-- The characters of a literal are looked at without decoding it. -/
theorem noReturns_ofList {cs : List Char} (h : '\r' ∉ cs) : NoReturns (String.ofList cs) := by
  rwa [NoReturns, String.toList_ofList]

theorem noReturns_joinWith {separator : String} (hseparator : NoReturns separator)
    {parts : List String} (h : ∀ part ∈ parts, NoReturns part) :
    NoReturns (joinWith separator parts) := by
  induction parts with
  | nil => exact List.not_mem_nil
  | cons part parts ih =>
      have hrest := ih fun part hpart => h part (List.mem_cons_of_mem _ hpart)
      cases parts with
      | nil =>
          rw [joinWith, String.intercalate_singleton]
          exact h part List.mem_cons_self
      | cons next parts =>
          rw [joinWith, String.intercalate_cons_cons]
          exact noReturns_append.2
            ⟨noReturns_append.2 ⟨h part List.mem_cons_self, hseparator⟩, hrest⟩

theorem noReturns_unlines {lines : List String} (h : ∀ line ∈ lines, NoReturns line) :
    NoReturns (unlines lines) :=
  noReturns_joinWith (by decide) h

theorem noReturns_margin (levels : Nat) : NoReturns (margin levels) :=
  fun hmem => absurd (mem_margin hmem) (by decide)

/-- Indenting adds blanks and nothing else. -/
theorem noReturns_indent {code : String} (h : NoReturns code) (levels : Nat) :
    NoReturns (indent levels code) := by
  rw [indent, indentBy, NoReturns, String.toList_ofList, List.mem_flatMap]
  rintro ⟨line, hline, hmem⟩
  have hcode : '\r' ∉ line := by
    intro hreturn
    refine h ?_
    rw [← flatten_linesWithEnds code.toList]
    exact List.mem_flatten_of_mem hline hreturn
  split at hmem
  · exact hcode hmem
  · exact (List.mem_append.1 hmem).elim (noReturns_margin levels) hcode

theorem noReturns_inBlock {head code : String} (hhead : NoReturns head) (hcode : NoReturns code) :
    NoReturns (inBlock head code) := by
  refine noReturns_unlines fun line hline => ?_
  simp only [List.mem_cons, List.not_mem_nil, or_false] at hline
  rcases hline with rfl | rfl | rfl | rfl
  · exact hhead
  · decide
  · exact noReturns_indent hcode 1
  · decide

theorem noReturns_inNamespace {namespaceName code : String} (hname : NoReturns namespaceName)
    (hcode : NoReturns code) : NoReturns (inNamespace namespaceName code) := by
  rw [inNamespace]
  split
  · exact hcode
  · exact noReturns_inBlock (noReturns_append.2 ⟨by decide, hname⟩) hcode

/-- **A text that may stand in a generated file**: it begins as generated files do, and has no
carriage returns. -/
structure IsGeneratedText (text : String) : Prop where
  header : startsWith generatedHeader.toList text.toList = true
  noReturns : NoReturns text

theorem isGeneratedText_sourceText {namespaceName code : String} (hname : NoReturns namespaceName)
    (hcode : NoReturns code) : IsGeneratedText (sourceText namespaceName code) where
  header := by
    simp only [sourceText, String.toList_append, List.append_assoc, startsWith, dropStart?_append,
      Option.isSome_some]
  noReturns := by
    simp only [sourceText, noReturns_append]
    exact ⟨⟨⟨by decide, by decide⟩, noReturns_inNamespace hname hcode⟩, by decide⟩

/-! ### Names without carriage returns -/

theorem noReturns_of_isWord {s : String}
    (h : ∀ c ∈ s.toList, isWord c = true ∨ c = '.' ∨ c = ':' ∨ c = '@') : NoReturns s := by
  intro hreturn
  exact absurd (h _ hreturn) (by decide)

theorem noReturns_of_isIdentifier {s : String} (h : isIdentifier s = true) : NoReturns s :=
  noReturns_of_isWord fun _ hc => .inl (isWord_of_mem_identifier h hc)

theorem noReturns_escapeName {s : String} (h : isIdentifier s = true) :
    NoReturns (escapeName s) := by
  refine noReturns_of_isWord fun c hc => ?_
  rcases mem_escapeName hc with rfl | hc
  · simp
  · exact .inl (isWord_of_mem_identifier h hc)

theorem IsNamespace.noReturns {s : String} (h : IsNamespace s) : NoReturns s :=
  noReturns_of_isWord fun _ hc => (h.mem hc).imp_right .inl

theorem IsReference.noReturns {s : String} (h : IsReference s) : NoReturns s :=
  noReturns_of_isWord fun _ hc => (h.mem hc).imp_right fun hc => hc.imp_right .inl

theorem noReturns_segment (s : Segment) : NoReturns s.lexeme.text := by
  obtain ⟨w, marked⟩ := s
  refine noReturns_of_isWord fun c hc => ?_
  rw [Segment.toList_lexeme, List.mem_append] at hc
  rcases hc with hc | hc
  · cases marked with
    | false => cases hc
    | true => simp [List.mem_singleton.1 hc]
  · exact .inl (isWord_of_mem_identifier w.identifier hc)

/-! ### The file of a mapping -/

namespace Mapping.NamedAround

variable {m : Mapping} (h : m.NamedAround)
include h

theorem noReturns_typeText : NoReturns m.view.typeText := by
  obtain ⟨n, hn⟩ := h.typeReference
  rw [typeText_eq hn]
  refine noReturns_joinWith (by decide) fun part hpart => ?_
  obtain ⟨w, _, rfl⟩ := List.mem_map.1 hpart
  exact noReturns_escapeName w.identifier

omit h in
theorem noReturns_branchLines (variant : Variant) {reference : String}
    (hreference : IsReference reference) :
    ∀ line ∈ branchLines variant reference, NoReturns line := by
  intro line hline
  have hname := hreference.noReturns
  cases variant with
  | literal =>
      rw [List.mem_singleton.1 hline]
      simp only [noReturns_append]
      exact ⟨⟨⟨by decide, by decide⟩, hname⟩, by decide⟩
  | formatted =>
      simp only [branchLines, List.mem_cons, List.not_mem_nil, or_false] at hline
      rcases hline with rfl | rfl
      · simp only [noReturns_append]
        exact ⟨⟨⟨by decide, by decide⟩, hname⟩, by decide⟩
      · decide

theorem noReturns_caseLines {b : Binding} (hb : b ∈ m.bindings) :
    ∀ line ∈ caseLines m.variant m.view.typeText b, NoReturns line := by
  intro line hline
  obtain ⟨hmember, hreference⟩ := h.bindings b hb
  rcases List.mem_cons.1 hline with rfl | hline
  · simp only [noReturns_append]
    exact ⟨⟨⟨⟨⟨by decide, by decide⟩, h.noReturns_typeText⟩, by decide⟩,
        noReturns_escapeName hmember⟩, by decide⟩
  · exact noReturns_branchLines m.variant hreference line hline

theorem noReturns_defaultLines :
    ∀ line ∈ defaultLines m.variant m.defaultBinding, NoReturns line := by
  intro line hline
  rw [defaultLines] at hline
  rcases List.mem_cons.1 hline with rfl | hline
  · decide
  · split at hline
    · next reference hbound =>
        exact noReturns_branchLines m.variant (h.fallback _ hbound) line hline
    · rw [List.mem_singleton.1 hline]
      decide +kernel

theorem noReturns_signature (hmethod : NoReturns m.writtenMethod) : NoReturns m.signature := by
  rw [Mapping.signature_eq]
  simp only [noReturns_append]
  refine ⟨⟨⟨⟨⟨⟨⟨by decide, hmethod⟩, by decide⟩, h.noReturns_typeText⟩, by decide⟩, by decide⟩, ?_⟩,
    by decide⟩
  split <;> decide

/-- The method of a mapping whose names have no carriage returns. -/
theorem noReturns_methodText (hmethod : NoReturns m.writtenMethod) : NoReturns m.methodText := by
  refine noReturns_unlines fun line hline => ?_
  have hfixed : ∀ lines : List String, (∀ line ∈ lines, NoReturns line) →
      line ∈ (if m.variant.hasDetail then lines else []) → NoReturns line := by
    intro lines hlines hline
    split at hline
    · exact hlines line hline
    · cases hline
  simp only [Mapping.methodLines, List.mem_append, List.mem_flatMap] at hline
  rcases hline with
    ((((((hline | hline) | hline) | ⟨b, hb, hline⟩) | hline) | hline) | hline) | hline
  · simp only [List.mem_cons, List.not_mem_nil, or_false] at hline
    rcases hline with rfl | rfl
    · exact h.noReturns_signature hmethod
    · decide
  · exact hfixed _ (by decide) hline
  · exact (show ∀ line ∈ [margin 1 ++ "switch (" ++ valueParameter ++ ")", margin 1 ++ "\x7b"],
      NoReturns line by
      decide) line hline
  · exact h.noReturns_caseLines hb line hline
  · exact h.noReturns_defaultLines line hline
  · rw [List.mem_singleton.1 hline]
    decide
  · exact hfixed _ (by decide) hline
  · rw [List.mem_singleton.1 hline]
    decide

/-- The file of a mapping whose names have no carriage returns. -/
theorem isGeneratedText (hmethod : NoReturns m.writtenMethod) {text : String}
    (htext : m.sourceText = .ok text) : IsGeneratedText text := by
  rw [Mapping.sourceText] at htext
  split at htext
  · cases htext
  · cases htext
    refine isGeneratedText_sourceText h.namespaceName.noReturns
      (noReturns_inBlock ?_ (h.noReturns_methodText hmethod))
    have haccess : NoReturns (accessibilityText m.view.accessibility) := by
      cases m.view.accessibility <;> decide
    simp only [noReturns_append, EnumView.extensionClassName]
    exact ⟨⟨haccess, by decide⟩, noReturns_of_isIdentifier h.enumName, by decide⟩

end Mapping.NamedAround

/-! ### The texts of a pass -/

section

variable {settings : Settings} {c : Compilation}

/-- No line of an attribute class has one. -/
theorem noReturns_attributeLines (variant : Variant) :
    ∀ line ∈ attributeLines variant, NoReturns line := by
  have hname : NoReturns (attributeClassName variant) := by
    cases variant <;> exact noReturns_append.2
      ⟨noReturns_ofList (by decide), noReturns_ofList (by decide)⟩
  have hhint : NoReturns (methodHint variant) := by
    cases variant <;> exact noReturns_ofList (by decide)
  simp only [attributeLines, accessorLine, List.forall_mem_cons, List.not_mem_nil, false_implies,
    implies_true, noReturns_append, noReturns_margin, hname, hhint, and_true, true_and, and_assoc]
  and_intros <;> exact noReturns_ofList (by decide)

theorem isGeneratedText_attributeText (variant : Variant) {namespaceName : String}
    (h : NoReturns namespaceName) : IsGeneratedText (attributeText variant namespaceName) := by
  exact isGeneratedText_sourceText h (noReturns_unlines (noReturns_attributeLines variant))

/-- What leads the sources of a pass are attribute classes. -/
theorem exists_of_mem_leadingSources {s : GeneratedSource} (hs : s ∈ leadingSources settings c) :
    ∃ variant,
      s = ⟨attributeFileName variant, attributeText variant settings.attributeNamespace⟩ := by
  rw [leadingSources] at hs
  split at hs
  · cases hs
  · split at hs
    · obtain ⟨variant, _, rfl⟩ := List.mem_map.1 hs
      exact ⟨variant, rfl⟩
    · cases hs

/-- A source of a pass is an attribute class, or the file of a mapping of one of its enums. -/
theorem exists_of_mem_sources {s : GeneratedSource} (hs : s ∈ (runPass settings c).sources) :
    (∃ variant,
      s = ⟨attributeFileName variant, attributeText variant settings.attributeNamespace⟩) ∨
    ∃ e ∈ c.enums, ∃ v m, SourceOf settings c e v m s.text := by
  obtain ⟨extensions, hsources, htexts⟩ := runPass_texts settings c
  rw [hsources, List.mem_append] at hs
  rcases hs with hs | hs
  · exact .inl (exists_of_mem_leadingSources hs)
  · have htext : s.text ∈
        (candidateEnums c).flatMap fun e => (processEnum settings c e).sources.map (·.text) :=
      htexts ▸ List.mem_map_of_mem hs
    obtain ⟨e, he, htext⟩ := List.mem_flatMap.1 htext
    obtain ⟨source, hsource, heq⟩ := List.mem_map.1 htext
    obtain ⟨v, m, hm, _⟩ := exists_sourceOf hsource
    exact .inr ⟨e, (List.mem_filter.1 he).1, v, m, heq ▸ hm⟩

theorem SourceOf.noReturns_writtenMethod {e : EnumDeclaration} {v : Variant} {m : Mapping}
    {text : String} (h : SourceOf settings c e v m text) (hmethod : NoReturns settings.methodName) :
    NoReturns m.writtenMethod := by
  rcases h.methodName with heq | ⟨s, heq | heq⟩
  · rw [m.writtenMethod_of_eq heq]
    exact hmethod
  · rw [m.writtenMethod_of_eq heq]
    exact noReturns_segment s
  · rw [m.writtenMethod_of_eq heq]
    exact noReturns_append.2 ⟨noReturns_segment s, by decide⟩

/-- **The texts of a pass** over names that are identifiers may stand in generated files, when the
names in the settings have no carriage returns. -/
theorem isGeneratedText_of_mem_sources (hc : c.IdentifierNames)
    (hnamespace : NoReturns settings.attributeNamespace) (hmethod : NoReturns settings.methodName)
    {s : GeneratedSource} (hs : s ∈ (runPass settings c).sources) : IsGeneratedText s.text := by
  rcases exists_of_mem_sources hs with ⟨variant, rfl⟩ | ⟨e, he, v, m, hm⟩
  · exact isGeneratedText_attributeText variant hnamespace
  · exact (hm.namedAround hc he).isGeneratedText (hm.noReturns_writtenMethod hmethod) hm.written

end

end LocalisedEnum

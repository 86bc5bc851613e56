import LocalisedEnum.Proofs.Pass.Identifiers

/-!
**The names of generated methods.**

The name of a method comes from the attribute, as a text or through a constant, or else from the
settings.  It is legal if it is an identifier in ASCII, and no reserved word unless a mark stands in
front of it.  What an attribute asks for is looked at before a mapping is made; a line feed at its
end is overlooked there, and with it that the word before it may be reserved.  What the settings
give is not looked at.

Main definitions:

* `isLegalMethodName` — the legal names;
* `methodNameAsked?` — the name that an attribute asks for, constants put in their places;
* `handedMappings` — the mappings of an enum whose methods are written;
* `NamedBy` — where the name of a method comes from.

Main results:

* `isMethodName_iff` — what the check of an attribute lets through;
* `forall₂_handedMappings` — the sources of an enum are the files of these mappings;
* `runPass_methodNames` — **the names of the methods in a pass**;
* `runPass_methodNames_lineFeed` — an attribute whose name ends in a line feed.
-/

set_option autoImplicit false
set_option relaxedAutoImplicit false

namespace LocalisedEnum

/-! ### Legal names -/

/-- A letter or a low line, and then letters, digits and low lines, all in ASCII. -/
def isAsciiWord : List Char → Bool
  | [] => false
  | c :: rest => isWordStart c && rest.all continuesMethodName

/-- **A legal name of a method**: a word in ASCII that is not reserved, or any such word behind a
mark. -/
def isLegalMethodName (name : String) : Bool :=
  match name.toList with
  | '@' :: word => isAsciiWord word
  | word => isAsciiWord word && !keywords.contains name

/-- The characters of an optional mark. -/
def markChars (marked : Bool) : List Char :=
  if marked then ['@'] else []

theorem isAsciiWord_of_mem_keywords {word : String} (h : word ∈ keywords) :
    isAsciiWord word.toList = true := by
  have hall : (keywords.all fun word => isAsciiWord word.toList) = true := by decide +kernel
  exact List.all_eq_true.1 hall word h

theorem continuesMethodName_of_mem {word : List Char} (h : isAsciiWord word = true) {c : Char}
    (hc : c ∈ word) : continuesMethodName c = true := by
  cases word with
  | nil => cases hc
  | cons first rest =>
      rw [isAsciiWord, Bool.and_eq_true, List.all_eq_true] at h
      rcases List.mem_cons.1 hc with rfl | hc
      · rw [continuesMethodName, h.1, Bool.true_or]
      · exact h.2 c hc

theorem not_mem_of_isAsciiWord {word : List Char} (h : isAsciiWord word = true) {c : Char}
    (hc : continuesMethodName c = false) : c ∉ word := by
  intro hmem
  rw [continuesMethodName_of_mem h hmem] at hc
  cases hc

/-- What is left of a word when a mark in front of it is taken away. -/
theorem unmarked_markChars {word : List Char} (h : '@' ∉ word) (marked : Bool) :
    (dropStart? ['@'] (markChars marked ++ word)).getD (markChars marked ++ word) = word := by
  cases marked with
  | true => rfl
  | false =>
      cases hdrop : dropStart? ['@'] word with
      | none =>
          simp only [markChars, Bool.false_eq_true, if_false, List.nil_append, hdrop,
            Option.getD_none]
      | some rest =>
          refine absurd ?_ h
          rw [dropStart?_eq_some_iff.1 hdrop]
          exact List.mem_cons_self

theorem exists_markChars (cs : List Char) :
    ∃ marked, cs = markChars marked ++ (dropStart? ['@'] cs).getD cs := by
  cases hdrop : dropStart? ['@'] cs with
  | none => exact ⟨false, rfl⟩
  | some rest => exact ⟨true, dropStart?_eq_some_iff.1 hdrop⟩

theorem exists_withoutFinalLineFeed (cs : List Char) :
    cs = withoutFinalLineFeed cs ∨ cs = withoutFinalLineFeed cs ++ ['\n'] := by
  rw [withoutFinalLineFeed]
  split
  · next hlast => exact .inr (List.dropLast_append_getLast? _ hlast).symm
  · exact .inl rfl

theorem withoutFinalLineFeed_append (cs : List Char) :
    withoutFinalLineFeed (cs ++ ['\n']) = cs := by
  rw [withoutFinalLineFeed, if_pos List.getLast?_concat, List.dropLast_concat]

theorem withoutFinalLineFeed_of_not_mem {cs : List Char} (h : '\n' ∉ cs) :
    withoutFinalLineFeed cs = cs := by
  rw [withoutFinalLineFeed, if_neg]
  intro hlast
  exact h (List.mem_of_getLast? hlast)

/-- A legal name is a word behind an optional mark, and marked if it is reserved. -/
theorem isLegalMethodName_iff {name : String} : isLegalMethodName name = true ↔
    ∃ marked word, isAsciiWord word = true ∧ name.toList = markChars marked ++ word ∧
      (name ∈ keywords → marked = true) := by
  rw [isLegalMethodName]
  constructor
  · intro h
    split at h
    · next word hword => exact ⟨true, word, h, hword, fun _ => rfl⟩
    · rw [Bool.and_eq_true, Bool.not_eq_true', List.contains_eq_mem, decide_eq_false_iff_not] at h
      exact ⟨false, name.toList, h.1, rfl, fun hmem => absurd hmem h.2⟩
  · rintro ⟨marked, word, hword, hname, hreserved⟩
    split
    · next rest hrest =>
      cases marked with
      | true =>
          rw [hname] at hrest
          obtain rfl := List.cons.inj hrest |>.2
          exact hword
      | false =>
          refine absurd ?_ (not_mem_of_isAsciiWord hword (c := '@') (by decide))
          rw [show word = name.toList from hname.symm, hrest]
          exact List.mem_cons_self
    · next hunmarked =>
      cases marked with
      | true => exact absurd hname (hunmarked word)
      | false =>
          have hfree : name ∉ keywords := fun hmem => Bool.false_ne_true (hreserved hmem)
          rw [show name.toList = word from hname, hword, Bool.true_and, Bool.not_eq_true',
            List.contains_eq_mem, decide_eq_false_iff_not]
          exact hfree

/-! ### The check of an attribute -/

/-- The shape that the check looks for: a word behind an optional mark, and perhaps in front of a
line feed. -/
theorem isAsciiIdentifier_iff {cs : List Char} : isAsciiIdentifier cs = true ↔
    ∃ marked word, isAsciiWord word = true ∧
      (cs = markChars marked ++ word ∨ cs = markChars marked ++ word ++ ['\n']) := by
  have hcheck : isAsciiIdentifier cs =
      isAsciiWord (withoutFinalLineFeed ((dropStart? ['@'] cs).getD cs)) := by
    rw [isAsciiIdentifier]
    cases withoutFinalLineFeed ((dropStart? ['@'] cs).getD cs) <;> rfl
  rw [hcheck]
  constructor
  · intro hword
    obtain ⟨marked, hmarked⟩ := exists_markChars cs
    refine ⟨marked, _, hword, ?_⟩
    rcases exists_withoutFinalLineFeed ((dropStart? ['@'] cs).getD cs) with hbody | hbody
    · rw [← hbody]
      exact .inl hmarked
    · rw [List.append_assoc, ← hbody]
      exact .inr hmarked
  · rintro ⟨marked, word, hword, rfl | rfl⟩
    · have hmark := not_mem_of_isAsciiWord hword (c := '@') (by decide)
      rw [unmarked_markChars hmark,
        withoutFinalLineFeed_of_not_mem (not_mem_of_isAsciiWord hword (by decide)), hword]
    · have hmark : '@' ∉ word ++ ['\n'] := by
        simpa using not_mem_of_isAsciiWord hword (c := '@') (by decide)
      rw [List.append_assoc, unmarked_markChars hmark, withoutFinalLineFeed_append, hword]

/-- The check lets a text through that has this shape, and that is marked or no reserved word. -/
theorem isMethodName_eq_true {t : CodeText} : isMethodName t = true ↔ ∃ s, t = .ofString s ∧
    isAsciiIdentifier s.toList = true ∧ (s.toList.head? = some '@' ∨ s ∉ keywords) := by
  rw [isMethodName]
  constructor
  · intro h
    split at h
    · cases h
    · next s hs =>
      rw [Bool.and_eq_true, Bool.or_eq_true, beq_iff_eq, Bool.not_eq_true', List.contains_eq_mem,
        decide_eq_false_iff_not] at h
      exact ⟨s, eq_ofString_of_toString? hs, h⟩
  · rintro ⟨s, rfl, h⟩
    simpa only [CodeText.toString?_ofString, Bool.and_eq_true, Bool.or_eq_true, beq_iff_eq,
        Bool.not_eq_true', List.contains_eq_mem, decide_eq_false_iff_not] using h

/-- A word behind an optional mark is marked or no reserved word exactly if it is marked where it is
reserved. -/
theorem marked_or_free_iff {name : String} {marked : Bool} {word : List Char}
    (hword : isAsciiWord word = true) (hname : name.toList = markChars marked ++ word) :
    (name.toList.head? = some '@' ∨ name ∉ keywords) ↔ (name ∈ keywords → marked = true) := by
  cases marked with
  | true => exact ⟨fun _ _ => rfl, fun _ => .inl (by rw [hname]; rfl)⟩
  | false =>
      -- a word does not begin with the mark
      have hmark : name.toList.head? ≠ some '@' := fun h =>
        not_mem_of_isAsciiWord hword (by decide) (hname ▸ List.mem_of_head? h)
      simp [hmark]

theorem exists_word_of_name {name : String} (h : isLegalMethodName name = true ∨ name ∈ keywords) :
    ∃ marked word, isAsciiWord word = true ∧ name.toList = markChars marked ++ word := by
  rcases h with h | h
  · obtain ⟨marked, word, hword, hname, _⟩ := isLegalMethodName_iff.1 h
    exact ⟨marked, word, hword, hname⟩
  · exact ⟨false, name.toList, isAsciiWord_of_mem_keywords h, rfl⟩

/-- **What the check lets through**: the legal names, and names with a line feed behind them, which
may then be reserved words. -/
theorem isMethodName_iff {t : CodeText} : isMethodName t = true ↔
    ∃ name, (t = .ofString name ∧ isLegalMethodName name = true) ∨
      (t = .ofString (name ++ "\n") ∧ (isLegalMethodName name = true ∨ name ∈ keywords)) := by
  rw [isMethodName_eq_true]
  constructor
  · rintro ⟨s, rfl, hidentifier, hfree⟩
    obtain ⟨marked, word, hword, htext | htext⟩ := isAsciiIdentifier_iff.1 hidentifier
    · exact ⟨s, .inl ⟨rfl, isLegalMethodName_iff.2
        ⟨marked, word, hword, htext, (marked_or_free_iff hword htext).1 hfree⟩⟩⟩
    · refine ⟨String.ofList (markChars marked ++ word), .inr ⟨?_, ?_⟩⟩
      · refine congrArg _ (String.toList_injective ?_)
        rw [htext, String.toList_append, String.toList_ofList]
        rfl
      · by_cases hreserved : String.ofList (markChars marked ++ word) ∈ keywords
        · exact .inr hreserved
        · exact .inl (isLegalMethodName_iff.2
            ⟨marked, word, hword, String.toList_ofList, fun hmem => absurd hmem hreserved⟩)
  · rintro ⟨name, ⟨rfl, hname⟩ | ⟨rfl, hname⟩⟩
    · obtain ⟨marked, word, hword, htext, hreserved⟩ := isLegalMethodName_iff.1 hname
      exact ⟨name, rfl, isAsciiIdentifier_iff.2 ⟨marked, word, hword, .inl htext⟩,
        (marked_or_free_iff hword htext).2 hreserved⟩
    · obtain ⟨marked, word, hword, htext⟩ := exists_word_of_name hname
      have hlist : (name ++ "\n").toList = markChars marked ++ word ++ ['\n'] := by
        rw [String.toList_append, htext]
        rfl
      -- no reserved word has a line feed
      have hfree : name ++ "\n" ∉ keywords := by
        intro hmem
        refine not_mem_of_isAsciiWord (isAsciiWord_of_mem_keywords hmem) (c := '\n') (by decide) ?_
        rw [hlist]
        exact List.mem_append_right _ List.mem_cons_self
      exact ⟨_, rfl, isAsciiIdentifier_iff.2 ⟨marked, word, hword, .inr hlist⟩, .inr hfree⟩

/-! ### What an attribute asks for -/

/-- **The name that an attribute asks its method to be called**, constants put in their places.  A
blank text counts as none. -/
def methodNameAsked? (c : Compilation) (e : EnumDeclaration) (a : Attribute) : Option CodeText :=
  match valueOf? methodNameKey (bindConstants c e.context a).named with
  | some (.text t) => if t.isBlankText then none else some t
  | _ => none

section Attribute

variable {settings : Settings} {c : Compilation} {e : EnumDeclaration} {v : Variant} {a : Attribute}

/-- A request of an attribute holds the values of the attribute in the order of their names. -/
theorem named_of_ofAttribute {order : KeyOrder} {request : Request}
    (h : Request.ofAttribute order v a = .ok request) : request.named = sortNamed a.named := by
  obtain ⟨_, _, _, rfl, _⟩ := ofAttribute_eq_ok h
  rfl

/-- A request asks for the name that its attribute asks for. -/
theorem methodNameAsked?_of_textOf {order : KeyOrder} {request : Request} {asked : Option CodeText}
    (hrequest : Request.ofAttribute order v (bindConstants c e.context a) = .ok request)
    (h : request.textOf methodNameKey = .ok asked) : methodNameAsked? c e a = asked := by
  rw [Request.textOf, named_of_ofAttribute hrequest, valueOf?_sortNamed] at h
  rw [methodNameAsked?]
  split at h
  · next hvalue =>
    cases h
    rw [hvalue]
  · next hvalue =>
    cases h
    rw [hvalue]
  · next t hvalue =>
    cases h
    rw [hvalue]
  · cases h

/-- An attribute that asks for a name which the check does not let through fails. -/
theorem attributeResult_of_not_isMethodName {t : CodeText}
    (hasked : methodNameAsked? c e a = some t) (ht : isMethodName t = false) :
    ∃ f, attributeResult settings c e (v, a) = .error f := by
  cases hrequest : Request.ofAttribute settings.keyOrder v (bindConstants c e.context a) with
  | error f => exact ⟨f, by simp only [attributeResult, processAttribute, hrequest]⟩
  | ok request =>
      exfalso
      -- a request that is made has read the name, and the check has let it through
      obtain ⟨asked, hread⟩ : ∃ asked, request.textOf methodNameKey = .ok asked := by
        rw [Request.textOf, named_of_ofAttribute hrequest, valueOf?_sortNamed]
        rw [methodNameAsked?] at hasked
        split at hasked
        · next hvalue =>
          rw [hvalue]
          exact ⟨_, rfl⟩
        · cases hasked
      obtain rfl := hasked.symm.trans (methodNameAsked?_of_textOf hrequest hread)
      rw [isMethodName_of_ofAttribute hrequest hread] at ht
      cases ht

/-- **Where the name of a method comes from**: the settings, if no other is asked for, or the
attribute, which asks for a legal name, or for a name with a line feed behind it. -/
inductive NamedBy (settings : Settings) (asked : Option CodeText) : CodeText → Prop
  | settings (hasked : asked = none) : NamedBy settings asked (.ofString settings.methodName)
  | legal {name : String} (hasked : asked = some (.ofString name))
      (hname : isLegalMethodName name = true) : NamedBy settings asked (.ofString name)
  | lineFeed {word : String} (hasked : asked = some (.ofString (word ++ "\n")))
      (hword : isLegalMethodName word = true ∨ word ∈ keywords) :
      NamedBy settings asked (.ofString (word ++ "\n"))

theorem namedBy_of_attributeResult {m : Mapping} {errors : List GenerationError}
    (h : attributeResult settings c e (v, a) = .ok (some m, errors)) :
    NamedBy settings (methodNameAsked? c e a) m.methodName := by
  obtain ⟨_, _, _, _, _, hrequest, hmethod, _, _, _, rfl⟩ := attributeResult_eq_some h
  obtain ⟨asked, hasked, rfl⟩ := methodName_eq_ok hmethod
  rw [methodNameAsked?_of_textOf hrequest hasked]
  cases asked with
  | none => exact .settings rfl
  | some t =>
      rw [Option.getD_some]
      obtain ⟨name, ⟨rfl, hlegal⟩ | ⟨rfl, hword⟩⟩ :=
        isMethodName_iff.1 (isMethodName_of_ofAttribute hrequest hasked)
      · exact .legal rfl hlegal
      · exact .lineFeed rfl hword

end Attribute

/-! ### The mappings that are written -/

/-- **The mappings of an enum whose methods are written**: those of its attributes, provided that
all of them resolve. -/
def handedMappings (settings : Settings) (c : Compilation) (e : EnumDeclaration) : List Mapping :=
  match localisationAttributes e with
  | .error _ => []
  | .ok attributes =>
    match (processAttributes settings c e attributes).2 with
    | .error _ => []
    | .ok (mappings, _) => mappings

section Enum

variable {settings : Settings} {c : Compilation} {e : EnumDeclaration}

/-- A mapping that is handed on is that of an attribute. -/
theorem exists_of_mem_handedMappings {m : Mapping} (h : m ∈ handedMappings settings c e) :
    ∃ attributes a errors, localisationAttributes e = .ok attributes ∧ (m.variant, a) ∈ attributes ∧
      attributeResult settings c e (m.variant, a) = .ok (some m, errors) := by
  rw [handedMappings] at h
  split at h
  · cases h
  · next attributes hattributes =>
    split at h
    · cases h
    · next mappings errors hmappings =>
      obtain ⟨results, hresults, rfl, _⟩ := processAttributes_eq_ok (Prod.ext rfl hmappings)
      obtain ⟨⟨_, found⟩, hresult, rfl⟩ := List.mem_filterMap.1 h
      obtain ⟨⟨v, a⟩, hentry, hv⟩ := exists_left_of_mem hresults hresult
      obtain ⟨rfl, _⟩ := attributeResult_effect hv
      exact ⟨attributes, a, found, hattributes, hentry, hv⟩

/-- The file of a mapping that is handed on is written. -/
theorem exists_source_of_mem_handedMappings {m : Mapping} (h : m ∈ handedMappings settings c e) :
    ∃ s, m.source = .ok s := by
  obtain ⟨_, _, _, _, _, hresult⟩ := exists_of_mem_handedMappings h
  obtain ⟨_, hview, hmembers, _⟩ := attributeResult_effect hresult
  have hfull : ¬ m.view.members.isEmpty = true := by
    rw [hview, List.isEmpty_iff]
    exact hmembers
  refine ⟨⟨m.fileName, LocalisedEnum.sourceText m.view.namespaceName m.classText⟩, ?_⟩
  rw [Mapping.source, Mapping.sourceText, if_neg hfull]
  rfl

/-- **The sources of an enum** are the files of the mappings that are handed on. -/
theorem forall₂_handedMappings :
    List.Forall₂ (fun m s => m.source = .ok s) (handedMappings settings c e)
      (processEnum settings c e).sources := by
  have hwritten :=
    fun m (hm : m ∈ handedMappings settings c e) => exists_source_of_mem_handedMappings hm
  rw [handedMappings] at hwritten ⊢
  rw [processEnum]
  cases hattributes : localisationAttributes e with
  | error f => exact .nil
  | ok attributes =>
      rw [hattributes] at hwritten
      simp only at hwritten ⊢
      cases hmappings : processAttributes settings c e attributes with
      | mk log result =>
          rw [hmappings] at hwritten
          cases result with
          | error f => exact .nil
          | ok found =>
              simp only at hwritten ⊢
              obtain ⟨sources, hsources⟩ := exists_mapM_eq_ok hwritten
              rw [hsources]
              exact mapM_eq_ok hsources

/-- An enum that fails leaves one internal error, and nothing of it is handed on. -/
theorem handedMappings_of_failsWith {f : Failure} (hf : FailsWith settings c e f) :
    handedMappings settings c e = [] ∧
      ∃ f', (processEnum settings c e).diagnostics = [internalDiagnostic f'] := by
  obtain ⟨f', hblock⟩ := (isBlock_processEnum settings c e).of_failsWith hf
  obtain ⟨hdiagnostics, htexts⟩ := EnumBlock.mk.inj hblock
  refine ⟨?_, f', hdiagnostics⟩
  have hfiles := @forall₂_handedMappings settings c e
  rw [List.map_eq_nil_iff.1 htexts] at hfiles
  exact List.forall₂_nil_right_iff.1 hfiles

end Enum

/-- The texts of the enums are the files of their mappings, in order. -/
theorem forall₂_flatMap_handedMappings (settings : Settings) (c : Compilation)
    (es : List EnumDeclaration) :
    List.Forall₂ (fun m text => m.sourceText = .ok text) (es.flatMap (handedMappings settings c))
      (es.flatMap fun e => (processEnum settings c e).sources.map (·.text)) := by
  induction es with
  | nil => exact .nil
  | cons e rest ih =>
      rw [List.flatMap_cons, List.flatMap_cons]
      refine List.rel_append (List.forall₂_map_right_iff.2 ?_) ih
      exact forall₂_handedMappings.imp fun _ _ hsource => (source_eq_ok hsource).1

/-! ### The attributes that ask for a variant -/

theorem attributeFor?_eq_some {found : List (Variant × Attribute)}
    (hunique : (found.map Prod.fst).Nodup) {v : Variant} {a : Attribute} :
    attributeFor? v found = some a ↔ (v, a) ∈ found := by
  induction found with
  | nil => simp [attributeFor?]
  | cons entry rest ih =>
      rw [List.map_cons, List.nodup_cons] at hunique
      rw [attributeFor?, List.find?_cons, List.mem_cons]
      split
      · next hv =>
        have hfresh : (v, a) ∉ rest := fun hmem =>
          hunique.1 (beq_iff_eq.1 hv ▸ List.mem_map_of_mem (f := Prod.fst) hmem)
        rw [or_iff_left hfresh, Option.map_some, Option.some_inj, Prod.ext_iff]
        exact ⟨fun h => ⟨(beq_iff_eq.1 hv).symm, h.symm⟩, fun h => h.2.symm⟩
      · next hv =>
        have hother : (v, a) ≠ entry := by
          rintro rfl
          simp at hv
        rw [or_iff_right hother]
        exact ih hunique.2

/-- What is collected is what asks for a variant, and no variant is collected twice. -/
theorem mem_of_collectAttributes_iff {enumName : String} {attributes : List Attribute}
    {found found' : List (Variant × Attribute)}
    (h : collectAttributes enumName found attributes = .ok found')
    (hunique : (found.map Prod.fst).Nodup) :
    (found'.map Prod.fst).Nodup ∧
    ∀ v a, (v, a) ∈ found' ↔
      (v, a) ∈ found ∨ (a ∈ attributes ∧ Variant.ofAttributeName? a.shortName = some v) := by
  induction attributes generalizing found with
  | nil =>
      cases h
      exact ⟨hunique, fun v a => by simp⟩
  | cons first rest ih =>
      rw [collectAttributes, List.foldlM_cons] at h
      obtain ⟨next, hnext, h⟩ := bind_eq_ok.1 h
      obtain ⟨hnodup, hmem⟩ : (next.map Prod.fst).Nodup ∧ ∀ v a, (v, a) ∈ next ↔
          (v, a) ∈ found ∨ (a = first ∧ Variant.ofAttributeName? first.shortName = some v) := by
        cases hasked : Variant.ofAttributeName? first.shortName with
        | none =>
            rw [hasked] at hnext
            cases hnext
            exact ⟨hunique, fun v a => by simp⟩
        | some w =>
            rw [hasked, collectAttribute] at hnext
            split at hnext
            · cases hnext
            · next hnew =>
              cases hnext
              refine ⟨?_, fun v a => ?_⟩
              · rw [List.map_append, List.nodup_append]
                refine ⟨hunique, List.pairwise_singleton _ _, ?_⟩
                rintro u hu _ hw rfl
                obtain ⟨⟨u, b⟩, hb, rfl⟩ := List.mem_map.1 hu
                obtain rfl := List.mem_singleton.1 hw
                exact hnew (by rw [(attributeFor?_eq_some hunique).2 hb]; rfl)
              · rw [List.mem_append, List.mem_singleton, Prod.mk.injEq, Option.some_inj, and_comm,
                  eq_comm (a := w)]
      obtain ⟨hnodup', hmem'⟩ := ih h hnodup
      refine ⟨hnodup', fun v a => ?_⟩
      rw [hmem', hmem, List.mem_cons]
      constructor
      · rintro ((hfound | ⟨rfl, hv⟩) | ⟨ha, hv⟩)
        · exact .inl hfound
        · exact .inr ⟨.inl rfl, hv⟩
        · exact .inr ⟨.inr ha, hv⟩
      · rintro (hfound | ⟨rfl | ha, hv⟩)
        · exact .inl (.inl hfound)
        · exact .inl (.inr ⟨rfl, hv⟩)
        · exact .inr ⟨ha, hv⟩

/-- The attributes of an enum that are processed are those that ask for a variant. -/
theorem mem_localisationAttributes_iff {e : EnumDeclaration}
    {attributes : List (Variant × Attribute)} (h : localisationAttributes e = .ok attributes)
    {v : Variant} {a : Attribute} :
    (v, a) ∈ attributes ↔ a ∈ e.attributes ∧ Variant.ofAttributeName? a.shortName = some v := by
  obtain ⟨found, hfound, h⟩ := bind_eq_ok.1 h
  cases h
  obtain ⟨hunique, hmem⟩ := mem_of_collectAttributes_iff hfound List.nodup_nil
  have hall : v ∈ Variant.all := by cases v <;> decide
  rw [List.mem_filterMap]
  constructor
  · rintro ⟨w, _, hw⟩
    obtain ⟨b, hb, heq⟩ := Option.map_eq_some_iff.1 hw
    cases heq
    exact ((hmem _ _).1 ((attributeFor?_eq_some hunique).1 hb)).resolve_left List.not_mem_nil
  · intro ha
    exact ⟨v, hall, by rw [(attributeFor?_eq_some hunique).2 ((hmem v a).2 (.inr ha))]; rfl⟩

/-! ### The pass -/

/-- **The names of the methods in a pass.**  Behind the attribute classes the sources of a pass are
the files of the mappings that its enums hand on.  The method of each has the name that the
attribute asks for, which is legal or has a line feed behind it, or else the name in the settings,
whatever that is.  An enum with an attribute that asks for any other name hands on nothing, and
leaves one internal error. -/
theorem runPass_methodNames (settings : Settings) (c : Compilation) :
    (∃ extensions, (runPass settings c).sources = leadingSources settings c ++ extensions ∧
      List.Forall₂ (fun m text => m.sourceText = .ok text)
        ((candidateEnums c).flatMap (handedMappings settings c)) (extensions.map (·.text))) ∧
    (∀ e ∈ candidateEnums c, ∀ m ∈ handedMappings settings c e, ∃ a ∈ e.attributes,
      Variant.ofAttributeName? a.shortName = some m.variant ∧
      NamedBy settings (methodNameAsked? c e a) m.methodName) ∧
    ∀ e ∈ candidateEnums c, ∀ a ∈ e.attributes,
      (Variant.ofAttributeName? a.shortName).isSome = true →
        ∀ t, methodNameAsked? c e a = some t →
          (∀ name, t = .ofString name → isLegalMethodName name = false) →
          (∀ word, t = .ofString (word ++ "\n") →
            isLegalMethodName word = false ∧ word ∉ keywords) →
          handedMappings settings c e = [] ∧
          ∃ f, (processEnum settings c e).diagnostics = [internalDiagnostic f] := by
  refine ⟨?_, ?_, ?_⟩
  · obtain ⟨extensions, hsources, htexts⟩ := runPass_texts settings c
    refine ⟨extensions, hsources, ?_⟩
    rw [htexts]
    exact forall₂_flatMap_handedMappings settings c _
  · intro e _ m hm
    obtain ⟨attributes, a, errors, hattributes, hentry, hresult⟩ := exists_of_mem_handedMappings hm
    obtain ⟨ha, hv⟩ := (mem_localisationAttributes_iff hattributes).1 hentry
    exact ⟨a, ha, hv, namedBy_of_attributeResult hresult⟩
  · intro e _ a ha hv t ht hname hword
    obtain ⟨v, hv⟩ := Option.isSome_iff_exists.1 hv
    have hrefused : isMethodName t = false := by
      rw [← Bool.not_eq_true, isMethodName_iff]
      rintro ⟨name, ⟨rfl, hlegal⟩ | ⟨rfl, hlegal | hreserved⟩⟩
      · exact Bool.false_ne_true ((hname name rfl).symm.trans hlegal)
      · exact Bool.false_ne_true ((hword name rfl).1.symm.trans hlegal)
      · exact (hword name rfl).2 hreserved
    cases hattributes : localisationAttributes e with
    | error f => exact handedMappings_of_failsWith (.recognition hattributes)
    | ok attributes =>
        obtain ⟨f, hf⟩ : ∃ f, attributeResult settings c e (v, a) = .error f :=
          attributeResult_of_not_isMethodName ht hrefused
        have hentry := (mem_localisationAttributes_iff hattributes).2 ⟨ha, hv⟩
        exact handedMappings_of_failsWith (.resolution hattributes hentry hf)

/-- The enum of `eventFile`, with a name for its method that ends in a line feed. -/
def lineFeedEnum : EnumDeclaration :=
  { eventEnum with
    attributes := [{ eventAttribute with named := [(methodNameKey, .text (.ofString "Get\n"))] }] }

/-- A file with this enum. -/
def lineFeedFile : SourceFile :=
  { eventFile with enums := [lineFeedEnum] }

/-- The method of this enum gets the name that the attribute asks for, line feed and all; and where
the settings give a reserved word, a method without a name of its own gets that. -/
theorem runPass_methodNames_lineFeed :
    (∃ m ∈ handedMappings quietSettings ⟨[lineFeedFile]⟩ lineFeedEnum,
      m.methodName = .ofString "Get\n" ∧ isLegalMethodName m.writtenMethod = false ∧
      NamedBy quietSettings (some (.ofString "Get\n")) m.methodName) ∧
    ∃ m ∈ handedMappings (quietSettings.override ⟨none, none, none, some "class", none⟩)
        ⟨[eventFile]⟩ eventEnum,
      m.methodName = .ofString "class" ∧ isLegalMethodName m.writtenMethod = false := by
  have hfeed : handedMappings quietSettings ⟨[lineFeedFile]⟩ lineFeedEnum =
      [{ eventMapping with methodName := .ofString "Get\n" }] := by decide +kernel
  have hreserved : handedMappings (quietSettings.override ⟨none, none, none, some "class", none⟩)
        ⟨[eventFile]⟩ eventEnum =
      [{ eventMapping with methodName := .ofString "class" }] := by decide +kernel
  have hcandidates : candidateEnums ⟨[lineFeedFile]⟩ = [lineFeedEnum] := by decide +kernel
  have hasked : ∀ a ∈ lineFeedEnum.attributes,
      methodNameAsked? ⟨[lineFeedFile]⟩ lineFeedEnum a = some (.ofString "Get\n") := by
    decide +kernel
  refine ⟨⟨_, hfeed ▸ List.mem_cons_self, rfl, by decide, ?_⟩, _, hreserved ▸ List.mem_cons_self,
    rfl, by decide⟩
  obtain ⟨a, ha, _, hnamed⟩ := (runPass_methodNames quietSettings ⟨[lineFeedFile]⟩).2.1 lineFeedEnum
    (hcandidates ▸ List.mem_cons_self) _ (hfeed ▸ List.mem_cons_self)
  rwa [hasked a ha] at hnamed

end LocalisedEnum

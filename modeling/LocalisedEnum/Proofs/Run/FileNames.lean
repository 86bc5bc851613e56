import LocalisedEnum.OutputDirectory
import LocalisedEnum.Proofs.FileTree.Following
import LocalisedEnum.Proofs.Pass.FileOrder
import LocalisedEnum.Proofs.Pass.LineEnds

/-!
**The names of the files that are written.**

A source of a pass gives its file its name.  Where the names of a compilation are identifiers, that
is a name that a file may be called: it has no slash, so that the file stands in the directory of
the generated files and nowhere else.  And what is generated for an enum is known by its name, which
is how it is found when it is no longer produced.

Main definitions:

* `IsFileName` — a name that a file may be called, whatever its length.

Main results:

* `fullName_join` — a file of such a name stands in the directory;
* `isExtensionFileName_iff` — the names by which the files of extension classes are known;
* `fileNames_runPass` — **the names of the sources of a pass**.
-/

set_option autoImplicit false
set_option relaxedAutoImplicit false

namespace LocalisedEnum

/-! ### Names of files -/

/-- A name that a file may be called, whatever its length. -/
structure IsFileName (name : String) : Prop where
  part : Path.isPart name = true
  forward : name ≠ ".."
  noSlash : '/' ∉ name.toList
  noNull : Char.ofNat 0 ∉ name.toList

instance (name : String) : Decidable (IsFileName name) :=
  decidable_of_iff
    (Path.isPart name = true ∧ name ≠ ".." ∧ '/' ∉ name.toList ∧ Char.ofNat 0 ∉ name.toList)
    ⟨fun ⟨part, forward, noSlash, noNull⟩ => ⟨part, forward, noSlash, noNull⟩,
      fun h => ⟨h.part, h.forward, h.noSlash, h.noNull⟩⟩

section

variable {directory : Path} {name : String} (hname : IsFileName name)
include hname

/-- As a path, such a name has one part. -/
theorem ofString_of_isFileName : Path.ofString name = ⟨.workingDirectory, [name]⟩ := by
  have hparts : splitString '/' name = [name] := by
    rw [splitString, splitOn_of_not_mem hname.noSlash, List.map_singleton, String.ofList_toList]
  have hslashes : name.toList.takeWhile (· == '/') = [] := by
    cases hcs : name.toList with
    | nil => rfl
    | cons c cs =>
        have hc : c ≠ '/' := fun hc => hname.noSlash (by rw [hcs, hc]; exact List.mem_cons_self)
        rw [List.takeWhile_cons_of_neg (by simpa using hc)]
  rw [Path.ofString, hslashes, hparts, List.filter_cons_of_pos hname.part]
  rfl

/-- A file of such a name goes right below the directory. -/
theorem join_of_isFileName : directory.join name = directory.below [name] := by
  rw [Path.join, ofString_of_isFileName hname]
  rfl

theorem hasNull_join (h : directory.hasNull = false) : (directory.join name).hasNull = false := by
  rw [join_of_isFileName hname, Path.below, FileTree.hasNull_append, h]
  simpa using hname.noNull

/-- **A file of such a name stands in the directory.** -/
theorem fullName_join {t : FileTree} {here : FullName} (h : t.fullName directory = .ok here) :
    t.fullName (directory.join name) = .ok (here ++ [name]) := by
  obtain ⟨hnull, rfl⟩ := FileTree.fullName_eq_ok.1 h
  refine FileTree.fullName_eq_ok.2 ⟨hasNull_join hname hnull, ?_⟩
  have hstart : t.start (directory.join name) = t.start directory := by
    rw [join_of_isFileName hname]
    rfl
  rw [hstart, join_of_isFileName hname, Path.below, FileTree.spell_append]
  simp only [FileTree.spell, List.foldl_cons, List.foldl_nil, if_neg hname.forward]

end

/-! ### Names of extension classes -/

theorem occursIn_iff {part cs : List Char} : occursIn part cs = true ↔ part <:+: cs := by
  induction cs with
  | nil => rw [occursIn, List.isEmpty_iff, List.infix_nil]
  | cons c cs ih => rw [occursIn, Bool.or_eq_true, startsWith_iff, ih, List.infix_cons_iff]

theorem beforeEnd?_eq_some_iff {ending s stem : String} :
    beforeEnd? ending s = some stem ↔ s = stem ++ ending := by
  rw [beforeEnd?, dropEnd?, Option.map_map, Option.map_eq_some_iff]
  constructor
  · rintro ⟨rest, hrest, rfl⟩
    have hreversed := congrArg List.reverse (dropStart?_eq_some_iff.1 hrest)
    refine String.toList_injective ?_
    simpa using hreversed
  · rintro rfl
    refine ⟨stem.toList.reverse, dropStart?_eq_some_iff.2 ?_, ?_⟩
    · rw [String.toList_append, List.reverse_append]
    · simp

/-- **The names by which the files of extension classes are known.** -/
theorem isExtensionFileName_iff {name : String} :
    isExtensionFileName name = true ↔
      ∃ front rest, name = front ++ extensionMark ++ rest ++ ".cs" := by
  rw [isExtensionFileName]
  constructor
  · intro h
    split at h
    · next stem hstem =>
      obtain ⟨front, rest, hmark⟩ := occursIn_iff.1 h
      refine ⟨String.ofList front, String.ofList rest, ?_⟩
      rw [beforeEnd?_eq_some_iff.1 hstem]
      refine congrArg (· ++ ".cs") (String.toList_injective ?_)
      rw [← hmark]
      simp
    · cases h
  · rintro ⟨front, rest, rfl⟩
    rw [beforeEnd?_eq_some_iff.2 rfl]
    refine occursIn_iff.2 ⟨front.toList, rest.toList, ?_⟩
    rw [String.toList_append, String.toList_append]

/-- A name by which the file of an extension class is known may be given to a file when its
characters may. -/
theorem isFileName_of_isExtensionFileName {name : String} (h : isExtensionFileName name = true)
    (hchars : ∀ c ∈ name.toList, isWord c = true ∨ c = '.') : IsFileName name := by
  have hmark : 'L' ∈ name.toList := by
    obtain ⟨front, rest, rfl⟩ := isExtensionFileName_iff.1 h
    simp [extensionMark]
  have hne : ∀ other : String, 'L' ∉ other.toList → name ≠ other := by
    rintro other hother rfl
    exact hother hmark
  refine ⟨?_, hne _ (by decide), fun hslash => ?_, fun hnull => ?_⟩
  · rw [Path.isPart, Bool.and_eq_true, bne_iff_ne, bne_iff_ne]
    exact ⟨hne _ (by decide), hne _ (by decide)⟩
  · exact absurd (hchars _ hslash) (by decide)
  · exact absurd (hchars _ hnull) (by decide)

/-! ### Names of sources -/

/-- A source that gets its name in order gets one that was given for the one that it asks for. -/
theorem NamedInOrder.exists_givenName {taken : List String} {sources : List EnumSource}
    {named : List GeneratedSource} (h : NamedInOrder taken sources named) {s : GeneratedSource}
    (hs : s ∈ named) :
    ∃ source ∈ sources,
      ∃ taken', GivenName taken' source.enum.namespaceName source.hintName s.hintName := by
  induction h with
  | nil => cases hs
  | @cons taken source _ _ _ hname _ _ ih =>
      rcases List.mem_cons.1 hs with rfl | hs
      · exact ⟨source, List.mem_cons_self, taken, hname⟩
      · obtain ⟨source', hsource', hgiven⟩ := ih hs
        exact ⟨source', List.mem_cons_of_mem _ hsource', hgiven⟩

theorem mem_counterPart {attempt : Nat} {c : Char} (h : c ∈ (counterPart attempt).toList) :
    isWord c = true ∨ c = '.' := by
  cases attempt with
  | zero => cases h
  | succ attempt =>
      rw [counterPart, String.toList_append, List.mem_append] at h
      rcases h with h | h
      · have hdigit : c.isDigit = true := by
          refine Nat.isDigit_of_mem_toDigits (b := 10) (n := attempt + 2) (by decide) (by decide) ?_
          rw [← Nat.toList_repr]
          exact h
        refine .inl (isWord_of_continuesMethodName ?_)
        rw [continuesMethodName, Bool.or_eq_true]
        exact .inr (by simpa [Char.isDigit, Char.le_def] using hdigit)
      · exact .inr (by simpa using h)

theorem mem_hintName {e : EnumDeclaration} {v : Variant} (h : isIdentifier e.name = true) {c : Char}
    (hc : c ∈ (e.hintName v).toList) : isWord c = true ∨ c = '.' := by
  simp only [EnumDeclaration.hintName, String.toList_append, List.mem_append] at hc
  rcases hc with ((hc | hc) | hc) | hc
  · exact .inl (isWord_of_mem_identifier h hc)
  · exact mem_of_all (by decide) hc
  · exact mem_of_all (by cases v <;> decide) hc
  · exact mem_of_all (by decide) hc

/-- A name that is given for that of an extension class is the name of one. -/
theorem fileName_of_givenName {taken : List String} {e : EnumDeclaration} {v : Variant}
    {name : String} (he : e.IdentifierNames)
    (h : GivenName taken e.namespaceName (e.hintName v) name) :
    IsFileName name ∧ isExtensionFileName name = true := by
  obtain ⟨lead, hlead, rfl⟩ : ∃ lead : String, (∀ c ∈ lead.toList, isWord c = true ∨ c = '.') ∧
      name = lead ++ e.hintName v := by
    cases h with
    | own => exact ⟨"", nofun, (String.empty_append).symm⟩
    | @spare attempt =>
        refine ⟨(if e.namespaceName = "" then "global" else e.namespaceName) ++ "." ++
            counterPart attempt, ?_, ?_⟩
        · intro c hc
          simp only [String.toList_append, List.mem_append] at hc
          rcases hc with (hc | hc) | hc
          · split at hc
            · exact mem_of_all (by decide) hc
            · exact he.namespaceName.mem hc
          · exact .inr (by simpa using hc)
          · exact mem_counterPart hc
        · simp only [spareName_eq, String.append_assoc]
  have hextension : isExtensionFileName (lead ++ e.hintName v) = true := by
    refine isExtensionFileName_iff.2 ⟨lead ++ e.name, if v.hasDetail then ".Formatted" else "", ?_⟩
    simp only [EnumDeclaration.hintName, extensionMark, String.append_assoc]
  refine ⟨isFileName_of_isExtensionFileName hextension fun c hc => ?_, hextension⟩
  rw [String.toList_append, List.mem_append] at hc
  exact hc.elim (hlead c) (mem_hintName he.name)

/-- **The names of the sources of a pass** over names that are identifiers: files may be called so,
and the extension classes are known by them. -/
theorem fileNames_runPass (settings : Settings) {c : Compilation} (hc : c.IdentifierNames) :
    ∃ extensions, (runPass settings c).sources = leadingSources settings c ++ extensions ∧
      (∀ s ∈ (runPass settings c).sources, IsFileName s.hintName) ∧
      (∀ s ∈ leadingSources settings c, isExtensionFileName s.hintName = false) ∧
      (∀ s ∈ extensions, isExtensionFileName s.hintName = true) ∧
      (runPass settings c).hintNames.Nodup := by
  obtain ⟨extensions, hsources, hnamed⟩ := namedInOrder_runPass settings c
  have hleading : ∀ s ∈ leadingSources settings c,
      IsFileName s.hintName ∧ isExtensionFileName s.hintName = false := by
    intro s hs
    obtain ⟨variant, rfl⟩ := exists_of_mem_leadingSources hs
    show IsFileName (attributeFileName variant) ∧
      isExtensionFileName (attributeFileName variant) = false
    cases variant <;> decide +kernel
  have hextensions : ∀ s ∈ extensions, IsFileName s.hintName ∧
      isExtensionFileName s.hintName = true := by
    intro s hs
    obtain ⟨source, hsource, taken, hgiven⟩ := hnamed.exists_givenName hs
    obtain ⟨e, he, hsource⟩ := List.mem_flatMap.1 hsource
    obtain rfl := enum_of_mem_enumSources hsource
    exact fileName_of_givenName (hc.enums _ (List.mem_filter.1 he).1) hgiven
  refine ⟨extensions, hsources, fun s hs => ?_, fun s hs => (hleading s hs).2,
    fun s hs => (hextensions s hs).2, ?_⟩
  · rw [hsources, List.mem_append] at hs
    exact hs.elim (fun hs => (hleading s hs).1) fun hs => (hextensions s hs).1
  · rw [PassResult.hintNames, hsources, List.map_append]
    exact hnamed.nodup (nodup_leadingSources settings c)

end LocalisedEnum

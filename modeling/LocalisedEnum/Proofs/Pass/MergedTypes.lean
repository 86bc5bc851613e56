import LocalisedEnum.Proofs.Pass.AbsoluteNames
import LocalisedEnum.Proofs.Pass.Entries

/-!
**The merged types lose nothing and add nothing.**

The index of a compilation has one entry for each full name that is declared.  Where a type is
declared in parts, the entry stands for the first of them as to its kind, its accessibility and its
place; it has the properties of all parts in order, and each constant as the first part gives it
that has one of the name.  So the strings that a resource offers are those of the parts of its type,
whatever stands between them and however many there are.

Main definitions:

* `IsFirstPart` — the first declaration of a full name.

Main results:

* `foldl_merge_eq` — merging changes properties and constants only;
* `nodup_names_ofTypes` — there is one entry for each name;
* `mem_resourceMembers_iff` — the strings that a resource offers;
* `typeIndex_merged` — **the entries of the index**.
-/

set_option autoImplicit false
set_option relaxedAutoImplicit false

namespace LocalisedEnum

/-! ### The first part -/

/-- **The first declaration of a full name**, in the order of the files. -/
def IsFirstPart (c : Compilation) (qualifiedName : String) (first : TypeDeclaration) : Prop :=
  ∃ before behind, c.types = before ++ first :: behind ∧ first.qualifiedName = qualifiedName ∧
    ∀ t ∈ before, t.qualifiedName ≠ qualifiedName

theorem isFirstPart_of_partsOf {c : Compilation} {qualifiedName : String} {first : TypeDeclaration}
    {parts : List TypeDeclaration} (h : partsOf c.types qualifiedName = first :: parts) :
    IsFirstPart c qualifiedName first := by
  obtain ⟨before, behind, htypes, hbefore, hfirst, -⟩ := List.filter_eq_cons_iff.1 h
  exact ⟨before, behind, htypes, beq_iff_eq.1 hfirst,
    fun t ht hname => hbefore t ht (beq_iff_eq.2 hname)⟩

/-- **Merging** changes the properties and the constants of the first part, and nothing else. -/
theorem foldl_merge_eq (first : TypeDeclaration) (parts : List TypeDeclaration) :
    ∃ properties constants, parts.foldl TypeDeclaration.merge first =
      { first with properties := properties, constants := constants } := by
  induction parts generalizing first with
  | nil => exact ⟨_, _, rfl⟩
  | cons part parts ih => exact ih (first.merge part)

/-! ### The names of the entries -/

/-- A part adds its name to those of the entries, unless it is there. -/
theorem map_qualifiedName_addEntry (part : TypeDeclaration) (entries : List TypeDeclaration) :
    (TypeIndex.addEntry part entries).map (·.qualifiedName) =
      if part.qualifiedName ∈ entries.map (·.qualifiedName) then entries.map (·.qualifiedName)
      else entries.map (·.qualifiedName) ++ [part.qualifiedName] := by
  induction entries with
  | nil => rfl
  | cons t entries ih =>
      rw [TypeIndex.addEntry]
      by_cases ht : t.qualifiedName = part.qualifiedName
      · have hmem : part.qualifiedName ∈ (t :: entries).map (·.qualifiedName) :=
          List.mem_cons.2 (.inl ht.symm)
        rw [if_pos ht, if_pos hmem]
        rfl
      · rw [if_neg ht, List.map_cons, ih, List.map_cons]
        by_cases hmem : part.qualifiedName ∈ entries.map (·.qualifiedName)
        · rw [if_pos hmem, if_pos (List.mem_cons_of_mem _ hmem)]
        · have hne : part.qualifiedName ∉ t.qualifiedName :: entries.map (·.qualifiedName) := by
            rw [List.mem_cons]
            exact not_or.2 ⟨fun h => ht h.symm, hmem⟩
          rw [if_neg hmem, if_neg hne, List.cons_append]

/-- **There is one entry for each name.** -/
theorem nodup_names_ofTypes (types : List TypeDeclaration) :
    ((TypeIndex.ofTypes types).entries.map (·.qualifiedName)).Nodup := by
  -- what each part keeps, whatever entries there are before it
  suffices hkeep : ∀ index : TypeIndex, (index.entries.map (·.qualifiedName)).Nodup →
      ((types.foldl TypeIndex.add index).entries.map (·.qualifiedName)).Nodup from hkeep .empty
        List.nodup_nil
  induction types with
  | nil => exact fun _ h => h
  | cons part types ih =>
      intro index hindex
      refine ih (index.add part) ?_
      rw [TypeIndex.add, map_qualifiedName_addEntry]
      split
      · exact hindex
      · next hnew =>
          exact List.nodup_append.2 ⟨hindex, List.pairwise_singleton .., by simpa using hnew⟩

/-! ### The strings of a type -/

/-- The strings of properties in several places are those of each place. -/
theorem staticStringNames_flatMap {t : TypeDeclaration} {parts : List TypeDeclaration}
    (h : t.properties = parts.flatMap (·.properties)) :
    t.staticStringNames = parts.flatMap (·.staticStringNames) := by
  rw [TypeDeclaration.staticStringNames, h, List.filter_flatMap, List.map_flatMap]
  rfl

/-- **The strings that a resource offers** are those of the declarations of its type. -/
theorem mem_resourceMembers_iff (c : Compilation) (context : LookupContext)
    (resource name : String) :
    name ∈ (resourceMembers c context resource).properties ↔
      ∃ t, c.findType resource context = some t ∧
        ∃ part ∈ c.types, part.qualifiedName = t.qualifiedName ∧
          ∃ p ∈ part.properties, p.isStaticString = true ∧ p.name = name := by
  rw [resourceMembers]
  cases hfind : c.findType resource context with
  | none => simp
  | some t =>
      obtain ⟨qualifiedName, hget⟩ := findType_eq_some hfind
      have hentry := isEntry_of_get? hget
      change name ∈ t.staticStringNames ↔ _
      rw [staticStringNames_flatMap hentry.properties]
      simp only [Option.some.injEq, exists_eq_left', hentry.name, partsOf, List.mem_flatMap,
        List.mem_filter, beq_iff_eq, TypeDeclaration.staticStringNames, List.mem_map, and_assoc]

/-! ### The index -/

/-- **The entries of the index.**  There is one for each full name that is declared, and no other.
An entry is the first declaration of its name in the order of the files, with the properties of all
declarations of the name in this order, and with each constant as the first of them has it that has
one of its name.  So the strings that are found for a resource are those of all declarations of its
type. -/
theorem typeIndex_merged (c : Compilation) : (c.typeIndex.entries.map (·.qualifiedName)).Nodup ∧
    (∀ qualifiedName, (c.typeIndex.get? qualifiedName).isSome = true ↔
      ∃ t ∈ c.types, t.qualifiedName = qualifiedName) ∧
    (∀ qualifiedName t, c.typeIndex.get? qualifiedName = some t →
      (∃ first, IsFirstPart c qualifiedName first ∧ t.kind = first.kind ∧
        t.accessibility = first.accessibility ∧ t.location = first.location ∧ t.name = first.name ∧
        t.namespaceName = first.namespaceName ∧ t.containingTypes = first.containingTypes) ∧
      t.properties = (partsOf c.types qualifiedName).flatMap (·.properties) ∧
      (∀ key, valueOf? key t.constants =
        (partsOf c.types qualifiedName).findSome? fun part => valueOf? key part.constants) ∧
      t.staticStringNames = (partsOf c.types qualifiedName).flatMap (·.staticStringNames)) ∧
    ∀ context resource name, name ∈ (resourceMembers c context resource).properties ↔
      ∃ t, c.findType resource context = some t ∧
        ∃ part ∈ c.types, part.qualifiedName = t.qualifiedName ∧
          ∃ p ∈ part.properties, p.isStaticString = true ∧ p.name = name := by
  refine ⟨nodup_names_ofTypes c.types, fun _ => isSome_get?_iff, fun qualifiedName t hget => ?_,
    mem_resourceMembers_iff c⟩
  have hentry := isEntry_of_get? hget
  refine ⟨?_, hentry.properties, hentry.constants, staticStringNames_flatMap hentry.properties⟩
  obtain ⟨first, parts, hparts, rfl⟩ := exists_parts_of_get? hget
  obtain ⟨properties, constants, hmerged⟩ := foldl_merge_eq first parts
  refine ⟨first, isFirstPart_of_partsOf hparts, ?_⟩
  rw [hmerged]
  exact ⟨rfl, rfl, rfl, rfl, rfl, rfl⟩

/-- A part of the class `S`, with one string property and some constants. -/
def stringsPart (path property : String) (accessibility : Accessibility)
    (constants : List (String × CodeText)) : TypeDeclaration where
  name := "S"
  namespaceName := "N"
  kind := "class"
  accessibility := accessibility
  properties := [⟨property, "string", true⟩]
  containingTypes := []
  location := ⟨path, 1, 15⟩
  constants := constants

/-- Two files with a part of the class each, and constants that differ. -/
def stringsFiles : List SourceFile :=
  [⟨"A.cs", [], [], [stringsPart "A.cs" "A" .publicLevel [("K", .ofString "a")]], []⟩,
    ⟨"B.cs", [], [],
      [stringsPart "B.cs" "B" .internalLevel [("K", .ofString "b"), ("L", .ofString "b")]], []⟩]

/-- The one entry stands in the first file, and has what both files declare. -/
example : (Compilation.mk stringsFiles).typeIndex.get? "N.S" = some
    { stringsPart "A.cs" "A" .publicLevel [("K", .ofString "a"), ("L", .ofString "b")] with
      properties := [⟨"A", "string", true⟩, ⟨"B", "string", true⟩] } := by
  decide +kernel

end LocalisedEnum

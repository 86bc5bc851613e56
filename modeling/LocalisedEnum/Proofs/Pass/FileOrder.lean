import LocalisedEnum.Declaration.Walk
import LocalisedEnum.Proofs.Pass.HintNames

/-!
**The order of the files.**

The files of a pass come in some order, and types, imports and enums are taken in that order.  Of
all this an enum only sees what names mean, and that depends on the order in two ways: the imports
for every file are tried in the order of the files that hold them, and where two declarations of one
type give a constant two values the first counts.  With these two settled, an enum leaves the same
whatever the order of the files.

The names of the sources are another matter, as an enum may find its name taken by one that came
before.  The other one has to be of the same simple name: a spare name has a point in it in front of
the name that was asked for, so it is never the own name of an enum whose simple name is without
points.

Main definitions:

* `Reordered` — the same files in another order;
* `ConstantsAgree` — no two declarations of one type give a constant different values;
* `PassProduces` — what a pass produces, source by source;
* `HasOwnName` — no other enum of the pass has the simple name of this one.

Main results:

* `sameMeaning_of_reordered` — **names mean the same** in both orders;
* `NamedInOrder.filter_pairs` — the sources of a simple name that nothing else asks for keep their
  names;
* `runPass_reordered` — **the order of the files** changes the order of what is produced, and names
  that are asked for more than once.
-/

set_option autoImplicit false
set_option relaxedAutoImplicit false

namespace LocalisedEnum

/-- The same files in another order, those that import for every file in the same. -/
structure Reordered (c c' : Compilation) : Prop where
  files : c.files.Perm c'.files
  importing : c.files.filter (!·.globalUsings.isEmpty) = c'.files.filter (!·.globalUsings.isEmpty)

/-- No two declarations of one qualified name give a constant different values. -/
def ConstantsAgree (c : Compilation) : Prop :=
  ∀ t ∈ c.types, ∀ t' ∈ c.types, t.qualifiedName = t'.qualifiedName →
    ∀ name value value', valueOf? name t.constants = some value →
      valueOf? name t'.constants = some value' → value = value'

/-! ### What names mean -/

theorem findSome?_eq_of_perm {α β : Type} {f : α → Option β} {xs ys : List α} (h : xs.Perm ys)
    (hunique : ∀ a ∈ xs, ∀ b ∈ xs, ∀ v w, f a = some v → f b = some w → v = w) :
    xs.findSome? f = ys.findSome? f := by
  cases hx : xs.findSome? f with
  | none =>
      refine (List.findSome?_eq_none_iff.2 fun a ha => ?_).symm
      exact List.findSome?_eq_none_iff.1 hx a (h.mem_iff.2 ha)
  | some v =>
      obtain ⟨a, ha, hav⟩ := List.exists_of_findSome?_eq_some hx
      cases hy : ys.findSome? f with
      | none =>
          rw [List.findSome?_eq_none_iff.1 hy a (h.mem_iff.1 ha)] at hav
          cases hav
      | some w =>
          obtain ⟨b, hb, hbw⟩ := List.exists_of_findSome?_eq_some hy
          rw [hunique a ha b (h.mem_iff.2 hb) v w hav hbw]

/-- Parts of one type make the same together in any order. -/
theorem mergeAll_of_perm {parts parts' : List TypeDeclaration} {name : String}
    (hperm : parts.Perm parts') (hname : ∀ t ∈ parts, t.qualifiedName = name)
    (hconstants : ∀ t ∈ parts, ∀ t' ∈ parts, ∀ constant value value',
      valueOf? constant t.constants = some value → valueOf? constant t'.constants = some value' →
        value = value') : Option.Rel SameContents (mergeAll parts) (mergeAll parts') := by
  match parts, parts' with
  | [], [] => exact .none
  | [], t' :: parts' => exact absurd hperm.length_eq (by simp)
  | t :: parts, [] => exact absurd hperm.length_eq (by simp)
  | t :: parts, t' :: parts' =>
      refine .some ⟨?_, fun p => ?_, fun constant => ?_⟩
      · rw [qualifiedName_foldl_merge, qualifiedName_foldl_merge, hname t List.mem_cons_self,
          hname t' (hperm.mem_iff.2 List.mem_cons_self)]
      · simp only [TypeDeclaration.staticStringNames, properties_foldl_merge]
        exact (((hperm.flatMap_right _).filter _).map _).mem_iff
      · rw [valueOf?_foldl_merge, valueOf?_foldl_merge]
        exact findSome?_eq_of_perm hperm fun a ha b hb => hconstants a ha b hb constant

theorem flatMap_globalUsings (files : List SourceFile) :
    files.flatMap (·.globalUsings) =
      (files.filter (!·.globalUsings.isEmpty)).flatMap (·.globalUsings) := by
  induction files with
  | nil => rfl
  | cons file files ih => cases h : file.globalUsings <;> simp [h, ih]

section

variable {c c' : Compilation} (h : Reordered c c')
include h

theorem Reordered.types : c.types.Perm c'.types :=
  h.files.flatMap_right _

theorem Reordered.candidateEnums : (candidateEnums c).Perm (candidateEnums c') :=
  (h.files.flatMap_right _).filter _

/-- **Names mean the same** in both orders. -/
theorem sameMeaning_of_reordered (hconstants : ConstantsAgree c) : SameMeaning c c' where
  types name := by
    rw [get?_typeIndex, get?_typeIndex]
    have hparts : ∀ t ∈ partsOf c.types name, t ∈ c.types ∧ t.qualifiedName = name :=
      fun t => mem_partsOf.1
    refine mergeAll_of_perm (h.types.filter _) (fun t ht => (hparts t ht).2) fun t ht t' ht' => ?_
    refine hconstants t (hparts t ht).1 t' (hparts t' ht').1 ?_
    rw [(hparts t ht).2, (hparts t' ht').2]
  globalUsings := by
    rw [Compilation.globalUsings, flatMap_globalUsings, h.importing, ← flatMap_globalUsings]
    rfl

end

/-! ### Names without points -/

/-- Behind whatever is put in front of it, a name that is asked for gives away the simple name and
the variant. -/
theorem eq_of_append_hintName {lead : String} {e e' : EnumDeclaration} {v w : Variant}
    (h : lead ++ e.hintName v = e'.hintName w) : lead ++ e.name = e'.name ∧ v = w := by
  have hending := congrArg (fun s => s.toList.reverse.take 4) h
  cases v <;> cases w <;> simp [EnumDeclaration.hintName, Variant.hasDetail] at hending
  · refine ⟨?_, rfl⟩
    simpa [EnumDeclaration.hintName, ← String.append_assoc] using h
  · refine ⟨?_, rfl⟩
    simpa [EnumDeclaration.hintName, ← String.append_assoc] using h

theorem eq_of_hintName {e e' : EnumDeclaration} {v w : Variant} (h : e.hintName v = e'.hintName w) :
    e.name = e'.name ∧ v = w := by
  have hsame : "" ++ e.hintName v = e'.hintName w := by rw [String.empty_append, h]
  simpa using eq_of_append_hintName hsame

/-- A spare name is not asked for by an enum whose simple name has no points. -/
theorem hintName_ne_spareName {e e' : EnumDeclaration} (v w : Variant) (namespaceName : String)
    (attempt : Nat) (h : '.' ∉ e'.name.toList) :
    e'.hintName w ≠ spareName namespaceName (e.hintName v) attempt := by
  intro hname
  rw [spareName_eq, ← String.append_assoc] at hname
  have hlead := (eq_of_append_hintName hname.symm).1
  refine h ?_
  rw [← hlead]
  simp

theorem hintName_ne_attributeFileName (e : EnumDeclaration) (v w : Variant) :
    e.hintName v ≠ attributeFileName w := by
  intro h
  have hending := congrArg (fun s => s.toList.reverse.take 4) h
  cases v <;> cases w <;> simp [EnumDeclaration.hintName, Variant.hasDetail, attributeFileName,
    attributeClassName] at hending

/-! ### Own names -/

/-- A source of an enum under the name that it gets. -/
def EnumSource.named (s : EnumSource) (hintName : String) : GeneratedSource :=
  ⟨hintName, s.text⟩

namespace NamedInOrder

variable {taken : List String} {sources : List EnumSource} {named : List GeneratedSource}

theorem length_eq (h : NamedInOrder taken sources named) :
    sources.length = (named.map (·.hintName)).length := by
  have htexts := congrArg List.length h.texts
  rw [List.length_map, List.length_map] at htexts
  rw [List.length_map, htexts]

/-- Sources and the names that they get make up what is produced. -/
theorem map_pairs (h : NamedInOrder taken sources named) :
    (sources.zip (named.map (·.hintName))).map (fun s => s.1.named s.2) = named := by
  induction h with
  | nil => rfl
  | cons _ htext _ ih =>
      rw [List.map_cons, List.zip_cons_cons, List.map_cons, ih, EnumSource.named, ← htext]

/-- The sources of a simple name keep the names that they ask for, if none of these is taken and no
two of them ask for the same: what the other sources get is something else. -/
theorem filter_pairs (h : NamedInOrder taken sources named) {name : String}
    (hpoints : '.' ∉ name.toList) (htaken : ∀ s ∈ sources, s.enum.name = name → s.hintName ∉ taken)
    (hnodup : ((sources.filter (·.enum.name == name)).map (·.hintName)).Nodup) :
    (sources.zip (named.map (·.hintName))).filter (·.1.enum.name == name) =
      (sources.filter (·.enum.name == name)).map fun s => (s, s.hintName) := by
  induction h with
  | nil => rfl
  | @cons taken s given sources others hname _ _ ih =>
      rw [List.map_cons, List.zip_cons_cons]
      have hrest := fun s' hs' => htaken s' (List.mem_cons_of_mem s hs')
      by_cases hs : s.enum.name = name
      · have hasks : (s.enum.name == name) = true := beq_iff_eq.2 hs
        simp only [List.filter_cons, hasks, if_true, List.map_cons, List.nodup_cons] at hnodup ⊢
        have hown : given.hintName = s.hintName :=
          hname.eq_of_not_mem (htaken s List.mem_cons_self hs)
        rw [hown] at ih ⊢
        refine congrArg _ (ih (fun s' hs' hs'name hmem => ?_) hnodup.2)
        rcases List.mem_append.1 hmem with hmem | hmem
        · exact hrest s' hs' hs'name hmem
        · refine hnodup.1 (List.mem_map.2 ⟨s', List.mem_filter.2 ⟨hs', beq_iff_eq.2 hs'name⟩, ?_⟩)
          exact List.mem_singleton.1 hmem
      · have hasks : (s.enum.name == name) = false := beq_eq_false_iff_ne.2 hs
        simp only [List.filter_cons, hasks, Bool.false_eq_true, if_false] at hnodup ⊢
        refine ih (fun s' hs' hs'name hmem => ?_) hnodup
        rcases List.mem_append.1 hmem with hmem | hmem
        · exact hrest s' hs' hs'name hmem
        · have hpoints' : '.' ∉ s'.enum.name.toList := hs'name ▸ hpoints
          have hgiven := List.mem_singleton.1 hmem
          generalize given.hintName = givenName at hname hgiven
          cases hname with
          | own _ => exact hs ((eq_of_hintName hgiven).1.symm.trans hs'name)
          | spare _ _ _ _ => exact hintName_ne_spareName _ _ _ _ hpoints' hgiven

end NamedInOrder

/-- No other enum of the pass has the simple name of this one. -/
def HasOwnName (c : Compilation) (e : EnumDeclaration) : Prop :=
  (candidateEnums c).filter (·.name == e.name) = [e]

theorem HasOwnName.reordered {c c' : Compilation} {e : EnumDeclaration} (hown : HasOwnName c e)
    (h : Reordered c c') : HasOwnName c' e := by
  have hperm := h.candidateEnums.filter (·.name == e.name)
  rw [hown] at hperm
  exact (List.singleton_perm.1 hperm).symm

variable (settings : Settings) (c : Compilation)

/-- Whether the sources of an enum are of a simple name is a matter of the enum. -/
theorem filter_enumSources (name : String) (e : EnumDeclaration) :
    (enumSources settings c e).filter (·.enum.name == name) =
      if e.name == name then enumSources settings c e else [] := by
  split
  · next h => exact List.filter_eq_self.2 fun s hs => by rw [enum_of_mem_enumSources hs, h]
  · next h =>
      exact List.filter_eq_nil_iff.2 fun s hs hname =>
        h (by rwa [enum_of_mem_enumSources hs] at hname)

theorem nodup_enumSources (e : EnumDeclaration) :
    ((enumSources settings c e).map (·.hintName)).Nodup := by
  rw [enumSources, List.map_filterMap]
  refine List.Nodup.filterMap (fun v w name hv hw => ?_) (by decide)
  simp only [Option.map_map, Option.mem_def, Option.map_eq_some_iff] at hv hw
  obtain ⟨text, _, rfl⟩ := hv
  obtain ⟨text', _, hname⟩ := hw
  exact (hintName_injective e hname).symm

theorem flatMap_ite {α β : Type} (p : α → Bool) (f : α → List β) (xs : List α) :
    (xs.flatMap fun a => if p a then f a else []) = (xs.filter p).flatMap f := by
  induction xs with
  | nil => rfl
  | cons a xs ih => cases h : p a <;> simp [h, ih]

theorem filter_passSources {e : EnumDeclaration} (hown : HasOwnName c e) :
    (passSources settings c).filter (·.enum.name == e.name) = enumSources settings c e := by
  rw [passSources, List.filter_flatMap]
  simp only [filter_enumSources]
  rw [flatMap_ite, hown, List.flatMap_singleton]

/-! ### What a pass produces -/

/-- **What a pass produces**: behind the attribute classes the sources of the enums, each under the
name that it gets, and the diagnostics, both enum by enum. -/
structure PassProduces (named : List (EnumSource × String)) : Prop where
  sources : (runPass settings c).sources =
    leadingSources settings c ++ named.map fun s => s.1.named s.2
  enums : named.map Prod.fst = (candidateEnums c).flatMap (enumSources settings c)
  diagnostics : (runPass settings c).diagnostics.items =
    (candidateEnums c).flatMap fun e => (processEnum settings c e).diagnostics

variable {settings} {c} in
/-- The names that the sources of a simple name get, read off the pass. -/
theorem PassProduces.names {named : List (EnumSource × String)} (h : PassProduces settings c named)
    (name : String) :
    (named.filter (·.1.enum.name == name)).map Prod.snd =
      ((((passSources settings c).map (·.enum.name)).zip
        ((runPass settings c).hintNames.drop (leadingSources settings c).length)).filter
        (·.1 == name)).map Prod.snd := by
  have hnames : (runPass settings c).hintNames.drop (leadingSources settings c).length =
      named.map Prod.snd := by
    rw [PassResult.hintNames, h.sources, List.map_append, List.drop_left' (List.length_map ..),
      List.map_map]
    rfl
  rw [hnames, passSources, ← h.enums, List.map_map, List.zip_map', List.filter_map, List.map_map]
  rfl

theorem hintName_notMem_leadingSources (s : EnumSource) :
    s.hintName ∉ (leadingSources settings c).map (·.hintName) := by
  rw [leadingSources]
  split
  · exact List.not_mem_nil
  · split
    · rw [attributeSources, List.map_map, List.mem_map]
      rintro ⟨v, _, hname⟩
      exact hintName_ne_attributeFileName s.enum s.variant v hname.symm
    · exact List.not_mem_nil

/-- An enum with a simple name of its own, without points, has its sources under the names that they
ask for. -/
theorem exists_passProduces : ∃ named, PassProduces settings c named ∧
    ∀ e, HasOwnName c e → '.' ∉ e.name.toList →
      named.filter (·.1.enum.name == e.name) =
        (enumSources settings c e).map fun s => (s, s.hintName) := by
  obtain ⟨extensions, hsources, hnamed⟩ := namedInOrder_runPass settings c
  refine ⟨(passSources settings c).zip (extensions.map (·.hintName)), ⟨?_, ?_, ?_⟩,
    fun e hown hpoints => ?_⟩
  · rw [hsources, hnamed.map_pairs]
  · exact List.map_fst_zip (Nat.le_of_eq hnamed.length_eq)
  · exact runPass_diagnostics settings c
  · have hsame := filter_passSources settings c hown
    rw [← hsame]
    refine hnamed.filter_pairs hpoints (fun s _ _ => hintName_notMem_leadingSources settings c s) ?_
    rw [hsame]
    exact nodup_enumSources settings c e

variable {c}

/-- **The order of the files.**  An enum leaves the same in both passes: for each variant the same
text or none, and the same diagnostics.  So both produce the same sources and the same diagnostics,
in some order; and a simple name that just one enum has, if it is without points, stands over the
same sources in both, names included. -/
theorem runPass_reordered {c' : Compilation} (h : Reordered c c') (hconstants : ConstantsAgree c) :
    ∃ named named', PassProduces settings c named ∧ PassProduces settings c' named' ∧
      (candidateEnums c).Perm (candidateEnums c') ∧
      (∀ e v, variantText? settings c e v = variantText? settings c' e v) ∧
      (∀ e, (processEnum settings c e).diagnostics = (processEnum settings c' e).diagnostics) ∧
      leadingSources settings c = leadingSources settings c' ∧
      (named.map Prod.fst).Perm (named'.map Prod.fst) ∧
      (runPass settings c).diagnostics.items.Perm (runPass settings c').diagnostics.items ∧
      ∀ e, HasOwnName c e → '.' ∉ e.name.toList →
        named.filter (·.1.enum.name == e.name) = named'.filter (·.1.enum.name == e.name) := by
  have hprocess : processEnum settings c = processEnum settings c' :=
    funext (processEnum_sameMeaning (sameMeaning_of_reordered h hconstants))
  have htexts : variantText? settings c = variantText? settings c' := by
    funext e v
    rw [variantText?, hprocess]
    rfl
  have hsources : enumSources settings c = enumSources settings c' := by
    funext e
    rw [enumSources, htexts]
    rfl
  have hleading : leadingSources settings c = leadingSources settings c' := by
    rw [leadingSources, leadingSources, h.candidateEnums.isEmpty_eq]
  obtain ⟨named, hproduces, hnames⟩ := exists_passProduces settings c
  obtain ⟨named', hproduces', hnames'⟩ := exists_passProduces settings c'
  refine ⟨named, named', hproduces, hproduces', h.candidateEnums, fun e v => ?_, fun e => ?_,
    hleading, ?_, ?_, fun e hown hpoints => ?_⟩
  · rw [htexts]
  · rw [hprocess]
  · rw [hproduces.enums, hproduces'.enums, hsources]
    exact h.candidateEnums.flatMap_right _
  · rw [hproduces.diagnostics, hproduces'.diagnostics, hprocess]
    exact h.candidateEnums.flatMap_right _
  · rw [hnames e hown hpoints, hnames' e (hown.reordered h) hpoints, hsources]

/-- Two enums of one simple name, and the type that holds their strings. -/
def plainText : String :=
  "[WithLiteralLocalisation(typeof(R))] enum F \x7b A \x7d " ++
    "namespace 1 \x7b [WithLiteralLocalisation(typeof(R))] enum F \x7b A \x7d \x7d " ++
    "class R \x7b static string FADescription \x7b get; \x7d \x7d"

/-- An enum with a point in its simple name. -/
def pointedText : String :=
  "namespace N \x7b [WithLiteralLocalisation(typeof(R), " ++
    "DefaultPropertyName = \"FADescription\")] enum 1.F \x7b A \x7d \x7d"

/-- The first enum of the plain text. -/
def plainEnum : EnumDeclaration where
  name := "F"
  namespaceName := ""
  accessibility := .internalLevel
  members := ["A"]
  attributes := [⟨"WithLiteralLocalisation", [.typeOf "R"], [], some ⟨"F.cs", 1, 2⟩⟩]
  containingTypes := []
  location := ⟨"F.cs", 1, 1⟩
  usings := []

/-- The declarations of the plain text. -/
def plainFile : SourceFile where
  path := "F.cs"
  usings := []
  globalUsings := []
  enums :=
    [plainEnum,
      { plainEnum with
        namespaceName := "1"
        attributes := [⟨"WithLiteralLocalisation", [.typeOf "R"], [], some ⟨"F.cs", 1, 66⟩⟩]
        location := ⟨"F.cs", 1, 65⟩ }]
  types :=
    [{ name := "R"
       namespaceName := ""
       kind := "class"
       accessibility := .internalLevel
       properties := [⟨"FADescription", "string", true⟩]
       containingTypes := []
       location := ⟨"F.cs", 1, 117⟩
       constants := [] }]

/-- The enum with a point in its simple name. -/
def pointedEnum : EnumDeclaration where
  name := "1.F"
  namespaceName := "N"
  accessibility := .internalLevel
  members := ["A"]
  attributes :=
    [⟨"WithLiteralLocalisation", [.typeOf "R"],
      [("DefaultPropertyName", .text (.ofString "FADescription"))], some ⟨"N.cs", 1, 16⟩⟩]
  containingTypes := []
  location := ⟨"N.cs", 1, 15⟩
  usings := []

/-- The declarations of the text with the point. -/
def pointedFile : SourceFile where
  path := "N.cs"
  usings := []
  globalUsings := []
  enums := [pointedEnum]
  types := []

theorem reordered_pointed : Reordered ⟨[plainFile, pointedFile]⟩ ⟨[pointedFile, plainFile]⟩ :=
  ⟨.swap .., rfl⟩

theorem constantsAgree_pointed : ConstantsAgree ⟨[plainFile, pointedFile]⟩ := by
  intro t ht _ _ _ name value _ hvalue
  obtain rfl := List.mem_singleton.1 ht
  cases hvalue

/-- The files of these texts, in two orders: what a pass produces is the same. -/
theorem runPass_reordered_files : Reordered ⟨[plainFile, pointedFile]⟩ ⟨[pointedFile, plainFile]⟩ ∧
    ConstantsAgree ⟨[plainFile, pointedFile]⟩ ∧
    ∃ named named', PassProduces .standard ⟨[plainFile, pointedFile]⟩ named ∧
      PassProduces .standard ⟨[pointedFile, plainFile]⟩ named' ∧
      (∀ e v, variantText? .standard ⟨[plainFile, pointedFile]⟩ e v =
        variantText? .standard ⟨[pointedFile, plainFile]⟩ e v) ∧
      (named.map Prod.fst).Perm (named'.map Prod.fst) ∧
      (runPass .standard ⟨[plainFile, pointedFile]⟩).diagnostics.items.Perm
        (runPass .standard ⟨[pointedFile, plainFile]⟩).diagnostics.items := by
  refine ⟨reordered_pointed, constantsAgree_pointed, ?_⟩
  obtain ⟨named, named', hproduces, hproduces', _, htexts, _, _, hsources, hdiagnostics, _⟩ :=
    runPass_reordered .standard reordered_pointed constantsAgree_pointed
  exact ⟨named, named', hproduces, hproduces', htexts, hsources, hdiagnostics⟩

/-- In one order the enum with the point comes last, and the second of the others has got its name
as a spare one; in the other order it comes first. -/
theorem runPass_reordered_pointed : readSource "F.cs" plainText = .ok plainFile ∧
    readSource "N.cs" pointedText = .ok pointedFile ∧
    Reordered ⟨[plainFile, pointedFile]⟩ ⟨[pointedFile, plainFile]⟩ ∧
    ConstantsAgree ⟨[plainFile, pointedFile]⟩ ∧ HasOwnName ⟨[plainFile, pointedFile]⟩ pointedEnum ∧
    ¬ ∃ named named', PassProduces .standard ⟨[plainFile, pointedFile]⟩ named ∧
      PassProduces .standard ⟨[pointedFile, plainFile]⟩ named' ∧
      ∀ e, HasOwnName ⟨[plainFile, pointedFile]⟩ e →
        named.filter (·.1.enum.name == e.name) = named'.filter (·.1.enum.name == e.name) := by
  have hown : HasOwnName ⟨[plainFile, pointedFile]⟩ pointedEnum := by
    rw [HasOwnName]
    decide +kernel
  refine ⟨by decide +kernel, by decide +kernel, reordered_pointed, constantsAgree_pointed, hown, ?_⟩
  rintro ⟨named, named', hproduces, hproduces', hsame⟩
  have hnames := hproduces.names pointedEnum.name
  rw [hsame pointedEnum hown, hproduces'.names] at hnames
  revert hnames
  decide +kernel

end LocalisedEnum

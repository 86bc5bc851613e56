import LocalisedEnum.Proofs.Pass.Coverage
import Mathlib.Data.List.Nodup

/-!
**The names of the sources of a pass.**

A source asks for a name made from the simple name of its enum, so enums of one simple name ask for
the same.  The first gets it.  For a later one the pass tries the name behind the namespace of the
enum, then with a number in between, and goes on counting until a name is free.  The names that it
tries may have been taken themselves, by enums that were renamed before or by one that is called so;
but no two of them are the same, so after as many as there are names taken one has to be free.

Main definitions:

* `EnumSource` — a source of an enum before it gets its name, with the variant that it is for;
* `passSources` — those of a pass, in the order of the enums, the literal variant first;
* `GivenName` — the name that a source gets beside those that are taken;
* `NamedInOrder` — sources that get their names one after the other.

Main results:

* `spareName_injective`, `givenName_freshName` — **the search for a free name** ends, and finds the
  first;
* `processEnum_sources` — what an enum leaves is one source for each of some variants, in order;
* `NamedInOrder.nodup` — sources that get their names in order have different names;
* `runPass_hintNames` — **the names of a pass**.
-/

set_option autoImplicit false
set_option relaxedAutoImplicit false

namespace LocalisedEnum

/-! ### Spare names -/

/-- What stands between the namespace and the name in the spare name of an attempt. -/
def counterPart : Nat → String
  | 0 => ""
  | attempt + 1 => toString (attempt + 2) ++ "."

theorem counterPart_injective : Function.Injective counterPart := by
  have hcounter : ∀ attempt : Nat, counterPart (attempt + 1) ≠ "" := by
    intro attempt h
    have hlength := congrArg String.length h
    simp [counterPart] at hlength
  intro a b h
  match a, b with
  | 0, 0 => rfl
  | 0, b + 1 => exact absurd h.symm (hcounter b)
  | a + 1, 0 => exact absurd h (hcounter a)
  | a + 1, b + 1 =>
      have hrepr : (a + 2).repr = (b + 2).repr := (String.append_left_inj ".").1 h
      have hdigits : Nat.toDigits 10 (a + 2) = Nat.toDigits 10 (b + 2) := by
        rw [← Nat.toList_repr, hrepr, Nat.toList_repr]
      have hnumber : a + 2 = b + 2 := by
        rw [← Nat.ofDigitChars_ten_toDigits (n := a + 2), hdigits, Nat.ofDigitChars_ten_toDigits]
      omega

theorem spareName_eq (namespaceName hintName : String) (attempt : Nat) :
    spareName namespaceName hintName attempt =
      (if namespaceName = "" then "global" else namespaceName) ++ "." ++
        (counterPart attempt ++ hintName) := by
  cases attempt with
  | zero => simp [spareName, counterPart]
  | succ attempt => simp [spareName, counterPart, String.append_assoc]

/-- Different attempts try different names. -/
theorem spareName_injective (namespaceName hintName : String) :
    Function.Injective (spareName namespaceName hintName) := by
  intro a b h
  rw [spareName_eq, spareName_eq, String.append_right_inj, String.append_left_inj] at h
  exact counterPart_injective h

/-- Of one more attempt than there are names taken, one is free. -/
theorem exists_spareName (taken : List String) (namespaceName hintName : String) :
    ∃ attempt ≤ taken.length, spareName namespaceName hintName attempt ∉ taken := by
  by_contra hnone
  have hall : ∀ attempt ≤ taken.length, spareName namespaceName hintName attempt ∈ taken :=
    fun attempt hattempt => Decidable.by_contra fun hfree => hnone ⟨attempt, hattempt, hfree⟩
  have hnodup : ((List.range (taken.length + 1)).map (spareName namespaceName hintName)).Nodup :=
    List.nodup_range.map (spareName_injective namespaceName hintName)
  have hsub : (List.range (taken.length + 1)).map (spareName namespaceName hintName) ⊆ taken := by
    intro name hname
    obtain ⟨attempt, hattempt, rfl⟩ := List.mem_map.1 hname
    exact hall attempt (Nat.lt_succ_iff.1 (List.mem_range.1 hattempt))
  have hlength := hnodup.length_le_of_subset hsub
  rw [List.length_map, List.length_range] at hlength
  exact Nat.not_succ_le_self _ hlength

/-- **The name that a source gets** beside the names that are taken: its own if this is free, or
else the first of the spare names that is, which comes after no more attempts than there are names
taken. -/
inductive GivenName (taken : List String) (namespaceName hintName : String) : String → Prop
  | own (hown : hintName ∉ taken) : GivenName taken namespaceName hintName hintName
  | spare {attempt : Nat} (hown : hintName ∈ taken) (hbound : attempt ≤ taken.length)
      (hfree : spareName namespaceName hintName attempt ∉ taken)
      (hfirst : ∀ earlier < attempt, spareName namespaceName hintName earlier ∈ taken) :
      GivenName taken namespaceName hintName (spareName namespaceName hintName attempt)

/-- A name that is given is free. -/
theorem GivenName.not_mem {taken : List String} {namespaceName hintName name : String}
    (h : GivenName taken namespaceName hintName name) : name ∉ taken := by
  cases h with
  | own hown => exact hown
  | spare _ _ hfree _ => exact hfree

/-- A name that is free is kept. -/
theorem GivenName.eq_of_not_mem {taken : List String} {namespaceName hintName name : String}
    (h : GivenName taken namespaceName hintName name) (hown : hintName ∉ taken) :
    name = hintName := by
  cases h with
  | own _ => rfl
  | spare htaken _ _ _ => exact absurd htaken hown

/-- **The search for a free name** ends, and finds the first. -/
theorem givenName_freshName (taken : List String) (namespaceName hintName : String) :
    GivenName taken namespaceName hintName (freshName taken namespaceName hintName) := by
  rw [freshName]
  split
  · next htaken =>
    rw [List.find?_map]
    cases hfind : (List.range (taken.length + 1)).find?
        ((!taken.contains ·) ∘ spareName namespaceName hintName) with
    | none =>
        obtain ⟨attempt, hbound, hfree⟩ := exists_spareName taken namespaceName hintName
        have := List.find?_range_eq_none.1 hfind attempt (Nat.lt_succ_of_le hbound)
        simp [hfree] at this
    | some attempt =>
        obtain ⟨hfree, hmem, hfirst⟩ := List.find?_range_eq_some.1 hfind
        refine .spare (List.contains_iff_mem.1 htaken) ?_ ?_ ?_
        · exact Nat.lt_succ_iff.1 (List.mem_range.1 hmem)
        · simpa using hfree
        · intro earlier hearlier
          simpa using hfirst earlier hearlier
  · next htaken => exact .own fun hmem => htaken (List.contains_iff_mem.2 hmem)

/-! ### The sources of an enum -/

/-- The name that the source of an enum for a variant asks for. -/
def EnumDeclaration.hintName (e : EnumDeclaration) (v : Variant) : String :=
  e.name ++ "LocalizationExtensions" ++ (if v.hasDetail then ".Formatted" else "") ++ ".cs"

theorem hintName_injective (e : EnumDeclaration) : Function.Injective e.hintName := by
  intro v w h
  have hlength := congrArg String.length h
  cases v <;> cases w <;> simp [EnumDeclaration.hintName, Variant.hasDetail] at hlength ⊢

variable (settings : Settings) (c : Compilation) (e : EnumDeclaration)

/-- The text that an enum has got for a variant, if it has got one. -/
def variantText? (v : Variant) : Option String :=
  ((processEnum settings c e).sources.find? (·.hintName == e.hintName v)).map (·.text)

/-- **A source of an enum** before it gets its name. -/
structure EnumSource where
  enum : EnumDeclaration
  variant : Variant
  text : String
  deriving DecidableEq, Repr

/-- The name that a source asks for. -/
def EnumSource.hintName (s : EnumSource) : String :=
  s.enum.hintName s.variant

/-- The source under the name that it asks for. -/
def EnumSource.unnamed (s : EnumSource) : GeneratedSource :=
  ⟨s.hintName, s.text⟩

/-- The sources of an enum, in the order of the variants. -/
def enumSources : List EnumSource :=
  Variant.all.filterMap fun v => (variantText? settings c e v).map (EnumSource.mk e v)

variable {settings} {c} {e}

/-- The mappings of an enum are for some of its variants, in order. -/
theorem variants_of_allResolve {attributes : List (Variant × Attribute)}
    {results : List (Option Mapping × List GenerationError)}
    (h : AllResolve settings c e attributes results) :
    ((results.filterMap (·.1)).map (·.variant)).Sublist (attributes.map Prod.fst) ∧
      ∀ m ∈ results.filterMap (·.1), m.view = e.view := by
  induction h with
  | nil => exact ⟨.slnil, fun m hm => nomatch hm⟩
  | @cons entry result _ _ hentry _ ih =>
      obtain ⟨v, a⟩ := entry
      obtain ⟨mapping, errors⟩ := result
      cases mapping with
      | none => exact ⟨ih.1.cons _, ih.2⟩
      | some m =>
          obtain ⟨hvariant, hview, _⟩ := attributeResult_effect hentry
          refine ⟨?_, ?_⟩
          · simp only [List.filterMap_cons, List.map_cons, hvariant]
            exact ih.1.cons_cons v
          · intro m' hm'
            rcases List.mem_cons.1 hm' with rfl | hm'
            · exact hview
            · exact ih.2 m' hm'

theorem fileName_eq {m : Mapping} (h : m.view = e.view) : m.fileName = e.hintName m.variant := by
  rw [Mapping.fileName, h]
  rfl

theorem hintNames_of_forall₂ {ms : List Mapping} {ss : List GeneratedSource}
    (h : List.Forall₂ (fun m s => m.source = .ok s) ms ss) (hview : ∀ m ∈ ms, m.view = e.view) :
    ss.map (·.hintName) = (ms.map (·.variant)).map e.hintName := by
  induction h with
  | nil => rfl
  | @cons m s ms ss hm _ ih =>
      have hname : s.hintName = e.hintName m.variant :=
        (source_eq_ok hm).2.trans (fileName_eq (hview m List.mem_cons_self))
      simp only [List.map_cons, hname, ih fun m' hm' => hview m' (List.mem_cons_of_mem _ hm')]

/-- What an enum leaves asks for the names of some variants, in order. -/
theorem exists_variants (settings : Settings) (c : Compilation) (e : EnumDeclaration) :
    ∃ vs : List Variant, vs.Sublist Variant.all ∧
      (processEnum settings c e).sources.map (·.hintName) = vs.map e.hintName := by
  cases hattributes : localisationAttributes e with
  | error f => exact ⟨[], List.nil_sublist _, by simp only [processEnum, hattributes]; rfl⟩
  | ok attributes =>
      simp only [processEnum, hattributes]
      split
      · exact ⟨[], List.nil_sublist _, rfl⟩
      · next log mappings errors hok =>
        obtain ⟨results, hresults, rfl, rfl⟩ := processAttributes_eq_ok hok
        split
        · exact ⟨[], List.nil_sublist _, rfl⟩
        · next sources hsources =>
          obtain ⟨hvariants, hview⟩ := variants_of_allResolve hresults
          rw [variants_of_localisationAttributes hattributes] at hvariants
          exact ⟨_, hvariants.trans List.filter_sublist,
            hintNames_of_forall₂ (mapM_eq_ok hsources) hview⟩

/-- Sources that ask for the names of some variants, in order, are found again under these names. -/
theorem filterMap_find? {vs ws : List Variant} {sources : List GeneratedSource}
    (hsub : vs.Sublist ws) (hnodup : ws.Nodup)
    (hnames : sources.map (·.hintName) = vs.map e.hintName) :
    (ws.filterMap fun v => (sources.find? (·.hintName == e.hintName v)).map fun s =>
        (⟨e.hintName v, s.text⟩ : GeneratedSource)) =
      sources := by
  induction hsub generalizing sources with
  | slnil =>
      rw [List.map_nil, List.map_eq_nil_iff] at hnames
      rw [hnames]
      rfl
  | @cons vs ws w hsub ih =>
      obtain ⟨hw, hnodup⟩ := List.nodup_cons.1 hnodup
      have hnone : sources.find? (·.hintName == e.hintName w) = none := by
        refine List.find?_eq_none.2 fun s hs hname => ?_
        have hmem : s.hintName ∈ vs.map e.hintName := hnames ▸ List.mem_map_of_mem hs
        obtain ⟨v, hv, hvs⟩ := List.mem_map.1 hmem
        have hvw : v = w := hintName_injective e (hvs.trans (beq_iff_eq.1 hname))
        exact hw (hvw ▸ hsub.mem hv)
      simp only [List.filterMap_cons, hnone, Option.map_none]
      exact ih hnodup hnames
  | @cons_cons vs ws w hsub ih =>
      obtain ⟨hw, hnodup⟩ := List.nodup_cons.1 hnodup
      cases sources with
      | nil => cases hnames
      | cons s sources =>
          obtain ⟨hs, hnames⟩ := List.cons_eq_cons.1 hnames
          have hfound : (s :: sources).find? (·.hintName == e.hintName w) = some s :=
            List.find?_cons_of_pos (beq_iff_eq.2 hs)
          have hothers : ∀ v ∈ ws, (s :: sources).find? (·.hintName == e.hintName v) =
              sources.find? (·.hintName == e.hintName v) := by
            intro v hv
            refine List.find?_cons_of_neg fun hname => hw ?_
            have hvw : w = v := hintName_injective e (hs.symm.trans (beq_iff_eq.1 hname))
            exact hvw ▸ hv
          rw [List.filterMap_cons, hfound, ← hs, Option.map_some]
          refine congrArg (s :: ·) ?_
          rw [List.filterMap_congr fun v hv => by rw [hothers v hv]]
          exact ih hnodup hnames

/-- **What an enum leaves** is one source for each of some variants, in order. -/
theorem processEnum_sources (settings : Settings) (c : Compilation) (e : EnumDeclaration) :
    (processEnum settings c e).sources = (enumSources settings c e).map EnumSource.unnamed := by
  obtain ⟨vs, hvs, hnames⟩ := exists_variants settings c e
  have hfound := filterMap_find? hvs (by decide) hnames
  rw [enumSources, List.map_filterMap]
  simpa [variantText?, Function.comp_def, EnumSource.unnamed, EnumSource.hintName] using hfound.symm

/-! ### Names in order -/

/-- **Sources that get their names one after the other**, each beside the names that are taken by
then. -/
inductive NamedInOrder : List String → List EnumSource → List GeneratedSource → Prop
  | nil (taken : List String) : NamedInOrder taken [] []
  | cons {taken : List String} {s : EnumSource} {named : GeneratedSource}
      {sources : List EnumSource} {others : List GeneratedSource}
      (hname : GivenName taken s.enum.namespaceName s.hintName named.hintName)
      (htext : named.text = s.text)
      (hothers : NamedInOrder (taken ++ [named.hintName]) sources others) :
      NamedInOrder taken (s :: sources) (named :: others)

namespace NamedInOrder

variable {taken : List String} {sources sources' : List EnumSource}
  {named named' : List GeneratedSource}

theorem append (h : NamedInOrder taken sources named)
    (h' : NamedInOrder (taken ++ named.map (·.hintName)) sources' named') :
    NamedInOrder taken (sources ++ sources') (named ++ named') := by
  induction h with
  | nil taken => simpa using h'
  | cons hname htext _ ih =>
      refine .cons hname htext (ih ?_)
      simpa using h'

/-- No source is lost, and none is changed. -/
theorem texts (h : NamedInOrder taken sources named) :
    named.map (·.text) = sources.map (·.text) := by
  induction h with
  | nil => rfl
  | cons _ htext _ ih => rw [List.map_cons, List.map_cons, htext, ih]

/-- **Sources that get their names in order** have different names, and none that was taken
before. -/
theorem nodup (h : NamedInOrder taken sources named) (htaken : taken.Nodup) :
    (taken ++ named.map (·.hintName)).Nodup := by
  induction h with
  | nil => simpa using htaken
  | @cons taken _ s _ _ hname _ _ ih =>
      have hnodup : (taken ++ [s.hintName]).Nodup :=
        List.nodup_append.2 ⟨htaken, List.nodup_singleton _, by
          rintro name hmem _ hs rfl
          exact hname.not_mem (List.mem_singleton.1 hs ▸ hmem)⟩
      simpa using ih hnodup

end NamedInOrder

/-- The sources of an enum get their names in order. -/
theorem namedInOrder_renameSources (taken : List String) {sources : List EnumSource}
    {namespaceName : String} (h : ∀ s ∈ sources, s.enum.namespaceName = namespaceName) :
    NamedInOrder taken sources
      (renameSources taken namespaceName (sources.map EnumSource.unnamed)) := by
  induction sources generalizing taken with
  | nil => exact .nil taken
  | cons s sources ih =>
      refine .cons ?_ rfl (ih _ fun s hs => h s (List.mem_cons_of_mem _ hs))
      rw [h s List.mem_cons_self]
      exact givenName_freshName ..

theorem enum_of_mem_enumSources {s : EnumSource} (h : s ∈ enumSources settings c e) :
    s.enum = e := by
  obtain ⟨v, _, hv⟩ := List.mem_filterMap.1 h
  obtain ⟨text, _, rfl⟩ := Option.map_eq_some_iff.1 hv
  rfl

variable (settings) (c) in
/-- Enums add their sources behind those that are there, under names that they get in order. -/
theorem namedInOrder_absorbAll (r : PassResult) (es : List EnumDeclaration) :
    ∃ added, (absorbAll settings c r es).sources = r.sources ++ added ∧
      NamedInOrder r.hintNames (es.flatMap (enumSources settings c)) added := by
  induction es generalizing r with
  | nil => exact ⟨[], by simp [absorbAll], .nil _⟩
  | cons e es ih =>
      obtain ⟨added, hsources, hnamed⟩ := ih (r.absorb e.namespaceName (processEnum settings c e))
      have henum : ∀ s ∈ enumSources settings c e, s.enum.namespaceName = e.namespaceName :=
        fun s hs => congrArg EnumDeclaration.namespaceName (enum_of_mem_enumSources hs)
      have hfirst := namedInOrder_renameSources r.hintNames henum
      rw [← processEnum_sources] at hfirst
      refine ⟨renameSources r.hintNames e.namespaceName (processEnum settings c e).sources ++ added,
        ?_, ?_⟩
      · rw [absorbAll, List.foldl_cons, ← absorbAll, hsources]
        simp [PassResult.absorb]
      · rw [List.flatMap_cons]
        refine hfirst.append ?_
        simpa [PassResult.absorb, PassResult.hintNames] using hnamed

/-! ### The names of a pass -/

variable (settings) (c)

/-- The sources of the enums of a pass, in the order of the enums. -/
def passSources : List EnumSource :=
  (candidateEnums c).flatMap (enumSources settings c)

theorem nodup_leadingSources : ((leadingSources settings c).map (·.hintName)).Nodup := by
  rw [leadingSources]
  split
  · exact List.nodup_nil
  · split
    · simp [attributeSources, Variant.all, attributeFileName, attributeClassName,
        Variant.attributeName]
    · exact List.nodup_nil

/-- The sources of the enums get their names in order, behind the leading ones. -/
theorem namedInOrder_runPass : ∃ extensions,
    (runPass settings c).sources = leadingSources settings c ++ extensions ∧
    NamedInOrder ((leadingSources settings c).map (·.hintName)) (passSources settings c)
      extensions := by
  simp only [runPass, leadingSources, passSources]
  split
  · next h =>
    rw [List.isEmpty_iff.1 h]
    exact ⟨[], rfl, .nil _⟩
  · exact namedInOrder_absorbAll settings c _ _

/-- **The names of a pass.**  Behind the attribute classes come the sources of the enums, in the
order of the enums, the literal variant first, and none is lost.  Each gets its own name unless an
earlier source has it, and otherwise the first of its spare names that none has; so no two sources
have the same name. -/
theorem runPass_hintNames : ∃ extensions,
    (runPass settings c).sources = leadingSources settings c ++ extensions ∧
    NamedInOrder ((leadingSources settings c).map (·.hintName)) (passSources settings c)
      extensions ∧ extensions.map (·.text) = (passSources settings c).map (·.text) ∧
    (∀ e, (processEnum settings c e).sources = (enumSources settings c e).map EnumSource.unnamed) ∧
    (runPass settings c).hintNames.Nodup := by
  obtain ⟨extensions, hsources, hnamed⟩ := namedInOrder_runPass settings c
  refine ⟨extensions, hsources, hnamed, hnamed.texts, processEnum_sources settings c, ?_⟩
  rw [PassResult.hintNames, hsources, List.map_append]
  exact hnamed.nodup (nodup_leadingSources settings c)

end LocalisedEnum

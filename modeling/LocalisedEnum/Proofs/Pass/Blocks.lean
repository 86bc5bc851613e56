import LocalisedEnum.Proofs.Pass.Lookup

/-!
**A pass as a concatenation of blocks.**

A pass keeps one growing result, and every enum adds to it.  What an enum adds is settled before the
result is touched: the result only decides the *names* of the sources.  So the diagnostics of a
pass, and the texts of its sources, fall into one block for each enum that carries attributes, in
order.

The block of an enum reads a compilation through its types and its global imports alone, which
`processEnum_congr` says of two compilations.

Main definitions:

* `leadingSources` — the sources in front of those of the enums;
* `SameLookup` — two compilations in which every name finds the same type;
* `Compilation.ofTypes` — the smallest compilation with given types and global imports.

Main results:

* `runPass_diagnostics`, `runPass_texts` — **the blocks of a pass**;
* `processEnum_congr` — a block depends on types and global imports only.
-/

set_option autoImplicit false
set_option relaxedAutoImplicit false

namespace LocalisedEnum

/-! ### The fold of a pass -/

/-- Renaming sources keeps their texts. -/
@[simp] theorem texts_renameSources (taken : List String) (namespaceName : String)
    (ss : List GeneratedSource) :
    (renameSources taken namespaceName ss).map (·.text) = ss.map (·.text) := by
  induction ss generalizing taken with
  | nil => rfl
  | cons s rest ih => simp only [renameSources, List.map_cons, ih]

variable (settings : Settings) (c : Compilation)

/-- The result of a pass that has got as far as `r`, behind some more enums. -/
def absorbAll (r : PassResult) (es : List EnumDeclaration) : PassResult :=
  es.foldl (fun r e => r.absorb e.namespaceName (processEnum settings c e)) r

theorem absorbAll_diagnostics (r : PassResult) (es : List EnumDeclaration) :
    (absorbAll settings c r es).diagnostics.items =
      r.diagnostics.items ++ es.flatMap fun e => (processEnum settings c e).diagnostics := by
  induction es generalizing r with
  | nil => simp [absorbAll]
  | cons e rest ih =>
      rw [absorbAll, List.foldl_cons, ← absorbAll, ih]
      simp [PassResult.absorb]

/-- An enum adds its sources behind those that are there, under names of their own. -/
theorem absorbAll_sources (r : PassResult) (es : List EnumDeclaration) :
    ∃ added, (absorbAll settings c r es).sources = r.sources ++ added ∧
      added.map (·.text) = es.flatMap fun e => (processEnum settings c e).sources.map (·.text) := by
  induction es generalizing r with
  | nil => exact ⟨[], by simp [absorbAll], rfl⟩
  | cons e rest ih =>
      -- what the sources are called depends on those in front of them, what they say does not
      obtain ⟨added, hsources, htexts⟩ :=
        ih (r.absorb e.namespaceName (processEnum settings c e))
      refine ⟨renameSources r.hintNames e.namespaceName (processEnum settings c e).sources ++ added,
        ?_, ?_⟩
      · rw [absorbAll, List.foldl_cons, ← absorbAll, hsources]
        simp [PassResult.absorb]
      · simp [htexts]

variable {settings c} in
/-- What is added to the sources of a pass depends on the sources that enums leave and on their
namespaces. -/
theorem absorbAll_sources_congr {settings' : Settings} {c' : Compilation}
    {es es' : List EnumDeclaration}
    (h : List.Forall₂
      (fun e e' => e'.namespaceName = e.namespaceName ∧
        (processEnum settings' c' e').sources = (processEnum settings c e).sources) es es')
    {r r' : PassResult} (hr : r'.sources = r.sources) :
    (absorbAll settings' c' r' es').sources = (absorbAll settings c r es).sources := by
  induction h generalizing r r' with
  | nil => exact hr
  | @cons e e' _ _ hpair _ ih =>
      rw [absorbAll, absorbAll, List.foldl_cons, List.foldl_cons, ← absorbAll, ← absorbAll]
      refine ih ?_
      rw [PassResult.absorb, PassResult.absorb, PassResult.hintNames, PassResult.hintNames, hpair.1,
        hpair.2, hr]

/-! ### The blocks of a pass -/

/-- The sources of a pass that belong to no enum: those of the attribute classes, where there is an
enum that may carry the attributes and the settings ask for them. -/
def leadingSources : List GeneratedSource :=
  if (candidateEnums c).isEmpty then []
  else if settings.emitAttributes then attributeSources settings
  else []

/-- **The diagnostics of a pass** are the blocks of its enums, in order. -/
theorem runPass_diagnostics :
    (runPass settings c).diagnostics.items =
      (candidateEnums c).flatMap fun e => (processEnum settings c e).diagnostics := by
  simp only [runPass]
  split
  · next h => rw [List.isEmpty_iff.1 h]; rfl
  · exact (absorbAll_diagnostics settings c _ _).trans (List.nil_append _)

/-- **The texts of a pass** are the blocks of its enums, behind the leading sources. -/
theorem runPass_texts :
    ∃ added, (runPass settings c).sources = leadingSources settings c ++ added ∧
      added.map (·.text) =
        (candidateEnums c).flatMap fun e => (processEnum settings c e).sources.map (·.text) := by
  simp only [runPass, leadingSources]
  split
  · next h => exact ⟨[], rfl, by rw [List.isEmpty_iff.1 h]; rfl⟩
  · exact absorbAll_sources settings c _ _

/-! ### What a block reads of a compilation -/

/-- Two compilations with the same types and the same global imports. -/
structure SameLookup (c c' : Compilation) : Prop where
  types : c.types = c'.types
  globalUsings : c.globalUsings = c'.globalUsings

variable {settings} {c} {c' : Compilation}

theorem SameLookup.sameMeaning (h : SameLookup c c') : SameMeaning c c' where
  types name := by
    rw [Compilation.typeIndex, h.types, ← Compilation.typeIndex]
    cases c'.typeIndex.get? name with
    | none => exact .none
    | some t => exact .some (.refl t)
  globalUsings := h.globalUsings

/-- **What an enum leaves** depends on the types and the global imports of a compilation only. -/
theorem processEnum_congr (h : SameLookup c c') (e : EnumDeclaration) :
    processEnum settings c e = processEnum settings c' e :=
  processEnum_sameMeaning h.sameMeaning e

/-! ### A compilation for given types and imports -/

theorem eraseDups_eraseDups : ∀ xs : List String, xs.eraseDups.eraseDups = xs.eraseDups
  | [] => rfl
  | x :: xs => by
      -- the copies of `x` are gone after the first time, so there is nothing to filter the second
      have hkept : (xs.filter fun y => !y == x).eraseDups.filter (fun y => !y == x) =
          (xs.filter fun y => !y == x).eraseDups := by
        refine List.filter_eq_self.2 ?_
        intro y hy
        exact (List.mem_filter.1 (List.mem_eraseDups.1 hy)).2
      rw [List.eraseDups_cons, List.eraseDups_cons, hkept, eraseDups_eraseDups _]
  termination_by xs => xs.length
  decreasing_by exact Nat.lt_succ_of_le (List.length_filter_le ..)

/-- A compilation of one file that declares just the given types and global imports. -/
def Compilation.ofTypes (types : List TypeDeclaration) (globalUsings : List String) : Compilation :=
  ⟨[⟨"", [], [], types, globalUsings⟩]⟩

theorem sameLookup_ofTypes (c : Compilation) :
    SameLookup c (.ofTypes c.types c.globalUsings) where
  types := by simp [Compilation.ofTypes, Compilation.types]
  globalUsings := by
    have h := eraseDups_eraseDups (c.files.flatMap (·.globalUsings))
    simpa [Compilation.ofTypes, Compilation.globalUsings] using h.symm

end LocalisedEnum

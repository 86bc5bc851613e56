import LocalisedEnum.Proofs.Pass.FileOrder
import LocalisedEnum.Proofs.Pass.MethodNames

/-!
**What an enum comes to.**

The attributes of an enum either all resolve, to mappings and errors, or one of them fails, and then
the enum does. This decides what the enum leaves: the sources are the files of the mappings, in
order, and the diagnostics are those of the errors at the place of the enum, or the one that stands
for the failure.

Main definitions:

* `enumResult` — the mappings and the errors of an enum, or why it fails.

Main results:

* `diagnostics_processEnum` — **the diagnostics of an enum**;
* `forall₂_enumSources` — **the sources of an enum**, each with the mapping that it is written from.
-/

set_option autoImplicit false
set_option relaxedAutoImplicit false

namespace LocalisedEnum

variable {settings : Settings} {c : Compilation} {e : EnumDeclaration}

/-- What an enum comes to: the mappings and the errors of its attributes, or the failure of one of
them. -/
def enumResult (settings : Settings) (c : Compilation) (e : EnumDeclaration) :
    Except Failure (List Mapping × List GenerationError) := do
  let attributes ← localisationAttributes e
  (processAttributes settings c e attributes).2

theorem handedMappings_of_ok {mappings : List Mapping} {errors : List GenerationError}
    (h : enumResult settings c e = .ok (mappings, errors)) :
    handedMappings settings c e = mappings := by
  obtain ⟨attributes, hattributes, h⟩ := bind_eq_ok.1 h
  simp only [handedMappings, hattributes, h]

theorem handedMappings_of_error {f : Failure} (h : enumResult settings c e = .error f) :
    handedMappings settings c e = [] := by
  rw [handedMappings]
  rcases bind_eq_error.1 h with hattributes | ⟨attributes, hattributes, h⟩
  · rw [hattributes]
  · simp only [hattributes, h]

/-- **The diagnostics of an enum** are those of its errors, or the one that stands for its
failure. -/
theorem diagnostics_processEnum :
    (processEnum settings c e).diagnostics = match enumResult settings c e with
      | .error f => [internalDiagnostic f]
      | .ok (_, errors) => diagnoseAll errors (some e.location) := by
  have hwritten :=
    fun m (hm : m ∈ handedMappings settings c e) => exists_source_of_mem_handedMappings hm
  cases hresult : enumResult settings c e with
  | error f =>
      rw [processEnum]
      rcases bind_eq_error.1 hresult with hattributes | ⟨attributes, hattributes, h⟩
      · rw [hattributes]
        rfl
      · rw [hattributes]
        simp only
        split
        · next hf =>
          rw [hf] at h
          cases h
          rfl
        · next hok =>
          rw [hok] at h
          cases h
  | ok result =>
      obtain ⟨mappings, errors⟩ := result
      rw [handedMappings_of_ok hresult] at hwritten
      obtain ⟨attributes, hattributes, h⟩ := bind_eq_ok.1 hresult
      rw [processEnum, hattributes]
      simp only
      split
      · next hf =>
        rw [hf] at h
        cases h
      · next hok =>
        rw [hok] at h
        cases h
        -- every mapping that is handed on is written
        split
        · next f hf =>
          obtain ⟨m, hm, hf⟩ := mapM_eq_error hf
          obtain ⟨s, hs⟩ := hwritten m hm
          cases hs.symm.trans hf
        · rfl

/-- **The sources of an enum**, each with the mapping that it is written from. -/
theorem forall₂_enumSources :
    List.Forall₂ (fun m s => s.enum = e ∧ s.variant = m.variant ∧ m.sourceText = .ok s.text)
      (handedMappings settings c e) (enumSources settings c e) := by
  have hfiles := @forall₂_handedMappings settings c e
  rw [processEnum_sources, List.forall₂_map_right_iff] at hfiles
  rw [List.forall₂_iff_zip] at hfiles ⊢
  refine ⟨hfiles.1, fun {m s} hboth => ?_⟩
  obtain ⟨hm, hs⟩ := List.of_mem_zip hboth
  obtain rfl := enum_of_mem_enumSources hs
  obtain ⟨_, _, _, _, _, hresult⟩ := exists_of_mem_handedMappings hm
  obtain ⟨_, hview, _⟩ := attributeResult_effect hresult
  obtain ⟨htext, hname⟩ := source_eq_ok (hfiles.2 hboth)
  exact ⟨rfl, hintName_injective s.enum (hname.trans (fileName_eq hview)), htext⟩

end LocalisedEnum

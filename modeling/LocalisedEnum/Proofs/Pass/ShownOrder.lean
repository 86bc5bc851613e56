import LocalisedEnum.Diagnostic
import LocalisedEnum.Proofs.Pass.Resolution
import Mathlib.Data.List.Perm.Basic
import Mathlib.Data.List.Sort
import Mathlib.Data.String.Basic

/-!
**The order in which diagnostics are shown.**

The diagnostics of a pass are kept as they were reported, and shown by path, line, column,
identifier and message.  All that these five leave open is the same for every diagnostic of an
error, but for the place: a diagnostic without one counts as if it stood in line zero of a file
without a name, where nothing is declared.  So no two diagnostics of errors tie, and what is shown
does not depend on the order of the reports.

Main definitions:

* `DiagnosticBag.reportErrors` — errors reported one after the other;
* `Diagnostic.Precedes` — the order by path, line, column, identifier and message;
* `IsReport` — an error with a diagnostic, and a place that may be that of a declaration.

Main results:

* `sortKey_lt_iff` — **what the order goes by**;
* `eq_of_sortKey` — no two diagnostics of errors tie;
* `reportErrors_eq` — what is in a bag of errors;
* `sorted_reportErrors` — **what is shown of errors**.
-/

set_option autoImplicit false
set_option relaxedAutoImplicit false

namespace LocalisedEnum

/-! ### Five things to compare -/

namespace Diagnostic

/-- The path, the line and the column at which a diagnostic counts. -/
def countedPlace (d : Diagnostic) : String × Nat × Nat :=
  match d.location with
  | some l => (l.path, l.line, l.column)
  | none => ("", 0, 0)

/-- **A diagnostic is shown before another** when its path comes first, or, where these are the
same, its line, its column, its identifier or its message, the first of them that differs.  Texts
are compared by their code points. -/
def Precedes (d e : Diagnostic) : Prop :=
  d.countedPlace.1 < e.countedPlace.1 ∨
    d.countedPlace.1 = e.countedPlace.1 ∧
    (d.countedPlace.2.1 < e.countedPlace.2.1 ∨
      d.countedPlace.2.1 = e.countedPlace.2.1 ∧
      (d.countedPlace.2.2 < e.countedPlace.2.2 ∨
        d.countedPlace.2.2 = e.countedPlace.2.2 ∧
        (d.id < e.id ∨
          d.id = e.id ∧ d.message.map CodePoint.value < e.message.map CodePoint.value)))

end Diagnostic

theorem map_toNat_injective {cs cs' : List Char} (h : cs.map Char.toNat = cs'.map Char.toNat) :
    cs = cs' :=
  List.map_injective_iff.2 (fun _ _ h => Char.toNat_inj.1 h) h

/-- Characters are ordered by their numbers. -/
theorem map_toNat_lt_iff (cs cs' : List Char) :
    cs.map Char.toNat < cs'.map Char.toNat ↔ cs < cs' := by
  induction cs generalizing cs' with
  | nil => cases cs' <;> simp
  | cons c cs ih =>
      cases cs' with
      | nil => simp
      | cons c' cs' =>
          rw [List.map_cons, List.map_cons, List.cons_lt_cons_iff, List.cons_lt_cons_iff, ih,
            Char.toNat_inj]
          rfl

theorem countedPlace_sortKey (d : Diagnostic) :
    d.sortKey = [d.countedPlace.1.toList.map Char.toNat, [d.countedPlace.2.1], [d.countedPlace.2.2],
      d.id.toList.map Char.toNat, d.message.map CodePoint.value] := by
  rw [Diagnostic.sortKey, Diagnostic.countedPlace]
  cases d.location <;> rfl

/-- **What the order goes by**: path, line, column, identifier and message. -/
theorem sortKey_lt_iff {d e : Diagnostic} : d.sortKey < e.sortKey ↔ d.Precedes e := by
  have htext : ∀ {s t : String}, s.toList.map Char.toNat = t.toList.map Char.toNat ↔ s = t :=
    fun {s t} => ⟨fun h => String.toList_inj.1 (map_toNat_injective h), fun h => h ▸ rfl⟩
  have hnumber : ∀ {m n : Nat}, [m] < [n] ↔ m < n := fun {m n} => by simp [List.cons_lt_cons_iff]
  simp only [countedPlace_sortKey, List.cons_lt_cons_iff, map_toNat_lt_iff, htext, hnumber,
    List.cons.injEq, and_true, List.lt_irrefl, and_false, or_false, ← String.lt_iff_toList_lt]
  rfl

theorem le_iff_not_precedes {d e : Diagnostic} : d.le e = true ↔ ¬e.Precedes d := by
  rw [Diagnostic.le, Bool.not_eq_true', decide_eq_false_iff_not, sortKey_lt_iff]

/-! ### Diagnostics of errors -/

/-- **An error with a diagnostic**, and a place that may be that of a declaration: lines are counted
from one. -/
structure IsReport (e : GenerationError) (location : Option SourceLocation) : Prop where
  known : ∀ number, e.code ≠ .unrecognised number
  placed : ∀ l ∈ location, 1 ≤ l.line

section Reports

variable {e e' : GenerationError} {location location' : Option SourceLocation} {d d' : Diagnostic}

/-- The diagnostic of an error: all that is the same for each of them, and the place, which the
failure of a whole enum drops. -/
theorem IsReport.exists_diagnose (h : IsReport e location) :
    ∃ d, e.diagnose location = .ok d ∧ d.title = diagnosticTitle ∧ d.severity = .error ∧
      d.location = if e.code = .internal then none else location := by
  obtain ⟨enumName, code, details⟩ := e
  cases code with
  | internal => exact ⟨_, rfl, rfl, rfl, rfl⟩
  | missingDefault => exact ⟨_, rfl, rfl, rfl, rfl⟩
  | invalidDefault => exact ⟨_, rfl, rfl, rfl, rfl⟩
  | unrecognised number => exact absurd rfl (h.known number)

theorem IsReport.one_le_line (h : IsReport e location) (hd : e.diagnose location = .ok d)
    {l : SourceLocation} (hl : d.location = some l) : 1 ≤ l.line := by
  obtain ⟨_, hd', -, -, hplace⟩ := h.exists_diagnose
  cases hd.symm.trans hd'
  rw [hplace] at hl
  split at hl
  · cases hl
  · exact h.placed l hl

/-- A place is known by the path, the line and the column at which a diagnostic of an error
counts. -/
theorem location_eq_of_countedPlace (h : IsReport e location) (hd : e.diagnose location = .ok d)
    (h' : IsReport e' location') (hd' : e'.diagnose location' = .ok d')
    (hplace : d.countedPlace = d'.countedPlace) : d.location = d'.location := by
  rw [Diagnostic.countedPlace, Diagnostic.countedPlace] at hplace
  cases hl : d.location with
  | none =>
      cases hl' : d'.location with
      | none => rfl
      | some l' =>
          -- lines are counted from one
          have hone := h'.one_le_line hd' hl'
          rw [hl, hl'] at hplace
          simp only [Prod.mk.injEq] at hplace
          omega
  | some l =>
      cases hl' : d'.location with
      | none =>
          have hone := h.one_le_line hd hl
          rw [hl, hl'] at hplace
          simp only [Prod.mk.injEq] at hplace
          omega
      | some l' =>
          obtain ⟨path, line, column⟩ := l
          obtain ⟨path', line', column'⟩ := l'
          rw [hl, hl'] at hplace
          cases hplace
          rfl

/-- **No two diagnostics of errors tie.** -/
theorem eq_of_sortKey (h : IsReport e location) (hd : e.diagnose location = .ok d)
    (h' : IsReport e' location') (hd' : e'.diagnose location' = .ok d')
    (hkey : d.sortKey = d'.sortKey) : d = d' := by
  rw [countedPlace_sortKey, countedPlace_sortKey] at hkey
  simp only [List.cons.injEq, and_true] at hkey
  obtain ⟨hpath, hline, hcolumn, hid, hmessage⟩ := hkey
  have hpath : d.countedPlace.1 = d'.countedPlace.1 :=
    String.toList_inj.1 (map_toNat_injective hpath)
  have hlocation : d.location = d'.location :=
    location_eq_of_countedPlace h hd h' hd' (Prod.ext hpath (Prod.ext hline hcolumn))
  have hid : d.id = d'.id := String.toList_inj.1 (map_toNat_injective hid)
  have hmessage : d.message = d'.message :=
    List.map_injective_iff.2 (fun _ _ => CodePoint.value_injective) hmessage
  -- title and severity are the same for all
  obtain ⟨_, heq, htitle, hseverity, -⟩ := h.exists_diagnose
  cases hd.symm.trans heq
  obtain ⟨_, heq', htitle', hseverity', -⟩ := h'.exists_diagnose
  cases hd'.symm.trans heq'
  obtain ⟨id, title, message, severity, place⟩ := d
  obtain ⟨id', title', message', severity', place'⟩ := d'
  cases hid
  cases hmessage
  cases hlocation
  cases htitle.trans htitle'.symm
  cases hseverity.trans hseverity'.symm
  rfl

/-- A diagnostic without a place does not come behind one with a place. -/
theorem IsReport.location_eq_none (h : IsReport e location) (hd : e.diagnose location = .ok d)
    (horder : ¬d'.Precedes d) (hd' : d'.location = none) : d.location = none := by
  cases hl : d.location with
  | none => rfl
  | some l =>
      refine absurd ?_ horder
      have hone := h.one_le_line hd hl
      rw [Diagnostic.Precedes, Diagnostic.countedPlace, Diagnostic.countedPlace, hd', hl]
      rcases eq_or_ne l.path "" with hpath | hpath
      · exact .inr ⟨hpath.symm, .inl hone⟩
      · obtain ⟨c, cs, hcs⟩ := List.exists_cons_of_ne_nil (mt String.toList_eq_nil_iff.1 hpath)
        refine .inl (String.lt_iff_toList_lt.2 ?_)
        rw [hcs]
        exact List.nil_lt_cons c cs

end Reports

/-! ### Bags of errors -/

/-- The bag with the diagnostics of errors, reported one after the other. -/
def DiagnosticBag.reportErrors (bag : DiagnosticBag)
    (reports : List (GenerationError × Option SourceLocation)) : Except CodeFault DiagnosticBag :=
  reports.foldlM (fun bag r => bag.reportError r.1 r.2) bag

section Bags

variable {reports reports' : List (GenerationError × Option SourceLocation)}

/-- **What is in a bag of errors**: the diagnostic of each, behind what was there, in the order of
the reports. -/
theorem reportErrors_eq (h : ∀ r ∈ reports, IsReport r.1 r.2) (bag : DiagnosticBag) :
    ∃ ds, bag.reportErrors reports = .ok ⟨bag.items ++ ds⟩ ∧
      List.Forall₂ (fun r d => r.1.diagnose r.2 = .ok d) reports ds := by
  induction reports generalizing bag with
  | nil => exact ⟨[], by rw [List.append_nil]; rfl, .nil⟩
  | cons r reports ih =>
      obtain ⟨hr, hreports⟩ := List.forall_mem_cons.1 h
      obtain ⟨d, hd, -⟩ := hr.exists_diagnose
      obtain ⟨ds, hmore, hds⟩ := ih hreports (bag.report d)
      refine ⟨d :: ds, ?_, .cons hd hds⟩
      rw [DiagnosticBag.reportErrors, List.foldlM_cons, DiagnosticBag.reportError, hd]
      change (bag.report d).reportErrors reports = _
      rw [hmore, DiagnosticBag.report, List.append_assoc]
      rfl

/-- The diagnostics of errors that come in another order are the same in another order. -/
theorem perm_of_reports {ds ds' : List Diagnostic}
    (hds : List.Forall₂ (fun r d => r.1.diagnose r.2 = .ok d) reports ds)
    (hds' : List.Forall₂ (fun r d => r.1.diagnose r.2 = .ok d) reports' ds')
    (hperm : reports.Perm reports') : ds.Perm ds' := by
  obtain ⟨found, hfound, hsame⟩ := List.perm_comp_forall₂ hperm hds'
  have huniq : Relator.RightUnique fun (r : GenerationError × Option SourceLocation) d =>
      r.1.diagnose r.2 = .ok d :=
    fun _ _ _ hd hd' => Except.ok.inj (hd.symm.trans hd')
  rwa [List.right_unique_forall₂' huniq hds hfound]

/-- What is shown is in order. -/
theorem pairwise_sorted (bag : DiagnosticBag) : bag.sorted.Pairwise fun d e => ¬e.Precedes d := by
  have hle : ∀ {d e : Diagnostic}, d.le e = true ↔ d.sortKey ≤ e.sortKey := fun {d e} => by
    rw [le_iff_not_precedes, ← sortKey_lt_iff, not_lt]
  refine (List.pairwise_mergeSort (fun d e f hde hef => ?_) (fun d e => ?_) bag.items).imp
    le_iff_not_precedes.1
  · exact hle.2 ((hle.1 hde).trans (hle.1 hef))
  · rw [Bool.or_eq_true, hle, hle]
    exact le_total _ _

/-- A bag of errors counts each of them. -/
theorem errorCount_of_reports (h : ∀ r ∈ reports, IsReport r.1 r.2) {ds : List Diagnostic}
    (hds : List.Forall₂ (fun r d => r.1.diagnose r.2 = .ok d) reports ds) :
    (DiagnosticBag.mk ds).errorCount = reports.length := by
  rw [DiagnosticBag.errorCount, hds.length_eq, List.countP_eq_length]
  intro d hd
  obtain ⟨r, hr, hdiagnose⟩ := exists_left_of_mem hds hd
  obtain ⟨_, hdiagnose', -, hseverity, -⟩ := (h r hr).exists_diagnose
  cases hdiagnose.symm.trans hdiagnose'
  rw [hseverity]
  rfl

end Bags

/-- **What is shown of errors** does not depend on the order in which they are reported.  The bag
has the diagnostic of each error, in the order of the reports, and counts each of them.  What is
shown are these diagnostics, in the order of path, line, column, identifier and message, with those
in front that have no place; and it is the same for every other order of the reports. -/
theorem sorted_reportErrors {reports reports' : List (GenerationError × Option SourceLocation)}
    (hperm : reports.Perm reports') (h : ∀ r ∈ reports, IsReport r.1 r.2) :
    ∃ bag bag', DiagnosticBag.empty.reportErrors reports = .ok bag ∧
      DiagnosticBag.empty.reportErrors reports' = .ok bag' ∧ bag.sorted = bag'.sorted ∧
      bag.sorted.map Diagnostic.text = bag'.sorted.map Diagnostic.text ∧ bag.sorted.Perm bag.items ∧
      (bag.sorted.Pairwise fun d e => ¬e.Precedes d) ∧
      (bag.sorted.Pairwise fun d e => e.location = none → d.location = none) ∧
      List.Forall₂ (fun r d => r.1.diagnose r.2 = .ok d) reports bag.items ∧
      bag.items.length = reports.length ∧ bag.errorCount = reports.length ∧
      (bag.hasErrors = true ↔ reports ≠ []) := by
  obtain ⟨ds, hbag, hds⟩ := reportErrors_eq h .empty
  obtain ⟨ds', hbag', hds'⟩ := reportErrors_eq (fun r hr => h r (hperm.mem_iff.2 hr)) .empty
  have hshown : (DiagnosticBag.mk ds).sorted.Perm ds := List.mergeSort_perm _ _
  have hshown' : (DiagnosticBag.mk ds').sorted.Perm ds' := List.mergeSort_perm _ _
  have hfrom : ∀ d ∈ (DiagnosticBag.mk ds).sorted, ∃ r ∈ reports, r.1.diagnose r.2 = .ok d :=
    fun d hd => exists_left_of_mem hds (hshown.mem_iff.1 hd)
  have hsame : (DiagnosticBag.mk ds).sorted.Perm (DiagnosticBag.mk ds').sorted :=
    hshown.trans ((perm_of_reports hds hds' hperm).trans hshown'.symm)
  have hordered := pairwise_sorted ⟨ds⟩
  have hsorted : (DiagnosticBag.mk ds).sorted = (DiagnosticBag.mk ds').sorted := by
    refine hsame.eq_of_pairwise (fun d e hd he hde hed => ?_) hordered (pairwise_sorted ⟨ds'⟩)
    obtain ⟨r, hr, hdiagnose⟩ := hfrom d hd
    obtain ⟨r', hr', hdiagnose'⟩ := hfrom e (hsame.mem_iff.2 he)
    rw [← sortKey_lt_iff, not_lt] at hde hed
    exact eq_of_sortKey (h r hr) hdiagnose (h r' hr') hdiagnose' (le_antisymm hde hed)
  have hunplaced : (DiagnosticBag.mk ds).sorted.Pairwise fun d e =>
      e.location = none → d.location = none := by
    refine hordered.imp_of_mem fun {d e} hd _ horder he => ?_
    obtain ⟨r, hr, hdiagnose⟩ := hfrom d hd
    exact (h r hr).location_eq_none hdiagnose horder he
  have hcount := errorCount_of_reports h hds
  refine ⟨⟨ds⟩, ⟨ds'⟩, hbag, hbag', hsorted, congrArg _ hsorted, hshown, hordered, hunplaced, hds,
    hds.length_eq.symm, hcount, ?_⟩
  rw [DiagnosticBag.hasErrors, decide_eq_true_iff, hcount, List.length_pos_iff]

/-- Two errors at one place, one at another, and the failure of an enum. -/
def mixedReports : List (GenerationError × Option SourceLocation) :=
  [(.missingDefault "B" [], some ⟨"b.cs", 1, 1⟩),
    (.invalidDefault "A" (.ofString "X") [], some ⟨"a.cs", 9, 1⟩),
    (.missingDefault "A" [], some ⟨"a.cs", 9, 1⟩),
    (.internal "C" (.ofString "boom"), some ⟨"c.cs", 2, 1⟩)]

/-- They are shown alike when they are reported backwards, and kept as they were reported. -/
theorem sorted_reportErrors_backwards : (∀ r ∈ mixedReports, IsReport r.1 r.2) ∧
    ∃ bag bag', DiagnosticBag.empty.reportErrors mixedReports = .ok bag ∧
      DiagnosticBag.empty.reportErrors mixedReports.reverse = .ok bag' ∧ bag.sorted = bag'.sorted ∧
      bag.ids = ["ESG0001", "ESG0002", "ESG0001", "ESG0000"] ∧ bag'.ids = bag.ids.reverse ∧
      bag.errorCount = 4 := by
  have hreports : ∀ r ∈ mixedReports, IsReport r.1 r.2 := by
    intro r hr
    simp only [mixedReports, List.mem_cons, List.not_mem_nil, or_false] at hr
    rcases hr with rfl | rfl | rfl | rfl <;> exact ⟨by rintro _ ⟨⟩, by decide⟩
  obtain ⟨bag, bag', hbag, hbag', hsorted, _, _, _, _, _, _, hcount, _⟩ :=
    sorted_reportErrors (List.reverse_perm mixedReports).symm hreports
  refine ⟨hreports, bag, bag', hbag, hbag', hsorted, ?_, ?_, hcount⟩ <;> cases hbag <;> cases hbag'
    <;> decide

end LocalisedEnum

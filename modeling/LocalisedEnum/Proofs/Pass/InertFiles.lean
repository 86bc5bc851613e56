import LocalisedEnum.Proofs.Pass.AbsoluteNames
import LocalisedEnum.Proofs.Pass.Identifiers

/-!
**Files among which a pass stays the same.**

Generated classes have no constants and no static strings, and in their files stands nothing else.
Such a file may stand anywhere among the files of a pass.  What it changes is that names lead to its
classes: a name that ends in the name of such a class may be found where nothing was found, or
nearer than before.  As long as no attribute uses a name that ends so, the pass is the same with
such files and without them.

Main definitions:

* `Padded` — a list with more in it, all of one kind;
* `IsGeneratedClassName` — the names of generated classes;
* `TypeDeclaration.Inert`, `SourceFile.Inert` — types and files that have nothing to offer;
* `Compilation.AvoidsGenerated` — a compilation whose attributes use no name of a generated class.

Main results:

* `Padded.get?_rel` — a name that does not end in that of a generated class leads to the same;
* `sameUse_of_padded` — so do the names that an enum uses;
* `runPass_of_padded` — **the pass is the same**.
-/

set_option autoImplicit false
set_option relaxedAutoImplicit false

namespace LocalisedEnum

/-! ### Lists with more in them -/

/-- A list with more in it, all of one kind. -/
inductive Padded {α : Type} (extra : α → Prop) : List α → List α → Prop
  | nil : Padded extra [] []
  | kept (a : α) {xs ys : List α} (h : Padded extra xs ys) : Padded extra (a :: xs) (a :: ys)
  | more {a : α} (ha : extra a) {xs ys : List α} (h : Padded extra xs ys) :
      Padded extra xs (a :: ys)

namespace Padded

variable {α β : Type} {extra : α → Prop} {xs ys : List α}

theorem mem (h : Padded extra xs ys) {a : α} (ha : a ∈ ys) : a ∈ xs ∨ extra a := by
  induction h with
  | nil => exact .inl ha
  | kept b _ ih =>
      rcases List.mem_cons.1 ha with rfl | ha
      · exact .inl List.mem_cons_self
      · exact (ih ha).imp_left (List.mem_cons_of_mem _)
  | more hb _ ih =>
      rcases List.mem_cons.1 ha with rfl | ha
      · exact .inr hb
      · exact ih ha

theorem subset (h : Padded extra xs ys) : xs ⊆ ys := by
  induction h with
  | nil => exact List.Subset.refl _
  | kept a _ ih => exact List.cons_subset_cons a ih
  | more _ _ ih => exact List.subset_cons_of_subset _ ih

theorem append_left (h : Padded extra xs ys) (zs : List α) :
    Padded extra (zs ++ xs) (zs ++ ys) := by
  induction zs with
  | nil => exact h
  | cons z zs ih => exact ih.kept z

theorem prepend (h : Padded extra xs ys) {zs : List α} (hzs : ∀ z ∈ zs, extra z) :
    Padded extra xs (zs ++ ys) := by
  induction zs with
  | nil => exact h
  | cons z zs ih =>
      exact (ih fun z hz => hzs z (List.mem_cons_of_mem _ hz)).more (hzs z List.mem_cons_self)

theorem filter (h : Padded extra xs ys) (p : α → Bool) :
    Padded extra (xs.filter p) (ys.filter p) := by
  induction h with
  | nil => exact nil
  | kept a _ ih =>
      rw [List.filter_cons, List.filter_cons]
      split
      · exact ih.kept a
      · exact ih
  | more ha _ ih =>
      rw [List.filter_cons]
      split
      · exact ih.more ha
      · exact ih

theorem flatMap (h : Padded extra xs ys) {f : α → List β} {extra' : β → Prop}
    (hf : ∀ a, extra a → ∀ b ∈ f a, extra' b) : Padded extra' (xs.flatMap f) (ys.flatMap f) := by
  induction h with
  | nil => exact nil
  | kept a _ ih =>
      rw [List.flatMap_cons, List.flatMap_cons]
      exact ih.append_left (f a)
  | more ha _ ih =>
      rw [List.flatMap_cons]
      exact ih.prepend (hf _ ha)

theorem flatMap_eq (h : Padded extra xs ys) {f : α → List β} (hf : ∀ a, extra a → f a = []) :
    ys.flatMap f = xs.flatMap f := by
  induction h with
  | nil => rfl
  | kept a _ ih => rw [List.flatMap_cons, List.flatMap_cons, ih]
  | more ha _ ih => rw [List.flatMap_cons, hf _ ha, List.nil_append, ih]

theorem findSome?_eq (h : Padded extra xs ys) {f : α → Option β} (hf : ∀ a, extra a → f a = none) :
    ys.findSome? f = xs.findSome? f := by
  induction h with
  | nil => rfl
  | kept a _ ih => rw [List.findSome?_cons, List.findSome?_cons, ih]
  | more ha _ ih =>
      rw [List.findSome?_cons, hf _ ha]
      exact ih

end Padded

/-! ### Names of generated classes -/

/-- The names of generated classes: those that end as the names of extension classes do, and those
of the attribute classes. -/
def IsGeneratedClassName (name : String) : Prop :=
  (∃ front, name = front ++ "LocalizationExtensions") ∨ ∃ variant, name = attributeClassName variant

/-- The last segment of the name of a type, without the mark of an absolute name. -/
def simpleTypeName (name : String) : String :=
  withoutStart globalMark (lastSegment '.' name)

theorem splitOn_append_cons (separator : Char) (cs rest : List Char) :
    splitOn separator (cs ++ separator :: rest) =
      splitOn separator cs ++ splitOn separator rest := by
  induction cs with
  | nil => simp only [List.nil_append, splitOn, if_true, List.singleton_append]
  | cons c cs ih =>
      rw [List.cons_append, splitOn, splitOn, ih]
      split
      · rfl
      · obtain ⟨first, others, hsplit⟩ := List.exists_cons_of_ne_nil (splitOn_ne_nil separator cs)
        rw [hsplit]
        rfl

theorem lastSegment_append (lead name : String) :
    lastSegment '.' (lead ++ "." ++ name) = lastSegment '.' name := by
  have hpoint : (lead ++ "." ++ name).toList = lead.toList ++ '.' :: name.toList := by
    simp only [String.toList_append, List.append_assoc]
    rfl
  have hne := splitOn_ne_nil '.' name.toList
  rw [lastSegment, lastSegment, splitString, splitString, hpoint, splitOn_append_cons,
    List.map_append, List.getLastD_eq_getLast?, List.getLastD_eq_getLast?,
    List.getLast?_append_of_ne_nil _ (by simpa using hne)]

theorem simpleTypeName_append (lead name : String) :
    simpleTypeName (lead ++ "." ++ name) = simpleTypeName name := by
  rw [simpleTypeName, lastSegment_append, simpleTypeName]

theorem lastSegment_of_not_mem {name : String} (h : '.' ∉ name.toList) :
    lastSegment '.' name = name := by
  rw [lastSegment, splitString, splitOn_of_not_mem h]
  exact String.ofList_toList

theorem Word.not_mem_text (w : Word) {c : Char} (hc : isWord c = false) : c ∉ w.text.toList := by
  intro hmem
  rw [isWord_of_mem_identifier w.identifier hmem] at hc
  cases hc

theorem withoutStart_word (w : Word) : withoutStart globalMark w.text = w.text := by
  rw [withoutStart]
  cases hmark : afterStart? globalMark w.text with
  | none => rfl
  | some rest =>
      refine absurd ?_ (w.not_mem_text (c := ':') (by decide))
      rw [eq_append_of_afterStart? hmark, String.toList_append]
      exact List.mem_append_left _ (by decide)

/-- A word in a namespace, with the mark of an absolute name or without it, has this word for its
simple name. -/
theorem simpleTypeName_qualify (namespaceName : String) (w : Word) :
    simpleTypeName (qualify namespaceName w.text) = w.text ∧
      simpleTypeName (globalMark ++ qualify namespaceName w.text) = w.text := by
  have hlast := lastSegment_of_not_mem (w.not_mem_text (c := '.') (by decide))
  rw [qualify]
  split
  · refine ⟨by rw [simpleTypeName, hlast, withoutStart_word], ?_⟩
    have hpoint : '.' ∉ (globalMark ++ w.text).toList := by
      rw [String.toList_append, List.mem_append, not_or]
      exact ⟨by decide, w.not_mem_text (by decide)⟩
    rw [simpleTypeName, lastSegment_of_not_mem hpoint, withoutStart, afterStart?,
      String.toList_append, dropStart?_append]
    exact String.ofList_toList
  · refine ⟨by rw [simpleTypeName_append, simpleTypeName, hlast, withoutStart_word], ?_⟩
    rw [← String.append_assoc, ← String.append_assoc, simpleTypeName_append, simpleTypeName, hlast,
      withoutStart_word]

/-- What a name stands for ends in the same simple name. -/
theorem simpleTypeName_of_mem_candidateNames {name other : String} {context : LookupContext}
    {imported : List String}
    (h : other ∈ candidateNames name context.namespaceName imported context.containingTypes) :
    simpleTypeName other = simpleTypeName name := by
  rw [candidateNames, List.mem_append, List.mem_append, ← nearerNames, List.mem_singleton] at h
  rcases h with (h | rfl) | h
  · obtain ⟨lead, rfl⟩ := exists_lead_of_mem_nearerNames h
    exact simpleTypeName_append lead name
  · rfl
  · obtain ⟨lead, _, rfl⟩ := List.mem_map.1 h
    exact simpleTypeName_append lead name

/-! ### Types and files that have nothing to offer -/

/-- **A type that has nothing to offer**: a generated class, without static strings and without
constants. -/
structure TypeDeclaration.Inert (t : TypeDeclaration) : Prop where
  strings : t.staticStringNames = []
  constants : t.constants = []
  generated : ∃ w : Word, IsGeneratedClassName w.text ∧
    t.qualifiedName = qualify t.namespaceName w.text

/-- **A file that has nothing to offer**: no enums, no imports for every file, and only such
types. -/
structure SourceFile.Inert (file : SourceFile) : Prop where
  enums : file.enums = []
  types : ∀ t ∈ file.types, t.Inert
  globalUsings : file.globalUsings = []

/-- A name that leads to such a type ends in the name of a generated class. -/
theorem TypeDeclaration.Inert.isGeneratedClassName {t : TypeDeclaration} (h : t.Inert) :
    IsGeneratedClassName (simpleTypeName t.qualifiedName) ∧
      IsGeneratedClassName (simpleTypeName (globalMark ++ t.qualifiedName)) := by
  obtain ⟨w, hw, hname⟩ := h.generated
  obtain ⟨hplain, hmarked⟩ := simpleTypeName_qualify t.namespaceName w
  rw [hname, hplain, hmarked]
  exact ⟨hw, hw⟩

theorem TypeDeclaration.Inert.valueOf? {t : TypeDeclaration} (h : t.Inert) (name : String) :
    LocalisedEnum.valueOf? name t.constants = none := by
  rw [h.constants]
  rfl

/-! ### What parts make together -/

theorem bind_mergeAll (parts : List TypeDeclaration) (name : String) :
    (mergeAll parts).bind (fun t => valueOf? name t.constants) =
      parts.findSome? fun part => valueOf? name part.constants := by
  cases parts with
  | nil => rfl
  | cons t parts => exact valueOf?_foldl_merge name t parts

theorem staticStringNames_foldl_merge (t : TypeDeclaration) (parts : List TypeDeclaration) :
    (parts.foldl TypeDeclaration.merge t).staticStringNames =
      (t :: parts).flatMap (·.staticStringNames) := by
  rw [TypeDeclaration.staticStringNames, properties_foldl_merge, List.filter_flatMap,
    List.map_flatMap]
  rfl

/-- Parts that have nothing to offer make no difference among others. -/
theorem Padded.mergeAll_rel {parts parts' : List TypeDeclaration}
    (h : Padded TypeDeclaration.Inert parts parts') {name : String}
    (hname : ∀ t ∈ parts', t.qualifiedName = name) (hnone : parts = [] → parts' = []) :
    Option.Rel SameContents (mergeAll parts) (mergeAll parts') := by
  have hstrings := h.flatMap_eq (f := (·.staticStringNames)) fun _ ht => ht.strings
  have hconstants : ∀ constant, (parts'.findSome? fun part => valueOf? constant part.constants) =
      parts.findSome? fun part => valueOf? constant part.constants :=
    fun constant => h.findSome?_eq fun _ ht => ht.valueOf? constant
  cases parts with
  | nil =>
      rw [hnone rfl]
      exact .none
  | cons t parts =>
      have ht := h.subset List.mem_cons_self
      cases parts' with
      | nil => cases ht
      | cons t' parts' =>
          refine .some ⟨?_, fun p => ?_, fun constant => ?_⟩
          · rw [qualifiedName_foldl_merge, qualifiedName_foldl_merge, hname t' List.mem_cons_self,
              hname t ht]
          · rw [staticStringNames_foldl_merge, staticStringNames_foldl_merge, hstrings]
          · rw [valueOf?_foldl_merge, valueOf?_foldl_merge, hconstants]

/-! ### Names -/

section

variable {c c' : Compilation} (h : Padded SourceFile.Inert c.files c'.files)
include h

theorem Padded.enums : c'.enums = c.enums :=
  h.flatMap_eq fun _ hfile => hfile.enums

theorem Padded.globalUsings : c'.globalUsings = c.globalUsings :=
  congrArg List.eraseDups (h.flatMap_eq fun _ hfile => hfile.globalUsings)

theorem Padded.partsOf (name : String) :
    Padded TypeDeclaration.Inert (LocalisedEnum.partsOf c.types name)
      (LocalisedEnum.partsOf c'.types name) :=
  (h.flatMap fun _ hfile => hfile.types).filter _

/-- **A name that no generated class has** leads to types that cannot be told apart. -/
theorem Padded.get?_rel {name : String}
    (hname : ∀ t : TypeDeclaration, t.Inert → t.qualifiedName ≠ name) :
    Option.Rel SameContents (c.typeIndex.get? name) (c'.typeIndex.get? name) := by
  have hparts := h.partsOf name
  have hmem : ∀ t ∈ LocalisedEnum.partsOf c'.types name, t.qualifiedName = name :=
    fun t ht => (mem_partsOf.1 ht).2
  rw [get?_typeIndex, get?_typeIndex]
  refine hparts.mergeAll_rel hmem fun hnone => ?_
  refine List.eq_nil_iff_forall_not_mem.2 fun t ht => ?_
  exact hname t ((hparts.mem ht).resolve_left (hnone ▸ List.not_mem_nil)) (hmem t ht)

/-- **A name that does not end in that of a generated class** leads, where it is used, to such
types. -/
theorem Padded.findType_rel {name : String} (hname : ¬IsGeneratedClassName (simpleTypeName name))
    (context : LookupContext) :
    Option.Rel SameContents (c.findType name context) (c'.findType name context) := by
  simp only [Compilation.findType, h.globalUsings]
  split
  · next absolute hmark =>
    obtain rfl := eq_append_of_afterStart? hmark
    exact h.get?_rel fun t ht heq => hname (heq ▸ ht.isGeneratedClassName.2)
  · refine rel_findSome? fun other hother => h.get?_rel fun t ht heq => hname ?_
    rw [← simpleTypeName_of_mem_candidateNames hother, ← heq]
    exact ht.isGeneratedClassName.1

/-- The constants that lie under a name are the same, whatever the name. -/
theorem Padded.constants (name constant : String) :
    (c.typeIndex.get? name).bind (fun t => valueOf? constant t.constants) =
      (c'.typeIndex.get? name).bind fun t => valueOf? constant t.constants := by
  rw [get?_typeIndex, get?_typeIndex, bind_mergeAll, bind_mergeAll]
  exact ((h.partsOf name).findSome?_eq fun _ ht => ht.valueOf? constant).symm

theorem Padded.constantValue {reference : String}
    (hname : ¬IsGeneratedClassName (simpleTypeName (splitAtLastPoint reference).1))
    (context : LookupContext) :
    LocalisedEnum.constantValue c context reference =
      LocalisedEnum.constantValue c' context reference := by
  have htype : ∀ name : String,
      (c.findType (splitAtLastPoint reference).1 context).bind
          (fun t => LocalisedEnum.valueOf? name t.constants) =
        (c'.findType (splitAtLastPoint reference).1 context).bind fun t =>
          LocalisedEnum.valueOf? name t.constants :=
    fun name => bind_eq_of_rel (h.findType_rel hname context) fun _ _ ht => ht.constants name
  simp only [LocalisedEnum.constantValue, containingConstant, Option.bind_eq_bind, h.constants,
    htype]

end

/-! ### The pass -/

/-- The name of the type that a value refers to. -/
def ArgumentValue.typeName? : ArgumentValue → Option String
  | .typeOf name => some name
  | .raw reference => some (splitAtLastPoint reference).1
  | _ => none

/-- **A compilation whose attributes use no name of a generated class.** -/
def Compilation.AvoidsGenerated (c : Compilation) : Prop :=
  ∀ e ∈ c.enums, ∀ a ∈ e.attributes, ∀ value ∈ a.positional ++ a.named.map Prod.snd,
    ∀ name ∈ value.typeName?, ¬IsGeneratedClassName (simpleTypeName name)

section

variable {c c' : Compilation} (h : Padded SourceFile.Inert c.files c'.files)
  (hc : c.AvoidsGenerated)
include h hc

/-- The names that an enum uses mean the same. -/
theorem sameUse_of_padded {e : EnumDeclaration} (he : e ∈ c.enums) : SameUse c c' e where
  types a ha name hname :=
    h.findType_rel (hc e he a ha _ (List.mem_append_left _ hname) name rfl) e.context
  constants a ha _ reference hreference := by
    refine h.constantValue (hc e he a ha (.raw reference) (List.mem_append_right _ ?_) _ rfl)
      e.context
    exact List.mem_map.2 ⟨_, hreference, rfl⟩

/-- **The pass is the same** with files that have nothing to offer and without them. -/
theorem runPass_of_padded (settings : Settings) : runPass settings c' = runPass settings c := by
  have hcandidates : candidateEnums c' = candidateEnums c := congrArg (List.filter _) h.enums
  have habsorb : ∀ r,
      absorbAll settings c' r (candidateEnums c) = absorbAll settings c r (candidateEnums c) := by
    intro r
    refine List.foldl_ext _ _ _ fun r e he => ?_
    rw [processEnum_sameUse (sameUse_of_padded h hc (List.mem_filter.1 he).1)]
  simp only [absorbAll] at habsorb
  simp only [runPass, hcandidates, habsorb]

end

end LocalisedEnum

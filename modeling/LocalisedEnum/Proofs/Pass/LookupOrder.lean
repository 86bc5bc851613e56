import LocalisedEnum.Declaration.Walk
import LocalisedEnum.Proofs.Pass.AbsoluteNames
import LocalisedEnum.Proofs.Pass.Entries
import Mathlib.Data.List.FinRange

/-!
**The order in which a name is looked up.**

A name that is used at a place is looked for in scopes: inside each type around the place, inside
each namespace around it, as it is written, and inside each namespace that is imported.  Of two
scopes one is nearer, and the name stands for what is declared in the nearest scope that has it.

Imports of the file stand in front of those for every file.  So one more import of the file can be
in the way of what was found through an import for every file, and of nothing else; an import for
every file in a file behind the others is in the way of nothing.

Main definitions:

* `LookupScope` — where a name is looked for, `LookupScope.fullName`, the full name that it has
  there;
* `LookupScope.Nearer` — which of two scopes comes first;
* `LookupContext.importing`, `Compilation.extend` — more imports in a file, and more files.

Main results:

* `pairwise_nearer_lookupScopes`, `mem_lookupScopes` — the scopes, nearest first;
* `findType_eq_findSome?_lookupScopes` — a name is looked up scope by scope;
* `findType_eq_some_iff` — a name stands for what the **nearest scope** declares;
* `findType_order` — **the order of the lookup**, and what imports and files make of it;
* `findType_importing_changed` — an import in front of an import for every file.
-/

set_option autoImplicit false
set_option relaxedAutoImplicit false

namespace LocalisedEnum

/-! ### Scopes -/

/-- The namespaces that some file imports for every file, as often as they are imported. -/
def Compilation.globalImports (c : Compilation) : List String :=
  c.files.flatMap (·.globalUsings)

/-- **A scope of a place**: a type or a namespace around it, which is counted from the outside; all
names as they are written; or a namespace that is imported, which is counted in the order of the
imports. -/
inductive LookupScope (c : Compilation) (context : LookupContext) where
  | inType (depth : Fin context.containingTypes.length)
  | inNamespace (depth : Fin (namespaceSegments context.namespaceName).length)
  | asWritten
  | imported (place : Fin context.usings.length)
  | importedForAll (place : Fin c.globalImports.length)

namespace LookupScope

variable {c : Compilation} {context : LookupContext}

/-- The full name that a name has in a scope. -/
def fullName (name : String) : LookupScope c context → String
  | inType depth =>
      qualify context.namespaceName (joinDots (context.containingTypes.take (depth + 1) ++ [name]))
  | inNamespace depth =>
      joinDots ((namespaceSegments context.namespaceName).take (depth + 1) ++ [name])
  | asWritten => name
  | imported place => context.usings[place] ++ "." ++ name
  | importedForAll place => c.globalImports[place] ++ "." ++ name

/-- The kinds of scopes, in the order in which they are searched. -/
def kind : LookupScope c context → Nat
  | inType _ => 0
  | inNamespace _ => 1
  | asWritten => 2
  | imported _ => 3
  | importedForAll _ => 4

/-- The place of a scope among those of its kind: what is around a place counts from the inside. -/
def offset : LookupScope c context → Nat
  | inType depth => depth.rev
  | inNamespace depth => depth.rev
  | asWritten => 0
  | imported place => place
  | importedForAll place => place

/-- **A scope is nearer than another one**: by its kind, or among those of its kind. -/
def Nearer (s s' : LookupScope c context) : Prop :=
  s.kind < s'.kind ∨ s.kind = s'.kind ∧ s.offset < s'.offset

/-- A scope of the place alone: all scopes but those that are imported for every file. -/
def IsOwn (s : LookupScope c context) : Prop :=
  s.kind < 4

theorem Nearer.irrefl (s : LookupScope c context) : ¬ s.Nearer s := by
  rintro (h | ⟨-, h⟩) <;> exact Nat.lt_irrefl _ h

theorem Nearer.asymm {s s' : LookupScope c context} (h : s.Nearer s') : ¬ s'.Nearer s := by
  unfold Nearer at h ⊢
  omega

/-- **Of two scopes one is nearer.** -/
theorem Nearer.total (s s' : LookupScope c context) : s.Nearer s' ∨ s = s' ∨ s'.Nearer s := by
  rcases Nat.lt_trichotomy s.kind s'.kind with h | h | h
  · exact .inl (.inl h)
  · rcases Nat.lt_trichotomy s.offset s'.offset with hlt | heq | hlt
    · exact .inl (.inr ⟨h, hlt⟩)
    · refine .inr (.inl ?_)
      cases s <;> cases s' <;> cases h
      · exact congrArg _ (Fin.rev_injective (Fin.ext heq))
      · exact congrArg _ (Fin.rev_injective (Fin.ext heq))
      · rfl
      · exact congrArg _ (Fin.ext heq)
      · exact congrArg _ (Fin.ext heq)
    · exact .inr (.inr (.inr ⟨h.symm, hlt⟩))
  · exact .inr (.inr (.inl h))

end LookupScope

/-- The scopes of a place alone, nearest first. -/
def ownScopes (c : Compilation) (context : LookupContext) : List (LookupScope c context) :=
  (List.finRange _).map (.inType ·.rev) ++ ((List.finRange _).map (.inNamespace ·.rev) ++
    ([.asWritten] ++ (List.finRange _).map .imported))

/-- All scopes of a place, nearest first. -/
def lookupScopes (c : Compilation) (context : LookupContext) : List (LookupScope c context) :=
  ownScopes c context ++ (List.finRange _).map .importedForAll

section Scopes

variable {c : Compilation} {context : LookupContext}

theorem mem_ownScopes {s : LookupScope c context} (h : s.IsOwn) : s ∈ ownScopes c context := by
  unfold ownScopes
  cases s with
  | inType depth =>
      exact List.mem_append_left _
        (List.mem_map.2 ⟨depth.rev, List.mem_finRange _, by rw [Fin.rev_rev]⟩)
  | inNamespace depth =>
      refine List.mem_append_right _ (List.mem_append_left _ ?_)
      exact List.mem_map.2 ⟨depth.rev, List.mem_finRange _, by rw [Fin.rev_rev]⟩
  | asWritten =>
      exact List.mem_append_right _
        (List.mem_append_right _ (List.mem_append_left _ List.mem_cons_self))
  | imported place =>
      refine List.mem_append_right _ (List.mem_append_right _ (List.mem_append_right _ ?_))
      exact List.mem_map_of_mem (List.mem_finRange _)
  | importedForAll place => exact absurd h (Nat.lt_irrefl 4)

theorem mem_lookupScopes (s : LookupScope c context) : s ∈ lookupScopes c context := by
  cases s with
  | importedForAll place =>
      exact List.mem_append_right _ (List.mem_map_of_mem (List.mem_finRange _))
  | _ =>
      exact List.mem_append_left _ (mem_ownScopes (by simp [LookupScope.IsOwn, LookupScope.kind]))

theorem kind_lt_of_mem_ownScopes {s : LookupScope c context} (h : s ∈ ownScopes c context) :
    s.kind < 4 := by
  revert h
  cases s <;> simp [ownScopes, LookupScope.kind]

/-- Scopes of one kind that are listed by their offsets. -/
theorem pairwise_nearer_map {n : Nat} {make : Fin n → LookupScope c context} (k : Nat)
    (hkind : ∀ i, (make i).kind = k) (hoffset : ∀ i, (make i).offset = i) :
    ((List.finRange n).map make).Pairwise LookupScope.Nearer := by
  refine List.pairwise_map.2 ((List.pairwise_lt_finRange n).imp fun {i j} hlt => .inr ⟨?_, ?_⟩)
  · rw [hkind, hkind]
  · rw [hoffset, hoffset]
    exact hlt

/-- Scopes of some kinds in front of scopes of later kinds. -/
theorem pairwise_nearer_append {front back : List (LookupScope c context)} (k : Nat)
    (hfront : front.Pairwise LookupScope.Nearer) (hback : back.Pairwise LookupScope.Nearer)
    (hupTo : ∀ s ∈ front, s.kind ≤ k) (hbeyond : ∀ s ∈ back, k < s.kind) :
    (front ++ back).Pairwise LookupScope.Nearer :=
  List.pairwise_append.2
    ⟨hfront, hback, fun s hs s' hs' => .inl (Nat.lt_of_le_of_lt (hupTo s hs) (hbeyond s' hs'))⟩

theorem pairwise_nearer_ownScopes : (ownScopes c context).Pairwise LookupScope.Nearer := by
  have hwritten : ([.asWritten] ++ (List.finRange _).map .imported :
        List (LookupScope c context)).Pairwise LookupScope.Nearer :=
    pairwise_nearer_append 2 (List.pairwise_singleton _ _)
      (pairwise_nearer_map 3 (fun _ => rfl) fun _ => rfl) (by simp [LookupScope.kind])
      (by simp [LookupScope.kind])
  have hinside : ∀ {n : Nat} (i : Fin n), (i.rev.rev : Nat) = i :=
    fun i => congrArg Fin.val (Fin.rev_rev i)
  exact pairwise_nearer_append 0 (pairwise_nearer_map 0 (fun _ => rfl) hinside)
    (pairwise_nearer_append 1 (pairwise_nearer_map 1 (fun _ => rfl) hinside) hwritten
      (by simp [LookupScope.kind]) (by simp [LookupScope.kind]))
    (by simp [LookupScope.kind]) (by simp [LookupScope.kind, or_imp, forall_and])

/-- **The scopes are listed nearest first.** -/
theorem pairwise_nearer_lookupScopes : (lookupScopes c context).Pairwise LookupScope.Nearer :=
  pairwise_nearer_append 3 pairwise_nearer_ownScopes
    (pairwise_nearer_map 4 (fun _ => rfl) fun _ => rfl)
    (fun _ hs => Nat.le_of_lt_succ (kind_lt_of_mem_ownScopes hs)) (by simp [LookupScope.kind])

end Scopes

/-! ### Searching the scopes -/

/-- A search stops at the first of the items that are found. -/
theorem findSome?_eq_some_iff_first {α β : Type} {R : α → α → Prop} (hirrefl : ∀ a, ¬ R a a)
    (hasymm : ∀ a b, R a b → ¬ R b a) {f : α → Option β} {xs : List α} (hxs : xs.Pairwise R)
    {y : β} : xs.findSome? f = some y ↔ ∃ a ∈ xs, f a = some y ∧ ∀ b ∈ xs, R b a → f b = none := by
  constructor
  · intro h
    obtain ⟨front, a, back, rfl, ha, hfront⟩ := List.findSome?_eq_some_iff.1 h
    refine ⟨a, List.mem_append_right _ List.mem_cons_self, ha, fun b hb hba => ?_⟩
    rcases List.mem_append.1 hb with hb | hb
    · exact hfront b hb
    · have hback := (List.pairwise_cons.1 (List.pairwise_append.1 hxs).2.1).1
      rcases List.mem_cons.1 hb with rfl | hb
      · exact absurd hba (hirrefl _)
      · exact absurd hba (hasymm _ _ (hback b hb))
  · rintro ⟨a, ha, hfound, hfirst⟩
    obtain ⟨front, back, rfl⟩ := List.append_of_mem ha
    refine List.findSome?_eq_some_iff.2 ⟨front, a, back, rfl, hfound, fun b hb => ?_⟩
    exact hfirst b (List.mem_append_left _ hb)
      ((List.pairwise_append.1 hxs).2.2 b hb a List.mem_cons_self)

theorem findSome?_filter_ne {α β : Type} [BEq α] [LawfulBEq α] {f : α → Option β} {x : α}
    (hx : f x = none) (xs : List α) :
    (xs.filter fun y => !y == x).findSome? f = xs.findSome? f := by
  induction xs with
  | nil => rfl
  | cons y xs ih =>
      by_cases hy : y = x
      · rw [List.filter_cons_of_neg (by simp [hy]), ih, List.findSome?_cons, hy, hx]
      · rw [List.filter_cons_of_pos (by simp [hy]), List.findSome?_cons, List.findSome?_cons, ih]

/-- What has been searched once need not be searched again. -/
theorem findSome?_eraseDups {α β : Type} [BEq α] [LawfulBEq α] (f : α → Option β) :
    ∀ xs : List α, xs.eraseDups.findSome? f = xs.findSome? f
  | [] => rfl
  | x :: xs => by
      rw [List.eraseDups_cons, List.findSome?_cons, List.findSome?_cons, findSome?_eraseDups f _]
      cases hx : f x with
      | some y => rfl
      | none => exact findSome?_filter_ne hx xs
termination_by xs => xs.length
decreasing_by exact Nat.lt_succ_of_le (List.length_filter_le _ _)

/-- What is around a place, from the inside outwards. -/
theorem outwards_eq_map {α : Type} (xs : List α) :
    outwards xs = (List.finRange xs.length).map fun i => xs.take (i.rev + 1) := by
  induction xs with
  | nil => rfl
  | cons x xs ih =>
      rw [outwards, ih, List.map_map, List.length_cons, List.finRange_succ_last, List.map_append,
        List.map_map]
      refine congrArg₂ _ (List.map_congr_left fun i _ => ?_) ?_
      · rw [Function.comp_apply, Function.comp_apply, Fin.rev_castSucc, Fin.val_succ,
          List.take_succ_cons]
      · rw [List.map_singleton, Fin.rev_last]
        rfl

section Lookup

variable {c : Compilation} {context : LookupContext} {name : String}

theorem joinDots_namespacePart (namespaceName : String) {names : List String} (hne : names ≠ []) :
    joinDots (namespacePart namespaceName ++ names) = qualify namespaceName (joinDots names) := by
  rw [namespacePart, qualify]
  split
  · rfl
  · exact joinDots_append (List.cons_ne_nil _ _) hne

/-- What a name is tried as before it is taken as it is written, scope by scope. -/
theorem nearerNames_eq_map (name : String) (context : LookupContext) :
    nearerNames name context = ((List.finRange _).map fun i =>
        (LookupScope.inType i.rev : LookupScope c context).fullName name) ++
      (List.finRange _).map fun i =>
        (LookupScope.inNamespace i.rev : LookupScope c context).fullName name := by
  rw [nearerNames, outwards_eq_map, outwards_eq_map, List.map_map, List.map_map]
  refine congrArg₂ _ (List.map_congr_left fun i _ => ?_) (List.map_congr_left fun i _ => rfl)
  rw [Function.comp_apply, List.append_assoc]
  exact joinDots_namespacePart _ (List.append_ne_nil_of_right_ne_nil _ (List.cons_ne_nil _ _))

theorem findSome?_finRange {α β : Type} (xs : List α) (f : α → Option β) :
    ((List.finRange xs.length).findSome? fun i => f xs[i]) = xs.findSome? f := by
  have hxs : (List.finRange xs.length).map (fun i => xs[i]) = xs := by
    rw [← List.ofFn_eq_map]
    exact List.ofFn_getElem
  conv_rhs => rw [← hxs, List.findSome?_map]
  rfl

/-- What is declared in some namespaces under a name: the first that there is. -/
def importedType? (c : Compilation) (name : String) (namespaces : List String) :
    Option TypeDeclaration :=
  namespaces.findSome? fun u => c.typeIndex.get? (u ++ "." ++ name)

/-- The type that a name stands for by the scopes of the place alone. -/
def ownType? (c : Compilation) (name : String) (context : LookupContext) : Option TypeDeclaration :=
  (ownScopes c context).findSome? fun s => c.typeIndex.get? (s.fullName name)

theorem ownType?_eq (c : Compilation) (name : String) (context : LookupContext) :
    ownType? c name context = ((nearerNames name context).findSome? c.typeIndex.get?).or
      ((c.typeIndex.get? name).or (importedType? c name context.usings)) := by
  rw [ownType?, ownScopes, nearerNames_eq_map (c := c), importedType?,
    ← findSome?_finRange context.usings]
  simp only [List.findSome?_append, List.findSome?_map, List.findSome?_singleton, Option.or_assoc]
  rfl

/-- A name without the mark of absolute names is looked up at its place, and then in the imports for
every file. -/
theorem findType_eq_or (hmark : afterStart? globalMark name = none) :
    c.findType name context =
      (ownType? c name context).or (importedType? c name c.globalImports) := by
  have himported : (importedNames c name context).findSome? c.typeIndex.get? =
      (importedType? c name context.usings).or (importedType? c name c.globalImports) := by
    rw [importedNames, List.findSome?_map, findSome?_eraseDups, List.findSome?_append,
      Compilation.globalUsings, findSome?_eraseDups]
    rfl
  rw [findType_of_unmarked c context hmark, himported, ownType?_eq, Option.or_assoc,
    Option.or_assoc]

/-- **A name without the mark of absolute names is looked up scope by scope.** -/
theorem findType_eq_findSome?_lookupScopes (hmark : afterStart? globalMark name = none) :
    c.findType name context =
      (lookupScopes c context).findSome? fun s => c.typeIndex.get? (s.fullName name) := by
  rw [findType_eq_or hmark, lookupScopes, List.findSome?_append, List.findSome?_map, importedType?,
    ← findSome?_finRange c.globalImports]
  rfl

/-- **A name stands for what the nearest scope declares** of those that declare it. -/
theorem findType_eq_some_iff (hmark : afterStart? globalMark name = none) {t : TypeDeclaration} :
    c.findType name context = some t ↔ ∃ s : LookupScope c context,
      mergeAll (partsOf c.types (s.fullName name)) = some t ∧
        ∀ s' : LookupScope c context, s'.Nearer s → ¬ Declared c (s'.fullName name) := by
  rw [findType_eq_findSome?_lookupScopes hmark,
    findSome?_eq_some_iff_first LookupScope.Nearer.irrefl (fun _ _ => LookupScope.Nearer.asymm)
      pairwise_nearer_lookupScopes]
  refine exists_congr fun s => ?_
  simp only [mem_lookupScopes, true_and, forall_const, get?_eq_none_iff]
  rw [get?_typeIndex]

theorem findType_eq_none_iff (hmark : afterStart? globalMark name = none) :
    c.findType name context = none ↔
      ∀ s : LookupScope c context, ¬ Declared c (s.fullName name) := by
  rw [findType_eq_findSome?_lookupScopes hmark, List.findSome?_eq_none_iff]
  simp only [mem_lookupScopes, forall_const, get?_eq_none_iff]

end Lookup

/-! ### More imports, and more files -/

/-- A place in a file with more imports. -/
def LookupContext.importing (context : LookupContext) (more : List String) : LookupContext :=
  { context with usings := context.usings ++ more }

/-- A compilation with more files behind the others. -/
def Compilation.extend (c : Compilation) (files : List SourceFile) : Compilation :=
  ⟨c.files ++ files⟩

section More

variable {c : Compilation} {context : LookupContext} {name : String}

theorem ownType?_importing (c : Compilation) (name : String) (context : LookupContext)
    (more : List String) :
    ownType? c name (context.importing more) =
      (ownType? c name context).or (importedType? c name more) := by
  rw [ownType?_eq, ownType?_eq, Option.or_assoc, Option.or_assoc]
  refine congrArg _ (congrArg _ ?_)
  exact List.findSome?_append

theorem findType_marked {c : Compilation} {full : String} (context : LookupContext)
    (hmark : afterStart? globalMark name = some full) :
    c.findType name context = c.typeIndex.get? full := by
  simp only [Compilation.findType, hmark]

/-- **Which imports are in the way** of a type that was found: those behind which the name is
declared, and only if no scope of the place alone declares it. -/
theorem findType_importing_changed {t : TypeDeclaration} (hfind : c.findType name context = some t)
    {more : List String} (hchanged : c.findType name (context.importing more) ≠ some t) :
    (∀ s : LookupScope c context, s.IsOwn → ¬ Declared c (s.fullName name)) ∧
      ∃ u ∈ more, Declared c (u ++ "." ++ name) := by
  cases hmark : afterStart? globalMark name with
  | some full => exact absurd hfind (by rwa [findType_marked _ hmark] at hchanged ⊢)
  | none =>
      rw [findType_eq_or hmark] at hfind hchanged
      rw [ownType?_importing] at hchanged
      cases hown : ownType? c name context with
      | some t' =>
          rw [hown] at hfind hchanged
          exact absurd hfind hchanged
      | none =>
          refine ⟨fun s hs =>
              get?_eq_none_iff.1 (List.findSome?_eq_none_iff.1 hown s (mem_ownScopes hs)), ?_⟩
          by_contra hnone
          push Not at hnone
          refine hchanged ?_
          have hmore : importedType? c name more = none :=
            List.findSome?_eq_none_iff.2 fun u hu => get?_eq_none_iff.2 (hnone u hu)
          rw [hmore, Option.or_none]
          exact hfind

/-- **Files without types are never in the way.** -/
theorem findType_extend {t : TypeDeclaration} (hfind : c.findType name context = some t)
    {files : List SourceFile} (hfiles : ∀ f ∈ files, f.types = []) :
    (c.extend files).findType name context = some t := by
  have htypes : (c.extend files).types = c.types := by
    rw [Compilation.types, Compilation.extend, List.flatMap_append,
      List.flatMap_eq_nil_iff.2 hfiles, List.append_nil]
    rfl
  have hindex : (c.extend files).typeIndex = c.typeIndex := congrArg TypeIndex.ofTypes htypes
  cases hmark : afterStart? globalMark name with
  | some full => rwa [findType_marked _ hmark, hindex, ← findType_marked context hmark]
  | none =>
      have himports : (c.extend files).globalImports =
          c.globalImports ++ files.flatMap (·.globalUsings) :=
        List.flatMap_append
      rw [findType_eq_or hmark, ownType?_eq] at hfind ⊢
      rw [importedType?, importedType?, hindex, himports, List.findSome?_append, ← Option.or_assoc]
      exact Option.or_eq_some_iff.2 (.inl hfind)

/-- **The order of the lookup.**  A name stands for what the nearest scope declares of those that
declare it, so that nothing farther away counts; and for nothing exactly if no scope declares it.
One more import of the file changes what was found only if no scope but the imports for every file
declares the name, and if the import does; more files without types change nothing that was found.
An absolute name stands for the type of just that name. -/
theorem findType_order (c : Compilation) (name : String) (context : LookupContext) :
    (afterStart? globalMark name = none →
      (∀ t, c.findType name context = some t ↔
        ∃ s : LookupScope c context, mergeAll (partsOf c.types (s.fullName name)) = some t ∧
          ∀ s' : LookupScope c context, s'.Nearer s → ¬ Declared c (s'.fullName name)) ∧
      (c.findType name context = none ↔
        ∀ s : LookupScope c context, ¬ Declared c (s.fullName name)) ∧
      ∀ s : LookupScope c context, Declared c (s.fullName name) →
        ∃ s₀, (s₀ = s ∨ s₀.Nearer s) ∧ Declared c (s₀.fullName name) ∧
          c.findType name context = mergeAll (partsOf c.types (s₀.fullName name))) ∧
    (∀ t, c.findType name context = some t →
      (∀ more, c.findType name (context.importing more) ≠ some t →
        (∀ s : LookupScope c context, s.IsOwn → ¬ Declared c (s.fullName name)) ∧
        ∃ u ∈ more, Declared c (u ++ "." ++ name)) ∧
      ∀ files, (∀ f ∈ files, f.types = []) → (c.extend files).findType name context = some t) ∧
    ∀ full, name = globalMark ++ full →
      c.findType name context = mergeAll (partsOf c.types full) := by
  refine
    ⟨fun hmark => ⟨fun t => findType_eq_some_iff hmark, findType_eq_none_iff hmark, fun s hs => ?_⟩,
      fun t hfind =>
        ⟨fun more => findType_importing_changed hfind, fun files => findType_extend hfind⟩, ?_⟩
  · cases hfind : c.findType name context with
    | none => exact absurd hs ((findType_eq_none_iff hmark).1 hfind s)
    | some t =>
        obtain ⟨s₀, hs₀, hfirst⟩ := (findType_eq_some_iff hmark).1 hfind
        refine ⟨s₀, ?_, isSome_get?_iff.1 ?_, hs₀.symm⟩
        · rcases LookupScope.Nearer.total s₀ s with hnearer | heq | hnearer
          · exact .inr hnearer
          · exact .inl heq
          · exact absurd hs (hfirst s hnearer)
        · rw [get?_typeIndex, hs₀]
          rfl
  · rintro full rfl
    have hmark : afterStart? globalMark (globalMark ++ full) = some full := by
      rw [afterStart?, String.toList_append, dropStart?_append, Option.map_some,
        String.ofList_toList]
    rw [findType_marked context hmark, get?_typeIndex]

end More

/-- A type `X` in each of two namespaces, one of which is imported for every file. -/
def globalImportText : String :=
  "global using G; namespace G \x7b class X \x7b \x7d \x7d namespace U \x7b class X \x7b \x7d \x7d"

/-- The type in the namespace that is imported for every file. -/
def globallyImportedType : TypeDeclaration where
  name := "X"
  namespaceName := "G"
  kind := "class"
  accessibility := .internalLevel
  properties := []
  containingTypes := []
  location := ⟨"File0.cs", 1, 31⟩
  constants := []

/-- The declarations of this text. -/
def globalImportFile : SourceFile where
  path := "File0.cs"
  usings := []
  enums := []
  types := [globallyImportedType,
    { globallyImportedType with namespaceName := "U", location := ⟨"File0.cs", 1, 59⟩ }]
  globalUsings := ["G"]

/-- An import of the file is in the way of an import for every file: a lookup that found a type
finds another one. -/
theorem findType_importing_globally_imported :
    readSource "File0.cs" globalImportText = .ok globalImportFile ∧
      Compilation.findType ⟨[globalImportFile]⟩ "X" ⟨"", [], []⟩ = some globallyImportedType ∧
      Compilation.findType ⟨[globalImportFile]⟩ "X" (LookupContext.importing ⟨"", [], []⟩ ["U"]) ≠
        some globallyImportedType := by
  decide +kernel

end LocalisedEnum

import LocalisedEnum.Discovery
import LocalisedEnum.Proofs.FileTree.Operations
import LocalisedEnum.Proofs.Pass.Resolution
import Mathlib.Data.List.Sort
import Mathlib.Data.String.Basic

/-!
**Which files paths stand for.**

What is collected is known by its members: they are sorted, and each is there once, so that the
order in which a tree lists its entries does not matter.  A path stands for itself when it leads to
a file, and for what bears the name of a source file below it when it leads to a directory.  Nobody
asks whether that is a file: a directory of such a name is collected like one.

Main definitions:

* `StandsFor` — what a path stands for;
* `AlikeOutside` — trees that differ below a name, and outside by directories that no path stands
  for.

Main results:

* `eq_sortPaths` — sorted paths are known by their members;
* `collectSources_eq_ok_iff` — **what is collected**;
* `collectSources_congr` — the same is collected in trees in which the paths stand for the same;
* `loadCompilation_outside` — **what is loaded from outside a directory** does not depend on what is
  in it.
-/

set_option autoImplicit false
set_option relaxedAutoImplicit false

namespace LocalisedEnum

/-! ### Sorted paths -/

namespace Path

/-- Paths that texts denote are told apart by what their order goes by. -/
theorem Proper.sortKey_injective {p q : Path} (hp : p.Proper) (hq : q.Proper)
    (h : p.sortKey = q.sortKey) : p = q := by
  obtain ⟨anchor, parts⟩ := p
  obtain ⟨anchor', parts'⟩ := q
  -- No part is the slashes of an anchor.
  have hslash : ∀ {anchor : Anchor} {parts : List String}, (Path.mk anchor parts).Proper →
      "/" ∉ parts ∧ "//" ∉ parts :=
    fun h => ⟨fun hmem => (h _ hmem).2 (by decide), fun hmem => (h _ hmem).2 (by decide)⟩
  cases anchor <;> cases anchor' <;> simp only [sortKey, Anchor.text, if_true, if_false,
    reduceCtorEq, List.nil_append, List.cons_append, List.cons.injEq, true_and] at h <;> subst_vars
  · rfl
  · exact absurd List.mem_cons_self (hslash hp).1
  · exact absurd List.mem_cons_self (hslash hp).2
  · exact absurd List.mem_cons_self (hslash hq).1
  · rfl
  · exact absurd h.1 (by decide)
  · exact absurd List.mem_cons_self (hslash hq).2
  · exact absurd h.1 (by decide)
  · rfl

theorem le_iff {p q : Path} : p.le q = true ↔ p.sortKey ≤ q.sortKey := by
  simp [le]

end Path

theorem mem_distinct {α : Type} [DecidableEq α] {as : List α} {a : α} :
    a ∈ distinct as ↔ a ∈ as := by
  induction as with
  | nil => exact Iff.rfl
  | cons b as ih =>
      simp only [distinct, List.mem_cons, List.mem_filter, ih, decide_eq_true_eq]
      by_cases h : a = b <;> simp [h]

theorem mem_sortPaths {paths : List Path} {p : Path} : p ∈ sortPaths paths ↔ p ∈ paths := by
  rw [sortPaths, (List.mergeSort_perm _ _).mem_iff, mem_distinct]

theorem pairwise_sortPaths (paths : List Path) :
    (sortPaths paths).Pairwise fun p q => p.le q = true := by
  refine List.pairwise_mergeSort (fun p q r hpq hqr => ?_) (fun p q => ?_) _
  · exact Path.le_iff.2 ((Path.le_iff.1 hpq).trans (Path.le_iff.1 hqr))
  · rw [Bool.or_eq_true, Path.le_iff, Path.le_iff]
    exact le_total _ _

/-- **Sorted paths are known by their members.** -/
theorem eq_sortPaths {paths found : List Path} (hproper : ∀ p ∈ paths, p.Proper)
    (hnodup : found.Nodup) (hsorted : found.Pairwise fun p q => p.le q = true)
    (hmem : ∀ p, p ∈ found ↔ p ∈ paths) : found = sortPaths paths := by
  have hperm : found.Perm (sortPaths paths) :=
    (List.perm_ext_iff_of_nodup hnodup (nodup_sortPaths paths)).2 fun p =>
      (hmem p).trans mem_sortPaths.symm
  refine hperm.eq_of_pairwise (fun p q hp hq hpq hqp => ?_) hsorted (pairwise_sortPaths paths)
  exact (hproper p ((hmem p).1 hp)).sortKey_injective (hproper q (mem_sortPaths.1 hq))
    (le_antisymm (Path.le_iff.1 hpq) (Path.le_iff.1 hqp))

/-! ### What one path stands for -/

/-- **What a path stands for**: itself, when it leads to a file, and what bears the name of a source
file below it, when it leads to a directory. -/
inductive StandsFor (t : FileTree) (excluded : List FullName) (p : Path) : Path → Prop
  | itself {name : FullName} {octets : Octets} (hfollow : t.follow p = .ok name)
      (hnode : t.node? name = some (.file octets)) : StandsFor t excluded p p
  | below {here : FullName} {names : List String} {node : Node} (hfollow : t.follow p = .ok here)
      (hdirectory : t.node? here = some .directory) (hnode : t.node? (here ++ names) = some node)
      (hsource : isSourceBelow names = true)
      (hincluded : ∀ name ∈ excluded, ¬name <+: here ++ names) :
      StandsFor t excluded p (p.below names)

theorem ne_nil_of_isSourceBelow {names : List String} (h : isSourceBelow names = true) :
    names ≠ [] := by
  rintro rfl
  exact absurd h (by decide)

theorem mem_sourcesBelow {t : FileTree} (ht : t.WellFormed) {excluded : List FullName} {p q : Path}
    {here : FullName} :
    q ∈ sourcesBelow t excluded p here ↔
      ∃ names node, q = p.below names ∧ t.node? (here ++ names) = some node ∧
        isSourceBelow names = true ∧ ∀ name ∈ excluded, ¬name <+: here ++ names := by
  rw [sourcesBelow, List.mem_filterMap]
  constructor
  · rintro ⟨⟨names, node⟩, hmem, h⟩
    obtain ⟨_, hnode⟩ := ht.mem_descendants_iff.1 hmem
    simp only [Option.ite_none_right_eq_some, Bool.and_eq_true, Bool.not_eq_true',
      List.any_eq_false, List.isPrefixOf_iff_prefix, Option.some.injEq] at h
    exact ⟨names, node, h.2.symm, hnode, h.1.1, h.1.2⟩
  · rintro ⟨names, node, rfl, hnode, hsource, hincluded⟩
    refine ⟨(names, node), ht.mem_descendants_iff.2 ⟨ne_nil_of_isSourceBelow hsource, hnode⟩, ?_⟩
    simpa [hsource] using hincluded

/-- What a path stands for is there when the path leads somewhere. -/
theorem sourcesOf_eq_ok_iff {t : FileTree} {excluded : List FullName} {p : Path} :
    (∃ list, sourcesOf t excluded p = .ok list) ↔ ∃ node, t.find? p = .ok (some node) := by
  rw [sourcesOf]
  cases hfind : t.find? p with
  | error e => simp only [orRefused, bind_eq_ok, reduceCtorEq, false_and, exists_false]
  | ok found =>
      match found with
      | none =>
          simp only [orRefused, bind_eq_ok, Except.ok.injEq, exists_eq_left', reduceCtorEq,
            exists_false]
      | some (.file octets) => exact ⟨fun _ => ⟨_, rfl⟩, fun _ => ⟨_, rfl⟩⟩
      | some .directory =>
          refine ⟨fun _ => ⟨_, rfl⟩, fun _ => ?_⟩
          obtain ⟨here, hfollow, _⟩ := FileTree.find?_eq_some hfind
          refine ⟨sourcesBelow t excluded p here, ?_⟩
          rw [hfollow]
          rfl

theorem mem_sourcesOf {t : FileTree} (ht : t.WellFormed) {excluded : List FullName} {p q : Path}
    {list : List Path} (h : sourcesOf t excluded p = .ok list) :
    q ∈ list ↔ StandsFor t excluded p q := by
  obtain ⟨node, hfind⟩ := sourcesOf_eq_ok_iff.1 ⟨list, h⟩
  obtain ⟨here, hfollow, hnode⟩ := FileTree.find?_eq_some hfind
  rw [sourcesOf, hfind] at h
  cases node with
  | file octets =>
      cases h
      rw [List.mem_singleton]
      constructor
      · rintro rfl
        exact .itself hfollow hnode
      · rintro (⟨_, _⟩ | ⟨hfollow', hdirectory, _⟩)
        · rfl
        · cases hfollow.symm.trans hfollow'
          cases hnode.symm.trans hdirectory
  | directory =>
      rw [hfollow] at h
      cases h
      rw [mem_sourcesBelow ht]
      constructor
      · rintro ⟨names, node, rfl, hthere, hsource, hincluded⟩
        exact .below hfollow hnode hthere hsource hincluded
      · rintro (⟨hfollow', hfile⟩ | ⟨hfollow', _, hthere, hsource, hincluded⟩)
        · cases hfollow.symm.trans hfollow'
          cases hnode.symm.trans hfile
        · cases hfollow.symm.trans hfollow'
          exact ⟨_, _, rfl, hthere, hsource, hincluded⟩

theorem StandsFor.proper {t : FileTree} (ht : t.WellFormed) {excluded : List FullName} {p q : Path}
    (hp : p.Proper) (h : StandsFor t excluded p q) : q.Proper := by
  cases h with
  | itself => exact hp
  | below _ _ hnode _ _ =>
      exact hp.below fun part hpart => ht.isEntryName_of_mem hnode (List.mem_append_right _ hpart)

/-! ### What is collected -/

/-- The lists that are found for paths hold what these stand for. -/
theorem mem_flatten_of_sourcesOf {t : FileTree} (ht : t.WellFormed) {excluded : List FullName}
    {paths : List Path} {lists : List (List Path)}
    (h : paths.mapM (sourcesOf t excluded) = .ok lists) {q : Path} :
    q ∈ lists.flatten ↔ ∃ p ∈ paths, StandsFor t excluded p q := by
  have hforall := mapM_eq_ok h
  rw [List.mem_flatten]
  constructor
  · rintro ⟨list, hlist, hq⟩
    obtain ⟨p, hp, hof⟩ := exists_left_of_mem hforall hlist
    exact ⟨p, hp, (mem_sourcesOf ht hof).1 hq⟩
  · rintro ⟨p, hp, hq⟩
    obtain ⟨list, hlist, hof⟩ := exists_right_of_mem hforall hp
    exact ⟨list, hlist, (mem_sourcesOf ht hof).2 hq⟩

/-- Something is collected, if only the empty list, when each path leads somewhere. -/
theorem exists_collectSources {t : FileTree} {excluded : List FullName} {paths : List Path}
    (h : ∀ p ∈ paths, ∃ node, t.find? p = .ok (some node)) :
    ∃ found, collectSources t excluded paths = .ok found := by
  obtain ⟨lists, hlists⟩ := exists_mapM_eq_ok fun p hp => sourcesOf_eq_ok_iff.2 (h p hp)
  rw [collectSources, hlists]
  exact ⟨_, rfl⟩

/-- **What is collected**: when each path leads somewhere, what the paths stand for, sorted and each
once. -/
theorem collectSources_eq_ok_iff {t : FileTree} (ht : t.WellFormed) {excluded : List FullName}
    {paths found : List Path} (hpaths : ∀ p ∈ paths, p.Proper) :
    collectSources t excluded paths = .ok found ↔
      (∀ p ∈ paths, ∃ node, t.find? p = .ok (some node)) ∧ found.Nodup ∧
      (found.Pairwise fun p q => p.le q = true) ∧
      ∀ q, q ∈ found ↔ ∃ p ∈ paths, StandsFor t excluded p q := by
  rw [collectSources]
  constructor
  · intro h
    obtain ⟨lists, hmap, h⟩ := bind_eq_ok.1 h
    cases h
    refine ⟨fun p hp => ?_, nodup_sortPaths _, pairwise_sortPaths _,
      fun q => mem_sortPaths.trans (mem_flatten_of_sourcesOf ht hmap)⟩
    obtain ⟨list, _, hof⟩ := exists_right_of_mem (mapM_eq_ok hmap) hp
    exact sourcesOf_eq_ok_iff.1 ⟨list, hof⟩
  · rintro ⟨hthere, hnodup, hsorted, hmem⟩
    obtain ⟨lists, hlists⟩ : ∃ lists, paths.mapM (sourcesOf t excluded) = .ok lists :=
      exists_mapM_eq_ok fun p hp => sourcesOf_eq_ok_iff.2 (hthere p hp)
    rw [hlists]
    refine congrArg Except.ok (eq_sortPaths (fun q hq => ?_) hnodup hsorted fun q => ?_).symm
    · obtain ⟨p, hp, hq⟩ := (mem_flatten_of_sourcesOf ht hlists).1 hq
      exact hq.proper ht (hpaths p hp)
    · exact (hmem q).trans (mem_flatten_of_sourcesOf ht hlists).symm

/-- **The same is collected** in trees in which the paths stand for the same. -/
theorem collectSources_congr {t t' : FileTree} (ht : t.WellFormed) (ht' : t'.WellFormed)
    {excluded excluded' : List FullName} {paths found : List Path} (hpaths : ∀ p ∈ paths, p.Proper)
    (h : collectSources t excluded paths = .ok found)
    (hthere :
      ∀ p ∈ paths, ∀ node, t.find? p = .ok (some node) → ∃ node', t'.find? p = .ok (some node'))
    (hsame : ∀ p ∈ paths, ∀ q, StandsFor t' excluded' p q ↔ StandsFor t excluded p q) :
    collectSources t' excluded' paths = .ok found := by
  obtain ⟨hthere', hnodup, hsorted, hmem⟩ := (collectSources_eq_ok_iff ht hpaths).1 h
  refine (collectSources_eq_ok_iff ht' hpaths).2 ⟨fun p hp => ?_, hnodup, hsorted, fun q => ?_⟩
  · obtain ⟨node, hnode⟩ := hthere' p hp
    exact hthere p hp node hnode
  · rw [hmem]
    exact exists_congr fun p => and_congr_right fun hp => (hsame p hp q).symm

/-! ### What is loaded from outside a directory -/

/-- A tree that has become another by changes below a name, and by directories elsewhere that no
path stands for. -/
structure AlikeOutside (out : FullName) (t t' : FileTree) : Prop where
  keeps : t.Keeps t'
  nodes : ∀ name, ¬out <+: name → t'.node? name = t.node? name ∨
    t.node? name = none ∧ t'.node? name = some .directory ∧ isSourceName (name.getLastD "") = false

section

variable {out : FullName} {t t' : FileTree}

namespace AlikeOutside

/-- What is there stays. -/
theorem node?_of_some (h : AlikeOutside out t t') {name : FullName} (hname : ¬out <+: name)
    {node : Node} (hnode : t.node? name = some node) : t'.node? name = some node := by
  rcases h.nodes name hname with hsame | ⟨hnone, _⟩
  · exact hsame.trans hnode
  · cases hnone.symm.trans hnode

/-- What bears the name of a source file was there. -/
theorem node?_below (h : AlikeOutside out t t') {here : FullName} {names : List String}
    (hname : ¬out <+: here ++ names) (hsource : isSourceBelow names = true) {node : Node}
    (hnode : t'.node? (here ++ names) = some node) : t.node? (here ++ names) = some node := by
  rcases h.nodes _ hname with hsame | ⟨_, _, hother⟩
  · exact hsame ▸ hnode
  · obtain ⟨front, last, rfl⟩ : ∃ front last, names = front ++ [last] :=
      ⟨_, _, (List.dropLast_append_getLast (ne_nil_of_isSourceBelow hsource)).symm⟩
    rw [isSourceBelow, Bool.and_eq_true, Bool.and_eq_true] at hsource
    rw [← List.append_assoc, List.getLastD_concat] at hother
    rw [List.getLastD_concat, hother] at hsource
    exact absurd hsource.1.1 Bool.false_ne_true

/-- A path that leads to a directory, or to a file outside, stands for the same. -/
theorem standsFor_iff (h : AlikeOutside out t t') {p : Path} {here : FullName} {node : Node}
    (hfollow : t.follow p = .ok here) (hnode : t.node? here = some node)
    (hgiven : node = .directory ∨ ¬out <+: here) (q : Path) :
    t'.follow p = .ok here ∧ (StandsFor t' [out] p q ↔ StandsFor t [out] p q) := by
  have hnode' : t'.node? here = some node := by
    rcases hgiven with rfl | hout
    · exact h.keeps.directories _ hnode
    · exact h.node?_of_some hout hnode
  have hfollow' := h.keeps.follow hfollow (by rw [hnode']; rfl)
  refine ⟨hfollow', ?_, ?_⟩
  · rintro (⟨hf, hfile⟩ | ⟨hf, hdirectory, hthere, hsource, hincluded⟩)
    · cases hfollow'.symm.trans hf
      cases hnode'.symm.trans hfile
      exact .itself hfollow hnode
    · cases hfollow'.symm.trans hf
      cases hnode'.symm.trans hdirectory
      exact .below hfollow hnode (h.node?_below (hincluded out List.mem_cons_self) hsource hthere)
        hsource hincluded
  · rintro (⟨hf, hfile⟩ | ⟨hf, hdirectory, hthere, hsource, hincluded⟩)
    · cases hfollow.symm.trans hf
      cases hnode.symm.trans hfile
      exact .itself hfollow' hnode'
    · cases hfollow.symm.trans hf
      cases hnode.symm.trans hdirectory
      exact .below hfollow' hnode' (h.node?_of_some (hincluded out List.mem_cons_self) hthere)
        hsource hincluded

end AlikeOutside

theorem loadSource_eq_ok {p : Path} {file : SourceFile} (h : loadSource t p = .ok file) :
    ∃ octets, t.readFile p = .ok octets ∧ readSource p.text (sourceFileText octets) = .ok file := by
  rw [loadSource] at h
  split at h
  · cases h
  · next octets hread =>
    split at h
    · cases h
    · next hsource =>
      cases h
      exact ⟨octets, hread, hsource⟩

theorem loadSource_of_readFile {p : Path} {octets : Octets} {file : SourceFile}
    (hread : t.readFile p = .ok octets)
    (hsource : readSource p.text (sourceFileText octets) = .ok file) :
    loadSource t p = .ok file := by
  rw [loadSource, hread]
  simp only [hsource]

theorem loadCompilation_eq_ok_iff {excluded : List FullName} {paths : List Path} {c : Compilation} :
    loadCompilation t excluded paths = .ok c ↔
      ∃ found, collectSources t excluded paths = .ok found ∧
        List.Forall₂ (fun p file => loadSource t p = .ok file) found c.files := by
  rw [loadCompilation]
  constructor
  · intro h
    obtain ⟨found, hfound, h⟩ := bind_eq_ok.1 h
    obtain ⟨files, hfiles, h⟩ := bind_eq_ok.1 h
    cases h
    exact ⟨found, hfound, mapM_eq_ok hfiles⟩
  · rintro ⟨found, hfound, hfiles⟩
    rw [hfound]
    refine bind_eq_ok.2 ⟨found, rfl, bind_eq_ok.2 ⟨c.files, mapM_of_forall₂ hfiles, rfl⟩⟩

/-- What a path stands for and can be read stands outside. -/
theorem StandsFor.outside (ht : t.WellFormed) {p q : Path} (h : StandsFor t [out] p q)
    (hgiven :
      ∀ name octets, t.follow p = .ok name → t.node? name = some (.file octets) → ¬out <+: name)
    {name : FullName} {octets : Octets} (hfollow : t.follow q = .ok name)
    (hnode : t.node? name = some (.file octets)) : ¬out <+: name := by
  cases h with
  | itself => exact hgiven name octets hfollow hnode
  | @below here names _ hhere hdirectory hthere hsource hincluded =>
      have hname := FileTree.fullName_below (FileTree.follow_eq_ok hhere) fun part hpart =>
        ht.isEntryName_of_mem hthere (List.mem_append_right _ hpart)
      cases (FileTree.follow_eq_ok hfollow).symm.trans hname
      exact hincluded out List.mem_cons_self

/-- **What is loaded from outside a directory** does not depend on what is in it. -/
theorem loadCompilation_outside (ht : t.WellFormed) (h : AlikeOutside out t t') {paths : List Path}
    (hpaths : ∀ p ∈ paths, p.Proper)
    (hgiven : ∀ p ∈ paths,
      ∀ name octets, t.follow p = .ok name → t.node? name = some (.file octets) → ¬out <+: name)
    {c : Compilation} (hload : loadCompilation t [out] paths = .ok c) :
    loadCompilation t' [out] paths = .ok c := by
  obtain ⟨found, hfound, hfiles⟩ := loadCompilation_eq_ok_iff.1 hload
  obtain ⟨hthere, _, _, hmem⟩ := (collectSources_eq_ok_iff ht hpaths).1 hfound
  -- Each path leads where it led.
  have hleads : ∀ p ∈ paths, ∃ here node, t.follow p = .ok here ∧ t.node? here = some node ∧
      (node = .directory ∨ ¬out <+: here) := by
    intro p hp
    obtain ⟨node, hfind⟩ := hthere p hp
    obtain ⟨here, hfollow, hnode⟩ := FileTree.find?_eq_some hfind
    refine ⟨here, node, hfollow, hnode, ?_⟩
    cases node with
    | directory => exact .inl rfl
    | file octets => exact .inr (hgiven p hp here octets hfollow hnode)
  refine loadCompilation_eq_ok_iff.2 ⟨found, ?_, ?_⟩
  · refine collectSources_congr ht h.keeps.wellFormed hpaths hfound (fun p hp node _ => ?_)
      fun p hp q => ?_
    · obtain ⟨here, node, hfollow, hnode, hgiven⟩ := hleads p hp
      have hfollow' := (h.standsFor_iff hfollow hnode hgiven p).1
      obtain ⟨node', hnode'⟩ : ∃ node', t'.node? here = some node' :=
        Option.isSome_iff_exists.1
          (h.keeps.wellFormed.isSome_of_steps (FileTree.followParts_eq_ok.1 hfollow').2.2)
      exact ⟨node', by rw [FileTree.find?_of_follow hfollow', hnode']⟩
    · obtain ⟨here, node, hfollow, hnode, hgiven⟩ := hleads p hp
      exact (h.standsFor_iff hfollow hnode hgiven q).2
  · refine forall₂_imp_of_mem hfiles fun q hq file hfile => ?_
    obtain ⟨octets, hread, hsource⟩ := loadSource_eq_ok hfile
    obtain ⟨name, hfollow, hnode⟩ := FileTree.readFile_eq_ok hread
    obtain ⟨p, hp, hstands⟩ := (hmem q).1 hq
    have hnode' := h.node?_of_some (hstands.outside ht (hgiven p hp) hfollow hnode) hnode
    have hfollow' := h.keeps.follow hfollow (by rw [hnode']; rfl)
    exact loadSource_of_readFile (FileTree.readFile_of_follow hfollow' hnode') hsource

end

end LocalisedEnum

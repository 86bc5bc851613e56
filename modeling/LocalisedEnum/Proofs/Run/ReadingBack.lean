import LocalisedEnum.Proofs.FileTree.Discovery
import LocalisedEnum.Proofs.Pass.GeneratedFiles

/-!
**Generated files that are read back.**

A directory of generated files may be excluded when source files are collected, or its files may be
collected with the others.  What is collected besides them is the same; and when only generated
files have the names of source files in the directory, what is read of them has nothing to offer.
So the compilations that are loaded are the same but for such files, whatever was generated between:
all that is needed is that what is collected are files, and can be read.

Main definitions:

* `isSourceWithin` — the names of source files below a name;
* `AlikeBeside` — trees that differ by such files, and elsewhere by new directories;
* `Readable` — everything that paths stand for can be read.

Main results:

* `filter_found` — **what is collected besides** is the same;
* `readable_iff` — when everything can be read;
* `exists_load_of_readable` — **what is loaded with them**.
-/

set_option autoImplicit false
set_option relaxedAutoImplicit false

namespace LocalisedEnum

/-! ### Source files below a name -/

/-- Whether a name is that of a source file below another. -/
def isSourceWithin (out name : FullName) : Bool :=
  out.isPrefixOf name && isSourceName (name.getLastD "")

theorem isSourceWithin_iff {out name : FullName} :
    isSourceWithin out name = true ↔ out <+: name ∧ isSourceName (name.getLastD "") = true := by
  rw [isSourceWithin, Bool.and_eq_true, List.isPrefixOf_iff_prefix]

theorem isSourceWithin_append {out here : FullName} {names : List String}
    (h : isSourceBelow names = true) :
    isSourceWithin out (here ++ names) = true ↔ out <+: here ++ names := by
  obtain ⟨front, last, rfl⟩ : ∃ front last, names = front ++ [last] :=
    ⟨_, _, (List.dropLast_append_getLast (ne_nil_of_isSourceBelow h)).symm⟩
  rw [isSourceBelow, Bool.and_eq_true, Bool.and_eq_true, List.getLastD_concat] at h
  rw [isSourceWithin_iff, ← List.append_assoc, List.getLastD_concat]
  exact and_iff_left h.1.1

/-- Whether a path spells such a name. -/
def FileTree.spellsWithin (t : FileTree) (out : FullName) (p : Path) : Bool :=
  match t.fullName p with
  | .ok name => isSourceWithin out name
  | .error _ => false

theorem FileTree.spellsWithin_of_fullName {t : FileTree} {out name : FullName} {p : Path}
    (h : t.fullName p = .ok name) : t.spellsWithin out p = isSourceWithin out name := by
  rw [spellsWithin, h]

/-- Trees that differ in source files below a name, and elsewhere by new directories.  No file has
become a directory. -/
structure AlikeBeside (out : FullName) (t t' : FileTree) : Prop where
  keeps : t.Keeps t'
  nodes : ∀ name, isSourceWithin out name = false → t'.node? name = t.node? name ∨
    t.node? name = none ∧ t'.node? name = some .directory
  files : ∀ name octets, t.node? name = some (.file octets) → t'.node? name ≠ some .directory

section

variable {out : FullName} {t t' : FileTree}

namespace AlikeBeside

theorem refl (ht : t.WellFormed) : AlikeBeside out t t where
  keeps := .refl ht
  nodes _ _ := .inl rfl
  files _ _ h h' := by cases h.symm.trans h'

theorem node?_of_some (h : AlikeBeside out t t') {name : FullName}
    (hname : isSourceWithin out name = false) {node : Node} (hnode : t.node? name = some node) :
    t'.node? name = some node := by
  rcases h.nodes name hname with hsame | ⟨hnone, _⟩
  · exact hsame.trans hnode
  · cases hnone.symm.trans hnode

/-- A file that stands elsewhere was there before. -/
theorem node?_of_file (h : AlikeBeside out t t') {name : FullName}
    (hname : isSourceWithin out name = false) {octets : Octets}
    (hnode : t'.node? name = some (.file octets)) : t.node? name = some (.file octets) := by
  rcases h.nodes name hname with hsame | ⟨_, hnew⟩
  · exact hsame ▸ hnode
  · cases hnode.symm.trans hnew

/-- A file that stands elsewhere is read as before. -/
theorem readFile (h : AlikeBeside out t t') {q : Path} (hq : t.spellsWithin out q = false)
    {octets : Octets} (hread : t.readFile q = .ok octets) : t'.readFile q = .ok octets := by
  obtain ⟨name, hfollow, hnode⟩ := FileTree.readFile_eq_ok hread
  rw [FileTree.spellsWithin_of_fullName (FileTree.follow_eq_ok hfollow)] at hq
  have hnode' := h.node?_of_some hq hnode
  exact FileTree.readFile_of_follow (h.keeps.follow hfollow (by rw [hnode']; rfl)) hnode'

/-- What a path stands for elsewhere, it goes on standing for. -/
theorem standsFor (h : AlikeBeside out t t') (ht : t.WellFormed) {p q : Path}
    (hq : t.spellsWithin out q = false) (hstands : StandsFor t [out] p q) :
    StandsFor t' [] p q := by
  cases hstands with
  | itself hfollow hnode =>
      rw [FileTree.spellsWithin_of_fullName (FileTree.follow_eq_ok hfollow)] at hq
      have hnode' := h.node?_of_some hq hnode
      exact .itself (h.keeps.follow hfollow (by rw [hnode']; rfl)) hnode'
  | below hfollow hdirectory hnode hsource _ =>
      have hname := FileTree.fullName_below (FileTree.follow_eq_ok hfollow) fun part hpart =>
        ht.isEntryName_of_mem hnode (List.mem_append_right _ hpart)
      rw [FileTree.spellsWithin_of_fullName hname] at hq
      exact .below (h.keeps.follow_directory hfollow hdirectory) (h.keeps.directories _ hdirectory)
        (h.node?_of_some hq hnode) hsource nofun

/-- What a path stands for elsewhere and can be read, it stood for before. -/
theorem standsFor_of_readFile (h : AlikeBeside out t t') {p q : Path} {here : FullName}
    {node : Node} (hfollow : t.follow p = .ok here) (hnode : t.node? here = some node)
    (hq : t.spellsWithin out q = false) (hread : ∃ octets, t'.readFile q = .ok octets)
    (hstands : StandsFor t' [] p q) : StandsFor t [out] p q := by
  have hplace := FileTree.follow_eq_ok hfollow
  cases hstands with
  | itself hfollow' hfile =>
      cases (FileTree.follow_eq_ok hfollow').symm.trans ((h.keeps.fullName p).trans hplace)
      rw [FileTree.spellsWithin_of_fullName hplace] at hq
      exact .itself hfollow (h.node?_of_file hq hfile)
  | @below here' names _ hfollow' hdirectory hthere hsource _ =>
      cases (FileTree.follow_eq_ok hfollow').symm.trans ((h.keeps.fullName p).trans hplace)
      obtain rfl : node = .directory := by
        cases node with
        | directory => rfl
        | file octets => exact absurd hdirectory (h.files _ octets hnode)
      have hname := FileTree.fullName_below hplace fun part hpart =>
        h.keeps.wellFormed.isEntryName_of_mem hthere (List.mem_append_right _ hpart)
      obtain ⟨octets, hread⟩ := hread
      obtain ⟨name, hfollowed, hfile⟩ := FileTree.readFile_eq_ok hread
      cases (FileTree.follow_eq_ok hfollowed).symm.trans ((h.keeps.fullName _).trans hname)
      rw [FileTree.spellsWithin_of_fullName hname] at hq
      refine .below hfollow hnode (h.node?_of_file hq hfile) hsource fun name hmem hprefix => ?_
      obtain rfl := List.mem_singleton.1 hmem
      rw [(isSourceWithin_append hsource).2 hprefix] at hq
      cases hq

end AlikeBeside

/-! ### What is collected besides -/

/-- Sorted lists of paths with the same members are the same. -/
theorem eq_of_mem_iff {found found' : List Path} (hproper : ∀ p ∈ found, p.Proper)
    (hnodup : found.Nodup) (hnodup' : found'.Nodup)
    (hsorted : found.Pairwise fun p q => p.le q = true)
    (hsorted' : found'.Pairwise fun p q => p.le q = true) (hmem : ∀ p, p ∈ found' ↔ p ∈ found) :
    found' = found :=
  (eq_sortPaths hproper hnodup' hsorted' hmem).trans
    (eq_sortPaths hproper hnodup hsorted fun _ => Iff.rfl).symm

/-- **What is collected besides the files of a directory** is the same, whether or not they are
collected too and whatever has become of them. -/
theorem filter_found (h : AlikeBeside out t t') (ht : t.WellFormed) {paths found found' : List Path}
    (hpaths : ∀ p ∈ paths, p.Proper) (hfound : collectSources t [out] paths = .ok found)
    (hfound' : collectSources t' [] paths = .ok found')
    (hread : ∀ q ∈ found', ∃ octets, t'.readFile q = .ok octets) :
    found'.filter (!t.spellsWithin out ·) = found.filter (!t.spellsWithin out ·) := by
  obtain ⟨hthere, hnodup, hsorted, hmem⟩ := (collectSources_eq_ok_iff ht hpaths).1 hfound
  obtain ⟨_, hnodup', hsorted', hmem'⟩ :=
    (collectSources_eq_ok_iff h.keeps.wellFormed hpaths).1 hfound'
  refine eq_of_mem_iff (fun q hq => ?_) (hnodup.filter _) (hnodup'.filter _) (hsorted.filter _)
    (hsorted'.filter _) fun q => ?_
  · obtain ⟨p, hp, hstands⟩ := (hmem q).1 (List.mem_filter.1 hq).1
    exact hstands.proper ht (hpaths p hp)
  · rw [List.mem_filter, List.mem_filter, Bool.not_eq_true']
    refine and_congr_left fun hq => ⟨fun hqmem => ?_, fun hqmem => ?_⟩
    · obtain ⟨p, hp, hstands⟩ := (hmem' q).1 hqmem
      obtain ⟨node, hfind⟩ := hthere p hp
      obtain ⟨here, hfollow, hnode⟩ := FileTree.find?_eq_some hfind
      exact (hmem q).2 ⟨p, hp, h.standsFor_of_readFile hfollow hnode hq (hread q hqmem) hstands⟩
    · obtain ⟨p, hp, hstands⟩ := (hmem q).1 hqmem
      exact (hmem' q).2 ⟨p, hp, h.standsFor ht hq hstands⟩

/-! ### What is loaded -/

/-- Everything that paths stand for can be read. -/
def Readable (t : FileTree) (paths : List Path) : Prop :=
  ∃ found, collectSources t [] paths = .ok found ∧ ∀ q ∈ found, ∃ octets, t.readFile q = .ok octets

/-- **When everything can be read**: each path leads somewhere, and what bears the name of a source
file below a directory is a file whose path is not too long. -/
theorem readable_iff (ht : t.WellFormed) {paths : List Path} (hpaths : ∀ p ∈ paths, p.Proper) :
    Readable t paths ↔ (∀ p ∈ paths, ∃ node, t.find? p = .ok (some node)) ∧
      ∀ p ∈ paths, ∀ here names node, t.follow p = .ok here → t.node? here = some .directory →
        t.node? (here ++ names) = some node → isSourceBelow names = true →
        node ≠ .directory ∧ (p.below names).text.utf8ByteSize ≤ FileTree.greatestPathSize := by
  constructor
  · rintro ⟨found, hfound, hread⟩
    obtain ⟨hthere, _, _, hmem⟩ := (collectSources_eq_ok_iff ht hpaths).1 hfound
    refine ⟨hthere, fun p hp here names node hfollow hdirectory hnode hsource => ?_⟩
    obtain ⟨octets, hread⟩ :=
      hread _ ((hmem _).2 ⟨p, hp, .below hfollow hdirectory hnode hsource nofun⟩)
    obtain ⟨name, hfollowed, hfile⟩ := FileTree.readFile_eq_ok hread
    have hname := FileTree.fullName_below (FileTree.follow_eq_ok hfollow) fun part hpart =>
      ht.isEntryName_of_mem hnode (List.mem_append_right _ hpart)
    cases (FileTree.follow_eq_ok hfollowed).symm.trans hname
    refine ⟨?_, (FileTree.followParts_eq_ok.1 hfollowed).2.1⟩
    rintro rfl
    cases hnode.symm.trans hfile
  · rintro ⟨hthere, hbelow⟩
    obtain ⟨found, hfound⟩ : ∃ found, collectSources t [] paths = .ok found :=
      exists_collectSources hthere
    obtain ⟨_, _, _, hmem⟩ := (collectSources_eq_ok_iff ht hpaths).1 hfound
    refine ⟨found, hfound, fun q hq => ?_⟩
    obtain ⟨p, hp, hstands⟩ := (hmem q).1 hq
    cases hstands with
    | itself hfollow hfile => exact ⟨_, FileTree.readFile_of_follow hfollow hfile⟩
    | @below here names node hfollow hdirectory hnode hsource _ =>
        obtain ⟨hfile, hshort⟩ := hbelow p hp here names node hfollow hdirectory hnode hsource
        cases node with
        | directory => exact absurd rfl hfile
        | file octets =>
            exact ⟨octets,
              FileTree.readFile_of_follow (FileTree.follow_below ht hfollow hnode hshort) hnode⟩

theorem readable_of_load {paths : List Path} {c : Compilation}
    (h : loadCompilation t [] paths = .ok c) : Readable t paths := by
  obtain ⟨found, hfound, hfiles⟩ := loadCompilation_eq_ok_iff.1 h
  refine ⟨found, hfound, fun q hq => ?_⟩
  obtain ⟨file, _, hfile⟩ := exists_right_of_mem hfiles hq
  obtain ⟨octets, hread, _⟩ := loadSource_eq_ok hfile
  exact ⟨octets, hread⟩

/-- The partners of some members of a list, when those of the others are of a kind. -/
theorem exists_padded {α β : Type} {R : α → β → Prop} {extra : β → Prop} {xs : List α} {ys : List β}
    (h : List.Forall₂ R xs ys) {p : α → Bool}
    (hextra : ∀ x ∈ xs, p x = false → ∀ y, R x y → extra y) :
    ∃ zs, List.Forall₂ R (xs.filter p) zs ∧ Padded extra zs ys := by
  induction h with
  | nil => exact ⟨[], .nil, .nil⟩
  | @cons x y _ _ hxy _ ih =>
      obtain ⟨zs, hzs, hpadded⟩ := ih fun x hx => hextra x (List.mem_cons_of_mem _ hx)
      cases hx : p x with
      | true =>
          refine ⟨y :: zs, ?_, hpadded.kept y⟩
          rw [List.filter_cons_of_pos hx]
          exact .cons hxy hzs
      | false =>
          refine ⟨zs, ?_, hpadded.more (hextra x List.mem_cons_self hx y hxy)⟩
          rwa [List.filter_cons_of_neg (by rw [hx]; exact Bool.false_ne_true)]

/-- Source files below a name that are all earlier output. -/
def HoldsOutput (out : FullName) (t : FileTree) : Prop :=
  ∀ name octets, isSourceWithin out name = true → t.node? name = some (.file octets) →
    IsOutput octets

/-- What is read of a file of the directory has nothing to offer. -/
theorem HoldsOutput.readSource (h : HoldsOutput out t) {q : Path} (hq : t.spellsWithin out q = true)
    {octets : Octets} (hread : t.readFile q = .ok octets) :
    ∃ file, loadSource t q = .ok file ∧ file.Inert := by
  obtain ⟨name, hfollow, hnode⟩ := FileTree.readFile_eq_ok hread
  rw [FileTree.spellsWithin_of_fullName (FileTree.follow_eq_ok hfollow)] at hq
  obtain ⟨file, hsource, hinert⟩ := (h name octets hq hnode).readSource q.text
  exact ⟨file, loadSource_of_readFile hread hsource, hinert⟩

theorem HoldsOutput.inert (h : HoldsOutput out t) {q : Path} (hq : t.spellsWithin out q = true)
    {file : SourceFile} (hload : loadSource t q = .ok file) : file.Inert := by
  obtain ⟨octets, hread, _⟩ := loadSource_eq_ok hload
  obtain ⟨file', hload', hinert⟩ := h.readSource hq hread
  cases hload.symm.trans hload'
  exact hinert

/-- **What is loaded with the files of the directory** is the same as without them, but for files
that have nothing to offer. -/
theorem exists_load_of_readable (h : AlikeBeside out t t') (ht : t.WellFormed)
    (hholds : HoldsOutput out t) (hholds' : HoldsOutput out t') {paths : List Path}
    (hpaths : ∀ p ∈ paths, p.Proper) {c : Compilation}
    (hload : loadCompilation t [out] paths = .ok c) (hread : Readable t' paths) :
    ∃ c' users, loadCompilation t' [] paths = .ok c' ∧ Padded SourceFile.Inert users c.files ∧
      Padded SourceFile.Inert users c'.files := by
  obtain ⟨found, hfound, hfiles⟩ := loadCompilation_eq_ok_iff.1 hload
  obtain ⟨found', hfound', hread⟩ := hread
  have hfilter := filter_found h ht hpaths hfound hfound' hread
  have hwithin : ∀ q, t'.spellsWithin out q = t.spellsWithin out q := fun q => by
    rw [FileTree.spellsWithin, h.keeps.fullName, ← FileTree.spellsWithin]
  -- What stands elsewhere is loaded as before.
  have hsame : ∀ q ∈ found.filter (!t.spellsWithin out ·), ∀ file, loadSource t q = .ok file →
      loadSource t' q = .ok file := by
    intro q hq file hfile
    obtain ⟨octets, hread, hsource⟩ := loadSource_eq_ok hfile
    exact loadSource_of_readFile (h.readFile (by simpa using (List.mem_filter.1 hq).2) hread)
      hsource
  have hloads : ∀ q ∈ found', ∃ file, loadSource t' q = .ok file := by
    intro q hq
    cases hwhere : t.spellsWithin out q with
    | true =>
        obtain ⟨octets, hread⟩ := hread q hq
        obtain ⟨file, hfile, _⟩ := hholds'.readSource ((hwithin q).trans hwhere) hread
        exact ⟨file, hfile⟩
    | false =>
        have hmem : q ∈ found.filter (!t.spellsWithin out ·) :=
          hfilter ▸ List.mem_filter.2 ⟨hq, by rw [hwhere]; rfl⟩
        obtain ⟨file, _, hfile⟩ := exists_right_of_mem hfiles (List.mem_filter.1 hmem).1
        exact ⟨file, hsame q hmem file hfile⟩
  obtain ⟨files', hmap⟩ := exists_mapM_eq_ok hloads
  have hfiles' := mapM_eq_ok hmap
  obtain ⟨users, husers, hpadded⟩ := exists_padded hfiles (p := (!t.spellsWithin out ·))
    fun q _ hq file hfile => hholds.inert (by simpa using hq) hfile
  obtain ⟨users', husers', hpadded'⟩ := exists_padded hfiles' (p := (!t.spellsWithin out ·))
    fun q _ hq file hfile => hholds'.inert ((hwithin q).trans (by simpa using hq)) hfile
  obtain rfl : users' = users := by
    rw [hfilter] at husers'
    exact Except.ok.inj ((mapM_of_forall₂ husers').symm.trans
      (mapM_of_forall₂ (forall₂_imp_of_mem husers hsame)))
  exact
    ⟨⟨files'⟩, users', loadCompilation_eq_ok_iff.2 ⟨found', hfound', hfiles'⟩, hpadded, hpadded'⟩

end

end LocalisedEnum

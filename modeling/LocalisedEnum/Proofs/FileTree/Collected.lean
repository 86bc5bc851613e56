import LocalisedEnum.Proofs.FileTree.Discovery

/-!
**What is collected, and what it is.**

What is collected is told apart by its spelling.  So a file is collected twice when two paths that
are given spell its name in different ways: one of them has double points, or they start at
different anchors.  Where no path has double points and all start at one anchor, each file is
collected once.

What is collected from a directory is known by its name.  So directories that bear the name of a
source file are collected too, and nothing else that is not a file; and then no compilation is
loaded.  A compilation that is loaded has one source file for each path that is collected, and each
of them leads to a file.

Main definitions:

* `SourcesAreFiles` — no directory below a path bears the name of a source file.

Main results:

* `StandsFor.place` — where what a path stands for is;
* `StandsFor.eq_of_fullName` — when one spelling means one file;
* `collectSources_files` — **what is collected**.
-/

set_option autoImplicit false
set_option relaxedAutoImplicit false

namespace LocalisedEnum

section

variable {t : FileTree} {excluded : List FullName} {p p' q q' : Path}

/-! ### One path -/

/-- **No directory below a path bears the name of a source file**, but for those that are
excluded. -/
def SourcesAreFiles (t : FileTree) (excluded : List FullName) (p : Path) : Prop :=
  ∀ here names, t.follow p = .ok here → isSourceBelow names = true →
    (∀ name ∈ excluded, ¬name <+: here ++ names) → t.node? (here ++ names) ≠ some .directory

/-- **Where what a path stands for is.** -/
theorem StandsFor.place (h : StandsFor t excluded p q) (ht : t.WellFormed) :
    ∃ name node, t.fullName q = .ok name ∧ t.node? name = some node := by
  cases h with
  | itself hfollow hnode => exact ⟨_, _, FileTree.follow_eq_ok hfollow, hnode⟩
  | below hfollow _ hnode _ _ =>
      refine
        ⟨_, _, FileTree.fullName_below (FileTree.follow_eq_ok hfollow) fun part hpart => ?_, hnode⟩
      exact ht.isEntryName_of_mem hnode (List.mem_append_right _ hpart)

/-- What a path stands for is a file where no directory bears the name of one. -/
theorem StandsFor.file (h : StandsFor t excluded p q) (ht : t.WellFormed)
    (hfiles : SourcesAreFiles t excluded p) :
    ∃ name octets, t.fullName q = .ok name ∧ t.node? name = some (.file octets) := by
  obtain ⟨name, node, hname, hnode⟩ := h.place ht
  cases node with
  | file octets => exact ⟨name, octets, hname, hnode⟩
  | directory =>
      exfalso
      cases h with
      | itself hfollow hfile =>
          cases (FileTree.follow_eq_ok hfollow).symm.trans hname
          cases hfile.symm.trans hnode
      | below hfollow _ hthere hsource hincluded =>
          have hbelow := FileTree.fullName_below (FileTree.follow_eq_ok hfollow) fun part hpart =>
            ht.isEntryName_of_mem hthere (List.mem_append_right _ hpart)
          cases hbelow.symm.trans hname
          exact hfiles _ _ hfollow hsource hincluded hnode

/-- A directory that bears the name of a source file is one of those that a path stands for. -/
theorem sourcesAreFiles_of_files (ht : t.WellFormed)
    (h : ∀ q, StandsFor t excluded p q →
      ∃ name octets, t.fullName q = .ok name ∧ t.node? name = some (.file octets)) :
    SourcesAreFiles t excluded p := by
  intro here names hfollow hsource hincluded hdirectory
  obtain ⟨part, rest, rfl⟩ := List.exists_cons_of_ne_nil (ne_nil_of_isSourceBelow hsource)
  have hhere := ht.directory_of_append hdirectory
  obtain ⟨name, octets, hname, hfile⟩ := h _ (.below hfollow hhere hdirectory hsource hincluded)
  have hbelow := FileTree.fullName_below (FileTree.follow_eq_ok hfollow) fun part hpart =>
    ht.isEntryName_of_mem hdirectory (List.mem_append_right _ hpart)
  cases hbelow.symm.trans hname
  cases hdirectory.symm.trans hfile

/-- What a path stands for starts where the path does, and has double points only where the path has
some. -/
theorem StandsFor.spelling (h : StandsFor t excluded p q) (ht : t.WellFormed) :
    q.anchor = p.anchor ∧ (".." ∈ q.parts → ".." ∈ p.parts) := by
  cases h with
  | itself => exact ⟨rfl, id⟩
  | below _ _ hnode _ _ =>
      refine ⟨rfl, fun hdots => (List.mem_append.1 hdots).resolve_right fun hnames => ?_⟩
      exact (isEntryName_iff.1 (ht.isEntryName_of_mem hnode (List.mem_append_right _ hnames))).2.1
        rfl

/-- **When one spelling means one file**: paths without double points and from one anchor do not
have one full name in two ways. -/
theorem StandsFor.eq_of_fullName (h : StandsFor t excluded p q) (h' : StandsFor t excluded p' q')
    (ht : t.WellFormed) (hp : ".." ∉ p.parts) (hp' : ".." ∉ p'.parts)
    (hanchor : p.anchor = p'.anchor) (hname : t.fullName q = t.fullName q') : q = q' := by
  obtain ⟨name, _, hplace, _⟩ := h.place ht
  obtain ⟨hq, hdots⟩ := h.spelling ht
  obtain ⟨hq', hdots'⟩ := h'.spelling ht
  obtain ⟨_, hspell⟩ := FileTree.fullName_eq_ok.1 hplace
  obtain ⟨_, hspell'⟩ := FileTree.fullName_eq_ok.1 (hname ▸ hplace)
  have hsame : q.anchor = q'.anchor := hq.trans (hanchor.trans hq'.symm)
  have hstart : t.start q = t.start q' := by rw [FileTree.start, FileTree.start, hsame]
  rw [FileTree.spell_forward (mt hdots hp)] at hspell
  rw [FileTree.spell_forward (mt hdots' hp'), ← hstart] at hspell'
  obtain ⟨anchor, parts⟩ := q
  obtain ⟨anchor', parts'⟩ := q'
  cases List.append_cancel_left (hspell.trans hspell'.symm)
  cases hsame
  rfl

end

/-! ### All paths -/

/-- **What is collected** when paths are given.  Each path that is collected is that of something
that is there.  All are files exactly when no directory below a path that is given bears the name of
a source file; and what is loaded comes from files, one source file for each path that is collected.
No path is collected twice, and two that mean one file come from paths with double points or from
different anchors. -/
theorem collectSources_files {t : FileTree} (ht : t.WellFormed) {excluded : List FullName}
    {paths : List String} {found : List Path}
    (h : collectSources t excluded (paths.map Path.ofString) = .ok found) :
    (∀ q ∈ found, ∃ name node, t.fullName q = .ok name ∧ t.node? name = some node) ∧
    ((∀ q ∈ found, ∃ name octets, t.fullName q = .ok name ∧ t.node? name = some (.file octets)) ↔
      ∀ p ∈ paths, SourcesAreFiles t excluded (.ofString p)) ∧
    (∀ c, loadCompilation t excluded (paths.map Path.ofString) = .ok c →
      List.Forall₂ (fun q file => t.isFile q = .ok true ∧ loadSource t q = .ok file) found
        c.files) ∧ found.Nodup ∧
    ∀ q ∈ found, ∀ q' ∈ found, q ≠ q' → t.fullName q = t.fullName q' →
      (∃ p ∈ paths, ".." ∈ (Path.ofString p).parts) ∨
      ∃ p ∈ paths, ∃ p' ∈ paths, (Path.ofString p).anchor ≠ (Path.ofString p').anchor := by
  have hproper : ∀ p ∈ paths.map Path.ofString, p.Proper := by
    intro p hp
    obtain ⟨s, _, rfl⟩ := List.mem_map.1 hp
    exact Path.proper_ofString s
  obtain ⟨_, hnodup, _, hmem⟩ := (collectSources_eq_ok_iff ht hproper).1 h
  -- Each path that is collected comes from one that is given.
  have hgiven : ∀ q ∈ found, ∃ p ∈ paths, StandsFor t excluded (.ofString p) q := by
    intro q hq
    obtain ⟨_, hmap, hstands⟩ := (hmem q).1 hq
    obtain ⟨p, hp, rfl⟩ := List.mem_map.1 hmap
    exact ⟨p, hp, hstands⟩
  refine ⟨fun q hq => ?_, ⟨fun hfiles p hp => ?_, fun hfiles q hq => ?_⟩, fun c hc => ?_, hnodup,
    fun q hq q' hq' hne hname => ?_⟩
  · obtain ⟨p, _, hstands⟩ := hgiven q hq
    exact hstands.place ht
  · exact sourcesAreFiles_of_files ht fun q hstands =>
      hfiles q ((hmem q).2 ⟨_, List.mem_map_of_mem hp, hstands⟩)
  · obtain ⟨p, hp, hstands⟩ := hgiven q hq
    exact hstands.file ht (hfiles p hp)
  · obtain ⟨_, hfound, hload⟩ := loadCompilation_eq_ok_iff.1 hc
    cases h.symm.trans hfound
    refine hload.imp fun q file hfile => ⟨?_, hfile⟩
    obtain ⟨octets, hread, _⟩ := loadSource_eq_ok hfile
    obtain ⟨name, hfollow, hnode⟩ := FileTree.readFile_eq_ok hread
    rw [FileTree.isFile_of_follow hfollow, hnode]
  · obtain ⟨p, hp, hstands⟩ := hgiven q hq
    obtain ⟨p', hp', hstands'⟩ := hgiven q' hq'
    by_contra hplain
    obtain ⟨hforward, hanchors⟩ := not_or.1 hplain
    refine hne
      (hstands.eq_of_fullName hstands' ht (fun hdots => hforward ⟨p, hp, hdots⟩)
        (fun hdots => hforward ⟨p', hp', hdots⟩)
        (by_contra fun hanchor => hanchors ⟨p, hp, p', hp', hanchor⟩) hname)

/-- A directory with a source file and a directory that bears the name of one. -/
def crowdedTree : FileTree :=
  ⟨[(["src"], .directory), (["src", "a.cs"], .file []), (["src", "d.cs"], .directory)], []⟩

/-- A directory is collected, and a file that is spelled in two ways is collected twice. -/
theorem collectSources_files_crowded : ∃ found, crowdedTree.WellFormed ∧
    collectSources crowdedTree [] (["src", "src/../src/a.cs"].map Path.ofString) = .ok found ∧
    (Path.ofString "src/a.cs" ∈ found ∧ Path.ofString "src/../src/a.cs" ∈ found ∧
      crowdedTree.fullName (.ofString "src/a.cs") =
        crowdedTree.fullName (.ofString "src/../src/a.cs")) ∧
    ¬∀ q ∈ found, ∃ name octets, crowdedTree.fullName q = .ok name ∧
      crowdedTree.node? name = some (.file octets) := by
  have ht : crowdedTree.WellFormed := by decide +kernel
  have hlists : (["src", "src/../src/a.cs"].map Path.ofString).mapM (sourcesOf crowdedTree []) =
      .ok [[.ofString "src/a.cs", .ofString "src/d.cs"], [.ofString "src/../src/a.cs"]] := by
    decide +kernel
  obtain ⟨found, hfound, hmem⟩ : ∃ found,
      collectSources crowdedTree [] (["src", "src/../src/a.cs"].map Path.ofString) = .ok found ∧
      ∀ q, q ∈ found ↔
        q ∈ [[.ofString "src/a.cs", .ofString "src/d.cs"], [.ofString "src/../src/a.cs"]].flatten :=
    ⟨_, by rw [collectSources, hlists]; rfl, fun q => mem_sortPaths⟩
  obtain ⟨_, hfiles, _⟩ := collectSources_files ht hfound
  refine ⟨found, ht, hfound, ⟨(hmem _).2 (by decide), (hmem _).2 (by decide), by decide +kernel⟩,
    fun hall => ?_⟩
  exact hfiles.1 hall "src" List.mem_cons_self ["src"] ["d.cs"] (by decide +kernel)
    (by decide +kernel) nofun (by decide +kernel)

end LocalisedEnum

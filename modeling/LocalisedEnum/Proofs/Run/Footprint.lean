import LocalisedEnum.Proofs.Run.History

/-!
**What a generation touches.**

A generation touches its own files and no others, whatever comes of it.  It makes the directory of
the generated files, with what is missing above it; it writes the files of its sources in that
directory; and it removes discarded files from it.  When it goes through it has removed all of them,
with one exception.  Double points in the path of the directory take back a part that leads nowhere
yet, so that the path does not lead to the directory before that part has been made; then removing,
which comes first, finds no directory, and leaves what writing finds there a moment later.

Main definitions:

* `Footprint` — what may stand under a name after a generation.

Main results:

* `isDirectory_of_forward` — a path without double points leads to the directory whose name it
  spells out;
* `Generation.footprint` — **what a generation touches**;
* `Generation.discards` — what a generation that goes through has removed;
* `execute_generate_footprint` — both of a command that generates.
-/

set_option autoImplicit false
set_option relaxedAutoImplicit false

namespace LocalisedEnum

/-! ### Paths without double points -/

/-- **A path without double points leads to the directory whose name it spells out.** -/
theorem isDirectory_of_forward {t : FileTree} (ht : t.WellFormed) {p : Path} {here : FullName}
    (hhere : t.fullName p = .ok here) (hdirectory : t.node? here = some .directory)
    (hforward : ".." ∉ p.parts) {there : Bool} (h : t.isDirectory p = .ok there) :
    there = true := by
  obtain ⟨hnull, hspell⟩ := FileTree.fullName_eq_ok.1 hhere
  rw [FileTree.spell_forward hforward] at hspell
  by_cases hsize : p.text.utf8ByteSize ≤ FileTree.greatestPathSize
  · have hthere : (t.node? (t.start p ++ p.parts)).isSome := by
      rw [hspell, hdirectory]
      rfl
    have hsteps : ([] ++ p.parts).foldlM t.step (t.start p) = .ok (t.start p ++ p.parts) :=
      FileTree.steps_below ht rfl hthere
    have hfollow : t.follow p = .ok here :=
      FileTree.followParts_eq_ok.2 ⟨hnull, hsize, hspell ▸ hsteps⟩
    rw [FileTree.isDirectory_of_follow hfollow, hdirectory, beq_self_eq_true] at h
    exact (Except.ok.inj h).symm
  · rw [FileTree.isDirectory, FileTree.find?, FileTree.follow, FileTree.followParts, hnull,
      if_neg Bool.false_ne_true, if_pos (Nat.lt_of_not_le hsize)] at h
    cases h

/-! ### What is touched -/

/-- **What may stand under a name after a generation**: what was there; nothing, where a file was
discarded; a directory that is new, where a beginning of the path of the directory leads; or a file
of a source in the directory, with its text or still empty. -/
inductive Footprint (output : Path) (out : FullName) (codec : NamedCodec) (result : PassResult)
    (t t' : FileTree) (name : FullName) : Prop
  | same (h : t'.node? name = t.node? name)
  | discarded (h : Discarded t out codec result.hintNames name) (hnone : t'.node? name = none)
  | made {front : List String} (hfront : front <+: output.parts)
      (hplace : t.fullName ⟨output.anchor, front⟩ = .ok name) (hnone : t.node? name = none)
      (hnode : t'.node? name = some .directory)
  | written {s : GeneratedSource} {octets : Octets} (hs : s ∈ result.sources)
      (hplace : name = out ++ [s.hintName]) (hold : t.node? name ≠ some .directory)
      (hnode : t'.node? name = some (.file octets))
      (hoctets : octets = [] ∨ Encodes codec s.text octets)

section

variable {codecs : Codecs} {settings : Settings} {output : String} {out : FullName}
  {c : Compilation} {t t₁ t' : FileTree}

/-- What is touched while directories are made behind the removal. -/
theorem Footprint.of_made {directory : Path} {codec : NamedCodec} {result : PassResult}
    {t₂ : FileTree} (ht : t.WellFormed) (hp : directory.Proper)
    (hsheds :
      FileTree.Sheds (Discarded t out codec result.hintNames) (t.makeDirectories directory).1 t₂)
    {name : FullName} (hsame : t'.node? name = t₂.node? name) :
    Footprint directory out codec result t t' name := by
  rcases hsheds.nodes name with h | ⟨hgone, _, hnone⟩
  · rcases (ht.makeDirectories_grows hp).nodes name with h' | ⟨hnone, hnew⟩
    · exact .same (hsame.trans (h.trans h'))
    · rcases ht.node?_of_makeDirectories hp name with h' | ⟨front, hfront, hplace⟩
      · exact .same (hsame.trans (h.trans h'))
      · exact .made hfront hplace hnone (hsame.trans (h.trans hnew))
  · exact .discarded hgone (hsame.trans hnone)

variable (hc : c.IdentifierNames) (hout : t.fullName (.ofString output) = .ok out)
include hc hout

/-- What is touched while files are written behind the removal. -/
theorem WritingAll.footprint {r r' : Except RunError Nat}
    (h : WritingAll (.ofString output) (settings.codec codecs) (runPass settings c).sources t₁ r t')
    (hremove :
      RemovalAll (.ofString output) (settings.codec codecs) (runPass settings c).hintNames t r' t₁)
    (ht : t.WellFormed) (name : FullName) :
    Footprint (.ofString output) out (settings.codec codecs) (runPass settings c) t t' name := by
  have hp := Path.proper_ofString output
  have hkeeps := (hremove.sheds ht hout).keeps
  have hsheds := hremove.sheds_made ht hp hout
  rcases h.nodes hkeeps.wellFormed hp name with
    hsame | ⟨s, hs, octets, hplace, hold, hnode, hoctets⟩
  · exact .of_made ht hp hsheds hsame
  · rw [hkeeps.fullName] at hplace
    have hmade := (ht.makeDirectories_grows hp).keeps.trans hsheds.keeps
    exact .written hs (place_of_mem_sources hc hout hs hplace)
      (fun h => hold (hmade.directories _ h)) hnode hoctets

/-- **What a generation touches**, whatever comes of it. -/
theorem Generation.footprint {paths : List String} {p q : Progress} {r : Except RunError Nat}
    (h : Generation codecs settings paths output p r q) (hp : p.tree = t) (ht : t.WellFormed)
    (hload : loadCompilation t [out] (paths.map Path.ofString) = .ok c) (name : FullName) :
    Footprint (.ofString output) out (settings.codec codecs) (runPass settings c) t q.tree
      name := by
  subst hp
  cases h with
  | unnamed => exact .same rfl
  | unloaded => exact .same rfl
  | unremoved hout' hload' hremove =>
      cases hout.symm.trans hout'
      cases hload.symm.trans hload'
      rcases (hremove.sheds ht hout).nodes name with hsame | ⟨hgone, _, hnone⟩
      · exact .same hsame
      · exact .discarded hgone hnone
  | unwritten hout' hload' hremove hwrite =>
      cases hout.symm.trans hout'
      cases hload.symm.trans hload'
      exact hwrite.footprint hc hout hremove ht name
  | finished hout' hload' hremove hwrite =>
      cases hout.symm.trans hout'
      cases hload.symm.trans hload'
      exact hwrite.footprint hc hout hremove ht name

/-- **What a generation that goes through has removed**: every discarded file, unless the path of
the directory has double points and did not lead to the directory before. -/
theorem Generation.discards {paths : List String} {p q : Progress} {code : Nat}
    (h : Generation codecs settings paths output p (.ok code) q) (hp : p.tree = t)
    (ht : t.WellFormed) (hload : loadCompilation t [out] (paths.map Path.ofString) = .ok c)
    {name : FullName}
    (hname : Discarded t out (settings.codec codecs) (runPass settings c).hintNames name) :
    q.tree.node? name = none ∨
    ".." ∈ (Path.ofString output).parts ∧ t.isDirectory (.ofString output) = .ok false ∧
    q.tree.node? name = t.node? name := by
  subst hp
  have hproper := Path.proper_ofString output
  cases h with
  | @finished _ _ _ _ t₁ t₂ _ hout' hload' hremove hwrite =>
      cases hout.symm.trans hout'
      cases hload.symm.trans hload'
      have hkeeps := (hremove.sheds ht hout).keeps
      have hkept := hwrite.node?_of_discarded hkeeps.wellFormed hc (hkeeps.fullName _ ▸ hout) hname
      rcases hremove.of_ok with ⟨hthere, rfl⟩ | ⟨here, _, hfollow, hdirectory, _⟩
      · obtain ⟨file, octets, _, _, rfl, _, _, hnode, _⟩ := hname
        have hdirectory : p.tree.node? out = some .directory := by
          simpa using ht.node?_dropLast hnode
        refine .inr ⟨by_contra fun hforward => ?_, hthere, ?_⟩
        · cases isDirectory_of_forward ht hout hdirectory hforward hthere
        · exact hkept.trans
            (((ht.makeDirectories_grows hproper).node?_of_some hnode).trans hnode.symm)
      · refine .inl (hkept.trans ?_)
        rw [hkeeps.wellFormed.makeDirectories_of_follow (hkeeps.follow_directory hfollow hdirectory)
          (hkeeps.directories _ hdirectory)]
        refine hremove.node?_of_discarded ht hout (fun _ => ?_) hname
        rw [FileTree.isDirectory_of_follow hfollow, hdirectory]
        exact nofun

end

/-! ### Commands that generate -/

/-- **What a command that generates touches.**  When its source files cannot be loaded it fails and
leaves everything as it was.  Otherwise it touches the files of its sources, the directory that they
are in and what is missing above it, and discarded files in it, however it ends; and when it ends
with exit code zero or one no discarded file is left, unless the path of the directory has double
points and did not lead to the directory before. -/
theorem execute_generate_footprint (env : Environment) (paths : List String) (output : String)
    (overrides : Overrides) {t : FileTree} (ht : t.WellFormed) {o : Outcome}
    (ho : (Command.generate paths output overrides).execute env t = o) :
    ((∀ out c, t.fullName (.ofString output) = .ok out →
        loadCompilation t [out] (paths.map Path.ofString) ≠ .ok c) →
      o.progress.tree = t ∧ ∀ code, o.ending = .exit code → code = 2) ∧
    ∀ out c, t.fullName (.ofString output) = .ok out →
      loadCompilation t [out] (paths.map Path.ofString) = .ok c → c.IdentifierNames →
      (∀ name, Footprint (.ofString output) out ((settingsOf env overrides).codec env.codecs)
        (runPass (settingsOf env overrides) c) t o.progress.tree name) ∧
      ∀ code, o.ending = .exit code → code ≠ 2 →
        ∀ name,
          Discarded t out ((settingsOf env overrides).codec env.codecs)
              (runPass (settingsOf env overrides) c).hintNames name →
            o.progress.tree.node? name = none ∨
            ".." ∈ (Path.ofString output).parts ∧ t.isDirectory (.ofString output) = .ok false ∧
            o.progress.tree.node? name = t.node? name := by
  obtain ⟨r, q, hexecute, hcourse⟩ := execute_generate env paths output overrides t
  rw [hexecute] at ho
  subst ho
  refine ⟨fun hload => ?_,
    fun out c hout hload hc => ⟨fun name => ?_, fun code hending hcode name hname => ?_⟩⟩
  · obtain ⟨e, rfl, htree⟩ : ∃ e, r = .error e ∧ q.tree = t := by
      cases hcourse with
      | unnamed => exact ⟨_, rfl, rfl⟩
      | unloaded => exact ⟨_, rfl, rfl⟩
      | unremoved hout hload' => exact absurd hload' (hload _ _ hout)
      | unwritten hout hload' => exact absurd hload' (hload _ _ hout)
      | finished hout hload' => exact absurd hload' (hload _ _ hout)
    refine ⟨by rw [tree_outcomeOf, htree], fun code hending => by_contra fun hcode => ?_⟩
    cases outcomeOf_ending hending hcode
  · rw [tree_outcomeOf]
    exact hcourse.footprint hc hout rfl ht hload name
  · obtain rfl := outcomeOf_ending hending hcode
    rw [tree_outcomeOf]
    exact hcourse.discards hc hout rfl ht hload hname

/-- The enum of the stranded tree, whose attribute asks for nothing. -/
def plainCompilation : Compilation where
  files :=
    [{ path := "E.cs"
       usings := []
       enums :=
         [{ name := "E"
            namespaceName := ""
            accessibility := .internalLevel
            members := []
            attributes := [⟨"X", [], [], some ⟨"E.cs", 1, 2⟩⟩]
            containingTypes := []
            location := ⟨"E.cs", 1, 1⟩
            usings := [] }]
       types := []
       globalUsings := [] }]

/-- Where a file is left from an earlier generation, one without attribute classes goes through. -/
def strandedGeneration (output : String) : Outcome :=
  (Command.generate ["E.cs"] output quietOverrides).execute (.ofVariables []) strandedTree

/-- The file that is left is removed, unless the path of the directory takes a missing part back. -/
theorem execute_generate_footprint_stranded : strandedTree.WellFormed ∧
    (strandedGeneration "out").ending = .exit 0 ∧
    (strandedGeneration "out").progress.tree.node? ["out", "OldLocalizationExtensions.cs"] = none ∧
    (strandedGeneration "missing/../out").ending = .exit 0 ∧
    (strandedGeneration "missing/../out").progress.tree.node?
        ["out", "OldLocalizationExtensions.cs"] ≠
      none := by
  have ht : strandedTree.WellFormed := by decide +kernel
  have hload : loadCompilation strandedTree [["out"]] (["E.cs"].map Path.ofString) =
      .ok plainCompilation := by
    decide +kernel
  have hc : plainCompilation.IdentifierNames := by
    refine ⟨fun e he => ?_, nofun⟩
    rw [List.mem_singleton.1 (show e ∈ [_] from he)]
    exact ⟨by decide, nofun, nofun, .inl rfl⟩
  have hending : (strandedGeneration "out").ending = .exit 0 := by decide +kernel
  obtain ⟨_, htouched⟩ := execute_generate_footprint (.ofVariables []) ["E.cs"] "out" quietOverrides
    ht (o := strandedGeneration "out") rfl
  obtain ⟨_, hdiscards⟩ := htouched ["out"] plainCompilation (by decide +kernel) hload hc
  have hutf8 : (settingsOf (.ofVariables []) quietOverrides).codec .none =
      .ok Encoding.utf8.codec :=
    Settings.codec_of_utf8 (by decide +kernel) _
  have hold : Discarded strandedTree ["out"]
      ((settingsOf (.ofVariables []) quietOverrides).codec .none)
      (runPass (settingsOf (.ofVariables []) quietOverrides) plainCompilation).hintNames
      ["out", "OldLocalizationExtensions.cs"] :=
    ⟨"OldLocalizationExtensions.cs", utf8Text "// <auto-generated/>\n", _, _, rfl,
      by decide +kernel, by decide +kernel, by decide +kernel, hutf8,
      decodeLeniently_codec_utf8Text _, by decide +kernel⟩
  have hgone :=
    (hdiscards 0 hending (by decide) _ hold).resolve_right fun h => absurd h.1 (by decide)
  exact ⟨ht, hending, hgone, by decide +kernel, by decide +kernel⟩

end LocalisedEnum

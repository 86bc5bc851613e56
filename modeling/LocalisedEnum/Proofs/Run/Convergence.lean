import LocalisedEnum.Proofs.Run.Failure

/-!
**What a generation makes of any earlier content.**

When the source files are loaded and nothing is in the way of the directory and of the files that
are written, only one thing can keep a generation in UTF-8 from writing them: in the place of one of
them stands a file that cannot be read as UTF-8.  Otherwise each file holds the octets of its text
in the end, except for those that differed from it in their line ends alone, which are left as they
were.

Main definitions:

* `Places` — where the files that are written are put.

Main results:

* `RemovalAll.eq_ok` — in UTF-8 removing goes through;
* `writing_eq_ok_or` — and so does writing, unless an earlier file cannot be read;
* `execute_generate_converges` — **what a generation in UTF-8 comes to, whatever was there**.
-/

set_option autoImplicit false
set_option relaxedAutoImplicit false

namespace LocalisedEnum

/-! ### Reading UTF-8 leniently -/

theorem exists_decodeLeniently (octets : Octets) :
    ∃ text, Encoding.utf8.codec.decodeLeniently octets = .ok text :=
  ⟨_, rfl⟩

section

variable {directory : Path} {codec : NamedCodec} {produced : List String} {t t' : FileTree}
  (hutf8 : codec = .ok Encoding.utf8.codec)

/-! ### Removing -/

include hutf8 in
theorem Removal.eq_ok {here : FullName} {name : String} {r : Except RunError Bool}
    (h : Removal directory codec name t r t') (ht : t.WellFormed)
    (hhere : t.follow directory = .ok here) (hdirectory : t.node? here = some .directory)
    (hname : isEntryName name = true)
    (hroom : directory.text.utf8ByteSize + FileTree.greatestNameSize < FileTree.greatestPathSize) :
    ∃ b, r = .ok b := by
  cases h with
  | unexamined h =>
      have hsize : (directory.below [name]).text.utf8ByteSize ≤ FileTree.greatestPathSize := by
        have hbelow := directory.size_text_below name
        have hnameSize := (isEntryName_iff.1 hname).2.2.2.2
        omega
      obtain ⟨there, hthere⟩ :=
        FileTree.isFile_of_target ht (FileTree.target_below hhere hdirectory hname hsize)
      rw [hthere] at h
      cases h
  | noFile h => exact ⟨_, rfl⟩
  | unread h hcode =>
      obtain ⟨e, he⟩ := hcode _ hutf8
      obtain ⟨cs, hcs⟩ := exists_decodeLeniently _
      cases hcs.symm.trans he
  | foreign h hname hcode hheader => exact ⟨_, rfl⟩
  | removed h hname hcode hheader hfollow => exact ⟨_, rfl⟩

include hutf8 in
/-- **In UTF-8 removing goes through.** -/
theorem RemovalAll.eq_ok {r : Except RunError Nat} (h : RemovalAll directory codec produced t r t')
    (ht : t.WellFormed) (hclear : t.Clear directory)
    (hroom : directory.text.utf8ByteSize + FileTree.greatestNameSize < FileTree.greatestPathSize) :
    ∃ n, r = .ok n := by
  cases h with
  | unexamined h =>
      rw [FileTree.isDirectory, bind_eq_error] at h
      rcases h with h | ⟨_, _, h⟩
      · obtain ⟨there, hthere⟩ := hclear.find?_eq_ok ht
        rw [hthere] at h
        cases h
      · cases h
  | absent h => exact ⟨0, rfl⟩
  | @listed here r t' h hdirectory hremove =>
      cases r with
      | ok bs => exact ⟨_, rfl⟩
      | error e =>
          obtain ⟨done, name, rest, bs, s, hlist, hdone, hstep⟩ := hremove.exists_of_error rfl
          have hmem : ∀ name' ∈ done ++ [name], name' ∈ staleCandidates t here produced := by
            rw [hlist]
            intro name' hname'
            rw [List.mem_append, List.mem_singleton] at hname'
            simp only [List.mem_append, List.mem_cons]
            exact hname'.imp_right .inl
          have hs : FileTree.Sheds (Discarded t here codec produced) t s :=
            hdone.invariant (fun name' hname' s r s' hstep hs =>
              hstep.sheds_of_sheds ht h hdirectory (hmem name' (List.mem_append_left _ hname')) hs)
                (.refl ht)
          obtain ⟨b, hb⟩ := hstep.eq_ok hutf8 hs.wellFormed (hs.keeps.follow_directory h hdirectory)
            (hs.directory_iff.2 hdirectory)
            (isEntryName_of_mem_staleCandidates ht (hmem name (by simp))) hroom
          cases hb

/-! ### Writing -/

/-- **Where the files that are written are put**: each has a place of its own, and no directory is
in it. -/
structure Places (t : FileTree) (directory : Path) (sources : List GeneratedSource)
    (place : GeneratedSource → FullName) : Prop where
  targets : ∀ s ∈ sources, (t.target (directory.join s.hintName)).map Prod.fst = .ok (place s)
  free : ∀ s ∈ sources, t.node? (place s) ≠ some .directory
  distinct : sources.Pairwise fun s s' => place s ≠ place s'

instance (t : FileTree) (directory : Path) (sources : List GeneratedSource)
    (place : GeneratedSource → FullName) : Decidable (Places t directory sources place) :=
  decidable_of_iff
    ((∀ s ∈ sources, (t.target (directory.join s.hintName)).map Prod.fst = .ok (place s)) ∧
      (∀ s ∈ sources, t.node? (place s) ≠ some .directory) ∧
      sources.Pairwise fun s s' => place s ≠ place s') ⟨fun ⟨targets, free, distinct⟩ =>
        ⟨targets, free, distinct⟩, fun h => ⟨h.targets, h.free, h.distinct⟩⟩

namespace Places

variable {sources : List GeneratedSource} {place : GeneratedSource → FullName}

theorem target (h : Places t directory sources place) (ht : t.WellFormed) (hp : directory.Proper)
    {s : GeneratedSource} (hs : s ∈ sources) :
    t.target (directory.join s.hintName) = .ok (place s, t.node? (place s)) := by
  have htarget := h.targets s hs
  cases hfound : t.target (directory.join s.hintName) with
  | error e => rw [hfound] at htarget; cases htarget
  | ok found =>
      obtain ⟨name, node⟩ := found
      rw [hfound] at htarget
      cases htarget
      rw [(ht.target_eq_ok (hp.join _) hfound).2.1]

theorem fullName (h : Places t directory sources place) (ht : t.WellFormed) (hp : directory.Proper)
    {s : GeneratedSource} (hs : s ∈ sources) :
    t.fullName (directory.join s.hintName) = .ok (place s) :=
  (ht.target_eq_ok (hp.join _) (h.target ht hp hs)).1

/-- The places stay where they are while the directories stay and none is new. -/
theorem of_keeps (h : Places t directory sources place) (ht : t.WellFormed) (hp : directory.Proper)
    (hkeeps : t.Keeps t')
    (hfree : ∀ name, t'.node? name = some .directory → t.node? name = some .directory) :
    Places t' directory sources place where
  targets s hs := by
    rw [FileTree.target_of_keeps ht hkeeps (h.target ht hp hs) (h.free s hs)]
    rfl
  free s hs hdirectory := h.free s hs (hfree _ hdirectory)
  distinct := h.distinct

theorem distinct_fullName (h : Places t directory sources place) (ht : t.WellFormed)
    (hp : directory.Proper) :
    sources.Pairwise fun s s' =>
      t.fullName (directory.join s.hintName) ≠ t.fullName (directory.join s'.hintName) := by
  refine h.distinct.imp_of_mem fun hs hs' hne heq => hne ?_
  rw [h.fullName ht hp hs, h.fullName ht hp hs'] at heq
  exact Except.ok.inj heq

end Places

include hutf8 in
/-- **One file is written in UTF-8** unless a file that cannot be read is in its place. -/
theorem Writing.eq_ok_or {s : GeneratedSource} {r : Except RunError Bool}
    (h : Writing directory codec s t r t') (ht : t.WellFormed) {name : FullName}
    {node : Option Node} (htarget : t.target (directory.join s.hintName) = .ok (name, node))
    (hnode : node ≠ some .directory) :
    (∃ b, r = .ok b) ∨
    ∃ octets e, t.node? name = some (.file octets) ∧ Encoding.utf8.decode octets = .error e ∧
      r = .error (.unwritable directory (.coding e)) := by
  cases h with
  | unread h =>
      obtain ⟨there, hthere⟩ := FileTree.isFile_of_target ht htarget
      cases h with
      | unexamined h => rw [hthere] at h; cases h
      | noCodec h hcodec => cases hutf8.symm.trans hcodec
      | @undecodable octets own e h hcodec hcode =>
          cases hutf8.symm.trans hcodec
          obtain ⟨name', hfollow, hfile⟩ := FileTree.readFile_eq_ok h
          have htarget' := ht.target_of_follow hfollow
          rw [htarget] at htarget'
          cases htarget'
          exact .inr ⟨octets, e, hfile, map_eq_error.1 hcode, rfl⟩
  | kept h => exact .inl ⟨_, rfl⟩
  | unaccepted h hold hcodec => cases hutf8.symm.trans hcodec
  | unopened h hold hopen =>
      rw [FileTree.WellFormed.openForWriting_of_target htarget hnode] at hopen
      cases hopen
  | emptied h hold hopen hcode =>
      obtain ⟨e, he⟩ := hcode _ hutf8
      cases he
  | written h hold hopen hname hcode => exact .inl ⟨_, rfl⟩

include hutf8 in
/-- **All files are written in UTF-8** unless a file that cannot be read is in the place of one. -/
theorem writing_eq_ok_or {sources : List GeneratedSource} {place : GeneratedSource → FullName}
    {r : Except RunError (List Bool)} (h : Successively (Writing directory codec) sources t r t')
    (ht : t.WellFormed) (hp : directory.Proper) (hplaces : Places t directory sources place) :
    (∃ bs, r = .ok bs) ∨ ∃ s ∈ sources, ∃ octets e, t.node? (place s) = some (.file octets) ∧
      Encoding.utf8.decode octets = .error e ∧ r = .error (.unwritable directory (.coding e)) := by
  cases r with
  | ok bs => exact .inl ⟨bs, rfl⟩
  | error e =>
      obtain ⟨done, s, rest, bs, t₁, rfl, hdone, hstep⟩ := h.exists_of_error rfl
      have hs : s ∈ done ++ s :: rest := by simp
      obtain ⟨hkeeps, done', rest', rfl, hrest, htrace⟩ := writing_course hdone ht hp
      obtain rfl := hrest bs rfl
      have htarget :=
        FileTree.target_of_keeps ht hkeeps (hplaces.target ht hp hs) (hplaces.free s hs)
      -- No file that was written before has the place of this one.
      have hsame : t₁.node? (place s) = t.node? (place s) := by
        cases htrace (place s) with
        | same h => exact h
        | @written s' octets hs' hplace hold hencodes hnode =>
            rw [List.append_nil] at hplaces
            rw [hplaces.fullName ht hp (List.mem_append_left _ hs')] at hplace
            exact absurd (Except.ok.inj hplace)
              ((List.pairwise_append.1 hplaces.distinct).2.2 s' hs' s List.mem_cons_self)
        | emptied hs' hplace hold hcode hnode => cases hs'
      rw [hsame] at htarget
      rcases hstep.eq_ok_or hutf8 hkeeps.wellFormed htarget (hplaces.free s hs) with
        ⟨b, hb⟩ | ⟨octets, e', hnode, hcode, he⟩
      · cases hb
      · cases he
        exact .inr ⟨s, hs, octets, e', hsame ▸ hnode, hcode, rfl⟩

include hutf8 in
/-- The same behind the directory that is made for the files, when nothing is in its way. -/
theorem WritingAll.eq_ok_or {sources : List GeneratedSource} {place : GeneratedSource → FullName}
    {r : Except RunError Nat} (h : WritingAll directory codec sources t r t') (ht : t.WellFormed)
    (hp : directory.Proper) (hclear : t.Clear directory)
    (hplaces : Places (t.makeDirectories directory).1 directory sources place) :
    (∃ n, r = .ok n) ∨ ∃ s ∈ sources, ∃ octets e, t.node? (place s) = some (.file octets) ∧
      Encoding.utf8.decode octets = .error e ∧ r = .error (.unwritable directory (.coding e)) := by
  have hgrows := ht.makeDirectories_grows hp
  cases h with
  | unmade hmake =>
      obtain ⟨_, hmade⟩ := ht.makeDirectories_of_clear hp hclear
      cases hmade.symm.trans hmake
  | made hmake hwrite =>
      rw [hmake] at hgrows hplaces
      rcases writing_eq_ok_or hutf8 hwrite hgrows.wellFormed hp hplaces with
        ⟨bs, rfl⟩ | ⟨s, hs, octets, e, hnode, hcode, rfl⟩
      · exact .inl ⟨_, rfl⟩
      · exact .inr ⟨s, hs, octets, e, hgrows.file_iff.1 hnode, hcode, rfl⟩

end

/-! ### Generations -/

section

variable {codecs : Codecs} {settings : Settings} {paths : List String} {output : String}
  {out : FullName} {c : Compilation} {place : GeneratedSource → FullName}

/-- **What a generation in UTF-8 comes to** when its source files are loaded and nothing is in the
way. -/
theorem Generation.converges {p q : Progress} {r : Except RunError Nat}
    (h : Generation codecs settings paths output p r q) (ht : p.tree.WellFormed)
    (hutf8 : Encoding.ofName? settings.encoding = some .utf8)
    (hclear : p.tree.Clear (.ofString output))
    (hroom : (Path.ofString output).text.utf8ByteSize + FileTree.greatestNameSize <
      FileTree.greatestPathSize) (hout : p.tree.fullName (.ofString output) = .ok out)
    (hload : loadCompilation p.tree [out] (paths.map Path.ofString) = .ok c)
    (hplaces : Places (p.tree.makeDirectories (.ofString output)).1 (.ofString output)
      (runPass settings c).sources place) :
    (r = .ok (exitCode (runPass settings c)) ∧
      ∀ s ∈ (runPass settings c).sources, ∃ octets, q.tree.node? (place s) = some (.file octets) ∧
        (octets = utf8Text s.text ∨
          p.tree.node? (place s) = some (.file octets) ∧
          ReadsAs (settings.codec codecs) octets s.text) ∧
        ∀ old, p.tree.node? (place s) = some (.file old) →
          Discarded p.tree out (settings.codec codecs) (runPass settings c).hintNames (place s) ∨
          ∃ cs, Encoding.utf8.decode old = .ok cs) ∨
    ∃ s ∈ (runPass settings c).sources, ∃ octets e, p.tree.node? (place s) = some (.file octets) ∧
      Encoding.utf8.decode octets = .error e ∧
      r = .error (.unwritable (.ofString output) (.coding e)) := by
  have hp := Path.proper_ofString output
  have hgrows := ht.makeDirectories_grows hp
  have hutf8 := codecs.named_of_ofName? hutf8
  cases h with
  | unnamed hout' => cases hout.symm.trans hout'
  | unloaded hout' hload' =>
      cases hout.symm.trans hout'
      cases hload.symm.trans hload'
  | unremoved hout' hload' hremove =>
      obtain ⟨n, hn⟩ := hremove.eq_ok hutf8 ht hclear hroom
      cases hn
  | unwritten hout' hload' hremove hwrite =>
      cases hout.symm.trans hout'
      cases hload.symm.trans hload'
      have hsheds := hremove.sheds ht hout
      have hmade := hremove.sheds_made ht hp hout
      have hplaces₁ :=
        hplaces.of_keeps hgrows.wellFormed hp hmade.keeps fun _ => hmade.directory_iff.1
      rcases hwrite.eq_ok_or hutf8 hsheds.wellFormed hp (hsheds.clear hclear) hplaces₁ with
        ⟨n, hn⟩ | ⟨s, hs, octets, e, hnode, hcode, he⟩
      · cases hn
      · cases he
        exact .inr ⟨s, hs, octets, e, hsheds.node?_of_some hnode, hcode, rfl⟩
  | finished hout' hload' hremove hwrite =>
      cases hout.symm.trans hout'
      cases hload.symm.trans hload'
      have hsheds := hremove.sheds ht hout
      have hsame : ∀ path, (p.tree.makeDirectories (.ofString output)).1.fullName path = _ :=
        fun path => (hgrows.keeps.fullName path).trans (hsheds.keeps.fullName path).symm
      have hdistinct := hplaces.distinct_fullName hgrows.wellFormed hp
      simp only [hsame] at hdistinct
      refine .inl ⟨rfl, fun s hs => ?_⟩
      obtain ⟨octets, _, hnode, hholds, hread⟩ := hwrite.written_of_ok hsheds.wellFormed hp
        hdistinct hs ((hsame _).symm.trans (hplaces.fullName hgrows.wellFormed hp hs))
      refine
        ⟨octets, hnode, hholds.imp (utf8Text_of_encodes hutf8) (And.imp_left hsheds.node?_of_some),
          fun old hold => ?_⟩
      rcases hsheds.nodes (place s) with hkept | ⟨hgone, _, _⟩
      · obtain ⟨own, cs, hcodec, hcode⟩ := hread old (hkept.trans hold)
        cases hutf8.symm.trans hcodec
        obtain ⟨text, htext, _⟩ := map_eq_ok.1 hcode
        exact .inr ⟨text, htext⟩
      · exact .inl hgone

/-- **What a command that generates in UTF-8 comes to**, whatever was in the places of its files: it
ends as the pass asks, and each file holds the octets of its text or has been left alone because it
differed in its line ends alone; or a file that cannot be read as UTF-8 was in the place of one, and
it ends with exit code two. -/
theorem execute_generate_converges {t : FileTree} {env : Environment} {overrides : Overrides}
    (hsettings : settingsOf env overrides = settings) (ht : t.WellFormed)
    (hutf8 : Encoding.ofName? settings.encoding = some .utf8) (hclear : t.Clear (.ofString output))
    (hroom : (Path.ofString output).text.utf8ByteSize + FileTree.greatestNameSize <
      FileTree.greatestPathSize) (hout : t.fullName (.ofString output) = .ok out)
    (hload : loadCompilation t [out] (paths.map Path.ofString) = .ok c)
    (hplaces : Places (t.makeDirectories (.ofString output)).1 (.ofString output)
      (runPass settings c).sources place) :
    (((Command.generate paths output overrides).execute env t).ending =
        .exit (exitCode (runPass settings c)) ∧
      ∀ s ∈ (runPass settings c).sources, ∃ octets,
        ((Command.generate paths output overrides).execute env t).progress.tree.node? (place s) =
          some (.file octets) ∧
        (octets = utf8Text s.text ∨
          t.node? (place s) = some (.file octets) ∧
          ReadsAs (settings.codec env.codecs) octets s.text) ∧
        ∀ old, t.node? (place s) = some (.file old) →
          Discarded t out (settings.codec env.codecs) (runPass settings c).hintNames (place s) ∨
          ∃ cs, Encoding.utf8.decode old = .ok cs) ∨
    ((Command.generate paths output overrides).execute env t).ending = .exit 2 ∧
    ∃ s ∈ (runPass settings c).sources, ∃ octets e, t.node? (place s) = some (.file octets) ∧
      Encoding.utf8.decode octets = .error e := by
  subst hsettings
  obtain ⟨r, q, hexecute, hcourse⟩ := execute_generate env paths output overrides t
  rw [hexecute]
  rcases hcourse.converges ht hutf8 hclear hroom hout hload hplaces with
    ⟨rfl, hholds⟩ | ⟨s, hs, octets, e, hnode, hcode, rfl⟩
  · exact .inl ⟨rfl, hholds⟩
  · exact .inr ⟨rfl, s, hs, octets, e, hnode, hcode⟩

end

/-- Files among which an octet that is no UTF-8 stands in the place of the first file that is
written. -/
def coveredTree : FileTree where
  entries :=
    [(["E.cs"], .file (utf8Text "[X] enum E \x7b \x7d")), (["out"], .directory),
      (["out", "WithLiteralLocalisationAttribute.cs"], .file [0xFF])]
  workingDirectory := []

/-- What is declared in the source file. -/
def coveredCompilation : Compilation where
  files :=
    [⟨"E.cs", [],
      [⟨"E", "", .internalLevel, [], [⟨"X", [], [], some ⟨"E.cs", 1, 2⟩⟩], [], ⟨"E.cs", 1, 1⟩, []⟩],
      [], []⟩]

theorem execute_generate_converges_covered : coveredTree.WellFormed ∧
    coveredTree.Clear (.ofString "out") ∧ coveredTree.fullName (.ofString "out") = .ok ["out"] ∧
    loadCompilation coveredTree [["out"]] (["E.cs"].map Path.ofString) = .ok coveredCompilation ∧
    ((Command.generate ["E.cs"] "out" ⟨none, none, none, none, none⟩).execute (.ofVariables [])
        coveredTree).ending =
      .exit 2 := by
  have hsettings : settingsOf (.ofVariables []) ⟨none, none, none, none, none⟩ = .standard := by
    decide +kernel
  have ht : coveredTree.WellFormed := by decide +kernel
  have hclear : coveredTree.Clear (.ofString "out") := by decide +kernel
  have hout : coveredTree.fullName (.ofString "out") = .ok ["out"] := by decide +kernel
  have hload : loadCompilation coveredTree [["out"]] (["E.cs"].map Path.ofString) =
      .ok coveredCompilation := by
    decide +kernel
  refine ⟨ht, hclear, hout, hload, ?_⟩
  have hplaces : Places (coveredTree.makeDirectories (.ofString "out")).1 (.ofString "out")
      (runPass .standard coveredCompilation).sources fun s => ["out", s.hintName] := by
    decide +kernel
  rcases execute_generate_converges hsettings ht (by decide +kernel) hclear (by decide +kernel) hout
      hload hplaces with
    ⟨_, hholds⟩ | ⟨hending, _⟩
  · -- The first file cannot be read, so that the generation does not go through.
    obtain ⟨s, hs, hname⟩ : ∃ s ∈ (runPass .standard coveredCompilation).sources,
      s.hintName = "WithLiteralLocalisationAttribute.cs" := by decide +kernel
    obtain ⟨_, _, _, hread⟩ := hholds s hs
    have hfile : coveredTree.node? ["out", s.hintName] = some (.file [0xFF]) := by
      rw [hname]
      decide +kernel
    rcases hread [0xFF] hfile with ⟨file, _, _, _, hplace, hextension, _⟩ | ⟨cs, hcs⟩
    · obtain rfl : s.hintName = file := (List.cons.inj (List.cons.inj hplace).2).1
      rw [hname] at hextension
      exact absurd hextension (by decide +kernel)
    · have hcode : Encoding.utf8.decode [0xFF] =
          .error (.undecodable "utf-8" ⟨0, [0xFF], .invalidStart⟩) := by
        decide +kernel
      cases hcode.symm.trans hcs
  · exact hending

end LocalisedEnum

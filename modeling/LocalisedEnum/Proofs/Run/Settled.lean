import LocalisedEnum.Proofs.Run.Failure
import LocalisedEnum.Proofs.Run.FileNames

/-!
**What a generation that goes through leaves, and that it leaves it settled.**

A generation in UTF-8 that goes through has the directory hold the files of its sources: each is
there and reads as its source, and none that is no longer produced is left of those that begin as
generated files do.  A tree in which that is so is settled: a generation of the same finds nothing
to remove and nothing to write, and leaves the tree as it is.

Main definitions:

* `Aftermath` — what may stand under a name after a generation in UTF-8;
* `GeneratesInto` — generations in UTF-8 into one directory;
* `Finished` — what such a generation leaves when it goes through;
* `Settled` — a tree that a generation leaves as it is.

Main results:

* `Generation.aftermath` — what may stand under a name after a generation in UTF-8, whatever comes
  of it;
* `Generation.finishes` — **what it leaves when it goes through**;
* `Settled.repeats` — **a settled tree stays as it is**.
-/

set_option autoImplicit false
set_option relaxedAutoImplicit false

namespace LocalisedEnum

/-! ### UTF-8 -/

section

variable {codec : NamedCodec} (hutf8 : codec = .ok Encoding.utf8.codec)
include hutf8

theorem not_unencodable (text : String) : ¬Unencodable codec text := by
  intro h
  obtain ⟨e, he⟩ := h _ hutf8
  cases (encode_utf8 text).symm.trans he

/-- A file in UTF-8 without carriage returns is read as the text that it holds. -/
theorem readsAs_utf8Text_iff {s text : String} (hs : NoReturns s) :
    ReadsAs codec (utf8Text s) text ↔ s = text := by
  have hdecode := decode_codec_utf8Text s
  have hself : CodeText.unifyLineEnds (.ofString s) = .ofString s := by
    rw [CodeText.ofString, CodeText.unifyLineEnds_map_scalar, unifyLineEnds_eq_self hs]
  constructor
  · rintro ⟨own, cs, hcodec, hcode, htext⟩
    cases hutf8.symm.trans hcodec
    cases hdecode.symm.trans hcode
    exact CodeText.ofString_injective (hself.symm.trans htext)
  · rintro rfl
    exact ⟨_, _, hutf8, hdecode, hself⟩

/-- In UTF-8 writing leaves no file empty. -/
theorem Trace.of_utf8 {directory : Path} {done rest : List GeneratedSource} {t t' : FileTree}
    {name : FullName} (h : Trace directory codec done rest t t' name) :
    Trace directory codec (done ++ rest) [] t t' name := by
  cases h with
  | same h => exact .same h
  | written hs hplace hold hencodes hnode =>
      exact .written (List.mem_append_left _ hs) hplace hold hencodes hnode
  | emptied hs hplace hold hcode hnode => exact absurd hcode (not_unencodable hutf8 _)

end

/-! ### Under each name -/

section

variable {directory : Path} {codec : NamedCodec} {sources : List GeneratedSource}
  {produced : List String} {t t₁ t' : FileTree} {here : FullName}

/-- **What may stand under a name after a generation in UTF-8**: what was there; nothing, where a
file was discarded; a new directory; the text of a file that was written. -/
inductive Aftermath (directory : Path) (here : FullName) (codec : NamedCodec)
    (produced : List String) (sources : List GeneratedSource) (t t' : FileTree) (name : FullName) :
    Prop
  | same (h : t'.node? name = t.node? name)
  | discarded (h : Discarded t here codec produced name) (hnone : t'.node? name = none)
  | made (hnone : t.node? name = none) (hnode : t'.node? name = some .directory)
  | written {s : GeneratedSource} {octets : Octets} (hs : s ∈ sources)
      (hplace : t.fullName (directory.join s.hintName) = .ok name)
      (hold : t.node? name ≠ some .directory) (hencodes : Encodes codec s.text octets)
      (hnode : t'.node? name = some (.file octets))

theorem Remnant.aftermath {name : FullName}
    (h : Remnant directory here codec produced sources [] t t' name) :
    Aftermath directory here codec produced sources t t' name := by
  cases h with
  | same h => exact .same h
  | discarded h hnone => exact .discarded h hnone
  | made hnone hnode => exact .made hnone hnode
  | written hs hplace hold hencodes hnode => exact .written hs hplace hold hencodes hnode
  | reached hs => cases hs

/-- What may stand under a name when files were removed and then written, whatever came of
writing. -/
theorem WritingAll.aftermath {r : Except RunError Nat}
    (h : WritingAll directory codec sources t₁ r t') {n : Nat}
    (hremove : RemovalAll directory codec produced t (.ok n) t₁) (ht : t.WellFormed)
    (hp : directory.Proper) (hhere : t.fullName directory = .ok here)
    (hutf8 : codec = .ok Encoding.utf8.codec) :
    t.Keeps t' ∧ ∀ name, Aftermath directory here codec produced sources t t' name := by
  have hsheds := hremove.sheds_made ht hp hhere
  have hgone := fun name => @RemovalAll.gone_made _ _ _ _ _ _ _ hremove ht hhere name
  have hkeeps := (ht.makeDirectories_grows hp).keeps.trans hsheds.keeps
  cases h with
  | unmade hmake =>
      rw [hmake] at hsheds hkeeps hgone
      exact ⟨hkeeps, fun name => (Remnant.of_made ht hp hsheds (hgone name) rfl).aftermath⟩
  | made hmake hwrite =>
      rw [hmake] at hsheds hkeeps hgone
      obtain ⟨hkept, done, rest, rfl, _, htrace⟩ := writing_course hwrite hsheds.wellFormed hp
      exact ⟨hkeeps.trans hkept, fun name =>
        (Remnant.of_trace ht hp hsheds (hgone name) ((htrace name).of_utf8 hutf8)).aftermath⟩

end

section

variable {codecs : Codecs} {settings : Settings} {paths : List String} {output : String}
  {out : FullName} {c : Compilation} {p q : Progress}

/-- **What may stand under a name after a generation in UTF-8**, whatever comes of it. -/
theorem Generation.aftermath {r : Except RunError Nat}
    (h : Generation codecs settings paths output p r q) (ht : p.tree.WellFormed)
    (hutf8 : settings.codec codecs = .ok Encoding.utf8.codec)
    (hout : p.tree.fullName (.ofString output) = .ok out) :
    q.tree = p.tree ∨
    ∃ c, loadCompilation p.tree [out] (paths.map Path.ofString) = .ok c ∧ p.tree.Keeps q.tree ∧
      ∀ name, Aftermath (.ofString output) out (settings.codec codecs)
        (runPass settings c).hintNames (runPass settings c).sources p.tree q.tree name := by
  have hp := Path.proper_ofString output
  cases h with
  | unnamed => exact .inl rfl
  | unloaded => exact .inl rfl
  | unremoved hout' hload hremove =>
      cases hout.symm.trans hout'
      have hsheds := hremove.sheds ht hout
      refine .inr ⟨_, hload, hsheds.keeps, fun name => ?_⟩
      rcases hsheds.nodes name with hsame | ⟨hgone, _, hnone⟩
      · exact .same hsame
      · exact .discarded hgone hnone
  | unwritten hout' hload hremove hwrite =>
      cases hout.symm.trans hout'
      exact .inr ⟨_, hload, hwrite.aftermath hremove ht hp hout hutf8⟩
  | finished hout' hload hremove hwrite =>
      cases hout.symm.trans hout'
      exact .inr ⟨_, hload, hwrite.aftermath hremove ht hp hout hutf8⟩

/-! ### Generations that go through -/

/-- **A generation in UTF-8 into a directory**: names in the source files are identifiers, and those
in the settings have no carriage returns. -/
structure GeneratesInto (out : FullName) (settings : Settings) (paths : List String)
    (output : String) (t : FileTree) : Prop where
  utf8 : Encoding.ofName? settings.encoding = some .utf8
  place : t.fullName (.ofString output) = .ok out
  attributeNamespace : NoReturns settings.attributeNamespace
  methodName : NoReturns settings.methodName
  names : ∀ c, loadCompilation t [out] (paths.map Path.ofString) = .ok c → c.IdentifierNames

/-- A name that means UTF-8 does so on every machine. -/
theorem Settings.codec_of_utf8 {settings : Settings}
    (h : Encoding.ofName? settings.encoding = some .utf8) (codecs : Codecs) :
    settings.codec codecs = .ok Encoding.utf8.codec :=
  codecs.named_of_ofName? h

variable (codecs) in
theorem GeneratesInto.codec_eq {t : FileTree} (h : GeneratesInto out settings paths output t) :
    settings.codec codecs = .ok Encoding.utf8.codec :=
  Settings.codec_of_utf8 h.utf8 codecs

/-- **What a generation leaves when it goes through**: the path leads to the directory; each file
that is produced is in it, with the octets of its text unless it was left alone because it read as
the text; and no file is there that was discarded. -/
structure Finished (codecs : Codecs) (settings : Settings) (output : String) (out : FullName)
    (c : Compilation) (t t' : FileTree) : Prop where
  keeps : t.Keeps t'
  nodes : ∀ name, Aftermath (.ofString output) out (settings.codec codecs)
    (runPass settings c).hintNames (runPass settings c).sources t t' name
  follow : t'.follow (.ofString output) = .ok out
  directory : t'.node? out = some .directory
  written : ∀ s ∈ (runPass settings c).sources, ∃ octets,
    t'.follow ((Path.ofString output).join s.hintName) = .ok (out ++ [s.hintName]) ∧
    t'.node? (out ++ [s.hintName]) = some (.file octets) ∧
    (octets = utf8Text s.text ∨
      t.node? (out ++ [s.hintName]) = some (.file octets) ∧
      ReadsAs (settings.codec codecs) octets s.text)
  gone : ∀ name, Discarded t out (settings.codec codecs) (runPass settings c).hintNames name →
    ∀ octets, t'.node? name ≠ some (.file octets)
  short : ∀ name ∈ staleCandidates t out (runPass settings c).hintNames,
    ((Path.ofString output).below [name]).text.utf8ByteSize ≤ FileTree.greatestPathSize

/-- Sources of different names have different places. -/
theorem distinct_places (hc : c.IdentifierNames) {t : FileTree} {directory : Path}
    (hout : t.fullName directory = .ok out) : (runPass settings c).sources.Pairwise fun s s' =>
      t.fullName (directory.join s.hintName) ≠ t.fullName (directory.join s'.hintName) := by
  obtain ⟨_, _, hnames, _, _, hnodup⟩ := fileNames_runPass settings hc
  rw [PassResult.hintNames, List.Nodup, List.pairwise_map] at hnodup
  refine hnodup.imp_of_mem fun hs hs' hne heq => hne ?_
  rw [fullName_join (hnames _ hs) hout, fullName_join (hnames _ hs') hout] at heq
  exact (List.cons.inj (List.append_cancel_left (Except.ok.inj heq))).1

/-- The file of a source stands in the directory. -/
theorem place_of_mem_sources (hc : c.IdentifierNames) {t : FileTree}
    (hout : t.fullName (.ofString output) = .ok out) {s : GeneratedSource}
    (hs : s ∈ (runPass settings c).sources) {name : FullName}
    (hplace : t.fullName ((Path.ofString output).join s.hintName) = .ok name) :
    name = out ++ [s.hintName] := by
  obtain ⟨_, _, hnames, _⟩ := fileNames_runPass settings hc
  rw [fullName_join (hnames s hs) hout] at hplace
  exact (Except.ok.inj hplace).symm

/-- Writing leaves alone what is discarded: nothing that is produced has such a name. -/
theorem WritingAll.node?_of_discarded {t t₁ t' : FileTree} {r : Except RunError Nat}
    (h : WritingAll (.ofString output) (settings.codec codecs) (runPass settings c).sources t₁ r t')
    (ht : t₁.WellFormed) (hc : c.IdentifierNames) (hout : t₁.fullName (.ofString output) = .ok out)
    {name : FullName}
    (hname : Discarded t out (settings.codec codecs) (runPass settings c).hintNames name) :
    t'.node? name = (t₁.makeDirectories (.ofString output)).1.node? name := by
  refine (h.nodes ht (Path.proper_ofString output) name).resolve_right ?_
  rintro ⟨s, hs, _, hplace, _⟩
  obtain ⟨file, _, _, _, hfile, _, hproduced, _⟩ := hname
  rw [place_of_mem_sources hc hout hs hplace] at hfile
  cases List.append_cancel_left hfile
  exact hproduced (List.mem_map_of_mem hs)

/-- A path that has been examined is not too long. -/
theorem Removal.size_le {directory : Path} {codec : NamedCodec} {name : String} {t t' : FileTree}
    {b : Bool} (h : Removal directory codec name t (.ok b) t')
    (hnull : (directory.below [name]).hasNull = false) :
    (directory.below [name]).text.utf8ByteSize ≤ FileTree.greatestPathSize := by
  have hread : ∀ {octets}, t.readFile (directory.below [name]) = .ok octets →
      (directory.below [name]).text.utf8ByteSize ≤ FileTree.greatestPathSize := by
    intro octets hread
    obtain ⟨_, hfollow, _⟩ := FileTree.readFile_eq_ok hread
    exact (FileTree.followParts_eq_ok.1 hfollow).2.1
  cases h with
  | noFile h =>
      by_contra hsize
      rw [FileTree.isFile, FileTree.find?, FileTree.follow, FileTree.followParts, hnull,
        if_neg Bool.false_ne_true, if_pos (Nat.lt_of_not_le hsize)] at h
      cases h
  | foreign h => exact hread h
  | removed h => exact hread h

/-- What was considered when removing went through has no path that is too long. -/
theorem RemovalAll.size_le {directory : Path} {codec : NamedCodec} {produced : List String}
    {t t' : FileTree} {n : Nat} (h : RemovalAll directory codec produced t (.ok n) t')
    (ht : t.WellFormed) (hout : t.fullName directory = .ok out)
    (hleads : t.node? out = some .directory → t.isDirectory directory ≠ .ok false) {name : String}
    (hname : name ∈ staleCandidates t out produced) :
    (directory.below [name]).text.utf8ByteSize ≤ FileTree.greatestPathSize := by
  rcases h.of_ok with ⟨h, _⟩ | ⟨here, bs, h, hdirectory, hremove⟩
  · obtain ⟨node, hnode⟩ := Option.isSome_iff_exists.1 ((mem_staleCandidates ht).1 hname).2.2
    have hdirectory := ht.node?_dropLast hnode
    rw [List.dropLast_concat] at hdirectory
    exact absurd h (hleads hdirectory)
  · cases (FileTree.follow_eq_ok h).symm.trans hout
    obtain ⟨s, b, s', hstep⟩ := hremove.exists_of_mem rfl hname
    have hplace := FileTree.fullName_below_name hout (isEntryName_of_mem_staleCandidates ht hname)
    exact hstep.size_le (FileTree.fullName_eq_ok.1 hplace).1

/-- **What a generation leaves when it goes through.** -/
theorem Generation.finishes {code : Nat}
    (h : Generation codecs settings paths output p (.ok code) q)
    (hinto : GeneratesInto out settings paths output p.tree) (ht : p.tree.WellFormed)
    (hleads : p.tree.node? out = some .directory →
      p.tree.isDirectory (.ofString output) ≠ .ok false) :
    ∃ c, loadCompilation p.tree [out] (paths.map Path.ofString) = .ok c ∧
      code = exitCode (runPass settings c) ∧
      q.errors = p.errors ++ diagnosticLines (runPass settings c) ∧
      Finished codecs settings output out c p.tree q.tree := by
  have hp := Path.proper_ofString output
  cases h with
  | @finished _ c removed written t₁ t₃ _ hout hload hremove hwrite =>
      cases hout.symm.trans hinto.place
      refine ⟨c, hload, rfl, rfl, ?_⟩
      show Finished codecs settings output out c p.tree t₃
      have hc := hinto.names c hload
      obtain ⟨_, _, hnames, _, _, _⟩ := fileNames_runPass settings hc
      obtain ⟨hkeeps, hnodes⟩ := hwrite.aftermath hremove ht hp hout (hinto.codec_eq codecs)
      -- From the tree that removing has left.
      have hsheds := hremove.sheds ht hout
      have ht₁ := hsheds.wellFormed
      have hout₁ : t₁.fullName (.ofString output) = .ok out := (hsheds.keeps.fullName _).trans hout
      obtain ⟨hfollow, hdirectory⟩ := hwrite.follow_of_ok ht₁ hp hout₁
      refine ⟨hkeeps, hnodes, hfollow, hdirectory, fun s hs => ?_,
        fun name hname octets hfile => ?_, fun name => hremove.size_le ht hout hleads⟩
      · obtain ⟨octets, hfollow, hnode, hholds, _⟩ := hwrite.written_of_ok ht₁ hp
          (distinct_places hc hout₁) hs (fullName_join (hnames s hs) hout₁)
        exact ⟨octets, hfollow, hnode,
          hholds.imp (utf8Text_of_encodes (hinto.codec_eq codecs))
            (And.imp_left hsheds.node?_of_some)⟩
      · rw [hwrite.node?_of_discarded ht₁ hc hout₁ hname, (ht₁.makeDirectories_grows hp).file_iff,
          hremove.node?_of_discarded ht hout hleads hname] at hfile
        cases hfile

/-! ### Settled trees -/

/-- **A tree that a generation leaves as it is**: the source files are loaded, the path leads to the
directory, nothing of what would be removed is a file, and each file that is produced is there and
reads as its source. -/
structure Settled (codecs : Codecs) (settings : Settings) (paths : List String) (output : String)
    (out : FullName) (c : Compilation) (t : FileTree) : Prop where
  wellFormed : t.WellFormed
  follow : t.follow (.ofString output) = .ok out
  directory : t.node? out = some .directory
  load : loadCompilation t [out] (paths.map Path.ofString) = .ok c
  stale : ∀ name ∈ staleCandidates t out (runPass settings c).hintNames,
    t.isFile ((Path.ofString output).below [name]) = .ok false
  written : ∀ s ∈ (runPass settings c).sources, ∃ octets,
    t.follow ((Path.ofString output).join s.hintName) = .ok (out ++ [s.hintName]) ∧
    t.node? (out ++ [s.hintName]) = some (.file octets) ∧
    ReadsAs (settings.codec codecs) octets s.text

/-- What is no file is not removed. -/
theorem Removal.eq_of_no_file {directory : Path} {codec : NamedCodec} {name : String}
    {t t' : FileTree} {r : Except RunError Bool} (h : Removal directory codec name t r t')
    (hfile : t.isFile (directory.below [name]) = .ok false) : r = .ok false ∧ t' = t := by
  have hread : ∀ octets, t.readFile (directory.below [name]) ≠ .ok octets := by
    intro octets hread
    obtain ⟨_, hfollow, hnode⟩ := FileTree.readFile_eq_ok hread
    rw [FileTree.isFile_of_follow hfollow, hnode] at hfile
    cases hfile
  cases h with
  | unexamined h => cases hfile.symm.trans h
  | noFile h => exact ⟨rfl, rfl⟩
  | unread h => exact absurd h (hread _)
  | foreign h => exact absurd h (hread _)
  | removed h => exact absurd h (hread _)

/-- What reads as its source is left alone. -/
theorem Writing.eq_of_readsAs {directory : Path} {codec : NamedCodec} {s : GeneratedSource}
    {t t' : FileTree} {r : Except RunError Bool} (h : Writing directory codec s t r t')
    {name : FullName} {octets : Octets} (hfollow : t.follow (directory.join s.hintName) = .ok name)
    (hnode : t.node? name = some (.file octets)) (hreads : ReadsAs codec octets s.text) :
    r = .ok false ∧ t' = t := by
  obtain ⟨own, cs, hcodec, hcode, htext⟩ := hreads
  have hearlier : ∀ {old}, Earlier directory codec t (directory.join s.hintName) old →
      old = .ok (some (.ofString s.text)) := by
    intro old hold
    rw [hold.eq_of_file hfollow hnode hcodec, hcode]
    simp only [htext]
  cases h with
  | unread h => cases hearlier h
  | kept h => exact ⟨rfl, rfl⟩
  | unaccepted h hold => exact absurd (Except.ok.inj (hearlier h)) hold
  | unopened h hold => exact absurd (Except.ok.inj (hearlier h)) hold
  | emptied h hold => exact absurd (Except.ok.inj (hearlier h)) hold
  | written h hold => exact absurd (Except.ok.inj (hearlier h)) hold

namespace Settled

variable {t : FileTree} (h : Settled codecs settings paths output out c t)
include h

theorem fullName : t.fullName (.ofString output) = .ok out :=
  FileTree.follow_eq_ok h.follow

/-- Nothing is removed. -/
theorem removes_nothing {r : Except RunError Nat} {t' : FileTree}
    (hremove :
      RemovalAll (.ofString output) (settings.codec codecs) (runPass settings c).hintNames t r t') :
    r = .ok 0 ∧ t' = t := by
  cases hremove with
  | unexamined hthere =>
      rw [FileTree.isDirectory_of_follow h.follow] at hthere
      cases hthere
  | absent hthere => exact ⟨rfl, rfl⟩
  | listed hfollow hdirectory hremove =>
      cases h.follow.symm.trans hfollow
      obtain ⟨rfl, rfl⟩ := hremove.constant (b := false) fun name hname r t' hstep =>
        hstep.eq_of_no_file (h.stale name hname)
      exact ⟨by simp [Except.map], rfl⟩

/-- Nothing is written. -/
theorem writes_nothing {r : Except RunError Nat} {t' : FileTree}
    (hwrite :
      WritingAll (.ofString output) (settings.codec codecs) (runPass settings c).sources t r t') :
    r = .ok 0 ∧ t' = t := by
  have hmade := h.wellFormed.makeDirectories_of_follow h.follow h.directory
  cases hwrite with
  | unmade hmake => cases hmade.symm.trans hmake
  | made hmake hwrite =>
      cases hmade.symm.trans hmake
      obtain ⟨rfl, rfl⟩ := hwrite.constant (b := false) fun s hs r t' hstep => by
        obtain ⟨octets, hfollow, hnode, hreads⟩ := h.written s hs
        exact hstep.eq_of_readsAs hfollow hnode hreads
      exact ⟨by simp [Except.map], rfl⟩

/-- **A settled tree stays as it is.** -/
theorem repeats {r : Except RunError Nat} (hp : p.tree = t)
    (hcourse : Generation codecs settings paths output p r q) :
    r = .ok (exitCode (runPass settings c)) ∧ q.tree = t ∧
    q.errors = p.errors ++ diagnosticLines (runPass settings c) ∧
    q.output = p.output ++ generationSummary (runPass settings c) 0 0 ++ "\n" := by
  subst hp
  cases hcourse with
  | unnamed hout => cases h.fullName.symm.trans hout
  | unloaded hout hload =>
      cases h.fullName.symm.trans hout
      cases h.load.symm.trans hload
  | unremoved hout hload hremove =>
      cases h.fullName.symm.trans hout
      cases h.load.symm.trans hload
      obtain ⟨hr, _⟩ := h.removes_nothing hremove
      cases hr
  | unwritten hout hload hremove hwrite =>
      cases h.fullName.symm.trans hout
      cases h.load.symm.trans hload
      obtain ⟨_, rfl⟩ := h.removes_nothing hremove
      obtain ⟨hr, _⟩ := h.writes_nothing hwrite
      cases hr
  | finished hout hload hremove hwrite =>
      cases h.fullName.symm.trans hout
      cases h.load.symm.trans hload
      obtain ⟨hremoved, rfl⟩ := h.removes_nothing hremove
      obtain ⟨hwritten, rfl⟩ := h.writes_nothing hwrite
      cases hremoved
      cases hwritten
      exact ⟨rfl, rfl, rfl, rfl⟩

end Settled

end

end LocalisedEnum

import LocalisedEnum.Proofs.Encoding.RoundTrip
import LocalisedEnum.Proofs.FileTree.Operations
import LocalisedEnum.Proofs.Run.Generation

/-!
**What writing leaves.**

Each generated file has its place, the full name that its path spells out.  Writing changes the
places of the files that it comes to and nothing else: what it has written holds the whole text of
its source, and only the last file it came to may be left empty.  When all goes through and no two
files have one place, each holds its text, or was left alone because it said the text already.

Main definitions:

* `Encodes`, `ReadsAs` — octets that a text is written as, and octets that are read as a text;
* `Trace` — what writing may leave under a name.

Main results:

* `Writing.effect` — what one file that is written changes;
* `writing_course` — **what all of them change**, whatever comes of it;
* `writing_of_ok` — what they leave when nothing fails;
* `WritingAll.nodes`, `WritingAll.written_of_ok` — the same with the directory that is made for
  them.
-/

set_option autoImplicit false
set_option relaxedAutoImplicit false

namespace LocalisedEnum

/-! ### Octets of texts -/

/-- Octets that a text is written as. -/
def Encodes (codec : NamedCodec) (text : String) (octets : Octets) : Prop :=
  ∃ own, codec = .ok own ∧ own.encode text.toList = .ok octets

theorem utf8Text_of_encodes {codec : NamedCodec} {text : String} {octets : Octets}
    (hutf8 : codec = .ok Encoding.utf8.codec) (h : Encodes codec text octets) :
    octets = utf8Text text := by
  obtain ⟨own, hcodec, hcode⟩ := h
  cases hutf8.symm.trans hcodec
  exact (Except.ok.inj hcode).symm

/-- Octets that are read as a text, whatever their line ends. -/
def ReadsAs (codec : NamedCodec) (octets : Octets) (text : String) : Prop :=
  ∃ own cs, codec = .ok own ∧ own.decode octets = .ok cs ∧ cs.unifyLineEnds = .ofString text

/-- Octets that can be read at all. -/
def Legible (codec : NamedCodec) (octets : Octets) : Prop :=
  ∃ own cs, codec = .ok own ∧ own.decode octets = .ok cs

theorem ReadsAs.legible {codec : NamedCodec} {octets : Octets} {text : String}
    (h : ReadsAs codec octets text) : Legible codec octets := by
  obtain ⟨own, cs, hcodec, hcode, _⟩ := h
  exact ⟨own, cs, hcodec, hcode⟩

section

variable {directory : Path} {codec : NamedCodec} {t t' : FileTree}

/-! ### What is found in the place of a file -/

namespace Earlier

variable {p : Path} {r : Except RunError (Option CodeText)}

/-- A file that is found is read. -/
theorem eq_of_file (h : Earlier directory codec t p r) {name : FullName} {octets : Octets}
    {own : Codec} (hfollow : t.follow p = .ok name) (hnode : t.node? name = some (.file octets))
    (hcodec : codec = .ok own) :
    r = match own.decode octets with
      | .error e => .error (.unwritable directory (.coding e))
      | .ok cs => .ok (some cs.unifyLineEnds) := by
  have hfile := FileTree.isFile_of_follow hfollow
  have hread := FileTree.readFile_of_follow hfollow hnode
  rw [hnode] at hfile
  cases h with
  | unexamined h => rw [hfile] at h; cases h
  | absent h => rw [hfile] at h; cases h
  | noCodec h hnone => cases hcodec.symm.trans hnone
  | undecodable h hown hcode =>
      cases hread.symm.trans h
      cases hcodec.symm.trans hown
      rw [hcode]
  | text h hown hcode =>
      cases hread.symm.trans h
      cases hcodec.symm.trans hown
      rw [hcode]

/-- A text that is found is what a file says. -/
theorem readsAs {text : String} (h : Earlier directory codec t p (.ok (some (.ofString text)))) :
    ∃ name octets, t.follow p = .ok name ∧ t.node? name = some (.file octets) ∧
      ReadsAs codec octets text := by
  generalize hr : (Except.ok (some (CodeText.ofString text)) : Except RunError _) = r at h
  cases h with
  | unexamined h => cases hr
  | absent h => cases hr
  | noCodec h hcodec => cases hr
  | undecodable h hcodec hcode => cases hr
  | text h hcodec hcode =>
      obtain ⟨name, hfollow, hnode⟩ := FileTree.readFile_eq_ok h
      exact
        ⟨name, _, hfollow, hnode, _, _, hcodec, hcode, (Option.some.inj (Except.ok.inj hr)).symm⟩

end Earlier

/-! ### One file that is written -/

namespace Writing

variable {s : GeneratedSource} {r : Except RunError Bool}

/-- **What one file that is written changes**: nothing, or what stands in its place. -/
theorem effect (h : Writing directory codec s t r t') (ht : t.WellFormed) (hp : directory.Proper) :
    t' = t ∨
    ∃ name octets, t.fullName (directory.join s.hintName) = .ok name ∧ t.Puts t' name octets ∧
      (r = .ok true ∧ Encodes codec s.text octets ∨
        (∃ e, r = .error e) ∧ Unencodable codec s.text ∧ octets = []) := by
  cases h with
  | unread h => exact .inl rfl
  | kept h => exact .inl rfl
  | unaccepted h hold hcodec => exact .inl rfl
  | unopened h hold hopen => exact .inl rfl
  | emptied h hold hopen hcode =>
      obtain ⟨hputs, hname, _⟩ := ht.openForWriting_eq_ok (hp.join _) hopen
      exact .inr ⟨_, _, hname, hputs, .inr ⟨⟨_, rfl⟩, hcode, rfl⟩⟩
  | written h hold hopen hcodec hcode =>
      obtain ⟨hputs, hname, _⟩ := ht.openForWriting_eq_ok (hp.join _) hopen
      exact .inr ⟨_, _, hname, hputs.put _, .inl ⟨rfl, _, hcodec, hcode⟩⟩

theorem keeps (h : Writing directory codec s t r t') (ht : t.WellFormed) (hp : directory.Proper) :
    t.Keeps t' := by
  rcases h.effect ht hp with rfl | ⟨_, _, _, hputs, _⟩
  · exact .refl ht
  · exact hputs.keeps

/-- What the path of a file that is written or left alone leads to, and what stood there before. -/
theorem of_ok {b : Bool} (h : Writing directory codec s t (.ok b) t') (ht : t.WellFormed)
    (hp : directory.Proper) :
    ∃ name octets, t'.follow (directory.join s.hintName) = .ok name ∧
      t'.node? name = some (.file octets) ∧
      (Encodes codec s.text octets ∨
        t.node? name = some (.file octets) ∧ ReadsAs codec octets s.text) ∧
      ∀ old, t.node? name = some (.file old) → Legible codec old := by
  cases h with
  | kept h =>
      obtain ⟨name, octets, hfollow, hnode, hreads⟩ := h.readsAs
      refine ⟨name, octets, hfollow, hnode, .inr ⟨hnode, hreads⟩, fun old hold => ?_⟩
      cases hnode.symm.trans hold
      exact hreads.legible
  | @written _ _ name own octets h hold hopen hcodec hcode =>
      obtain ⟨hputs, _, hopened⟩ := ht.openForWriting_eq_ok (hp.join _) hopen
      have hwritten := hputs.put octets
      have hfollow := FileTree.follow_of_directories (FileTree.workingDirectory_put ..)
        (fun n hn => hwritten.directory_iff.2 (hputs.directory_iff.1 hn)) hopened
        (by rw [hwritten.node?_self]; rfl)
      refine
        ⟨name, octets, hfollow, hwritten.node?_self, .inl ⟨own, hcodec, hcode⟩, fun old hnode => ?_⟩
      have hfollow := ht.follow_of_openForWriting (hp.join _) hopen (by rw [hnode]; rfl)
      have hearlier := h.eq_of_file hfollow hnode hcodec
      split at hearlier
      · cases hearlier
      · next cs hcs => exact ⟨own, cs, hcodec, hcs⟩

end Writing

/-! ### All files that are written -/

/-- **What writing may leave under a name**, when it has come through the files `done` and not
through `rest`: what was there, the text of a file that it has come through, or an empty file in the
place of the one at which it failed. -/
inductive Trace (directory : Path) (codec : NamedCodec) (done rest : List GeneratedSource)
    (t t' : FileTree) (name : FullName) : Prop
  | same (h : t'.node? name = t.node? name)
  | written {s : GeneratedSource} {octets : Octets} (hs : s ∈ done)
      (hplace : t.fullName (directory.join s.hintName) = .ok name)
      (hold : t.node? name ≠ some .directory) (hencodes : Encodes codec s.text octets)
      (hnode : t'.node? name = some (.file octets))
  | emptied {s : GeneratedSource} (hs : rest.head? = some s)
      (hplace : t.fullName (directory.join s.hintName) = .ok name)
      (hold : t.node? name ≠ some .directory) (hcode : Unencodable codec s.text)
      (hnode : t'.node? name = some (.file []))

/-- What is left after the first file has been come through. -/
theorem Trace.cons {s : GeneratedSource} {done rest : List GeneratedSource} {t'' : FileTree}
    {b : Bool} {name : FullName} (h : Trace directory codec done rest t' t'' name)
    (hstep : Writing directory codec s t (.ok b) t') (ht : t.WellFormed) (hp : directory.Proper) :
    Trace directory codec (s :: done) rest t t'' name := by
  have hkeeps := hstep.keeps ht hp
  have hold : t'.node? name ≠ some .directory → t.node? name ≠ some .directory :=
    fun hnew hold => hnew (hkeeps.directories name hold)
  cases h with
  | same h =>
      rcases hstep.effect ht hp with
        rfl | ⟨place, octets, hplace, hputs, ⟨_, hencodes⟩ | ⟨⟨e, he⟩, _⟩⟩
      · exact .same h
      · by_cases heq : name = place
        · subst heq
          exact .written List.mem_cons_self hplace hputs.kept hencodes (h.trans hputs.node?_self)
        · exact .same (h.trans (hputs.node?_of_ne heq))
      · cases he
  | written hs hplace hkept hencodes hnode =>
      exact .written (List.mem_cons_of_mem _ hs) (hkeeps.fullName _ ▸ hplace) (hold hkept) hencodes
        hnode
  | emptied hs hplace hkept hcode hnode =>
      exact .emptied hs (hkeeps.fullName _ ▸ hplace) (hold hkept) hcode hnode

/-- **What writing changes**, whatever comes of it. -/
theorem writing_course {sources : List GeneratedSource} {r : Except RunError (List Bool)}
    (h : Successively (Writing directory codec) sources t r t') (ht : t.WellFormed)
    (hp : directory.Proper) :
    t.Keeps t' ∧
    ∃ done rest, sources = done ++ rest ∧ (∀ bs, r = .ok bs → rest = []) ∧
      ∀ name, Trace directory codec done rest t t' name := by
  induction h with
  | nil t => exact ⟨.refl ht, [], [], rfl, fun _ _ => rfl, fun _ => .same rfl⟩
  | @stop s t t' e rest hstep =>
      refine ⟨hstep.keeps ht hp, [], s :: rest, rfl, nofun, fun name => ?_⟩
      rcases hstep.effect ht hp with
        rfl | ⟨place, octets, hplace, hputs, ⟨hok, _⟩ | ⟨_, hcode, rfl⟩⟩
      · exact .same rfl
      · cases hok
      · by_cases heq : name = place
        · subst heq
          exact .emptied rfl hplace hputs.kept hcode hputs.node?_self
        · exact .same (hputs.node?_of_ne heq)
  | @next s sources t t' t'' b r hstep _ ih =>
      obtain ⟨hkeeps, done, rest, rfl, hrest, htrace⟩ := ih (hstep.keeps ht hp).wellFormed
      refine ⟨(hstep.keeps ht hp).trans hkeeps, s :: done, rest, rfl, ?_,
        fun name => (htrace name).cons hstep ht hp⟩
      intro bs hbs
      cases r with
      | error e => cases hbs
      | ok bs => exact hrest bs rfl

/-- When nothing fails, it has come through all files. -/
theorem writing_course_of_ok {sources : List GeneratedSource} {bs : List Bool}
    (h : Successively (Writing directory codec) sources t (.ok bs) t') (ht : t.WellFormed)
    (hp : directory.Proper) : t.Keeps t' ∧ ∀ name, Trace directory codec sources [] t t' name := by
  obtain ⟨hkeeps, done, rest, rfl, hrest, htrace⟩ := writing_course h ht hp
  obtain rfl := hrest bs rfl
  rw [List.append_nil]
  exact ⟨hkeeps, htrace⟩

/-- **What writing leaves when nothing fails** and no two files have one place: the path of each
leads to a file that holds its text, or that read as the text and was left alone; and what stood in
its place could be read. -/
theorem writing_of_ok {sources : List GeneratedSource} {r : Except RunError (List Bool)}
    {bs : List Bool} (h : Successively (Writing directory codec) sources t r t') (hr : r = .ok bs)
    (ht : t.WellFormed) (hp : directory.Proper)
    (hdistinct : sources.Pairwise fun s s' =>
      t.fullName (directory.join s.hintName) ≠ t.fullName (directory.join s'.hintName))
    {s : GeneratedSource} (hs : s ∈ sources) :
    ∃ name octets, t'.follow (directory.join s.hintName) = .ok name ∧
        t'.node? name = some (.file octets) ∧
        (Encodes codec s.text octets ∨
          t.node? name = some (.file octets) ∧ ReadsAs codec octets s.text) ∧
        ∀ old, t.node? name = some (.file old) → Legible codec old := by
  induction h generalizing bs with
  | nil => cases hs
  | stop => cases hr
  | @next first sources t t' t'' b r hstep hrest ih =>
      obtain ⟨hdiffers, hdistinct⟩ := List.pairwise_cons.1 hdistinct
      have hkeeps := hstep.keeps ht hp
      cases r with
      | error e => cases hr
      | ok bs =>
          obtain ⟨hkept, htrace⟩ := writing_course_of_ok hrest hkeeps.wellFormed hp
          rcases List.mem_cons.1 hs with rfl | hs
          · obtain ⟨name, octets, hfollow, hnode, hholds⟩ := hstep.of_ok ht hp
            have hplace := FileTree.follow_eq_ok hfollow
            have hlast : t''.node? name = some (.file octets) := by
              cases htrace name with
              | same hsame => exact hsame.trans hnode
              | written hs' hplace' hold hencodes hnode' =>
                  rw [hkeeps.fullName] at hplace hplace'
                  exact absurd (hplace.trans hplace'.symm) (hdiffers _ hs')
              | emptied hs' hplace' hold hcode hnode' => cases hs'
            exact ⟨name, octets, hkept.follow hfollow (by rw [hlast]; rfl), hlast, hholds⟩
          · simp only [← hkeeps.fullName] at hdistinct
            obtain ⟨name, octets, hfollow, hnode, hholds⟩ := ih rfl hkeeps.wellFormed hdistinct hs
            have hplace := FileTree.follow_eq_ok hfollow
            rw [(hkeeps.trans hkept).fullName] at hplace
            have hsame : t'.node? name = t.node? name := by
              rcases hstep.effect ht hp with rfl | ⟨place, octets', hplace', hputs, _⟩
              · rfl
              · refine hputs.node?_of_ne ?_
                rintro rfl
                exact hdiffers s hs (hplace'.trans hplace.symm)
            rw [hsame] at hholds
            exact ⟨name, octets, hfollow, hnode, hholds⟩

/-! ### The directory and its files -/

namespace WritingAll

variable {sources : List GeneratedSource}

/-- **What writing touches**, behind the directories that are made. -/
theorem nodes {r : Except RunError Nat} (h : WritingAll directory codec sources t r t')
    (ht : t.WellFormed) (hp : directory.Proper) (name : FullName) :
    t'.node? name = (t.makeDirectories directory).1.node? name ∨
    ∃ s ∈ sources, ∃ octets, t.fullName (directory.join s.hintName) = .ok name ∧
      (t.makeDirectories directory).1.node? name ≠ some .directory ∧
      t'.node? name = some (.file octets) ∧ (octets = [] ∨ Encodes codec s.text octets) := by
  have hgrows := ht.makeDirectories_grows hp
  cases h with
  | unmade hmake =>
      rw [hmake]
      exact .inl rfl
  | made hmake hwrite =>
      rw [hmake] at hgrows ⊢
      obtain ⟨_, done, rest, rfl, _, htrace⟩ := writing_course hwrite hgrows.wellFormed hp
      cases htrace name with
      | same hsame => exact .inl hsame
      | written hs hplace hold hencodes hnode =>
          exact .inr ⟨_, List.mem_append_left rest hs, _, hgrows.keeps.fullName _ ▸ hplace, hold,
            hnode, .inr hencodes⟩
      | emptied hs hplace hold _ hnode =>
          have hs := List.mem_append_right done (List.mem_of_head? hs)
          exact .inr ⟨_, hs, _, hgrows.keeps.fullName _ ▸ hplace, hold, hnode, .inl rfl⟩

variable {written : Nat} (h : WritingAll directory codec sources t (.ok written) t')
  (ht : t.WellFormed) (hp : directory.Proper)
include h ht hp

/-- When nothing fails, the path of the directory leads to it. -/
theorem follow_of_ok {here : FullName} (hhere : t.fullName directory = .ok here) :
    t'.follow directory = .ok here ∧ t'.node? here = some .directory := by
  obtain ⟨made, bs, hmake, hwrite⟩ := h.of_ok
  have hgrows := ht.makeDirectories_grows hp
  rw [hmake] at hgrows
  obtain ⟨name, hfollow, hdirectory⟩ := ht.makeDirectories_eq_ok hp hmake
  have hname := FileTree.follow_eq_ok hfollow
  rw [hgrows.keeps.fullName, hhere] at hname
  cases hname
  have hkept := (writing_course_of_ok hwrite hgrows.wellFormed hp).1
  exact ⟨hkept.follow_directory hfollow hdirectory, hkept.directories _ hdirectory⟩

/-- **Each file is in its place when nothing fails**, with its text or as it was when it read as the
text; and what was in its place before could be read. -/
theorem written_of_ok (hdistinct : sources.Pairwise fun s s' =>
      t.fullName (directory.join s.hintName) ≠ t.fullName (directory.join s'.hintName))
    {s : GeneratedSource} (hs : s ∈ sources) {name : FullName}
    (hname : t.fullName (directory.join s.hintName) = .ok name) :
    ∃ octets, t'.follow (directory.join s.hintName) = .ok name ∧
        t'.node? name = some (.file octets) ∧
        (Encodes codec s.text octets ∨
          t.node? name = some (.file octets) ∧ ReadsAs codec octets s.text) ∧
        ∀ old, t.node? name = some (.file old) → Legible codec old := by
  obtain ⟨made, bs, hmake, hwrite⟩ := h.of_ok
  have hgrows := ht.makeDirectories_grows hp
  rw [hmake] at hgrows
  simp only [← hgrows.keeps.fullName] at hdistinct
  obtain ⟨place, octets, hfollow, hnode, hholds, hread⟩ :=
    writing_of_ok hwrite rfl hgrows.wellFormed hp hdistinct hs
  have hplace := FileTree.follow_eq_ok hfollow
  rw [(writing_course_of_ok hwrite hgrows.wellFormed hp).1.fullName, hgrows.keeps.fullName,
    hname] at hplace
  cases hplace
  exact ⟨octets, hfollow, hnode, hholds.imp_right (And.imp_left hgrows.file_iff.1),
    fun old hold => hread old (hgrows.file_iff.2 hold)⟩

end WritingAll

end

end LocalisedEnum

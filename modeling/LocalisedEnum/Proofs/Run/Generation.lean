import LocalisedEnum.Command.Execution
import LocalisedEnum.Proofs.FileTree.Following
import LocalisedEnum.Proofs.Run.Steps

/-!
**What a generation can come to.**

A generation loads its source files, removes the files that are no longer produced and writes those
that are.  Each of these may fail, and what was done before stays done.  The ways are listed here,
each with what it makes of the files, so that nothing that is said of a generation has to go through
its steps again.

Main definitions:

* `Earlier` — what was found in the place of a generated file;
* `Writing`, `Removal` — the ways of one file that is written or removed;
* `WritingAll`, `RemovalAll` — of all of them;
* `Progress.passed`, `Progress.finished` — what a pass and a whole generation print;
* `Generation` — the ways of a generation.

Main results:

* `writeSources_leaves`, `removeStale_leaves` — writing and removing print nothing and go one of
  these ways;
* `generateFiles_course` — **and so does a generation**.
-/

set_option autoImplicit false
set_option relaxedAutoImplicit false

namespace LocalisedEnum

open Run

/-! ### One file that is written -/

/-- What was found in the place of a generated file: nothing, the text of a file, or what keeps it
from being read. -/
inductive Earlier (directory : Path) (codec : NamedCodec) (t : FileTree) (p : Path) :
    Except RunError (Option CodeText) → Prop
  | unexamined {e : FileError} (h : t.isFile p = .error e) :
      Earlier directory codec t p (.error (whileWriting directory e))
  | absent (h : t.isFile p = .ok false) : Earlier directory codec t p (.ok none)
  | noCodec {fault : EncodingFault} (h : t.isFile p = .ok true) (hcodec : codec = .error fault) :
      Earlier directory codec t p (.error (.encoding fault))
  | undecodable {octets : Octets} {own : Codec} {e : CodingError} (h : t.readFile p = .ok octets)
      (hcodec : codec = .ok own) (hcode : own.decode octets = .error e) :
      Earlier directory codec t p (.error (.unwritable directory (.coding e)))
  | text {octets : Octets} {own : Codec} {cs : CodeText} (h : t.readFile p = .ok octets)
      (hcodec : codec = .ok own) (hcode : own.decode octets = .ok cs) :
      Earlier directory codec t p (.ok (some cs.unifyLineEnds))

/-- There is no codec that a text can be written with. -/
def Unencodable (codec : NamedCodec) (text : String) : Prop :=
  ∀ own, codec = .ok own → ∃ e, own.encode text.toList = .error e

/-- The ways of a generated file: it is not written because of what is found in its place, it says
the same already, it cannot be opened, it is emptied and cannot be encoded, or it is written. -/
inductive Writing (directory : Path) (codec : NamedCodec) (s : GeneratedSource) (t : FileTree) :
    Except RunError Bool → FileTree → Prop
  | unread {e : RunError} (h : Earlier directory codec t (directory.join s.hintName) (.error e)) :
      Writing directory codec s t (.error e) t
  | kept
      (h : Earlier directory codec t (directory.join s.hintName) (.ok (some (.ofString s.text)))) :
      Writing directory codec s t (.ok false) t
  | unaccepted {old : Option CodeText}
      (h : Earlier directory codec t (directory.join s.hintName) (.ok old))
      (hold : old ≠ some (.ofString s.text)) (hcodec : codec = .error .nullCharacter) :
      Writing directory codec s t (.error (.encoding .nullCharacter)) t
  | unopened {old : Option CodeText} {e : FileError}
      (h : Earlier directory codec t (directory.join s.hintName) (.ok old))
      (hold : old ≠ some (.ofString s.text))
      (hopen : t.openForWriting (directory.join s.hintName) = .error e) :
      Writing directory codec s t (.error (whileWriting directory e)) t
  | emptied {old : Option CodeText} {t' : FileTree} {name : FullName} {e : RunError}
      (h : Earlier directory codec t (directory.join s.hintName) (.ok old))
      (hold : old ≠ some (.ofString s.text))
      (hopen : t.openForWriting (directory.join s.hintName) = .ok (t', name))
      (hcode : Unencodable codec s.text) : Writing directory codec s t (.error e) t'
  | written {old : Option CodeText} {t' : FileTree} {name : FullName} {own : Codec}
      {octets : Octets} (h : Earlier directory codec t (directory.join s.hintName) (.ok old))
      (hold : old ≠ some (.ofString s.text))
      (hopen : t.openForWriting (directory.join s.hintName) = .ok (t', name))
      (hcodec : codec = .ok own) (hcode : own.encode s.text.toList = .ok octets) :
      Writing directory codec s t (.ok true) (t'.put name (.file octets))

theorem result_textOfFile (directory : Path) (codec : NamedCodec) {path : Path} {p : Progress}
    (h : p.tree.isFile path = .ok true) :
    ∃ r, Earlier directory codec p.tree path (r.map some) ∧
      Run.result (textOfFile directory codec path) p = (r, p) := by
  obtain ⟨_, octets, _, _, hread⟩ := FileTree.isFile_eq_true h
  rw [textOfFile, result_bind_of_ok (result_tree p), hread, result_bind_of_ok (result_orFail_ok ..)]
  cases codec with
  | error fault => exact ⟨.error _, .noCodec h rfl, result_bind_of_error (result_orFail_error ..) _⟩
  | ok own =>
      rw [result_bind_of_ok (result_orFail_ok ..)]
      cases hcode : own.decode octets with
      | error e =>
          exact ⟨.error _, .undecodable hread rfl hcode,
            result_bind_of_error (result_orFail_error ..) _⟩
      | ok cs => exact ⟨.ok _, .text hread rfl hcode, result_bind_of_ok (result_orFail_ok ..) _⟩

theorem result_alreadySays (directory : Path) (codec : NamedCodec) (path : Path) (text : String)
    (p : Progress) :
    ∃ r, Earlier directory codec p.tree path r ∧
      Run.result (alreadySays directory codec path text) p =
        (r.map (· == some (.ofString text)), p) := by
  rw [alreadySays, result_bind_of_ok (result_tree p)]
  cases hfile : p.tree.isFile path with
  | error e => exact ⟨_, .unexamined hfile, result_bind_of_error (result_orFail_error ..) _⟩
  | ok there =>
      rw [result_bind_of_ok (result_orFail_ok ..)]
      cases there with
      | false => exact ⟨_, .absent hfile, rfl⟩
      | true =>
          obtain ⟨r, hearlier, hresult⟩ := result_textOfFile directory codec hfile
          refine ⟨_, hearlier, ?_⟩
          cases r with
          | error e => exact result_bind_of_error hresult _
          | ok said => exact result_bind_of_ok hresult _

theorem overwrite_leaves (directory : Path) (codec : NamedCodec) (s : GeneratedSource)
    {t : FileTree} {old : Option CodeText}
    (h : Earlier directory codec t (directory.join s.hintName) (.ok old))
    (hold : old ≠ some (.ofString s.text)) {p : Progress} (hp : p.tree = t) :
    ∃ r t' entries,
      Run.result (overwrite directory codec (directory.join s.hintName) s.text) p =
        (r, p.leave t' entries) ∧ Writing directory codec s t (r.map fun _ => true) t' := by
  subst hp
  have haccept : codec = .error .nullCharacter ∨
      ∀ q, Run.result (acceptName codec) q = (.ok (), q) := by
    rcases codec with ⟨_ | _⟩ | _
    · exact .inl rfl
    · exact .inr fun _ => rfl
    · exact .inr fun _ => rfl
  rw [overwrite]
  rcases haccept with hcodec | haccept
  · refine ⟨.error (.encoding .nullCharacter), p.tree, [], ?_, .unaccepted h hold hcodec⟩
    rw [p.leave_self, hcodec]
    exact result_bind_of_error rfl _
  rw [result_bind_of_ok (haccept p), result_bind_of_ok (result_tree p)]
  cases hopen : p.tree.openForWriting (directory.join s.hintName) with
  | error e =>
      exact ⟨.error _, p.tree, [],
        by rw [p.leave_self]; exact result_bind_of_error (result_orFail_error ..) _,
        .unopened h hold hopen⟩
  | ok opened =>
      obtain ⟨t', name⟩ := opened
      rw [result_bind_of_ok (result_orFail_ok ..), result_bind_of_ok (result_setTree t' p)]
      cases codec with
      | error fault =>
          exact ⟨.error _, t', [], result_bind_of_error (result_orFail_error ..) _,
            .emptied h hold hopen fun _ hown => absurd hown (ok_ne_error _ _).symm⟩
      | ok own =>
          rw [result_bind_of_ok (result_orFail_ok ..)]
          cases hcode : own.encode s.text.toList with
          | error e =>
              refine ⟨.error _, t', [], result_bind_of_error (result_orFail_error ..) _,
                .emptied h hold hopen ?_⟩
              rintro _ ⟨⟩
              exact ⟨e, hcode⟩
          | ok octets =>
              rw [result_bind_of_ok (result_orFail_ok ..), result_setTree, Progress.leave_leave]
              exact ⟨.ok (), _, _, rfl, .written h hold hopen rfl hcode⟩

/-- **A generated file goes one of its ways.** -/
theorem writeSource_leaves (directory : Path) (codec : NamedCodec) (s : GeneratedSource) :
    Leaves (writeSource directory codec s) (Writing directory codec s) := by
  intro p
  obtain ⟨r, hearlier, hsaid⟩ :=
    result_alreadySays directory codec (directory.join s.hintName) s.text p
  rw [writeSource]
  cases r with
  | error e => exact Leaves.of_eq (result_bind_of_error hsaid _) (.unread hearlier)
  | ok old =>
      rw [result_bind_of_ok hsaid]
      by_cases hold : old = some (.ofString s.text)
      · subst hold
        rw [if_pos (beq_self_eq_true _)]
        exact Leaves.of_eq (result_pure ..) (.kept hearlier)
      · rw [if_neg (by simpa using hold)]
        obtain ⟨r, t', entries, hresult, hwriting⟩ :=
          overwrite_leaves directory codec s hearlier hold rfl
        cases r with
        | error e => exact ⟨_, t', entries, result_bind_of_error hresult _, hwriting⟩
        | ok _ =>
            rw [result_bind_of_ok hresult, result_bind_of_ok (result_note ..), Progress.leave_leave]
            exact ⟨_, _, _, rfl, hwriting⟩

/-! ### All files that are written -/

/-- The ways of the files that are written: their directory cannot be made, or each goes its way. -/
inductive WritingAll (directory : Path) (codec : NamedCodec) (sources : List GeneratedSource)
    (t : FileTree) : Except RunError Nat → FileTree → Prop
  | unmade {t' : FileTree} {e : FileError} (hmake : t.makeDirectories directory = (t', .error e)) :
      WritingAll directory codec sources t (.error (whileWriting directory e)) t'
  | made {t' t'' : FileTree} {r : Except RunError (List Bool)}
      (hmake : t.makeDirectories directory = (t', .ok ()))
      (hwrite : Successively (Writing directory codec) sources t' r t'') :
      WritingAll directory codec sources t (r.map (·.countP id)) t''

/-- Writing that goes through has made the directory, and all files have gone their ways. -/
theorem WritingAll.of_ok {directory : Path} {codec : NamedCodec} {sources : List GeneratedSource}
    {t t' : FileTree} {written : Nat} (h : WritingAll directory codec sources t (.ok written) t') :
    ∃ made bs, t.makeDirectories directory = (made, .ok ()) ∧
      Successively (Writing directory codec) sources made (.ok bs) t' := by
  generalize hr : (Except.ok written : Except RunError Nat) = r at h
  cases h with
  | unmade hmake => cases hr
  | @made made _ r hmake hwrite =>
      cases r with
      | error e => cases hr
      | ok bs => exact ⟨made, bs, hmake, hwrite⟩

/-- **Writing goes one of its ways.** -/
theorem writeSources_leaves (directory : Path) (codec : NamedCodec)
    (sources : List GeneratedSource) :
    Leaves (writeSources directory codec sources) (WritingAll directory codec sources) := by
  intro p
  rw [writeSources, result_bind_of_ok (result_tree p)]
  obtain ⟨t', outcome, hmake⟩ : ∃ t' outcome, p.tree.makeDirectories directory = (t', outcome) :=
    ⟨_, _, rfl⟩
  rw [hmake, result_bind_of_ok (result_setTree t' p)]
  cases outcome with
  | error e => exact ⟨_, t', [], result_bind_of_error (result_orFail_error ..) _, .unmade hmake⟩
  | ok _ =>
      rw [result_bind_of_ok (result_orFail_ok ..)]
      obtain ⟨r, t'', entries, hresult, hwrite⟩ :=
        Leaves.mapM (writeSource_leaves directory codec) sources (p.leave t' [])
      refine ⟨_, t'', [] ++ entries, ?_, .made hmake hwrite⟩
      rw [Progress.leave_leave] at hresult
      cases r with
      | error e => exact result_bind_of_error hresult _
      | ok written => exact result_bind_of_ok hresult _

/-! ### Files that are removed -/

/-- The ways of a file that is no longer produced: it cannot be examined, it is no file, it cannot
be read, it does not begin as generated files do, or it is removed. -/
inductive Removal (directory : Path) (codec : NamedCodec) (name : String) (t : FileTree) :
    Except RunError Bool → FileTree → Prop
  | unexamined {e : FileError} (h : t.isFile (directory.below [name]) = .error e) :
      Removal directory codec name t (.error (.unremovable directory e)) t
  | noFile (h : t.isFile (directory.below [name]) = .ok false) :
      Removal directory codec name t (.ok false) t
  | unread {octets : Octets} {e : RunError} (h : t.readFile (directory.below [name]) = .ok octets)
      (hcode : ∀ own, codec = .ok own → ∃ e, own.decodeLeniently octets = .error e) :
      Removal directory codec name t (.error e) t
  | foreign {octets : Octets} {own : Codec} {text : CodeText}
      (h : t.readFile (directory.below [name]) = .ok octets) (hcodec : codec = .ok own)
      (hcode : own.decodeLeniently octets = .ok text) (hheader : beginsAsGenerated text = false) :
      Removal directory codec name t (.ok false) t
  | removed {octets : Octets} {own : Codec} {text : CodeText} {full : FullName}
      (h : t.readFile (directory.below [name]) = .ok octets) (hcodec : codec = .ok own)
      (hcode : own.decodeLeniently octets = .ok text) (hheader : beginsAsGenerated text = true)
      (hfollow : t.follow (directory.below [name]) = .ok full) :
      Removal directory codec name t (.ok true) (t.erase full)

theorem removeIfGenerated_leaves (directory : Path) (codec : NamedCodec) (name : String) :
    Leaves (removeIfGenerated directory codec (directory.below [name]))
      (Removal directory codec name) := by
  intro p
  rw [removeIfGenerated, result_bind_of_ok (result_tree p)]
  cases hfile : p.tree.isFile (directory.below [name]) with
  | error e =>
      exact Leaves.of_eq (result_bind_of_error (result_orFail_error ..) _) (.unexamined hfile)
  | ok there =>
      rw [result_bind_of_ok (result_orFail_ok ..)]
      cases there with
      | false => exact Leaves.of_eq rfl (.noFile hfile)
      | true =>
          obtain ⟨full, octets, hfollow, _, hread⟩ := FileTree.isFile_eq_true hfile
          rw [if_pos rfl, hread, result_bind_of_ok (result_orFail_ok ..)]
          cases codec with
          | error fault =>
              exact Leaves.of_eq (result_bind_of_error (result_orFail_error ..) _)
                (.unread hread fun _ hown => absurd hown (ok_ne_error _ _).symm)
          | ok own =>
              rw [result_bind_of_ok (result_orFail_ok ..)]
              cases hcode : own.decodeLeniently octets with
              | error e =>
                  refine Leaves.of_eq (result_bind_of_error (result_orFail_error ..) _)
                    (.unread hread ?_)
                  rintro _ ⟨⟩
                  exact ⟨e, hcode⟩
              | ok text =>
                  rw [result_bind_of_ok (result_orFail_ok ..)]
                  cases hheader : beginsAsGenerated text with
                  | false => exact Leaves.of_eq rfl (.foreign hread rfl hcode hheader)
                  | true =>
                      have hremove : p.tree.remove (directory.below [name]) =
                          .ok (p.tree.erase full) := by
                        rw [FileTree.remove, hfollow]
                        rfl
                      rw [if_pos rfl, hremove, result_bind_of_ok (result_orFail_ok ..),
                        result_bind_of_ok (result_setTree ..), result_bind_of_ok (result_note ..),
                        Progress.leave_leave]
                      exact ⟨_, _, _, rfl, .removed hread rfl hcode hheader hfollow⟩

/-- The ways of the files that are no longer produced: their directory cannot be examined, it is not
there, or each of them goes its way. -/
inductive RemovalAll (directory : Path) (codec : NamedCodec) (produced : List String)
    (t : FileTree) : Except RunError Nat → FileTree → Prop
  | unexamined {e : FileError} (h : t.isDirectory directory = .error e) :
      RemovalAll directory codec produced t (.error (.refused e)) t
  | absent (h : t.isDirectory directory = .ok false) :
      RemovalAll directory codec produced t (.ok 0) t
  | listed {here : FullName} {r : Except RunError (List Bool)} {t' : FileTree}
      (h : t.follow directory = .ok here) (hdirectory : t.node? here = some .directory)
      (hremove : Successively (Removal directory codec) (staleCandidates t here produced) t r t') :
      RemovalAll directory codec produced t (r.map (·.countP id)) t'

/-- Removing that goes through has found no directory and left everything as it was, or all that is
considered has gone its way. -/
theorem RemovalAll.of_ok {directory : Path} {codec : NamedCodec} {produced : List String}
    {t t' : FileTree} {removed : Nat} (h : RemovalAll directory codec produced t (.ok removed) t') :
    t.isDirectory directory = .ok false ∧ t' = t ∨
    ∃ here bs, t.follow directory = .ok here ∧ t.node? here = some .directory ∧
      Successively (Removal directory codec) (staleCandidates t here produced) t (.ok bs) t' := by
  generalize hr : (Except.ok removed : Except RunError Nat) = r at h
  cases h with
  | unexamined h => cases hr
  | absent h => exact .inl ⟨h, rfl⟩
  | @listed here r _ h hdirectory hremove =>
      cases r with
      | error e => cases hr
      | ok bs => exact .inr ⟨here, bs, h, hdirectory, hremove⟩

/-- **Removing goes one of its ways.** -/
theorem removeStale_leaves (directory : Path) (codec : NamedCodec) (produced : List String) :
    Leaves (removeStale directory codec produced) (RemovalAll directory codec produced) := by
  intro p
  rw [removeStale, result_bind_of_ok (result_tree p)]
  cases hthere : p.tree.isDirectory directory with
  | error e =>
      exact Leaves.of_eq (result_bind_of_error (result_orFail_error ..) _) (.unexamined hthere)
  | ok there =>
      rw [result_bind_of_ok (result_orFail_ok ..)]
      cases there with
      | false => exact Leaves.of_eq rfl (.absent hthere)
      | true =>
          obtain ⟨here, hfollow, hnode⟩ := FileTree.isDirectory_eq_true hthere
          rw [if_pos rfl, hfollow, result_bind_of_ok (result_orFail_ok ..)]
          obtain ⟨r, t', entries, hresult, hremove⟩ :=
            Leaves.mapM (removeIfGenerated_leaves directory codec)
              (staleCandidates p.tree here produced) p
          refine ⟨_, t', entries, ?_, .listed hfollow hnode hremove⟩
          cases r with
          | error e => exact result_bind_of_error hresult _
          | ok removed => exact result_bind_of_ok hresult _

/-! ### Passes -/

/-- The lines that diagnostics are shown as. -/
def diagnosticLines (result : PassResult) : CodeText :=
  result.diagnostics.sorted.flatMap fun d => d.text ++ CodeText.ofString "\n"

/-- Progress behind a pass that has shown its diagnostics. -/
def Progress.passed (p : Progress) (c : Compilation) (result : PassResult) : Progress :=
  { p with
    errors := p.errors ++ diagnosticLines result
    log := p.log ++ [c.loadedEntry] ++ result.log }

theorem result_forM_complain (lines : List CodeText) (p : Progress) :
    Run.result (lines.forM complain) p =
      (.ok (), { p with errors := p.errors ++ lines.flatMap (· ++ CodeText.ofString "\n") }) := by
  induction lines generalizing p with
  | nil => simp only [List.flatMap_nil, List.append_nil]; rfl
  | cons line lines ih =>
      rw [List.forM, result_bind_of_ok (result_complain line p), ih, List.flatMap_cons]
      simp only [List.append_assoc]

theorem result_forM_say (lines : List String) (p : Progress) :
    Run.result (lines.forM say) p =
      (.ok (), { p with output := p.output ++ String.join (lines.map (· ++ "\n")) }) := by
  induction lines generalizing p with
  | nil => rw [List.map_nil, String.join_nil, String.append_empty]; rfl
  | cons line lines ih =>
      rw [List.forM, result_bind_of_ok (result_say line p), ih, List.map_cons, String.join_cons]
      simp only [String.append_assoc]

theorem result_showDiagnostics (result : PassResult) (p : Progress) :
    Run.result (showDiagnostics result) p =
      (.ok (), { p with errors := p.errors ++ diagnosticLines result }) := by
  have hlines : showDiagnostics result =
      (result.diagnostics.sorted.map Diagnostic.text).forM complain := by
    rw [showDiagnostics]
    exact (List.forM_map ..).symm
  rw [hlines, result_forM_complain, List.flatMap_map, diagnosticLines]

theorem result_passOver_error {settings : Settings} {excluded : List FullName} {paths : List String}
    {p : Progress} {e : SourceError}
    (h : loadCompilation p.tree excluded (paths.map Path.ofString) = .error e) :
    Run.result (passOver settings excluded paths) p = (.error (.source e), p) := by
  rw [passOver, result_bind_of_ok (result_tree p), h]
  exact result_bind_of_error (result_orFail_error ..) _

theorem result_passOver_ok {settings : Settings} {excluded : List FullName} {paths : List String}
    {p : Progress} {c : Compilation}
    (h : loadCompilation p.tree excluded (paths.map Path.ofString) = .ok c) :
    Run.result (passOver settings excluded paths) p =
      (.ok (runPass settings c), p.leave p.tree ([c.loadedEntry] ++ (runPass settings c).log)) := by
  rw [passOver, result_bind_of_ok (result_tree p), h, result_bind_of_ok (result_orFail_ok ..),
    result_bind_of_ok (result_note ..), result_bind_of_ok (result_note ..), Progress.leave_leave]
  rfl

/-- A pass that is shown leaves its diagnostics and goes on. -/
theorem result_passOver_bind {β : Type} {settings : Settings} {excluded : List FullName}
    {paths : List String} {p : Progress} {c : Compilation}
    (h : loadCompilation p.tree excluded (paths.map Path.ofString) = .ok c)
    (f : PassResult → Run β) :
    Run.result
        (passOver settings excluded paths >>=
          fun result => showDiagnostics result >>= fun _ => f result) p =
      Run.result (f (runPass settings c)) (p.passed c (runPass settings c)) := by
  rw [result_bind_of_ok (result_passOver_ok h), result_bind_of_ok (result_showDiagnostics ..)]
  simp only [Progress.leave, Progress.passed, List.append_assoc]

/-! ### Generations -/

/-- The line that sums a generation up. -/
def generationSummary (result : PassResult) (written removed : Nat) : String :=
  toString result.sources.length ++ " file(s) generated, " ++ toString written ++ " written, "
    ++ toString removed ++ " removed, " ++ errorText result

/-- **The ways of a generation**: the name of the directory is refused, the source files cannot be
loaded, what is no longer produced cannot be removed, what is produced cannot be written, or all is
done. -/
inductive Generation (codecs : Codecs) (settings : Settings) (paths : List String) (output : String)
    (p : Progress) : Except RunError Nat → Progress → Prop
  | unnamed {e : FileError} (hout : p.tree.fullName (.ofString output) = .error e) :
      Generation codecs settings paths output p (.error (.refused e)) p
  | unloaded {out : FullName} {e : SourceError}
      (hout : p.tree.fullName (.ofString output) = .ok out)
      (hload : loadCompilation p.tree [out] (paths.map Path.ofString) = .error e) :
      Generation codecs settings paths output p (.error (.source e)) p
  | unremoved {out : FullName} {c : Compilation} {e : RunError} {t' : FileTree}
      {entries : List LogEntry} (hout : p.tree.fullName (.ofString output) = .ok out)
      (hload : loadCompilation p.tree [out] (paths.map Path.ofString) = .ok c)
      (hremove : RemovalAll (.ofString output) (settings.codec codecs)
        (runPass settings c).hintNames p.tree (.error e) t') :
      Generation codecs settings paths output p (.error e)
        ((p.passed c (runPass settings c)).leave t' entries)
  | unwritten {out : FullName} {c : Compilation} {removed : Nat} {e : RunError} {t' t'' : FileTree}
      {entries : List LogEntry} (hout : p.tree.fullName (.ofString output) = .ok out)
      (hload : loadCompilation p.tree [out] (paths.map Path.ofString) = .ok c)
      (hremove : RemovalAll (.ofString output) (settings.codec codecs)
        (runPass settings c).hintNames p.tree (.ok removed) t')
      (hwrite : WritingAll (.ofString output) (settings.codec codecs) (runPass settings c).sources
        t' (.error e) t'') :
      Generation codecs settings paths output p (.error e)
        ((p.passed c (runPass settings c)).leave t'' entries)
  | finished {out : FullName} {c : Compilation} {removed written : Nat} {t' t'' : FileTree}
      {entries : List LogEntry} (hout : p.tree.fullName (.ofString output) = .ok out)
      (hload : loadCompilation p.tree [out] (paths.map Path.ofString) = .ok c)
      (hremove : RemovalAll (.ofString output) (settings.codec codecs)
        (runPass settings c).hintNames p.tree (.ok removed) t')
      (hwrite : WritingAll (.ofString output) (settings.codec codecs)
        (runPass settings c).sources t' (.ok written) t'') :
      Generation codecs settings paths output p (.ok (exitCode (runPass settings c)))
        { (p.passed c (runPass settings c)).leave t'' entries with
          output := p.output ++ generationSummary (runPass settings c) written removed ++ "\n" }

/-- **A generation goes one of its ways.** -/
theorem generateFiles_course (codecs : Codecs) (settings : Settings) (paths : List String)
    (output : String) (p : Progress) :
    ∃ r q, Run.result (generateFiles codecs settings paths output) p = (r, q) ∧
      Generation codecs settings paths output p r q := by
  rw [generateFiles, result_bind_of_ok (result_tree p)]
  cases hout : p.tree.fullName (.ofString output) with
  | error e => exact ⟨_, _, result_bind_of_error (result_orFail_error ..) _, .unnamed hout⟩
  | ok out =>
      rw [result_bind_of_ok (result_orFail_ok ..)]
      cases hload : loadCompilation p.tree [out] (paths.map Path.ofString) with
      | error e =>
          exact ⟨_, _, result_bind_of_error (result_passOver_error hload) _, .unloaded hout hload⟩
      | ok c =>
          rw [result_passOver_bind hload]
          obtain ⟨r, t', entries, hresult, hremove⟩ := removeStale_leaves (.ofString output)
            (settings.codec codecs) (runPass settings c).hintNames (p.passed c (runPass settings c))
          cases r with
          | error e => exact ⟨_, _, result_bind_of_error hresult _, .unremoved hout hload hremove⟩
          | ok removed =>
              rw [result_bind_of_ok hresult]
              obtain ⟨r, t'', more, hresult, hwrite⟩ := writeSources_leaves (.ofString output)
                (settings.codec codecs) (runPass settings c).sources
                ((p.passed c (runPass settings c)).leave t' entries)
              rw [Progress.leave_leave] at hresult
              cases r with
              | error e =>
                  exact ⟨_, _, result_bind_of_error hresult _, .unwritten hout hload hremove hwrite⟩
              | ok written =>
                  rw [result_bind_of_ok hresult, result_bind_of_ok (result_say ..)]
                  exact ⟨_, _, rfl, .finished hout hload hremove hwrite⟩

/-! ### Commands that generate -/

/-- The settings under which a command generates. -/
def settingsOf (env : Environment) (overrides : Overrides) : Settings :=
  (Settings.ofEnvironment env).1.override overrides

/-- Progress of a command that has read its settings. -/
def Progress.begun (t : FileTree) (env : Environment) : Progress :=
  (Progress.start t).leave t (Settings.ofEnvironment env).2

@[simp] theorem Progress.tree_begun (t : FileTree) (env : Environment) :
    (Progress.begun t env).tree = t := rfl

theorem result_readSettings (env : Environment) (overrides : Overrides) (p : Progress) :
    Run.result (readSettings env overrides) p =
      (.ok (settingsOf env overrides), p.leave p.tree (Settings.ofEnvironment env).2) := by
  rw [readSettings, settingsOf]
  generalize Settings.ofEnvironment env = read
  rfl

theorem result_generate (env : Environment) (paths : List String) (output : String)
    (overrides : Overrides) (t : FileTree) :
    ((Command.generate paths output overrides).steps env).result (.start t) =
      Run.result (generateFiles env.codecs (settingsOf env overrides) paths output)
        (.begun t env) := by
  rw [Command.steps, result_bind_of_ok (result_readSettings env overrides (.start t))]
  rfl

/-- **A command that generates goes one of the ways of a generation.** -/
theorem execute_generate (env : Environment) (paths : List String) (output : String)
    (overrides : Overrides) (t : FileTree) :
    ∃ r q, (Command.generate paths output overrides).execute env t = outcomeOf (r, q) ∧
      Generation env.codecs (settingsOf env overrides) paths output (.begun t env) r q := by
  obtain ⟨r, q, hresult, hcourse⟩ :=
    generateFiles_course env.codecs (settingsOf env overrides) paths output (.begun t env)
  exact ⟨r, q, by rw [Command.execute, result_generate, hresult], hcourse⟩

end LocalisedEnum

import LocalisedEnum.Proofs.FileTree.Discovery
import LocalisedEnum.Proofs.Pass.KeyOrders
import LocalisedEnum.Proofs.Run.Settled

/-!
**Histories of a directory of generated files.**

A directory is generated into again and again, and between the generations anything may happen to
the files outside it.  What keeps it in step is that each file of an extension class in it begins as
generated files do and has no carriage returns: so it is removed when it is no longer produced, and
it is left alone only when it says to the octet what it should.  A generation that goes through
leaves the extension classes that it has produced and no others.  And when the directories that it
made are none that a path stands for, it leaves the tree settled, for itself and for every process
that goes through the names of values in an order of its own.

Main definitions:

* `InStep` — directories in which the files of extension classes are so;
* `Environment.withKeyOrder` — the environment of another process;
* `History` — what may become of a directory by generations into it and by changes elsewhere.

Main results:

* `InStep.generation`, `History.inStep` — generations keep a directory in step, and so do histories;
* `Finished.extension_iff` — the files of extension classes after a generation that goes through;
* `Finished.settled` — when it leaves the tree settled;
* `execute_generate_history` — **the last generation of a history**, and the next.
-/

set_option autoImplicit false
set_option relaxedAutoImplicit false

namespace LocalisedEnum

/-! ### Directories in step -/

/-- **A directory in step**: the file of an extension class in it holds what may stand in a
generated file. -/
structure InStep (out : FullName) (t : FileTree) : Prop where
  wellFormed : t.WellFormed
  texts : ∀ name octets, isExtensionFileName name = true →
    t.node? (out ++ [name]) = some (.file octets) →
    ∃ text, octets = utf8Text text ∧ IsGeneratedText text

section

variable {codecs : Codecs} {settings : Settings} {paths : List String} {output : String}
  {out : FullName} {c : Compilation} {t t' : FileTree} {p q : Progress}

/-- **A generation keeps the directory in step**, whatever comes of it. -/
theorem InStep.generation {r : Except RunError Nat} (h : InStep out p.tree)
    (hinto : GeneratesInto out settings paths output p.tree)
    (hcourse : Generation codecs settings paths output p r q) : InStep out q.tree := by
  rcases hcourse.aftermath h.wellFormed (hinto.codec_eq codecs) hinto.place with
    hsame | ⟨c, hload, hkeeps, hnodes⟩
  · rwa [hsame]
  · have hc := hinto.names c hload
    refine ⟨hkeeps.wellFormed, fun name octets hname hfile => ?_⟩
    cases hnodes (out ++ [name]) with
    | same hsame => exact h.texts name octets hname (hsame ▸ hfile)
    | discarded _ hnone => cases hfile.symm.trans hnone
    | made _ hnew => cases hfile.symm.trans hnew
    | @written s _ hs _ _ hencodes hnode =>
        cases hfile.symm.trans hnode
        exact ⟨s.text, utf8Text_of_encodes (hinto.codec_eq codecs) hencodes,
          isGeneratedText_of_mem_sources hc hinto.attributeNamespace hinto.methodName hs⟩

/-! ### Generations that go through -/

theorem IsGeneratedText.beginsAsGenerated {text : String} (h : IsGeneratedText text) :
    LocalisedEnum.beginsAsGenerated (.ofString text) = true := by
  obtain ⟨rest, hrest⟩ := Option.isSome_iff_exists.1 h.header
  rw [LocalisedEnum.beginsAsGenerated, List.isPrefixOf_iff_prefix, CodeText.ofString,
    CodeText.ofString, dropStart?_eq_some_iff.1 hrest, List.map_append]
  exact List.prefix_append _ _

/-- A file of an extension class that is no longer produced is discarded. -/
theorem InStep.discarded (h : InStep out t)
    (hutf8 : settings.codec codecs = .ok Encoding.utf8.codec) {name : String} {octets : Octets}
    {produced : List String} (hname : isExtensionFileName name = true) (hproduced : name ∉ produced)
    (hfile : t.node? (out ++ [name]) = some (.file octets)) :
    Discarded t out (settings.codec codecs) produced (out ++ [name]) := by
  obtain ⟨text, rfl, htext⟩ := h.texts name octets hname hfile
  exact ⟨name, _, _, _, rfl, hname, hproduced, hfile, hutf8, decodeLeniently_codec_utf8Text text,
    htext.beginsAsGenerated⟩

/-- The file of an extension class that is produced holds the octets of its text. -/
theorem Finished.extension_octets (h : Finished codecs settings output out c t t')
    (hstep : InStep out t) (hutf8 : settings.codec codecs = .ok Encoding.utf8.codec)
    {s : GeneratedSource} (hs : s ∈ (runPass settings c).sources)
    (hname : isExtensionFileName s.hintName = true) :
    t'.node? (out ++ [s.hintName]) = some (.file (utf8Text s.text)) := by
  obtain ⟨octets, _, hnode, rfl | ⟨hold, hreads⟩⟩ := h.written s hs
  · exact hnode
  · obtain ⟨text, rfl, htext⟩ := hstep.texts _ _ hname hold
    rw [hnode, (readsAs_utf8Text_iff hutf8 htext.noReturns).1 hreads]

/-- **The files of extension classes after a generation that goes through** are those of its
extension sources, each with the octets of its text. -/
theorem Finished.extension_iff (h : Finished codecs settings output out c t t')
    (hstep : InStep out t) (hutf8 : settings.codec codecs = .ok Encoding.utf8.codec)
    (hout : t.fullName (.ofString output) = .ok out) (hc : c.IdentifierNames) :
    ∃ extensions, (runPass settings c).sources = leadingSources settings c ++ extensions ∧
      ∀ name octets,
        (isExtensionFileName name = true ∧ t'.node? (out ++ [name]) = some (.file octets)) ↔
          ∃ s ∈ extensions, s.hintName = name ∧ octets = utf8Text s.text := by
  obtain ⟨extensions, hsources, hnames, hleading, hextensions, _⟩ := fileNames_runPass settings hc
  refine ⟨extensions, hsources, fun name octets => ⟨fun ⟨hname, hfile⟩ => ?_, ?_⟩⟩
  · -- What is found is produced: otherwise it was there before, and was discarded.
    have hproduced : name ∈ (runPass settings c).hintNames := by
      by_contra hproduced
      cases h.nodes (out ++ [name]) with
      | same hsame =>
          exact h.gone _ (hstep.discarded hutf8 hname hproduced (hsame ▸ hfile)) octets hfile
      | discarded _ hnone => cases hfile.symm.trans hnone
      | made _ hnew => cases hfile.symm.trans hnew
      | written hs hplace =>
          rw [fullName_join (hnames _ hs) hout] at hplace
          cases List.append_cancel_left (Except.ok.inj hplace)
          exact hproduced (List.mem_map_of_mem hs)
    obtain ⟨s, hs, rfl⟩ := List.mem_map.1 hproduced
    rw [h.extension_octets hstep hutf8 hs hname] at hfile
    cases hfile
    rw [hsources, List.mem_append] at hs
    rcases hs with hs | hs
    · cases (hleading s hs).symm.trans hname
    · exact ⟨s, hs, rfl, rfl⟩
  · rintro ⟨s, hs, rfl, rfl⟩
    exact ⟨hextensions s hs,
      h.extension_octets hstep hutf8 (hsources ▸ List.mem_append_right _ hs) (hextensions s hs)⟩

/-- Files that are given as source files stand outside a directory. -/
def GivenOutside (out : FullName) (t : FileTree) (paths : List String) : Prop :=
  ∀ path ∈ paths, ∀ name octets, t.follow (.ofString path) = .ok name →
    t.node? name = some (.file octets) → ¬out <+: name

/-- No directory is new that a path stands for, but for one. -/
def NewDirectoriesPlain (out : FullName) (t t' : FileTree) : Prop :=
  ∀ name, t.node? name = none → t'.node? name = some .directory → name ≠ out →
    isSourceName (name.getLastD "") = false

/-- Outside the directory a generation that goes through leaves what was there. -/
theorem Finished.alikeOutside (h : Finished codecs settings output out c t t')
    (hout : t.fullName (.ofString output) = .ok out) (hc : c.IdentifierNames)
    (hplain : NewDirectoriesPlain out t t') : AlikeOutside out t t' where
  keeps := h.keeps
  nodes name hname := by
    obtain ⟨_, _, hnames, _⟩ := fileNames_runPass settings hc
    cases h.nodes name with
    | same hsame => exact .inl hsame
    | discarded hgone =>
        obtain ⟨file, _, _, _, rfl, _⟩ := hgone
        exact absurd (List.prefix_append _ _) hname
    | made hnone hnew =>
        exact .inr ⟨hnone, hnew, hplain name hnone hnew fun heq => hname (heq ▸ List.prefix_rfl)⟩
    | written hs hplace =>
        rw [fullName_join (hnames _ hs) hout] at hplace
        cases hplace
        exact absurd (List.prefix_append _ _) hname

/-- **When a generation that goes through leaves the tree settled.** -/
theorem Finished.settled (h : Finished codecs settings output out c t t') (hstep : InStep out t)
    (hinto : GeneratesInto out settings paths output t)
    (hload : loadCompilation t [out] (paths.map Path.ofString) = .ok c)
    (hgiven : GivenOutside out t paths) (hplain : NewDirectoriesPlain out t t') :
    Settled codecs settings paths output out c t' := by
  have hc := hinto.names c hload
  have ht := hstep.wellFormed
  have ht' := h.keeps.wellFormed
  refine ⟨ht', h.follow, h.directory, ?_, fun name hname => ?_, fun s hs => ?_⟩
  · refine loadCompilation_outside ht (h.alikeOutside hinto.place hc hplain) (fun path hpath => ?_)
      (fun path hpath => ?_) hload
    · obtain ⟨given, _, rfl⟩ := List.mem_map.1 hpath
      exact Path.proper_ofString given
    · obtain ⟨given, hmem, rfl⟩ := List.mem_map.1 hpath
      exact hgiven given hmem
  · -- What is considered is no file, so that it is a directory that was there before.
    obtain ⟨hextension, hproduced, hthere⟩ := (mem_staleCandidates ht').1 hname
    obtain ⟨node, hnode⟩ := Option.isSome_iff_exists.1 hthere
    cases node with
    | file octets =>
        obtain ⟨extensions, hsources, hexact⟩ :=
          h.extension_iff hstep (hinto.codec_eq codecs) hinto.place hc
        obtain ⟨s, hs, rfl, _⟩ := (hexact name octets).1 ⟨hextension, hnode⟩
        rw [PassResult.hintNames, hsources] at hproduced
        exact absurd (List.mem_map_of_mem (List.mem_append_right _ hs)) hproduced
    | directory =>
        have hold : t.node? (out ++ [name]) = some .directory := by
          cases h.nodes (out ++ [name]) with
          | same hsame => exact hsame ▸ hnode
          | discarded _ hnone => cases hnode.symm.trans hnone
          | made hnone hnew =>
              have hother := hplain _ hnone hnew (by simp)
              rw [List.getLastD_concat] at hother
              obtain ⟨front, rest, rfl⟩ := isExtensionFileName_iff.1 hextension
              rw [isSourceName, beforeEnd?_eq_some_iff.2 rfl] at hother
              cases hother
          | written _ _ _ _ hfile => cases hnode.symm.trans hfile
        have hshort :=
          h.short name ((mem_staleCandidates ht).2 ⟨hextension, hproduced, by rw [hold]; rfl⟩)
        rw [FileTree.isFile_of_follow (FileTree.follow_below ht' h.follow hnode hshort), hnode]
  · obtain ⟨octets, hfollow, hnode, hholds⟩ := h.written s hs
    refine ⟨octets, hfollow, hnode, hholds.elim ?_ And.right⟩
    rintro rfl
    exact
      (readsAs_utf8Text_iff (hinto.codec_eq codecs)
        (isGeneratedText_of_mem_sources hc hinto.attributeNamespace hinto.methodName
          hs).noReturns).2 rfl

end

/-! ### Other processes -/

/-- The environment of another process, which goes through the names of values in an order of its
own. -/
def Environment.withKeyOrder (env : Environment) (order : KeyOrder) : Environment :=
  { env with keyOrder := order }

theorem Settings.ofEnvironment_withKeyOrder (env : Environment) (order : KeyOrder) :
    Settings.ofEnvironment (env.withKeyOrder order) =
      ((Settings.ofEnvironment env).1.withKeyOrder order, (Settings.ofEnvironment env).2) := by
  have hvalue (name : String) : (env.withKeyOrder order).value name = env.value name := rfl
  have hvalue? (name : String) : (env.withKeyOrder order).value? name = env.value? name := rfl
  have horder : (env.withKeyOrder order).keyOrder = order := rfl
  simp only [Settings.ofEnvironment, Settings.withKeyOrder, hvalue, hvalue?, horder]

theorem Settings.override_withKeyOrder (settings : Settings) (order : KeyOrder)
    (overrides : Overrides) :
    (settings.withKeyOrder order).override overrides =
      (settings.override overrides).withKeyOrder order :=
  rfl

theorem settingsOf_withKeyOrder (env : Environment) (order : KeyOrder) (overrides : Overrides) :
    settingsOf (env.withKeyOrder order) overrides =
      (settingsOf env overrides).withKeyOrder order := by
  rw [settingsOf, settingsOf, Settings.ofEnvironment_withKeyOrder, Settings.override_withKeyOrder]

namespace PassResult.Alike

variable {c : Compilation} {result result' : PassResult} (h : result.Alike c result')
include h

theorem exitCode_eq : exitCode result' = exitCode result := by
  rw [exitCode, exitCode, DiagnosticBag.hasErrors, DiagnosticBag.hasErrors, h.errorCount_eq]

theorem generationSummary_eq (written removed : Nat) :
    generationSummary result' written removed = generationSummary result written removed := by
  rw [generationSummary, generationSummary, errorText, errorText, h.sources, h.errorCount_eq]

end PassResult.Alike

/-- The lines of diagnostics are the same for every process, when no attribute gives two values that
are no texts. -/
theorem diagnosticLines_withKeyOrder {env : Environment} {overrides : Overrides} {order : KeyOrder}
    {c : Compilation} (h : order = env.keyOrder ∨ c.GivesOneNoText) :
    diagnosticLines (runPass ((settingsOf env overrides).withKeyOrder order) c) =
      diagnosticLines (runPass (settingsOf env overrides) c) := by
  rcases h with rfl | hone
  · rw [← settingsOf_withKeyOrder]
    rfl
  · rw [diagnosticLines, diagnosticLines,
      (runPass_alike (settingsOf env overrides) order c).diagnostics_eq hone]

/-- **A tree that is settled is so for every process.** -/
theorem Settled.withKeyOrder {codecs : Codecs} {settings : Settings} {paths : List String}
    {output : String} {out : FullName} {c : Compilation} {t : FileTree}
    (h : Settled codecs settings paths output out c t) (order : KeyOrder) :
    Settled codecs (settings.withKeyOrder order) paths output out c t := by
  have halike := runPass_alike settings order c
  refine ⟨h.wellFormed, h.follow, h.directory, h.load, ?_, ?_⟩
  · rw [halike.hintNames_eq]
    exact h.stale
  · rw [halike.sources]
    exact h.written

/-! ### Histories -/

/-- **What may become of a directory** that holds no file of an extension class at first, when all
that happens to it are generations. -/
inductive History (out : FullName) : FileTree → Prop
  | start {t : FileTree} (ht : t.WellFormed)
      (hempty : ∀ name octets, isExtensionFileName name = true →
        t.node? (out ++ [name]) ≠ some (.file octets)) : History out t
  | edit {t t' : FileTree} (h : History out t) (ht' : t'.WellFormed)
      (hsame : ∀ name, out <+: name → t'.node? name = t.node? name) : History out t'
  | run {t : FileTree} (h : History out t) (env : Environment) (paths : List String)
      (output : String) (overrides : Overrides)
      (hinto : GeneratesInto out (settingsOf env overrides) paths output t) :
      History out ((Command.generate paths output overrides).execute env t).progress.tree

/-- How a run ends does not matter for the files that it leaves. -/
@[simp] theorem tree_outcomeOf (r : Except RunError Nat) (q : Progress) :
    (outcomeOf (r, q)).progress.tree = q.tree := by
  cases r with
  | ok code => rfl
  | error e =>
      rw [outcomeOf]
      split <;> rfl

theorem outcomeOf_ending {r : Except RunError Nat} {q : Progress} {code : Nat}
    (h : (outcomeOf (r, q)).ending = .exit code) (hcode : code ≠ 2) : r = .ok code := by
  cases r with
  | ok code' => exact congrArg Except.ok (Ending.exit.inj h)
  | error e =>
      rw [outcomeOf] at h
      split at h
      · exact absurd (Ending.exit.inj h).symm hcode
      · cases h

/-- **Histories keep a directory in step.** -/
theorem History.inStep {out : FullName} {t : FileTree} (h : History out t) : InStep out t := by
  induction h with
  | start ht hempty =>
      exact ⟨ht, fun name octets hname hfile => absurd hfile (hempty name octets hname)⟩
  | edit _ ht' hsame ih =>
      exact ⟨ht', fun name octets hname hfile =>
        ih.texts name octets hname (hsame _ (List.prefix_append _ _) ▸ hfile)⟩
  | @run t _ env paths output overrides hinto ih =>
      obtain ⟨r, q, hexecute, hcourse⟩ := execute_generate env paths output overrides t
      rw [hexecute, tree_outcomeOf]
      exact InStep.generation (p := .begun t env) ih hinto hcourse

/-- **The last generation of a history.**  When its source files are not loaded, everything is left
as it was.  When it ends with exit code zero or one, the files of extension classes in the directory
are exactly those of its extension sources, each with exactly its text; and when no directory that
it has made is one that paths stand for, the same generation once more, by whatever process, ends
the same and changes nothing.  Its diagnostics are alike, and the same if the process is the same or
no attribute gives two values that are no texts. -/
theorem execute_generate_history {out : FullName} {t : FileTree} (h : History out t)
    {env : Environment} {paths : List String} {output : String} {overrides : Overrides}
    (hinto : GeneratesInto out (settingsOf env overrides) paths output t)
    (hleads : t.node? out = some .directory → t.isDirectory (.ofString output) ≠ .ok false)
    (hgiven : GivenOutside out t paths) {o : Outcome}
    (ho : (Command.generate paths output overrides).execute env t = o) :
    ((∀ c, loadCompilation t [out] (paths.map Path.ofString) ≠ .ok c) → o.progress.tree = t) ∧
    ∀ code, o.ending = .exit code → code ≠ 2 →
      ∃ c extensions, loadCompilation t [out] (paths.map Path.ofString) = .ok c ∧
        code = exitCode (runPass (settingsOf env overrides) c) ∧
        (runPass (settingsOf env overrides) c).sources =
          leadingSources (settingsOf env overrides) c ++ extensions ∧
        o.progress.errors = diagnosticLines (runPass (settingsOf env overrides) c) ∧
        (∀ name octets,
          (isExtensionFileName name = true ∧
              o.progress.tree.node? (out ++ [name]) = some (.file octets)) ↔
            ∃ s ∈ extensions, s.hintName = name ∧ octets = utf8Text s.text) ∧
        (NewDirectoriesPlain out t o.progress.tree →
          ∀ order, ∃ again shown,
            (Command.generate paths output overrides).execute (env.withKeyOrder order)
                o.progress.tree =
              again ∧ again.ending = o.ending ∧ again.progress.tree = o.progress.tree ∧
            again.progress.output =
              generationSummary (runPass (settingsOf env overrides) c) 0 0 ++ "\n" ∧
            again.progress.errors = diagnosticLines shown ∧
            (runPass (settingsOf env overrides) c).Alike c shown ∧
            (order = env.keyOrder ∨ c.GivesOneNoText →
              again.progress.errors = o.progress.errors)) := by
  have hstep := h.inStep
  obtain ⟨r, q, hexecute, hcourse⟩ := execute_generate env paths output overrides t
  rw [hexecute] at ho
  subst ho
  refine ⟨fun hload => ?_, fun code hending hcode => ?_⟩
  · rw [tree_outcomeOf]
    rcases hcourse.aftermath hstep.wellFormed (hinto.codec_eq env.codecs) hinto.place with
      hsame | ⟨c, hloaded, _⟩
    · exact hsame
    · exact absurd hloaded (hload c)
  · obtain rfl := outcomeOf_ending hending hcode
    obtain ⟨c, hload, rfl, herrors, hfinished⟩ := hcourse.finishes hinto hstep.wellFormed hleads
    rw [Progress.tree_begun] at hload hfinished
    obtain ⟨extensions, hsources, hexact⟩ :=
      hfinished.extension_iff hstep (hinto.codec_eq env.codecs) hinto.place (hinto.names c hload)
    have herrors : q.errors = diagnosticLines (runPass (settingsOf env overrides) c) :=
      herrors.trans (List.nil_append _)
    refine ⟨c, extensions, hload, rfl, hsources, herrors, by rwa [tree_outcomeOf],
      fun hplain order => ?_⟩
    rw [tree_outcomeOf] at hplain ⊢
    have hsettled := (hfinished.settled hstep hinto hload hgiven hplain).withKeyOrder order
    have halike := runPass_alike (settingsOf env overrides) order c
    obtain ⟨r', q', hagain, hcourse'⟩ :=
      execute_generate (env.withKeyOrder order) paths output overrides q.tree
    rw [settingsOf_withKeyOrder] at hcourse'
    obtain ⟨rfl, htree, herrors', houtput⟩ :=
      hsettled.repeats (p := .begun q.tree (env.withKeyOrder order)) rfl hcourse'
    have herrors' : q'.errors =
        diagnosticLines (runPass ((settingsOf env overrides).withKeyOrder order) c) :=
      herrors'.trans (List.nil_append _)
    refine ⟨_, _, hagain, congrArg Ending.exit halike.exitCode_eq, htree, houtput.trans ?_,
      herrors', halike,
      fun hsame => herrors'.trans ((diagnosticLines_withKeyOrder hsame).trans herrors.symm)⟩
    rw [halike.generationSummary_eq]
    exact congrArg (· ++ "\n") String.empty_append

/-! ### A first generation and a second -/

/-- The text of an enum and of the class with its string. -/
def greetingText : String :=
  "[WithLiteralLocalisation(typeof(R))]enum E\x7bA\x7d" ++
    "class R\x7bstatic string EADescription\x7bget;\x7d\x7d"

/-- The declarations of this text. -/
def greetingCompilation : Compilation where
  files :=
    [{ path := "E.cs"
       usings := []
       enums :=
         [{ name := "E"
            namespaceName := ""
            accessibility := .internalLevel
            members := ["A"]
            attributes := [⟨"WithLiteralLocalisation", [.typeOf "R"], [], some ⟨"E.cs", 1, 2⟩⟩]
            containingTypes := []
            location := ⟨"E.cs", 1, 1⟩
            usings := [] }]
       types :=
         [{ name := "R"
            namespaceName := ""
            kind := "class"
            accessibility := .internalLevel
            properties := [⟨"EADescription", "string", true⟩]
            containingTypes := []
            location := ⟨"E.cs", 1, 46⟩
            constants := [] }]
       globalUsings := [] }]

/-- A file with this text. -/
def greetingTree : FileTree :=
  ⟨[(["E.cs"], .file (utf8Text greetingText))], []⟩

/-- The overrides of a generation without the attribute classes. -/
def quietOverrides : Overrides :=
  ⟨none, some false, none, none, none⟩

/-- Such a generation. -/
def generatedFrom (t : FileTree) : Outcome :=
  (Command.generate ["E.cs"] "out" quietOverrides).execute (.ofVariables []) t

/-- What is found of the tree, of the settings and of a generation from it by running them. -/
theorem computed_greeting :
    (greetingTree.WellFormed ∧ greetingTree.follow (.ofString "E.cs") = .ok ["E.cs"] ∧
      greetingTree.fullName (.ofString "out") = .ok ["out"] ∧
      loadCompilation greetingTree [["out"]] (["E.cs"].map Path.ofString) =
        .ok greetingCompilation) ∧
    (Encoding.ofName? (settingsOf (.ofVariables []) quietOverrides).encoding = some .utf8 ∧
      NoReturns (settingsOf (.ofVariables []) quietOverrides).attributeNamespace ∧
      NoReturns (settingsOf (.ofVariables []) quietOverrides).methodName) ∧
    (generatedFrom greetingTree).ending = .exit 0 ∧
    ∀ entry ∈ (generatedFrom greetingTree).progress.tree.entries, entry.2 = .directory →
      entry.1 = ["out"] := by
  decide +kernel

theorem load_greeting :
    loadCompilation greetingTree [["out"]] (["E.cs"].map Path.ofString) = .ok greetingCompilation :=
  computed_greeting.1.2.2.2

theorem generatesInto_greeting :
    GeneratesInto ["out"] (settingsOf (.ofVariables []) quietOverrides) ["E.cs"] "out"
      greetingTree where
  utf8 := computed_greeting.2.1.1
  place := computed_greeting.1.2.2.1
  attributeNamespace := computed_greeting.2.1.2.1
  methodName := computed_greeting.2.1.2.2
  names c hc := by
    obtain rfl := Except.ok.inj (load_greeting.symm.trans hc)
    refine ⟨fun e he => ?_, fun t ht => ?_⟩
    · rw [List.mem_singleton.1 (show e ∈ [_] from he)]
      exact ⟨by decide, by decide, nofun, .inl rfl⟩
    · rw [List.mem_singleton.1 (show t ∈ [_] from ht)]
      exact ⟨by decide, by decide, nofun, .inl rfl⟩

theorem history_greeting : History ["out"] greetingTree := by
  refine .start computed_greeting.1.1 fun name octets _ hfile => ?_
  have hkey : (["out"] ++ [name] == ["E.cs"]) = false := by simp
  rw [FileTree.node?, if_neg (by simp), greetingTree, List.lookup_cons, hkey] at hfile
  cases hfile

theorem givenOutside_greeting : GivenOutside ["out"] greetingTree ["E.cs"] := by
  intro path hpath name octets hfollow _
  obtain rfl := List.mem_singleton.1 hpath
  rw [computed_greeting.1.2.1] at hfollow
  rw [← Except.ok.inj hfollow]
  decide

theorem newDirectoriesPlain_greeting :
    NewDirectoriesPlain ["out"] greetingTree (generatedFrom greetingTree).progress.tree := by
  intro name hnone hnew hout
  have hwell : (generatedFrom greetingTree).progress.tree.WellFormed :=
    (history_greeting.run (.ofVariables []) ["E.cs"] "out" quietOverrides
      generatesInto_greeting).inStep.wellFormed
  have hne : name ≠ [] := by
    rintro rfl
    cases hnone
  exact absurd (computed_greeting.2.2.2 _ ((hwell.node?_eq_some_iff hne).1 hnew) rfl) hout

/-- The first generation writes the class of the enum, and the second changes nothing. -/
theorem execute_generate_history_greeting : History ["out"] greetingTree ∧
    (generatedFrom greetingTree).ending = .exit 0 ∧
    (∃ octets,
      (generatedFrom greetingTree).progress.tree.node? ["out", "ELocalizationExtensions.cs"] =
        some (.file octets)) ∧
    (generatedFrom (generatedFrom greetingTree).progress.tree).ending = .exit 0 ∧
    (generatedFrom (generatedFrom greetingTree).progress.tree).progress.tree =
      (generatedFrom greetingTree).progress.tree := by
  have hending : (generatedFrom greetingTree).ending = .exit 0 := computed_greeting.2.2.1
  obtain ⟨_, hexits⟩ := execute_generate_history history_greeting generatesInto_greeting
    (by decide +kernel) givenOutside_greeting (o := generatedFrom greetingTree) rfl
  obtain ⟨c, extensions, hload, _, hsources, _, hexact, hagain⟩ := hexits 0 hending (by decide)
  obtain rfl := Except.ok.inj (load_greeting.symm.trans hload)
  refine ⟨history_greeting, hending, ?_, ?_⟩
  · have hproduced :
        (runPass (settingsOf (.ofVariables []) quietOverrides) greetingCompilation).hintNames =
          ["ELocalizationExtensions.cs"] := by decide +kernel
    have hleading :
        leadingSources (settingsOf (.ofVariables []) quietOverrides) greetingCompilation = [] := by
      decide +kernel
    rw [PassResult.hintNames, hsources, hleading] at hproduced
    obtain ⟨s, hs, hname⟩ :=
      List.mem_map.1 (hproduced ▸ List.mem_singleton_self "ELocalizationExtensions.cs")
    exact ⟨_, ((hexact _ _).2 ⟨s, hs, hname, rfl⟩).2⟩
  · obtain ⟨again, _, hexecute, hsame, hkept, _⟩ := hagain newDirectoriesPlain_greeting .listed
    have hexecute : generatedFrom (generatedFrom greetingTree).progress.tree = again := hexecute
    exact ⟨by rw [hexecute, hsame, hending], by rw [hexecute, hkept]⟩

end LocalisedEnum

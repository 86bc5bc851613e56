import LocalisedEnum.Proofs.Run.History
import LocalisedEnum.Proofs.Run.ReadingBack

/-!
**Checks agree with generations.**

A check goes over the same source files as a generation and shows what that would generate.  It does
not exclude the directory of the generated files, so that it reads what was generated before it.
That makes no difference: a check agrees with a generation that goes through, before it and after
it, exactly when all that it collects are files that can be read.

Main definitions:

* `GeneratesBeside` — generations into a directory in which only earlier output is like source
  files;
* `Agrees` — what a check shows is what a generation produces.

Main results:

* `execute_check_of_load` — what a check shows of what it has loaded;
* `Generation.alikeBeside` — a generation leaves a directory of output, and everything else as it
  was;
* `execute_check_agrees` — **checks before and after a generation agree with it** when everything
  can be read.
-/

set_option autoImplicit false
set_option relaxedAutoImplicit false

namespace LocalisedEnum

open Run

/-! ### What a check shows -/

/-- The overrides of a command without options. -/
def noOverrides : Overrides :=
  ⟨none, none, none, none, none⟩

/-- The lines of a check over extension classes of some names. -/
def checkText (result : PassResult) (names : List String) : String :=
  String.join (names.map fun name => "  would generate " ++ name ++ "\n") ++
    (toString names.length ++ " extension file(s), " ++ errorText result) ++ "\n"

theorem result_check (env : Environment) (paths : List String) (t : FileTree) :
    ((Command.check paths).steps env).result (.start t) =
      Run.result (checkFiles (settingsOf env noOverrides) paths) (.begun t env) := by
  rw [Command.steps]
  exact result_bind_of_ok (result_readSettings env noOverrides (.start t)) _

theorem result_forM_generate (names : List String) (p : Progress) :
    Run.result (names.forM fun name => say ("  would generate " ++ name)) p = (.ok (),
      { p with
        output := p.output ++
          String.join (names.map fun name => "  would generate " ++ name ++ "\n") }) := by
  have hlines : (names.forM fun name => say ("  would generate " ++ name)) =
      (names.map fun name => "  would generate " ++ name).forM say := (List.forM_map ..).symm
  rw [hlines, result_forM_say, List.map_map]
  rfl

/-- **What a check shows of what it has loaded.** -/
theorem execute_check_of_load {env : Environment} {paths : List String} {t : FileTree}
    {c : Compilation} (h : loadCompilation t [] (paths.map Path.ofString) = .ok c)
    {result : PassResult} (hresult : runPass (settingsOf env noOverrides) c = result) :
    ((Command.check paths).execute env t).ending = .exit (exitCode result) ∧
    ((Command.check paths).execute env t).progress.errors = diagnosticLines result ∧
    ((Command.check paths).execute env t).progress.output =
      checkText result (extensionNames result) := by
  subst hresult
  rw [Command.execute, result_check, checkFiles, result_passOver_bind (p := .begun t env) h,
    result_bind_of_ok (result_forM_generate ..), result_bind_of_ok (result_say ..)]
  refine ⟨rfl, List.nil_append _, ?_⟩
  show "" ++ _ ++ _ ++ "\n" = _
  rw [String.empty_append]
  rfl

/-- A check that cannot load its source files ends neither with zero nor with one. -/
theorem exists_load_of_check {env : Environment} {paths : List String} {t : FileTree} {code : Nat}
    (h : ((Command.check paths).execute env t).ending = .exit code) (hcode : code ≠ 2) :
    ∃ c, loadCompilation t [] (paths.map Path.ofString) = .ok c := by
  cases hload : loadCompilation t [] (paths.map Path.ofString) with
  | ok c => exact ⟨c, rfl⟩
  | error e =>
      rw [Command.execute, result_check, checkFiles,
        result_bind_of_error (result_passOver_error (p := .begun t env) hload)] at h
      cases outcomeOf_ending h hcode

/-! ### What a generation produces -/

theorem isSourceName_append (stem : String) : isSourceName (stem ++ ".cs") = true := by
  rw [isSourceName, beforeEnd?_eq_some_iff.2 rfl]
  rfl

section

variable {settings : Settings} {c : Compilation} (hc : c.IdentifierNames)
include hc

/-- What is produced is called as source files are. -/
theorem isSourceName_of_mem_sources {s : GeneratedSource} (hs : s ∈ (runPass settings c).sources) :
    isSourceName s.hintName = true := by
  obtain ⟨extensions, hsources, _, _, hextensions, _⟩ := fileNames_runPass settings hc
  rw [hsources, List.mem_append] at hs
  rcases hs with hs | hs
  · obtain ⟨variant, rfl⟩ := exists_of_mem_leadingSources hs
    exact isSourceName_append _
  · obtain ⟨front, rest, hname⟩ := isExtensionFileName_iff.1 (hextensions s hs)
    rw [hname]
    exact isSourceName_append _

variable (settings) in
/-- The names of the extension classes are those of what does not lead the sources. -/
theorem exists_extensionNames : ∃ extensions,
    (runPass settings c).sources = leadingSources settings c ++ extensions ∧
      extensionNames (runPass settings c) = extensions.map (·.hintName) := by
  obtain ⟨extensions, hsources, _, _, hextensions, _⟩ := fileNames_runPass settings hc
  refine ⟨extensions, hsources, ?_⟩
  have hattribute : ∀ name, (Variant.all.map attributeFileName).contains name = true →
      isExtensionFileName name = false := by
    intro name hname
    obtain ⟨variant, _, rfl⟩ := List.mem_map.1 (List.contains_iff_mem.1 hname)
    cases variant <;> decide +kernel
  rw [extensionNames, PassResult.hintNames, hsources, List.map_append, List.filter_append,
    List.filter_eq_nil_iff.2, List.filter_eq_self.2, List.nil_append]
  · intro name hname
    obtain ⟨s, hs, rfl⟩ := List.mem_map.1 hname
    rw [Bool.not_eq_true', Bool.eq_false_iff]
    exact fun hcontains => by cases (hextensions s hs).symm.trans (hattribute _ hcontains)
  · intro name hname
    obtain ⟨s, hs, rfl⟩ := List.mem_map.1 hname
    obtain ⟨variant, rfl⟩ := exists_of_mem_leadingSources hs
    show ¬(!(Variant.all.map attributeFileName).contains (attributeFileName variant)) = true
    cases variant <;> decide +kernel

end

/-- **A generation into a directory in which only earlier output is like source files**, in UTF-8
and with identifiers for names throughout.  The source files use no name of a generated class. -/
structure GeneratesBeside (out : FullName) (settings : Settings) (paths : List String)
    (output : String) (t : FileTree) : Prop where
  wellFormed : t.WellFormed
  utf8 : Encoding.ofName? settings.encoding = some .utf8
  place : t.fullName (.ofString output) = .ok out
  settings : settings.IdentifierNames
  holds : HoldsOutput out t
  names : ∀ c, loadCompilation t [out] (paths.map Path.ofString) = .ok c →
    c.IdentifierNames ∧ c.AvoidsGenerated

/-- What may stand in the directory after a generation is output again, and elsewhere there may be
new directories. -/
theorem Generation.alikeBeside {codecs : Codecs} {settings : Settings} {paths : List String}
    {output : String} {out : FullName} {p q : Progress} {r : Except RunError Nat}
    (h : Generation codecs settings paths output p r q)
    (hbeside : GeneratesBeside out settings paths output p.tree) :
    AlikeBeside out p.tree q.tree ∧ HoldsOutput out q.tree := by
  have hutf8 := Settings.codec_of_utf8 hbeside.utf8 codecs
  rcases h.aftermath hbeside.wellFormed hutf8 hbeside.place with hsame | ⟨c, hload, hkeeps, hnodes⟩
  · rw [hsame]
    exact ⟨.refl hbeside.wellFormed, hbeside.holds⟩
  · obtain ⟨hc, _⟩ := hbeside.names c hload
    obtain ⟨_, _, hnames, _⟩ := fileNames_runPass settings hc
    have hwithin : ∀ name, isSourceName name = true → isSourceWithin out (out ++ [name]) = true :=
      fun name hname =>
        isSourceWithin_iff.2 ⟨List.prefix_append _ _, by rwa [List.getLastD_concat]⟩
    refine ⟨⟨hkeeps, fun name hname => ?_, fun name octets hfile hdirectory => ?_⟩,
      fun name octets hname hfile => ?_⟩
    · cases hnodes name with
      | same hsame => exact .inl hsame
      | discarded hgone =>
          obtain ⟨file, _, _, _, rfl, hextension, _⟩ := hgone
          obtain ⟨front, rest, rfl⟩ := isExtensionFileName_iff.1 hextension
          rw [hwithin _ (isSourceName_append _)] at hname
          cases hname
      | made hnone hnew => exact .inr ⟨hnone, hnew⟩
      | written hs hplace =>
          rw [fullName_join (hnames _ hs) hbeside.place] at hplace
          cases hplace
          rw [hwithin _ (isSourceName_of_mem_sources hc hs)] at hname
          cases hname
    · cases hnodes name with
      | same hsame => cases hfile.symm.trans (hsame.symm.trans hdirectory)
      | discarded _ hnone => cases hnone.symm.trans hdirectory
      | made hnone => cases hfile.symm.trans hnone
      | written _ _ _ _ hnew => cases hnew.symm.trans hdirectory
    · cases hnodes name with
      | same hsame => exact hbeside.holds name octets hname (hsame ▸ hfile)
      | discarded _ hnone => cases hnone.symm.trans hfile
      | made _ hnew => cases hnew.symm.trans hfile
      | @written s _ hs _ _ hencodes hnew =>
          cases hnew.symm.trans hfile
          exact ⟨settings, c, s, hbeside.settings, hc, hs, utf8Text_of_encodes hutf8 hencodes⟩

/-! ### Agreement -/

/-- **What a check shows is what a generation produces**: it ends the same, shows the diagnostics of
a pass, and lists the given names of extension classes. -/
structure Agrees (result : PassResult) (names : List String) (generated checked : Outcome) :
    Prop where
  ending : checked.ending = generated.ending
  errors : checked.progress.errors = diagnosticLines result
  output : checked.progress.output = checkText result names

/-- A check of what can be read goes through the pass of the generation, whatever the settings. -/
theorem GeneratesBeside.exists_load {out : FullName} {settings : Settings} {paths : List String}
    {output : String} {t s : FileTree} {c : Compilation}
    (h : GeneratesBeside out settings paths output t)
    (hload : loadCompilation t [out] (paths.map Path.ofString) = .ok c)
    (halike : AlikeBeside out t s) (hholds : HoldsOutput out s)
    (hread : Readable s (paths.map Path.ofString)) :
    ∃ c', loadCompilation s [] (paths.map Path.ofString) = .ok c' ∧
      ∀ settings : Settings, runPass settings c' = runPass settings c := by
  obtain ⟨hc, havoids⟩ := h.names c hload
  have hpaths : ∀ p ∈ paths.map Path.ofString, p.Proper := by
    intro p hp
    obtain ⟨path, _, rfl⟩ := List.mem_map.1 hp
    exact Path.proper_ofString path
  obtain ⟨c', users, hload', hpadded, hpadded'⟩ :=
    exists_load_of_readable halike h.wellFormed h.holds hholds hpaths hload hread
  have husers : Compilation.AvoidsGenerated ⟨users⟩ := by
    intro e he
    exact havoids e (Padded.enums (c := ⟨users⟩) hpadded ▸ he)
  exact ⟨c', hload', fun settings =>
    (runPass_of_padded hpadded' husers settings).trans
      (runPass_of_padded hpadded husers settings).symm⟩

/-- **Checks before and after a generation agree with it**, when that ends with exit code zero or
one, exactly when everything that they collect can be read.  They may be processes with an order of
their own; their diagnostics are alike those of the generation, and the same if the order is the
same or no attribute gives two values that are no texts. -/
theorem execute_check_agrees {env : Environment} {paths : List String} {output : String}
    {out : FullName} {t : FileTree}
    (h : GeneratesBeside out (settingsOf env noOverrides) paths output t) {o : Outcome}
    (ho : (Command.generate paths output noOverrides).execute env t = o) {code : Nat}
    (hending : o.ending = .exit code) (hcode : code ≠ 2) :
    ∃ c extensions, loadCompilation t [out] (paths.map Path.ofString) = .ok c ∧
      (runPass (settingsOf env noOverrides) c).sources =
        leadingSources (settingsOf env noOverrides) c ++ extensions ∧
      o.progress.errors = diagnosticLines (runPass (settingsOf env noOverrides) c) ∧
      ∀ order, ∃ shown, (runPass (settingsOf env noOverrides) c).Alike c shown ∧
        (order = env.keyOrder ∨ c.GivesOneNoText → diagnosticLines shown = o.progress.errors) ∧
        ∀ s, s = t ∨ s = o.progress.tree →
          (Agrees shown (extensions.map (·.hintName)) o
              ((Command.check paths).execute (env.withKeyOrder order) s) ↔
            Readable s (paths.map Path.ofString)) := by
  obtain ⟨r, q, hexecute, hcourse⟩ := execute_generate env paths output noOverrides t
  rw [hexecute] at ho
  subst ho
  obtain rfl := outcomeOf_ending hending hcode
  obtain ⟨halike, hholds⟩ := hcourse.alikeBeside h
  rw [tree_outcomeOf]
  cases hcourse with
  | @finished _ c removed written t₁ t₂ entries hout hload hremove hwrite =>
      rw [Progress.tree_begun] at hout hload
      cases hout.symm.trans h.place
      obtain ⟨hc, _⟩ := h.names c hload
      obtain ⟨extensions, hsources, hnames⟩ := exists_extensionNames (settingsOf env noOverrides) hc
      have herrors : [] ++ diagnosticLines (runPass (settingsOf env noOverrides) c) =
          diagnosticLines (runPass (settingsOf env noOverrides) c) := List.nil_append _
      refine ⟨c, extensions, hload, hsources, herrors, fun order => ?_⟩
      have hshown := runPass_alike (settingsOf env noOverrides) order c
      refine ⟨_, hshown, fun hsame => (diagnosticLines_withKeyOrder hsame).trans herrors.symm,
        fun s hs => ⟨fun hagrees => ?_, fun hread => ?_⟩⟩
      · obtain ⟨c', hload'⟩ := exists_load_of_check (hagrees.ending.trans hending) hcode
        exact readable_of_load hload'
      · have hs : AlikeBeside out t s ∧ HoldsOutput out s := by
          rcases hs with rfl | rfl
          · exact ⟨.refl h.wellFormed, h.holds⟩
          · exact ⟨halike, hholds⟩
        obtain ⟨c', hload', hsame⟩ := h.exists_load hload hs.1 hs.2 hread
        have hresult : runPass (settingsOf (env.withKeyOrder order) noOverrides) c' =
            runPass ((settingsOf env noOverrides).withKeyOrder order) c := by
          rw [settingsOf_withKeyOrder, hsame]
        obtain ⟨hend, hlines, houtput⟩ := execute_check_of_load hload' hresult
        refine ⟨hend.trans (congrArg Ending.exit hshown.exitCode_eq), hlines, ?_⟩
        rw [houtput, extensionNames, hshown.hintNames_eq, ← extensionNames, hnames]

/-! ### A generation that is read back -/

/-- A generation into a directory below the one that its source files come from. -/
def generatedBelow : Outcome :=
  (Command.generate ["."] "out" noOverrides).execute (.ofVariables []) greetingTree

/-- A check over this directory. -/
def checkedOver (t : FileTree) : Outcome :=
  (Command.check ["."]).execute (.ofVariables []) t

/-- What is found of the tree, of the settings and of the generation by running them. -/
theorem computed_greeting_below :
    (greetingTree.fullName (.ofString "out") = .ok ["out"] ∧
      loadCompilation greetingTree [["out"]] (["."].map Path.ofString) = .ok greetingCompilation ∧
      loadCompilation greetingTree [] (["."].map Path.ofString) = .ok greetingCompilation) ∧
    (Encoding.ofName? (settingsOf (.ofVariables []) noOverrides).encoding = some .utf8 ∧
      (settingsOf (.ofVariables []) noOverrides).attributeNamespace = "EnumStringGenerator" ∧
      (settingsOf (.ofVariables []) noOverrides).methodName = "GetDescription" ∧
      simpleTypeName "R" = "R") ∧ generatedBelow.ending = .exit 0 ∧
    generatedBelow.progress.tree.follow (.ofString ".") = .ok [] ∧
    ∀ entry ∈ generatedBelow.progress.tree.entries, isSourceBelow entry.1 = true →
      entry.2 ≠ .directory ∧
      ((Path.ofString ".").below entry.1).text.utf8ByteSize ≤ FileTree.greatestPathSize := by
  decide +kernel

theorem generatesBeside_greeting :
    GeneratesBeside ["out"] (settingsOf (.ofVariables []) noOverrides) ["."] "out"
      greetingTree where
  wellFormed := history_greeting.inStep.wellFormed
  utf8 := computed_greeting_below.2.1.1
  place := computed_greeting_below.1.1
  settings := by
    obtain ⟨_, hnamespace, hmethod, _⟩ := computed_greeting_below.2.1
    refine ⟨.inr ⟨⟨⟨"EnumStringGenerator", by decide⟩, []⟩, ?_⟩,
      ⟨⟨"GetDescription", by decide⟩, false⟩, hmethod⟩
    rw [hnamespace]
    decide +kernel
  holds name octets hwithin hfile := by
    obtain ⟨rest, rfl⟩ := (isSourceWithin_iff.1 hwithin).1
    have hkey : (["out"] ++ rest == ["E.cs"]) = false := by simp
    rw [FileTree.node?, if_neg (by simp), greetingTree, List.lookup_cons, hkey] at hfile
    cases hfile
  names c hc := by
    obtain rfl := Except.ok.inj (computed_greeting_below.1.2.1.symm.trans hc)
    refine
      ⟨generatesInto_greeting.names _ load_greeting, fun e he a ha value hvalue name hname => ?_⟩
    obtain rfl := List.mem_singleton.1 (show e ∈ [_] from he)
    obtain rfl := List.mem_singleton.1 (show a ∈ [_] from ha)
    obtain rfl := List.mem_singleton.1 (show value ∈ [_] from hvalue)
    cases hname
    rw [computed_greeting_below.2.1.2.2.2]
    rintro (⟨front, hfront⟩ | ⟨variant, hvariant⟩)
    · have hlength : 1 = front.length + 22 :=
        (congrArg String.length hfront).trans (String.length_append _ _)
      omega
    · cases variant <;> exact absurd hvariant (by decide)

theorem readable_generatedBelow :
    Readable generatedBelow.progress.tree (["."].map Path.ofString) := by
  have hwell : generatedBelow.progress.tree.WellFormed := by
    obtain ⟨r, q, hexecute, hcourse⟩ :=
      execute_generate (.ofVariables []) ["."] "out" noOverrides greetingTree
    rw [generatedBelow, hexecute, tree_outcomeOf]
    exact (hcourse.alikeBeside generatesBeside_greeting).1.keeps.wellFormed
  obtain ⟨_, hleads, hentries⟩ := computed_greeting_below.2.2
  refine (readable_iff hwell fun p hp => ?_).2
    ⟨fun p hp => ?_, fun p hp here names node hfollow _ hnode hsource => ?_⟩
  · obtain rfl := List.mem_singleton.1 hp
    exact Path.proper_ofString "."
  · obtain rfl := List.mem_singleton.1 hp
    exact ⟨.directory, FileTree.find?_of_follow hleads⟩
  · obtain rfl := List.mem_singleton.1 hp
    cases hleads.symm.trans hfollow
    exact hentries _ ((hwell.node?_eq_some_iff (ne_nil_of_isSourceBelow hsource)).1 hnode) hsource

/-- The check before the generation and the one after it, which reads three generated files, show
the same. -/
theorem execute_check_agrees_greeting : generatedBelow.ending = .exit 0 ∧
    (checkedOver greetingTree).ending = .exit 0 ∧
    (checkedOver generatedBelow.progress.tree).ending = .exit 0 ∧
    (checkedOver generatedBelow.progress.tree).progress.output =
      (checkedOver greetingTree).progress.output := by
  have hending : generatedBelow.ending = .exit 0 := computed_greeting_below.2.2.1
  have hload : loadCompilation greetingTree [] (["."].map Path.ofString) =
      .ok greetingCompilation :=
    computed_greeting_below.1.2.2
  obtain ⟨c, extensions, _, _, _, hprocesses⟩ :=
    execute_check_agrees generatesBeside_greeting (o := generatedBelow) rfl hending (by decide)
  obtain ⟨shown, _, _, hagrees⟩ := hprocesses .listed
  have hbefore := (hagrees greetingTree (.inl rfl)).2 (readable_of_load hload)
  have hafter := (hagrees generatedBelow.progress.tree (.inr rfl)).2 readable_generatedBelow
  exact ⟨hending, hbefore.ending.trans hending, hafter.ending.trans hending,
    hafter.output.trans hbefore.output.symm⟩

end LocalisedEnum

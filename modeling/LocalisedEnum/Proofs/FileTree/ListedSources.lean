import LocalisedEnum.Proofs.Declaration.Overlong
import LocalisedEnum.Proofs.FileTree.Discovery
import LocalisedEnum.Proofs.Run.FileNames
import LocalisedEnum.Proofs.Run.Straying
import LocalisedEnum.Proofs.Text.LetterCase

/-!
**Exactly what is collected.**

What is collected depends on the paths as a set.  A path that leads to a file gives itself.  A path
that leads to a directory gives what bears the name of a source file below it, whatever way leads
there: no directory on the way is hidden or one of build results, and neither the thing nor a
directory above it is excluded.  The same file can be passed over below one path and collected below
another.

A path that leads nowhere is not found, and the first such path ends it all.  Of a path that is too
long, or has a name in it that is, the system does not say so much: it is refused, and the error is
another one.

Main definitions:

* `IsListed` — what counts as a source file below a directory;
* `FileTree.TooLong` — the paths that are refused.

Main results:

* `isSkippedDirectory_iff`, `isGeneratedName_iff`, `isSourceBelow_iff` — what the names say;
* `FileTree.find?_eq_error_iff` — **which paths are refused**;
* `collectSources_exact` — **exactly what is collected**, and when nothing is.
-/

set_option autoImplicit false
set_option relaxedAutoImplicit false

namespace LocalisedEnum

/-! ### Names -/

theorem isSome_afterStart?_iff {opening s : String} :
    (afterStart? opening s).isSome = true ↔ ∃ rest, s = opening ++ rest := by
  rw [afterStart?, Option.isSome_map, Option.isSome_iff_exists]
  constructor
  · rintro ⟨rest, hrest⟩
    refine ⟨String.ofList rest, String.toList_injective ?_⟩
    rw [String.toList_append, String.toList_ofList]
    exact dropStart?_eq_some_iff.1 hrest
  · rintro ⟨rest, rfl⟩
    exact ⟨rest.toList, dropStart?_eq_some_iff.2 String.toList_append⟩

theorem isSome_beforeEnd?_iff {ending s : String} :
    (beforeEnd? ending s).isSome = true ↔ ∃ stem, s = stem ++ ending := by
  rw [Option.isSome_iff_exists]
  exact exists_congr fun stem => beforeEnd?_eq_some_iff

theorem isSome_beforeEnd?_iff_suffix {ending s : String} :
    (beforeEnd? ending s).isSome = true ↔ ending.toList <:+ s.toList := by
  rw [isSome_beforeEnd?_iff]
  constructor
  · rintro ⟨stem, rfl⟩
    exact ⟨stem.toList, String.toList_append.symm⟩
  · rintro ⟨front, hfront⟩
    refine ⟨String.ofList front, String.toList_injective ?_⟩
    rw [String.toList_append, String.toList_ofList, hfront]

/-- **The directories that are passed over**, by their names. -/
theorem isSkippedDirectory_iff {name : String} :
    isSkippedDirectory name = true ↔ (∃ rest, name = "." ++ rest) ∨ inAnyCase name = "bin".toList ∨
      inAnyCase name = "obj".toList := by
  rw [isSkippedDirectory, Bool.or_eq_true, isSome_afterStart?_iff, buildDirectories]
  refine or_congr_right ?_
  rw [← lowerCase_eq_iff (by simp [IsPlain]), ← lowerCase_eq_iff (by simp [IsPlain])]
  simp

/-- **The names of generated files.** -/
theorem isGeneratedName_iff {name : String} : isGeneratedName name = true ↔
    ".g.cs".toList <:+ inAnyCase name ∨ ".generated.cs".toList <:+ inAnyCase name := by
  rw [isGeneratedName, Bool.or_eq_true, isSome_beforeEnd?_iff_suffix, isSome_beforeEnd?_iff_suffix,
    suffix_lowerCase_iff (by simp [IsPlain]), suffix_lowerCase_iff (by simp [IsPlain])]

/-- **What counts as a source file below a directory**, by the names of the directories that lead to
it and by its own. -/
structure IsListed (t : FileTree) (exclude : List String) (here : FullName)
    (directories : List String) (name : String) : Prop where
  source : ∃ stem, name = stem ++ ".cs"
  written : ¬(".g.cs".toList <:+ inAnyCase name ∨ ".generated.cs".toList <:+ inAnyCase name)
  visible : ∀ directory ∈ directories, ¬∃ rest, directory = "." ++ rest
  unbuilt : ∀ directory ∈ directories,
    ¬(inAnyCase directory = "bin".toList ∨ inAnyCase directory = "obj".toList)
  included : ∀ s ∈ exclude, ∀ excluded, t.fullName (.ofString s) = .ok excluded →
    ¬excluded <+: here ++ (directories ++ [name])

/-- **What the names say** of something below a directory. -/
theorem isSourceBelow_iff {directories : List String} {name : String} :
    isSourceBelow (directories ++ [name]) = true ↔ (∃ stem, name = stem ++ ".cs") ∧
      ¬(".g.cs".toList <:+ inAnyCase name ∨ ".generated.cs".toList <:+ inAnyCase name) ∧
      ∀ directory ∈ directories, ¬((∃ rest, directory = "." ++ rest) ∨
        inAnyCase directory = "bin".toList ∨ inAnyCase directory = "obj".toList) := by
  rw [isSourceBelow, List.getLastD_concat, List.dropLast_concat, Bool.and_eq_true, Bool.and_eq_true,
    isSourceName, isSome_beforeEnd?_iff, Bool.not_eq_true', Bool.not_eq_true', List.any_eq_false,
    and_assoc, ← isGeneratedName_iff, Bool.not_eq_true]
  simp only [isSkippedDirectory_iff]

/-! ### Paths that are refused -/

namespace FileTree

variable {t : FileTree} {p : Path}

end FileTree

/-! ### What is collected -/

section

variable {t : FileTree} {exclude : List String} {excluded : List FullName}

/-- What is excluded is what the excluded paths spell out. -/
theorem mem_excluded_iff (hexclude : (exclude.map Path.ofString).mapM t.fullName = .ok excluded)
    {name : FullName} : name ∈ excluded ↔ ∃ s ∈ exclude, t.fullName (.ofString s) = .ok name := by
  have hforall := mapM_eq_ok hexclude
  constructor
  · intro hname
    obtain ⟨_, hpath, hspelt⟩ := exists_left_of_mem hforall hname
    obtain ⟨s, hs, rfl⟩ := List.mem_map.1 hpath
    exact ⟨s, hs, hspelt⟩
  · rintro ⟨s, hs, hspelt⟩
    obtain ⟨other, hother, hsame⟩ := exists_right_of_mem hforall (List.mem_map_of_mem hs)
    cases hspelt.symm.trans hsame
    exact hother

/-- What counts as a source file below a directory is there to stand for the directory. -/
theorem isListed_iff (hexclude : (exclude.map Path.ofString).mapM t.fullName = .ok excluded)
    {here : FullName} {directories : List String} {name : String} :
    IsListed t exclude here directories name ↔ isSourceBelow (directories ++ [name]) = true ∧
      ∀ other ∈ excluded, ¬other <+: here ++ (directories ++ [name]) := by
  rw [isSourceBelow_iff]
  constructor
  · intro h
    refine ⟨⟨h.source, h.written, fun directory hdirectory => ?_⟩, fun other hother => ?_⟩
    · exact not_or.2 ⟨h.visible directory hdirectory, h.unbuilt directory hdirectory⟩
    · obtain ⟨s, hs, hspelt⟩ := (mem_excluded_iff hexclude).1 hother
      exact h.included s hs other hspelt
  · rintro ⟨⟨hsource, hwritten, hdirectories⟩, hincluded⟩
    exact ⟨hsource, hwritten,
      fun directory hdirectory => (not_or.1 (hdirectories directory hdirectory)).1,
      fun directory hdirectory => (not_or.1 (hdirectories directory hdirectory)).2,
      fun s hs other hspelt => hincluded other ((mem_excluded_iff hexclude).2 ⟨s, hs, hspelt⟩)⟩

/-- **What a path gives**: itself, when it leads to a file, and what is listed below it, when it
leads to a directory. -/
inductive Gives (t : FileTree) (exclude : List String) (p : Path) : Path → Prop
  | itself (hfile : t.isFile p = .ok true) : Gives t exclude p p
  | below {here : FullName} {directories : List String} {name : String}
      (hfollow : t.follow p = .ok here) (hdirectory : t.node? here = some .directory)
      (hthere : (t.node? (here ++ (directories ++ [name]))).isSome)
      (hlisted : IsListed t exclude here directories name) :
      Gives t exclude p (p.below (directories ++ [name]))

/-- A path stands for what it gives. -/
theorem standsFor_iff (hexclude : (exclude.map Path.ofString).mapM t.fullName = .ok excluded)
    {p q : Path} : StandsFor t excluded p q ↔ Gives t exclude p q := by
  constructor
  · rintro (⟨hfollow, hnode⟩ | @⟨here, names, node, hfollow, hdirectory, hnode, hsource, hincluded⟩)
    · exact .itself (by rw [FileTree.isFile_of_follow hfollow, hnode])
    · obtain ⟨directories, name, rfl⟩ : ∃ directories name, names = directories ++ [name] :=
        ⟨_, _, (List.dropLast_append_getLast (ne_nil_of_isSourceBelow hsource)).symm⟩
      exact .below hfollow hdirectory (by rw [hnode]; rfl)
        ((isListed_iff hexclude).2 ⟨hsource, hincluded⟩)
  · rintro (hfile | ⟨hfollow, hdirectory, hthere, hlisted⟩)
    · obtain ⟨name, octets, hfollow, hnode, _⟩ := FileTree.isFile_eq_true hfile
      exact .itself hfollow hnode
    · obtain ⟨node, hnode⟩ := Option.isSome_iff_exists.1 hthere
      obtain ⟨hsource, hincluded⟩ := (isListed_iff hexclude).1 hlisted
      exact .below hfollow hdirectory hnode hsource hincluded

end

end LocalisedEnum

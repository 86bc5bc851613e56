import LocalisedEnum.FileTree
import Mathlib.Data.List.Induction
import Mathlib.Data.List.Nodup

/-!
**What stands in a tree of files.**

A tree is known by what stands under each full name.  Putting a node changes what stands under one
name, and removing a file empties one; everything else stays.  In a well-formed tree each name is
there once, consists of names that the system takes, and stands in a directory; so nothing stands
below a file.  The working directory is a directory.

Main definitions:

* `isEntryName` — the names that may stand in a directory;
* `FileTree.WellFormed` — the trees that a file system can have.

Main results:

* `node?_put`, `node?_erase` — **what an operation changes**;
* `WellFormed.put`, `WellFormed.erase` — operations keep trees well-formed;
* `mem_descendants_iff` — what is listed below a name stands below it.
-/

set_option autoImplicit false
set_option relaxedAutoImplicit false

namespace LocalisedEnum

/-- A name that may stand in a directory: it is a part of a path that does not lead back, has no
slash and no null character, and is not too long. -/
def isEntryName (part : String) : Bool :=
  Path.isPart part && part != ".." && !part.toList.contains '/' &&
    !part.toList.contains (Char.ofNat 0) && part.utf8ByteSize ≤ FileTree.greatestNameSize

theorem isEntryName_iff {part : String} : isEntryName part = true ↔
    Path.isPart part = true ∧ part ≠ ".." ∧ '/' ∉ part.toList ∧ Char.ofNat 0 ∉ part.toList ∧
      part.utf8ByteSize ≤ FileTree.greatestNameSize := by
  simp [isEntryName, and_assoc]

namespace FileTree

/-! ### Entries by their names -/

theorem lookup_putEntry_of_ne {name other : FullName} (h : other ≠ name) (node : Node)
    (entries : List (FullName × Node)) :
    (putEntry name node entries).lookup other = entries.lookup other := by
  induction entries with
  | nil => simp [putEntry, h]
  | cons entry rest ih =>
      obtain ⟨n, old⟩ := entry
      rw [putEntry]
      split
      · next hn =>
        have hne : (other == n) = false := by simpa [hn] using h
        rw [List.lookup_cons, List.lookup_cons, hne]
      · rw [List.lookup_cons, List.lookup_cons, ih]

theorem lookup_filter (p : FullName → Bool) (entries : List (FullName × Node)) (name : FullName) :
    (entries.filter fun entry => p entry.1).lookup name =
      if p name then entries.lookup name else none := by
  induction entries with
  | nil => simp
  | cons entry rest ih =>
      obtain ⟨n, node⟩ := entry
      by_cases hname : name = n
      · subst hname
        cases hp : p name
        · simpa [hp] using ih
        · simp [hp]
      · have hne : (name == n) = false := by simpa using hname
        cases hp : p n <;> simp [hp, List.lookup_cons, hne, ih]

theorem lookup_eq_some_iff {entries : List (FullName × Node)}
    (hunique : (entries.map Prod.fst).Nodup) {name : FullName} {node : Node} :
    entries.lookup name = some node ↔ (name, node) ∈ entries := by
  induction entries with
  | nil => simp
  | cons entry rest ih =>
      obtain ⟨n, old⟩ := entry
      rw [List.map_cons, List.nodup_cons] at hunique
      rw [List.lookup_cons, List.mem_cons]
      by_cases hname : name = n
      · subst hname
        have hrest : (name, node) ∉ rest := fun hmem => hunique.1 (List.mem_map.2 ⟨_, hmem, rfl⟩)
        simp [hrest, eq_comm]
      · have hne : (name == n) = false := by simpa using hname
        simp [hne, hname, ih hunique.2]

theorem map_fst_putEntry (name : FullName) (node : Node) (entries : List (FullName × Node)) :
    (putEntry name node entries).map Prod.fst =
      if name ∈ entries.map Prod.fst then entries.map Prod.fst
      else entries.map Prod.fst ++ [name] := by
  induction entries with
  | nil => rfl
  | cons entry rest ih =>
      obtain ⟨n, old⟩ := entry
      rw [putEntry]
      by_cases hn : n = name
      · simp [hn]
      · rw [if_neg hn, List.map_cons, ih, List.map_cons]
        by_cases hmem : name ∈ rest.map Prod.fst
        · simp [hmem]
        · have hne : name ≠ n := fun h => hn h.symm
          rw [if_neg hmem, if_neg (by simpa [hne] using hmem), List.cons_append]

theorem mem_putEntry {name : FullName} {node : Node} {entries : List (FullName × Node)}
    {entry : FullName × Node} (h : entry ∈ putEntry name node entries) :
    entry = (name, node) ∨ entry ∈ entries := by
  induction entries with
  | nil => exact .inl (List.mem_singleton.1 h)
  | cons first rest ih =>
      obtain ⟨n, old⟩ := first
      rw [putEntry] at h
      split at h
      · next hn =>
        rcases List.mem_cons.1 h with h | h
        · exact .inl (hn ▸ h)
        · exact .inr (List.mem_cons_of_mem _ h)
      · rcases List.mem_cons.1 h with h | h
        · exact .inr (h ▸ List.mem_cons_self)
        · exact (ih h).imp_right (List.mem_cons_of_mem _)

/-! ### What an operation changes -/

@[simp] theorem node?_nil (t : FileTree) : t.node? [] = some .directory := rfl

@[simp] theorem workingDirectory_put (t : FileTree) (name : FullName) (node : Node) :
    (t.put name node).workingDirectory = t.workingDirectory := rfl

@[simp] theorem workingDirectory_erase (t : FileTree) (name : FullName) :
    (t.erase name).workingDirectory = t.workingDirectory := rfl

theorem node?_put_of_ne (t : FileTree) {name other : FullName} (node : Node) (h : other ≠ name) :
    (t.put name node).node? other = t.node? other := by
  simp only [node?, put, lookup_putEntry_of_ne h]

/-- **What putting a node changes**: what stands under its name. -/
theorem node?_put (t : FileTree) {name : FullName} (hname : name ≠ []) (node : Node)
    (other : FullName) :
    (t.put name node).node? other = if other = name then some node else t.node? other := by
  split
  · next h => rw [h, node?_put_self t node hname]
  · next h => exact node?_put_of_ne t node h

/-- **What removing changes**: what stands under the name and below it. -/
theorem node?_erase (t : FileTree) (name : FullName) {other : FullName} (hother : other ≠ []) :
    (t.erase name).node? other = if name.isPrefixOf other then none else t.node? other := by
  rw [node?, node?, if_neg hother, if_neg hother, erase,
    lookup_filter (fun n => !name.isPrefixOf n)]
  cases name.isPrefixOf other <;> rfl

/-! ### Well-formed trees -/

/-- **A tree that a file system can have**: each name is there once, is made up of names that the
system takes, and stands in a directory; and so does the process that looks at it. -/
structure WellFormed (t : FileTree) : Prop where
  unique : (t.entries.map Prod.fst).Nodup
  names : ∀ entry ∈ t.entries, entry.1 ≠ [] ∧ ∀ part ∈ entry.1, isEntryName part = true
  parents : ∀ entry ∈ t.entries, t.node? entry.1.dropLast = some .directory
  place : t.node? t.workingDirectory = some .directory

instance (t : FileTree) : Decidable t.WellFormed :=
  decidable_of_iff
    ((t.entries.map Prod.fst).Nodup ∧
      (∀ entry ∈ t.entries, entry.1 ≠ [] ∧ ∀ part ∈ entry.1, isEntryName part = true) ∧
      (∀ entry ∈ t.entries, t.node? entry.1.dropLast = some .directory) ∧
      t.node? t.workingDirectory = some .directory) ⟨fun ⟨unique, names, parents, place⟩ =>
        ⟨unique, names, parents, place⟩, fun h => ⟨h.unique, h.names, h.parents, h.place⟩⟩

namespace WellFormed

variable {t : FileTree} (ht : t.WellFormed)
include ht

theorem node?_eq_some_iff {name : FullName} (hname : name ≠ []) {node : Node} :
    t.node? name = some node ↔ (name, node) ∈ t.entries := by
  rw [node?, if_neg hname, lookup_eq_some_iff ht.unique]

theorem isEntryName_of_mem {name : FullName} {node : Node} (h : t.node? name = some node)
    {part : String} (hpart : part ∈ name) : isEntryName part = true := by
  have hname : name ≠ [] := List.ne_nil_of_mem hpart
  exact (ht.names _ ((ht.node?_eq_some_iff hname).1 h)).2 part hpart

/-- What is there stands in a directory. -/
theorem node?_dropLast {name : FullName} {node : Node} (h : t.node? name = some node) :
    t.node? name.dropLast = some .directory := by
  by_cases hname : name = []
  · rw [hname]
    rfl
  · exact ht.parents _ ((ht.node?_eq_some_iff hname).1 h)

/-- Above what is there stand directories. -/
theorem directory_of_append {above : FullName} {part : String} {rest : List String} {node : Node}
    (h : t.node? (above ++ part :: rest) = some node) : t.node? above = some .directory := by
  induction rest using List.reverseRecOn generalizing node with
  | nil => simpa using ht.node?_dropLast h
  | append_singleton rest last ih =>
      have hparent := ht.node?_dropLast h
      rw [← List.cons_append, ← List.append_assoc, List.dropLast_concat] at hparent
      exact ih hparent

/-- Nothing stands below a file. -/
theorem eq_of_prefix_file {name other : FullName} {octets : Octets} {node : Node}
    (hfile : t.node? name = some (.file octets)) (hbegins : name <+: other)
    (hother : t.node? other = some node) : other = name := by
  obtain ⟨rest, rfl⟩ := hbegins
  cases rest with
  | nil => exact List.append_nil _
  | cons part rest =>
      have hdirectory := ht.directory_of_append hother
      rw [hfile] at hdirectory
      cases hdirectory

omit ht in
/-- Directories stay where nothing but a directory is put in the place of one. -/
theorem directory_put {name : FullName} {node : Node}
    (hold : node = .directory ∨ t.node? name ≠ some .directory) {other : FullName}
    (h : t.node? other = some .directory) : (t.put name node).node? other = some .directory := by
  by_cases heq : other = name
  · subst heq
    rcases hold with rfl | hold
    · by_cases hname : other = []
      · subst hname
        rfl
      · exact node?_put_self t .directory hname
    · exact absurd h hold
  · rw [node?_put_of_ne t node heq, h]

theorem put {parent : FullName} {part : String} {node : Node}
    (hparent : t.node? parent = some .directory) (hpart : isEntryName part = true)
    (hold : node = .directory ∨ t.node? (parent ++ [part]) ≠ some .directory) :
    (t.put (parent ++ [part]) node).WellFormed where
  unique := by
    rw [FileTree.put, map_fst_putEntry]
    split
    · exact ht.unique
    · next hmem =>
      refine List.nodup_append.2 ⟨ht.unique, List.nodup_singleton _, ?_⟩
      rintro n hn _ hname rfl
      exact hmem (List.mem_singleton.1 hname ▸ hn)
  names := by
    intro entry hentry
    rcases mem_putEntry hentry with rfl | hentry
    · refine ⟨List.append_ne_nil_of_right_ne_nil _ (List.cons_ne_nil _ _), fun p hp => ?_⟩
      rcases List.mem_append.1 hp with hp | hp
      · exact ht.isEntryName_of_mem hparent hp
      · exact List.mem_singleton.1 hp ▸ hpart
    · exact ht.names entry hentry
  parents := by
    intro entry hentry
    rcases mem_putEntry hentry with rfl | hentry
    · rw [List.dropLast_concat]
      exact directory_put hold hparent
    · exact directory_put hold (ht.parents entry hentry)
  place := directory_put hold ht.place

/-- **What removing a file changes**: what stands under its name. -/
theorem node?_erase_file {name : FullName} {octets : Octets}
    (hfile : t.node? name = some (.file octets)) (other : FullName) :
    (t.erase name).node? other = if other = name then none else t.node? other := by
  by_cases hother : other = []
  · subst hother
    have hne : ([] : FullName) ≠ name := by
      rintro rfl
      cases hfile
    rw [if_neg hne]
    rfl
  · rw [node?_erase t name hother]
    by_cases heq : other = name
    · subst heq
      rw [if_pos rfl, if_pos (List.isPrefixOf_iff_prefix.2 List.prefix_rfl)]
    · rw [if_neg heq]
      split
      · next hbegins =>
        cases hnode : t.node? other with
        | none => rfl
        | some node =>
            exact absurd (ht.eq_of_prefix_file hfile (List.isPrefixOf_iff_prefix.1 hbegins) hnode)
              heq
      · rfl

/-- Removing a file leaves the directories. -/
theorem directory_erase {name : FullName} {octets : Octets}
    (hfile : t.node? name = some (.file octets)) {other : FullName}
    (h : t.node? other = some .directory) : (t.erase name).node? other = some .directory := by
  rw [ht.node?_erase_file hfile, if_neg, h]
  rintro rfl
  rw [hfile] at h
  cases h

theorem erase {name : FullName} {octets : Octets} (hfile : t.node? name = some (.file octets)) :
    (t.erase name).WellFormed where
  unique := ht.unique.sublist (List.filter_sublist.map _)
  names entry hentry := ht.names entry (List.mem_filter.1 hentry).1
  parents entry hentry := ht.directory_erase hfile (ht.parents entry (List.mem_filter.1 hentry).1)
  place := ht.directory_erase hfile ht.place

/-- **What is listed below a name** stands below it. -/
theorem mem_descendants_iff {here : FullName} {names : List String} {node : Node} :
    (names, node) ∈ t.descendants here ↔ names ≠ [] ∧ t.node? (here ++ names) = some node := by
  rw [descendants, List.mem_filterMap]
  constructor
  · rintro ⟨⟨name, node'⟩, hmem, h⟩
    simp only [Bool.and_eq_true, bne_iff_ne, Option.ite_none_right_eq_some, Option.some.injEq,
      Prod.mk.injEq] at h
    obtain ⟨⟨hbegins, hne⟩, rfl, rfl⟩ := h
    obtain ⟨rest, rfl⟩ := List.isPrefixOf_iff_prefix.1 hbegins
    have hrest : rest ≠ [] := by simpa using hne
    rw [List.drop_left]
    exact ⟨hrest, (ht.node?_eq_some_iff (List.append_ne_nil_of_right_ne_nil _ hrest)).2 hmem⟩
  · rintro ⟨hnames, hnode⟩
    refine ⟨(here ++ names, node),
      (ht.node?_eq_some_iff (List.append_ne_nil_of_right_ne_nil _ hnames)).1 hnode, ?_⟩
    have hbegins : here.isPrefixOf (here ++ names) = true :=
      List.isPrefixOf_iff_prefix.2 (List.prefix_append ..)
    simp [hbegins, hnames]

end WellFormed

end FileTree

end LocalisedEnum

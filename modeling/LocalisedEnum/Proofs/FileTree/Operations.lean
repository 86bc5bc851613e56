import LocalisedEnum.Proofs.FileTree.Following
import Mathlib.Data.List.Infix

/-!
**What operations on paths leave.**

Opening a file for writing empties what stands under the name of a path, or puts an empty file
there.  Making directories only adds directories where nothing was.  It goes all the way when
nothing is in the way: no beginning of the path is a file.

Main definitions:

* `FileTree.Keeps` — a tree that has become another and whose directories have stayed;
* `FileTree.Puts` — a tree that has become another by a file that is written;
* `FileTree.Grows` — a tree that has become another by new directories;
* `FileTree.Clear` — nothing is in the way of a path.

Main results:

* `WellFormed.openForWriting_eq_ok` — what opening a file for writing leaves;
* `WellFormed.makeDirectories_grows` — **making directories adds directories and nothing else**,
  whatever comes of it;
* `WellFormed.makeDirectories_of_clear` — and succeeds when nothing is in the way.
-/

set_option autoImplicit false
set_option relaxedAutoImplicit false

namespace LocalisedEnum

/-! ### Beginnings of paths -/

namespace Path

theorem text_append {anchor : Anchor} {front rest : List String} (hfront : front ≠ [])
    (hrest : rest ≠ []) :
    (Path.mk anchor (front ++ rest)).text =
      (Path.mk anchor front).text ++ ("/" ++ joinWith "/" rest) := by
  simp only [text, List.append_eq_nil_iff, hfront, and_false, if_false, false_and]
  rw [joinWith, joinWith, joinWith, String.intercalate_append_of_ne_nil hfront hrest]
  simp only [String.append_assoc]

/-- A beginning of a path is not longer than the path. -/
theorem Proper.size_text_append {anchor : Anchor} {front rest : List String}
    (h : (Path.mk anchor (front ++ rest)).Proper) :
    (Path.mk anchor front).text.utf8ByteSize ≤
      (Path.mk anchor (front ++ rest)).text.utf8ByteSize := by
  cases rest with
  | nil => simp
  | cons part rest =>
      by_cases hfront : front = []
      · subst hfront
        have hpart : part ≠ "" := by
          have := (h part (by simp)).1
          simp only [isPart, Bool.and_eq_true, bne_iff_ne] at this
          exact this.1
        have hsize : 1 ≤ (joinWith "/" (part :: rest)).utf8ByteSize := by
          have hpos : 0 < part.utf8ByteSize := Nat.pos_of_ne_zero (by simpa using hpart)
          cases rest with
          | nil => rw [joinWith, String.intercalate_singleton]; exact hpos
          | cons next rest =>
              rw [joinWith, String.intercalate_cons_cons]
              simp only [String.utf8ByteSize_append]
              omega
        cases anchor with
        | workingDirectory =>
            simp only [text, List.nil_append, and_true, if_true, reduceCtorEq, and_false, if_false,
              String.utf8ByteSize_append]
            exact Nat.le_add_left_of_le hsize
        | root => simp [text, String.utf8ByteSize_append, joinWith, String.intercalate_nil]
        | doubleRoot => simp [text, String.utf8ByteSize_append, joinWith, String.intercalate_nil]
      · rw [text_append hfront (List.cons_ne_nil _ _), String.utf8ByteSize_append]
        exact Nat.le_add_right _ _

/-- A path that goes on with a name is not longer than the path, a slash and the name. -/
theorem size_text_below (p : Path) (name : String) :
    (p.below [name]).text.utf8ByteSize ≤ p.text.utf8ByteSize + 1 + name.utf8ByteSize := by
  obtain ⟨anchor, parts⟩ := p
  by_cases hparts : parts = []
  · subst hparts
    cases anchor <;> simp [below, text, joinWith, String.intercalate_singleton,
      String.utf8ByteSize_append, Anchor.text]
  · rw [below, text_append hparts (List.cons_ne_nil _ _), joinWith, String.intercalate_singleton,
      String.utf8ByteSize_append, String.utf8ByteSize_append, Nat.add_assoc]
    exact Nat.le_refl _

theorem Proper.of_append {anchor : Anchor} {front rest : List String}
    (h : (Path.mk anchor (front ++ rest)).Proper) : (Path.mk anchor front).Proper :=
  fun part hpart => h part (List.mem_append_left _ hpart)

theorem hasNull_of_append {anchor : Anchor} {front rest : List String}
    (h : (Path.mk anchor (front ++ rest)).hasNull = false) :
    (Path.mk anchor front).hasNull = false := by
  rw [FileTree.hasNull_append, Bool.or_eq_false_iff] at h
  exact h.1

end Path

namespace FileTree

variable {t t' t'' : FileTree} {p : Path}

/-! ### Directories that stay -/

/-- A tree that has become another and whose directories have stayed. -/
structure Keeps (t t' : FileTree) : Prop where
  workingDirectory : t'.workingDirectory = t.workingDirectory
  wellFormed : t'.WellFormed
  directories : ∀ name, t.node? name = some .directory → t'.node? name = some .directory

namespace Keeps

theorem refl (ht : t.WellFormed) : t.Keeps t :=
  ⟨rfl, ht, fun _ => id⟩

theorem trans (h : t.Keeps t') (h' : t'.Keeps t'') : t.Keeps t'' where
  workingDirectory := h'.workingDirectory.trans h.workingDirectory
  wellFormed := h'.wellFormed
  directories name hname := h'.directories name (h.directories name hname)

theorem fullName (h : t.Keeps t') (p : Path) : t'.fullName p = t.fullName p :=
  fullName_congr h.workingDirectory p

/-- A path keeps leading where it leads while something stands there. -/
theorem follow (h : t.Keeps t') {name : FullName} (hfollow : t.follow p = .ok name)
    (hthere : (t'.node? name).isSome) : t'.follow p = .ok name :=
  follow_of_directories h.workingDirectory h.directories hfollow hthere

theorem follow_directory (h : t.Keeps t') {name : FullName} (hfollow : t.follow p = .ok name)
    (hnode : t.node? name = some .directory) : t'.follow p = .ok name :=
  h.follow hfollow (by rw [h.directories name hnode]; rfl)

end Keeps

/-! ### New directories -/

/-- A tree that has become another by new directories. -/
structure Grows (t t' : FileTree) : Prop where
  workingDirectory : t'.workingDirectory = t.workingDirectory
  wellFormed : t'.WellFormed
  nodes : ∀ name, t'.node? name = t.node? name ∨
    (t.node? name = none ∧ t'.node? name = some .directory)

namespace Grows

theorem refl (ht : t.WellFormed) : t.Grows t :=
  ⟨rfl, ht, fun _ => .inl rfl⟩

theorem trans (h : t.Grows t') (h' : t'.Grows t'') : t.Grows t'' where
  workingDirectory := h'.workingDirectory.trans h.workingDirectory
  wellFormed := h'.wellFormed
  nodes name := by
    rcases h.nodes name with hsame | ⟨hnone, hnew⟩
    · rcases h'.nodes name with hsame' | ⟨hnone', hnew'⟩
      · exact .inl (hsame'.trans hsame)
      · exact .inr ⟨hsame ▸ hnone', hnew'⟩
    · rcases h'.nodes name with hsame' | ⟨hnone', _⟩
      · exact .inr ⟨hnone, hsame'.trans hnew⟩
      · rw [hnew] at hnone'
        cases hnone'

/-- What is there stays. -/
theorem node?_of_some (h : t.Grows t') {name : FullName} {node : Node}
    (hnode : t.node? name = some node) : t'.node? name = some node := by
  rcases h.nodes name with hsame | ⟨hnone, _⟩
  · exact hsame.trans hnode
  · rw [hnode] at hnone
    cases hnone

/-- A file that is there was there. -/
theorem file_iff (h : t.Grows t') {name : FullName} {octets : Octets} :
    t'.node? name = some (.file octets) ↔ t.node? name = some (.file octets) := by
  refine ⟨fun hfile => ?_, h.node?_of_some⟩
  rcases h.nodes name with hsame | ⟨_, hnew⟩
  · exact hsame ▸ hfile
  · rw [hfile] at hnew
    cases hnew

theorem keeps (h : t.Grows t') : t.Keeps t' :=
  ⟨h.workingDirectory, h.wellFormed, fun _ => h.node?_of_some⟩

end Grows

namespace WellFormed

/-- A new directory where nothing was. -/
theorem grows_put (ht : t.WellFormed) {parent : FullName} {part : String}
    (hparent : t.node? parent = some .directory) (hpart : isEntryName part = true)
    (hnone : t.node? (parent ++ [part]) = none) :
    t.Grows (t.put (parent ++ [part]) .directory) where
  workingDirectory := rfl
  wellFormed := ht.put hparent hpart (.inl rfl)
  nodes name := by
    rw [node?_put t (by simp)]
    split
    · next h => exact .inr ⟨h ▸ hnone, rfl⟩
    · exact .inl rfl

theorem makeDirectory_eq_ok (ht : t.WellFormed) (hp : p.Proper) (h : t.makeDirectory p = .ok t') :
    t.Grows t' ∧ ∃ name, t'.follow p = .ok name ∧ t'.node? name = some .directory := by
  rw [makeDirectory] at h
  obtain ⟨⟨name, node⟩, htarget, h⟩ := bind_eq_ok.1 h
  split at h
  · cases h
  · next heq =>
    cases heq
    cases h
    obtain ⟨_, hnode, hplace⟩ := ht.target_eq_ok hp htarget
    rcases hplace with hdirectory | ⟨parent, part, rfl, hparent, hpart⟩
    · cases hdirectory
    · refine ⟨ht.grows_put hparent hpart hnode.symm, _, ht.follow_put htarget (.inl rfl), ?_⟩
      exact node?_put_self t _ (by simp)

theorem ensureDirectory_eq_ok (ht : t.WellFormed) (hp : p.Proper)
    (h : t.ensureDirectory p = .ok t') :
    t.Grows t' ∧ ∃ name, t'.follow p = .ok name ∧ t'.node? name = some .directory := by
  rw [ensureDirectory] at h
  split at h
  · next hmade =>
    cases h
    exact ht.makeDirectory_eq_ok hp hmade
  · split at h
    · next hthere =>
      cases h
      exact ⟨.refl ht, isDirectory_eq_true hthere⟩
    · cases h
    · cases h

/-- A directory that is there is left as it is. -/
theorem ensureDirectory_of_follow (ht : t.WellFormed) {name : FullName} (h : t.follow p = .ok name)
    (hnode : t.node? name = some .directory) : t.ensureDirectory p = .ok t := by
  have hmade : t.makeDirectory p = .error ⟨.alreadyThere, p⟩ := by
    rw [makeDirectory, ht.target_of_follow h, hnode]
    rfl
  rw [ensureDirectory, hmade]
  simp only [isDirectory_of_follow h, hnode, beq_self_eq_true]

/-- **Making directories adds directories and nothing else**; when it succeeds the path leads to
one. -/
theorem makeDirectoriesAt_grows (ht : t.WellFormed) {anchor : Anchor} {reversed : List String}
    (hp : (Path.mk anchor reversed.reverse).Proper) :
    t.Grows (makeDirectoriesAt anchor reversed t).1 ∧
    ((makeDirectoriesAt anchor reversed t).2 = .ok () →
      ∃ name, (makeDirectoriesAt anchor reversed t).1.follow ⟨anchor, reversed.reverse⟩ = .ok name ∧
        (makeDirectoriesAt anchor reversed t).1.node? name = some .directory) := by
  induction reversed with
  | nil =>
      rw [makeDirectoriesAt]
      split
      · next hensured =>
        obtain ⟨hgrows, hleads⟩ := ht.ensureDirectory_eq_ok hp hensured
        exact ⟨hgrows, fun _ => hleads⟩
      · exact ⟨.refl ht, nofun⟩
  | cons part rest ih =>
      have hrest : (Path.mk anchor rest.reverse).Proper := by
        rw [List.reverse_cons] at hp
        exact hp.of_append
      have ih := ih hrest
      rw [makeDirectoriesAt]
      split
      · next hensured =>
        obtain ⟨hgrows, hleads⟩ := ht.ensureDirectory_eq_ok hp hensured
        exact ⟨hgrows, fun _ => hleads⟩
      · split
        · split
          · next above _ habove =>
            rw [habove] at ih
            exact ⟨ih.1, nofun⟩
          · next above habove =>
            rw [habove] at ih
            obtain ⟨hgrows, _⟩ := ih
            split
            · next hensured =>
              obtain ⟨hgrows', hleads⟩ := hgrows.wellFormed.ensureDirectory_eq_ok hp hensured
              exact ⟨hgrows.trans hgrows', fun _ => hleads⟩
            · exact ⟨hgrows, nofun⟩
        · exact ⟨.refl ht, nofun⟩

/-- A directory that is made stands in the place of its path. -/
theorem node?_of_makeDirectory (ht : t.WellFormed) (hp : p.Proper) (h : t.makeDirectory p = .ok t')
    (name : FullName) : t'.node? name = t.node? name ∨ t.fullName p = .ok name := by
  rw [makeDirectory] at h
  obtain ⟨⟨place, node⟩, htarget, h⟩ := bind_eq_ok.1 h
  split at h
  · cases h
  · next heq =>
    cases heq
    cases h
    by_cases hname : name = place
    · exact .inr (hname ▸ (ht.target_eq_ok hp htarget).1)
    · exact .inl (node?_put_of_ne t .directory hname)

theorem node?_of_ensureDirectory (ht : t.WellFormed) (hp : p.Proper)
    (h : t.ensureDirectory p = .ok t') (name : FullName) :
    t'.node? name = t.node? name ∨ t.fullName p = .ok name := by
  rw [ensureDirectory] at h
  split at h
  · next hmade =>
    cases h
    exact ht.node?_of_makeDirectory hp hmade name
  · split at h
    · cases h
      exact .inl rfl
    · cases h
    · cases h

/-- **Directories are made in the places of beginnings of a path** and nowhere else. -/
theorem node?_of_makeDirectoriesAt (ht : t.WellFormed) {anchor : Anchor} {reversed : List String}
    (hp : (Path.mk anchor reversed.reverse).Proper) (name : FullName) :
    (makeDirectoriesAt anchor reversed t).1.node? name = t.node? name ∨
      ∃ front, front <+: reversed.reverse ∧ t.fullName ⟨anchor, front⟩ = .ok name := by
  induction reversed with
  | nil =>
      rw [makeDirectoriesAt]
      split
      · next hensured =>
          exact (ht.node?_of_ensureDirectory hp hensured name).imp_right fun h =>
            ⟨_, List.prefix_rfl, h⟩
      · exact .inl rfl
  | cons part rest ih =>
      have hparts : (part :: rest).reverse = rest.reverse ++ [part] := List.reverse_cons
      have hrest : (Path.mk anchor rest.reverse).Proper := by
        rw [hparts] at hp
        exact hp.of_append
      have hgrows := (ht.makeDirectoriesAt_grows hrest).1
      have hless : (∃ front, front <+: rest.reverse ∧ t.fullName ⟨anchor, front⟩ = .ok name) →
          ∃ front, front <+: (part :: rest).reverse ∧ t.fullName ⟨anchor, front⟩ = .ok name :=
        fun ⟨front, hfront, hname⟩ => ⟨front, hparts ▸ hfront.trans (List.prefix_append _ _), hname⟩
      rw [makeDirectoriesAt]
      split
      · next hensured =>
          exact (ht.node?_of_ensureDirectory hp hensured name).imp_right fun h =>
            ⟨_, List.prefix_rfl, h⟩
      · split
        · split
          · next above _ habove =>
            rw [habove] at ih
            exact (ih hrest).imp_right hless
          · next above habove =>
            rw [habove] at ih hgrows
            split
            · next hensured =>
              rcases hgrows.wellFormed.node?_of_ensureDirectory hp hensured name with hsame | hplace
              · exact (ih hrest).imp hsame.trans hless
              · exact .inr ⟨_, List.prefix_rfl, hgrows.keeps.fullName _ ▸ hplace⟩
            · exact (ih hrest).imp_right hless
        · exact .inl rfl

theorem makeDirectories_grows (ht : t.WellFormed) (hp : p.Proper) :
    t.Grows (t.makeDirectories p).1 := by
  have hproper : (Path.mk p.anchor p.parts.reverse.reverse).Proper := by rwa [List.reverse_reverse]
  exact (ht.makeDirectoriesAt_grows hproper).1

/-- Where making directories succeeds, the path leads to a directory. -/
theorem makeDirectories_eq_ok (ht : t.WellFormed) (hp : p.Proper)
    (h : t.makeDirectories p = (t', .ok ())) :
    ∃ name, t'.follow p = .ok name ∧ t'.node? name = some .directory := by
  have hproper : (Path.mk p.anchor p.parts.reverse.reverse).Proper := by rwa [List.reverse_reverse]
  have hmade := (ht.makeDirectoriesAt_grows hproper).2
  rw [makeDirectories] at h
  rw [h, List.reverse_reverse] at hmade
  exact hmade rfl

theorem node?_of_makeDirectories (ht : t.WellFormed) (hp : p.Proper) (name : FullName) :
    (t.makeDirectories p).1.node? name = t.node? name ∨
      ∃ front, front <+: p.parts ∧ t.fullName ⟨p.anchor, front⟩ = .ok name := by
  have hproper : (Path.mk p.anchor p.parts.reverse.reverse).Proper := by rwa [List.reverse_reverse]
  have hplaces := ht.node?_of_makeDirectoriesAt hproper name
  rwa [List.reverse_reverse] at hplaces

theorem makeDirectories_of_follow (ht : t.WellFormed) {name : FullName} (h : t.follow p = .ok name)
    (hnode : t.node? name = some .directory) : t.makeDirectories p = (t, .ok ()) := by
  obtain ⟨anchor, parts⟩ := p
  rw [makeDirectories]
  cases hreversed : parts.reverse with
  | nil =>
      have hparts : parts = [] := by simpa using hreversed
      subst hparts
      rw [makeDirectoriesAt, ht.ensureDirectory_of_follow h hnode]
  | cons part rest =>
      have hparts : (part :: rest).reverse = parts := by rw [← hreversed, List.reverse_reverse]
      rw [makeDirectoriesAt, hparts, ht.ensureDirectory_of_follow h hnode]

end WellFormed

/-! ### Files that are written -/

/-- A tree that has become another by octets written to a file, which may be new. -/
structure Puts (t t' : FileTree) (name : FullName) (octets : Octets) : Prop where
  workingDirectory : t'.workingDirectory = t.workingDirectory
  wellFormed : t'.WellFormed
  nodes : ∀ other, t'.node? other = if other = name then some (.file octets) else t.node? other
  kept : t.node? name ≠ some .directory

namespace Puts

variable {name : FullName} {octets : Octets}

theorem node?_self (h : t.Puts t' name octets) : t'.node? name = some (.file octets) := by
  rw [h.nodes, if_pos rfl]

theorem node?_of_ne (h : t.Puts t' name octets) {other : FullName} (hne : other ≠ name) :
    t'.node? other = t.node? other := by
  rw [h.nodes, if_neg hne]

theorem directory_iff (h : t.Puts t' name octets) {other : FullName} :
    t'.node? other = some .directory ↔ t.node? other = some .directory := by
  by_cases heq : other = name
  · subst heq
    simp [h.node?_self, h.kept]
  · rw [h.node?_of_ne heq]

theorem keeps (h : t.Puts t' name octets) : t.Keeps t' :=
  ⟨h.workingDirectory, h.wellFormed, fun _ => h.directory_iff.2⟩

/-- Other octets in the file. -/
theorem put (h : t.Puts t' name octets) (octets' : Octets) :
    t.Puts (t'.put name (.file octets')) name octets' := by
  have hname : name ≠ [] := by
    rintro rfl
    cases h.node?_self
  obtain ⟨parent, part, rfl⟩ : ∃ parent part, name = parent ++ [part] :=
    ⟨_, _, (List.dropLast_append_getLast hname).symm⟩
  have hthere := h.node?_self
  have hparent := h.wellFormed.node?_dropLast hthere
  rw [List.dropLast_concat] at hparent
  refine ⟨h.workingDirectory,
    h.wellFormed.put hparent (h.wellFormed.isEntryName_of_mem hthere (by simp))
      (.inr (by rw [hthere]; exact nofun)), fun other => ?_, h.kept⟩
  rw [node?_put t' hname]
  split
  · rfl
  · next hne => exact h.node?_of_ne hne

end Puts

namespace WellFormed

/-- **Opening a file for writing** leaves an empty file under the name of the path. -/
theorem openForWriting_eq_ok (ht : t.WellFormed) (hp : p.Proper) {name : FullName}
    (h : t.openForWriting p = .ok (t', name)) :
    t.Puts t' name [] ∧ t.fullName p = .ok name ∧ t'.follow p = .ok name := by
  rw [openForWriting] at h
  obtain ⟨⟨name', node⟩, htarget, h⟩ := bind_eq_ok.1 h
  obtain ⟨hname, hnode, hplace⟩ := ht.target_eq_ok hp htarget
  split at h
  · cases h
  · next hdirectory heq =>
    cases heq
    cases h
    have hold : node ≠ some .directory := hdirectory
    rcases hplace with hdirectory | ⟨parent, part, rfl, hparent, hpart⟩
    · exact absurd hdirectory hold
    · have hkept : t.node? (parent ++ [part]) ≠ some .directory := hnode ▸ hold
      exact ⟨⟨rfl, ht.put hparent hpart (.inr hkept), node?_put t (by simp) _, hkept⟩, hname,
        ht.follow_put htarget (.inr hold)⟩

/-- What is emptied when a file is opened for writing is what the path led to. -/
theorem follow_of_openForWriting (ht : t.WellFormed) (hp : p.Proper) {name : FullName}
    (h : t.openForWriting p = .ok (t', name)) (hthere : (t.node? name).isSome) :
    t.follow p = .ok name := by
  rw [openForWriting] at h
  obtain ⟨⟨name', node⟩, htarget, h⟩ := bind_eq_ok.1 h
  obtain ⟨_, hnode, _⟩ := ht.target_eq_ok hp htarget
  split at h
  · cases h
  · next heq =>
    cases heq
    cases h
    obtain ⟨node, rfl⟩ := Option.isSome_iff_exists.1 (hnode ▸ hthere)
    exact follow_of_target htarget

theorem openForWriting_of_target {name : FullName} {node : Option Node}
    (h : t.target p = .ok (name, node)) (hnode : node ≠ some .directory) :
    t.openForWriting p = .ok (t.put name (.file []), name) := by
  rw [openForWriting, h]
  rcases node with _ | _ | _
  · rfl
  · rfl
  · exact absurd rfl hnode

end WellFormed

/-! ### Places of files -/

/-- A path that has or would get a name leads to a file exactly where there is one. -/
theorem isFile_of_target {name : FullName} {node : Option Node} (ht : t.WellFormed)
    (h : t.target p = .ok (name, node)) : ∃ there, t.isFile p = .ok there := by
  cases node with
  | some node => exact ⟨_, isFile_of_follow (follow_of_target h)⟩
  | none =>
      rcases target_cases h with ⟨_, _, hdirectory⟩ | ⟨front, part, parent, hparts, hparent, hlast⟩
      · cases hdirectory
      · rcases hlast with ⟨hstep, hnode⟩ | ⟨hmissing, _, _⟩
        · have hthere := ht.isSome_of_step hstep
          rw [← hnode] at hthere
          cases hthere
        · obtain ⟨hnull, hsize, hsteps⟩ := followParts_eq_ok.1 hparent
          have hfollow : t.follow p = .error ⟨.missing, p⟩ := by
            rw [follow, followParts, if_neg (by rw [hnull]; exact Bool.false_ne_true),
              if_neg (Nat.not_lt_of_le hsize), hparts, List.foldlM_append, hsteps]
            simp only [bind, Except.bind, List.foldlM_cons, hmissing]
            rfl
          exact ⟨false, by rw [isFile, find?, hfollow]; rfl⟩

/-- The place of a file stays its place while the directories stay. -/
theorem target_of_keeps {name : FullName} {node : Option Node} (ht : t.WellFormed)
    (hkeeps : t.Keeps t') (h : t.target p = .ok (name, node)) (hnode : node ≠ some .directory) :
    t'.target p = .ok (name, t'.node? name) := by
  rcases target_cases h with ⟨_, _, hdirectory⟩ | ⟨front, part, parent, hparts, hparent, hlast⟩
  · exact absurd hdirectory hnode
  · obtain ⟨hnull, hsize, hsteps⟩ := followParts_eq_ok.1 hparent
    obtain ⟨hdirectory, hdots, hname, rfl⟩ : t.node? parent = some .directory ∧ part ≠ ".." ∧
        part.utf8ByteSize ≤ greatestNameSize ∧ name = parent ++ [part] := by
      rcases hlast with ⟨hstep, rfl⟩ | ⟨hmissing, rfl, rfl⟩
      · obtain ⟨hdirectory, ⟨_, rfl⟩ | ⟨hdots, hname, rfl, _⟩⟩ := step_eq_ok.1 hstep
        · exact absurd (ht.node?_dropLast hdirectory) hnode
        · exact ⟨hdirectory, hdots, hname, rfl⟩
      · have hdirectory := ht.directory_of_missing hparent hmissing
        obtain ⟨hdots, hname, _⟩ := (step_eq_missing hdirectory).1 hmissing
        exact ⟨hdirectory, hdots, hname, rfl⟩
    have hdirectory' := hkeeps.directories parent hdirectory
    have hparent' : t'.followParts p front = .ok parent := by
      refine followParts_eq_ok.2 ⟨hnull, hsize, ?_⟩
      rw [start_eq hkeeps.workingDirectory]
      exact steps_of_directories hkeeps.directories hsteps (by rw [hdirectory']; rfl)
    rw [target, hparts, List.dropLast_concat, hparent', List.getLast?_concat]
    cases hthere : t'.node? (parent ++ [part]) with
    | some node =>
        have hstep : t'.step parent part = .ok (parent ++ [part]) :=
          step_eq_ok.2 ⟨hdirectory', .inr ⟨hdots, hname, rfl, by rw [hthere]; rfl⟩⟩
        simp only [bind, Except.bind, hstep, hthere]
        rfl
    | none =>
        have hmissing : t'.step parent part = .error .missing :=
          (step_eq_missing hdirectory').2 ⟨hdots, hname, hthere⟩
        simp only [bind, Except.bind, hmissing]
        rfl

/-- The place of a file in a directory to which a path leads. -/
theorem target_below {here : FullName} {name : String} (h : t.follow p = .ok here)
    (hdirectory : t.node? here = some .directory) (hname : isEntryName name = true)
    (hsize : (p.below [name]).text.utf8ByteSize ≤ greatestPathSize) :
    t.target (p.below [name]) = .ok (here ++ [name], t.node? (here ++ [name])) := by
  obtain ⟨_, hdots, _, _, hnameSize⟩ := isEntryName_iff.1 hname
  have hnames : ∀ part ∈ [name], isEntryName part = true :=
    fun part hpart => List.mem_singleton.1 hpart ▸ hname
  have hnull := (fullName_eq_ok.1 (fullName_below (follow_eq_ok h) hnames)).1
  have hparent : t.followParts (p.below [name]) p.parts = .ok here :=
    followParts_eq_ok.2 ⟨hnull, hsize, (followParts_eq_ok.1 h).2.2⟩
  rw [target, show (p.below [name]).parts = p.parts ++ [name] from rfl, List.dropLast_concat,
    hparent, List.getLast?_concat]
  cases hthere : t.node? (here ++ [name]) with
  | some node =>
      have hstep : t.step here name = .ok (here ++ [name]) :=
        step_eq_ok.2 ⟨hdirectory, .inr ⟨hdots, hnameSize, rfl, by rw [hthere]; rfl⟩⟩
      simp only [bind, Except.bind, hstep, hthere]
      rfl
  | none =>
      have hmissing : t.step here name = .error .missing :=
        (step_eq_missing hdirectory).2 ⟨hdots, hnameSize, hthere⟩
      simp only [bind, Except.bind, hmissing]
      rfl

/-! ### Paths with nothing in the way -/

/-- **Nothing is in the way of a path**: under each of its beginnings stands a directory or nothing,
and it is not too long. -/
structure Clear (t : FileTree) (p : Path) : Prop where
  noNull : p.hasNull = false
  size : p.text.utf8ByteSize ≤ greatestPathSize
  names : ∀ part ∈ p.parts, part.utf8ByteSize ≤ greatestNameSize
  beginnings : ∀ front, front <+: p.parts →
    t.node? (spell (t.start p) front) = none ∨ t.node? (spell (t.start p) front) = some .directory

instance (t : FileTree) (p : Path) : Decidable (t.Clear p) :=
  decidable_of_iff
    (p.hasNull = false ∧ p.text.utf8ByteSize ≤ greatestPathSize ∧
      (∀ part ∈ p.parts, part.utf8ByteSize ≤ greatestNameSize) ∧
      ∀ front ∈ p.parts.inits, t.node? (spell (t.start p) front) = none ∨
        t.node? (spell (t.start p) front) = some .directory)
    ⟨fun ⟨noNull, size, names, beginnings⟩ =>
        ⟨noNull, size, names, fun front hfront => beginnings front ((List.mem_inits ..).2 hfront)⟩,
      fun h => ⟨h.noNull, h.size, h.names,
        fun front hfront => h.beginnings front ((List.mem_inits ..).1 hfront)⟩⟩

theorem Grows.clear (h : t.Grows t') (hclear : t.Clear p) : t'.Clear p where
  noNull := hclear.noNull
  size := hclear.size
  names := hclear.names
  beginnings front hfront := by
    rw [start_eq h.workingDirectory]
    rcases h.nodes (spell (t.start p) front) with hsame | ⟨_, hnew⟩
    · rw [hsame]
      exact hclear.beginnings front hfront
    · exact .inr hnew

theorem Clear.of_append {anchor : Anchor} {front rest : List String}
    (hp : (Path.mk anchor (front ++ rest)).Proper) (h : t.Clear ⟨anchor, front ++ rest⟩) :
    t.Clear ⟨anchor, front⟩ where
  noNull := Path.hasNull_of_append h.noNull
  size := Nat.le_trans hp.size_text_append h.size
  names part hpart := h.names part (List.mem_append_left _ hpart)
  beginnings first hfirst := h.beginnings first (hfirst.trans (List.prefix_append ..))

namespace Clear

/-- What a beginning of a clear path leads to is a directory. -/
theorem directory (hclear : t.Clear p) (ht : t.WellFormed) {front : List String}
    (hfront : front <+: p.parts) {name : FullName}
    (h : front.foldlM t.step (t.start p) = .ok name) : t.node? name = some .directory := by
  have hthere := ht.isSome_of_steps h
  rw [name_of_steps h] at hthere ⊢
  refine (hclear.beginnings front hfront).resolve_left fun hnone => ?_
  rw [hnone] at hthere
  cases hthere

/-- A clear path that leads nowhere does so because something is missing. -/
theorem cause_eq_missing (hclear : t.Clear p) (ht : t.WellFormed) {front : List String}
    (hfront : front <+: p.parts) {cause : FileCause}
    (h : front.foldlM t.step (t.start p) = .error cause) : cause = .missing := by
  induction front using List.reverseRecOn with
  | nil => cases h
  | append_singleton front part ih =>
      have hless := (List.prefix_append front [part]).trans hfront
      rw [List.foldlM_append, bind_eq_error] at h
      rcases h with h | ⟨above, habove, h⟩
      · exact ih hless h
      · have hdirectory := hclear.directory ht hless habove
        have hsize := hclear.names part (hfront.subset (by simp))
        rw [List.foldlM_cons, bind_eq_error] at h
        rcases h with h | ⟨_, _, h⟩
        · rw [step, hdirectory] at h
          simp only [Nat.not_lt_of_le hsize, if_false] at h
          split at h
          · cases h
          · split at h
            · cases h
            · exact (Except.error.inj h).symm
        · cases h

/-- Whether a clear path leads to something can be found out. -/
theorem find?_eq_ok (hclear : t.Clear p) (ht : t.WellFormed) : ∃ node, t.find? p = .ok node := by
  cases hsteps : p.parts.foldlM t.step (t.start p) with
  | ok name =>
      exact ⟨_, find?_of_follow (followParts_eq_ok.2 ⟨hclear.noNull, hclear.size, hsteps⟩)⟩
  | error cause =>
      obtain rfl := hclear.cause_eq_missing ht List.prefix_rfl hsteps
      refine ⟨none, ?_⟩
      rw [find?, follow, followParts, if_neg (by rw [hclear.noNull]; exact Bool.false_ne_true),
        if_neg (Nat.not_lt_of_le hclear.size), hsteps]
      rfl

/-- A directory cannot be made while one above it on a clear path is missing. -/
theorem ensureDirectory_eq_missing (hclear : t.Clear p) (ht : t.WellFormed) {front : List String}
    {part : String} (hparts : p.parts = front ++ [part]) {cause : FileCause}
    (h : front.foldlM t.step (t.start p) = .error cause) :
    t.ensureDirectory p = .error ⟨.missing, p⟩ := by
  obtain rfl := hclear.cause_eq_missing ht (hparts ▸ List.prefix_append front [part]) h
  have hrefused : ∀ parts, parts.foldlM t.step (t.start p) = .error .missing →
      t.followParts p parts = .error ⟨.missing, p⟩ := by
    intro parts hparts
    rw [followParts, if_neg (by rw [hclear.noNull]; exact Bool.false_ne_true),
      if_neg (Nat.not_lt_of_le hclear.size), hparts]
    rfl
  have hmade : t.makeDirectory p = .error ⟨.missing, p⟩ := by
    rw [makeDirectory, target, hparts, List.dropLast_concat, hrefused front h]
    rfl
  have hfollow : t.follow p = .error ⟨.missing, p⟩ := by
    refine hrefused p.parts ?_
    rw [hparts, List.foldlM_append, h]
    rfl
  have hthere : t.isDirectory p = .ok false := by
    rw [isDirectory, find?, hfollow]
    rfl
  rw [ensureDirectory, hmade]
  simp only [hthere]

end Clear

namespace WellFormed

/-- A directory is made below one on a clear path. -/
theorem ensureDirectory_of_clear (ht : t.WellFormed) (hclear : t.Clear p) {front : List String}
    {part : String} {parent : FullName} (hparts : p.parts = front ++ [part])
    (hparent : t.followParts p front = .ok parent) : ∃ t', t.ensureDirectory p = .ok t' := by
  have hsteps := (followParts_eq_ok.1 hparent).2.2
  have hdirectory := hclear.directory ht (hparts ▸ List.prefix_append front [part]) hsteps
  cases hstep : t.step parent part with
  | ok name =>
      have hfollow := follow_of_front hparts hparent hstep
      have hwhole := (followParts_eq_ok.1 hfollow).2.2
      exact ⟨t, ht.ensureDirectory_of_follow hfollow (hclear.directory ht List.prefix_rfl hwhole)⟩
  | error cause =>
      have hmissing : cause = .missing := by
        have hwhole : (front ++ [part]).foldlM t.step (t.start p) = .error cause := by
          rw [List.foldlM_append, hsteps]
          exact bind_eq_error.2 (.inr ⟨parent, rfl, by rw [List.foldlM_cons, hstep]; rfl⟩)
        exact hclear.cause_eq_missing ht (hparts ▸ List.prefix_rfl) hwhole
      subst hmissing
      have hmade : t.makeDirectory p = .ok (t.put (parent ++ [part]) .directory) := by
        rw [makeDirectory, target, hparts, List.dropLast_concat, hparent, List.getLast?_concat]
        simp only [bind, Except.bind, hstep]
        rfl
      exact ⟨_, by rw [ensureDirectory, hmade]⟩

/-- **Making directories succeeds when nothing is in the way.** -/
theorem makeDirectories_of_clear (ht : t.WellFormed) (hp : p.Proper) (hclear : t.Clear p) :
    ∃ t', t.makeDirectories p = (t', .ok ()) := by
  obtain ⟨anchor, parts⟩ := p
  rw [makeDirectories]
  generalize hreversed : parts.reverse = reversed
  obtain rfl : parts = reversed.reverse := by rw [← hreversed, List.reverse_reverse]
  clear hreversed
  induction reversed with
  | nil =>
      have hstart : t.follow ⟨anchor, []⟩ = .ok (t.start ⟨anchor, []⟩) :=
        followParts_eq_ok.2 ⟨hclear.noNull, hclear.size, rfl⟩
      exact
        ⟨t, by rw [makeDirectoriesAt, ht.ensureDirectory_of_follow hstart (ht.directory_start _)]⟩
  | cons part rest ih =>
      have hparts : (part :: rest).reverse = rest.reverse ++ [part] := List.reverse_cons
      rw [makeDirectoriesAt]
      cases hfront : rest.reverse.foldlM t.step (t.start ⟨anchor, (part :: rest).reverse⟩) with
      | ok parent =>
          have hparent := followParts_eq_ok.2 ⟨hclear.noNull, hclear.size, hfront⟩
          obtain ⟨t', hensured⟩ := ht.ensureDirectory_of_clear hclear hparts hparent
          exact ⟨t', by rw [hensured]⟩
      | error cause =>
          have hmissing := hclear.ensureDirectory_eq_missing ht hparts hfront
          have hless : t.Clear ⟨anchor, rest.reverse⟩ := by
            rw [hparts] at hclear hp
            exact hclear.of_append hp
          have hproper : (Path.mk anchor rest.reverse).Proper := by
            rw [hparts] at hp
            exact hp.of_append
          obtain ⟨above, habove⟩ := ih hproper hless
          have hgrows := (ht.makeDirectoriesAt_grows hproper).1
          have hleads := (ht.makeDirectoriesAt_grows hproper).2
          rw [habove] at hgrows hleads
          obtain ⟨parent, hparent, _⟩ := hleads rfl
          have hclear' := hgrows.clear hclear
          have hfront' : above.followParts ⟨anchor, (part :: rest).reverse⟩ rest.reverse =
              .ok parent :=
            followParts_eq_ok.2 ⟨hclear'.noNull, hclear'.size, (followParts_eq_ok.1 hparent).2.2⟩
          obtain ⟨t', hensured⟩ := hgrows.wellFormed.ensureDirectory_of_clear hclear' hparts hfront'
          exact ⟨t', by rw [hmissing]; simp only [if_true, habove, hensured]⟩

end WellFormed

end FileTree

end LocalisedEnum

import LocalisedEnum.Proofs.FileTree.Nodes
import LocalisedEnum.Declaration.Fault

/-!
**Where paths lead.**

A path that leads somewhere leads to the full name that its parts spell out, double points taken
back; only whether it leads there is a matter of the tree.  So a path that leads to a name in one
tree leads to the same name in every tree in which the directories of the first are still there, as
long as there is something under the name.

Main definitions:

* `Path.Proper` — the paths that texts denote;
* `spell` — the full name that parts spell out from a full name.

Main results:

* `follow_eq_ok` — **a path leads to the name that it spells out**;
* `follow_of_directories` — and keeps leading there;
* `follow_below` — a path that goes on below a directory;
* `WellFormed.target_eq_ok` — the name that a path has or would get;
* `WellFormed.follow_put` — what is put under it is what the path leads to.
-/

set_option autoImplicit false
set_option relaxedAutoImplicit false

namespace LocalisedEnum

/-! ### Paths that texts denote -/

/-- A path as texts denote it: each part means something and has no slash. -/
def Path.Proper (p : Path) : Prop :=
  ∀ part ∈ p.parts, Path.isPart part = true ∧ '/' ∉ part.toList

namespace Path

theorem proper_ofString (s : String) : (ofString s).Proper := by
  intro part hpart
  refine ⟨ofString_parts hpart, ?_⟩
  exact not_mem_of_mem_splitString (List.mem_filter.1 hpart).1

theorem Proper.join {p : Path} (h : p.Proper) (s : String) : (p.join s).Proper := by
  rw [Path.join]
  split
  · intro part hpart
    rcases List.mem_append.1 hpart with hpart | hpart
    · exact h part hpart
    · exact proper_ofString s part hpart
  · exact proper_ofString s

theorem Proper.below {p : Path} (h : p.Proper) {names : List String}
    (hnames : ∀ part ∈ names, isEntryName part = true) : (p.below names).Proper := by
  intro part hpart
  rcases List.mem_append.1 hpart with hpart | hpart
  · exact h part hpart
  · obtain ⟨hmeans, _, hslash, _, _⟩ := isEntryName_iff.1 (hnames part hpart)
    exact ⟨hmeans, hslash⟩

end Path

namespace FileTree

variable {t t' : FileTree} {p : Path}

/-! ### Spelling out a path -/

/-- The full name that parts spell out from a full name. -/
def spell (here : FullName) (parts : List String) : FullName :=
  parts.foldl (fun here part => if part = ".." then here.dropLast else here ++ [part]) here

theorem fullName_eq_ok {name : FullName} :
    t.fullName p = .ok name ↔ p.hasNull = false ∧ spell (t.start p) p.parts = name := by
  rw [fullName]
  cases p.hasNull <;> simp [spell]

theorem spell_append (here : FullName) (parts more : List String) :
    spell here (parts ++ more) = spell (spell here parts) more :=
  List.foldl_append

/-- Parts without double points go on from where they start. -/
theorem spell_forward {parts : List String} (h : ".." ∉ parts) (here : FullName) :
    spell here parts = here ++ parts := by
  induction parts generalizing here with
  | nil => exact (List.append_nil here).symm
  | cons part parts ih =>
      obtain ⟨hpart, hparts⟩ := not_or.1 (mt List.mem_cons.2 h)
      rw [spell, List.foldl_cons, if_neg (Ne.symm hpart), ← spell, ih hparts, List.append_assoc]
      rfl

theorem spell_names {names : List String} (h : ∀ part ∈ names, isEntryName part = true)
    (here : FullName) : spell here names = here ++ names :=
  spell_forward (fun hdots => (isEntryName_iff.1 (h _ hdots)).2.1 rfl) here

theorem start_eq (h : t'.workingDirectory = t.workingDirectory) (p : Path) :
    t'.start p = t.start p := by
  rw [start, start, h]

theorem fullName_congr (h : t'.workingDirectory = t.workingDirectory) (p : Path) :
    t'.fullName p = t.fullName p := by
  rw [fullName, fullName, start_eq h]

/-! ### Single steps -/

/-- **A step** leads from a directory back, or on to what stands in it. -/
theorem step_eq_ok {here name : FullName} {part : String} :
    t.step here part = .ok name ↔ t.node? here = some .directory ∧
      ((part = ".." ∧ name = here.dropLast) ∨
        (part ≠ ".." ∧ part.utf8ByteSize ≤ greatestNameSize ∧ name = here ++ [part] ∧
          (t.node? (here ++ [part])).isSome)) := by
  rw [step]
  split
  · next h => simp [h]
  · next h => simp [h]
  · next h =>
    by_cases hpart : part = ".."
    · simp only [h, hpart, if_true, true_and, ne_eq, not_true, false_and, or_false, Except.ok.injEq]
      exact eq_comm
    · by_cases hsize : greatestNameSize < part.utf8ByteSize
      · simp [h, hpart, hsize, Nat.not_le_of_lt hsize]
      · by_cases hthere : (t.node? (here ++ [part])).isSome = true
        · simp [h, hpart, hsize, hthere, eq_comm, Nat.le_of_not_lt hsize]
        · simp [h, hpart, hsize, hthere]

/-- A step from a directory leads nowhere exactly where nothing stands in it under a name that it
may have. -/
theorem step_eq_missing {here : FullName} {part : String} (hhere : t.node? here = some .directory) :
    t.step here part = .error .missing ↔
      part ≠ ".." ∧ part.utf8ByteSize ≤ greatestNameSize ∧ t.node? (here ++ [part]) = none := by
  rw [step, hhere]
  by_cases hpart : part = ".."
  · simp [hpart]
  · by_cases hsize : greatestNameSize < part.utf8ByteSize
    · simp [hpart, hsize, Nat.not_le_of_lt hsize]
    · cases hthere : t.node? (here ++ [part]) <;> simp [hpart, hsize, Nat.le_of_not_lt hsize]

theorem name_of_step {here name : FullName} {part : String} (h : t.step here part = .ok name) :
    name = spell here [part] := by
  obtain ⟨_, ⟨hpart, rfl⟩ | ⟨hpart, _, rfl, _⟩⟩ := step_eq_ok.1 h
  · simp [spell, hpart]
  · simp [spell, hpart]

/-- A step leads to the same in a tree in which the directories are still there. -/
theorem step_of_directories
    (hkept : ∀ n, t.node? n = some .directory → t'.node? n = some .directory) {here name : FullName}
    {part : String} (h : t.step here part = .ok name) (hthere : (t'.node? name).isSome) :
    t'.step here part = .ok name := by
  obtain ⟨hhere, hname⟩ := step_eq_ok.1 h
  refine step_eq_ok.2 ⟨hkept here hhere, hname.imp_right ?_⟩
  rintro ⟨hpart, hsize, rfl, _⟩
  exact ⟨hpart, hsize, rfl, hthere⟩

namespace WellFormed

theorem isSome_of_step (ht : t.WellFormed) {here name : FullName} {part : String}
    (h : t.step here part = .ok name) : (t.node? name).isSome := by
  obtain ⟨hhere, ⟨_, rfl⟩ | ⟨_, _, rfl, hthere⟩⟩ := step_eq_ok.1 h
  · rw [ht.node?_dropLast hhere]
    rfl
  · exact hthere

theorem directory_start (ht : t.WellFormed) (p : Path) : t.node? (t.start p) = some .directory := by
  rw [start]
  split
  · exact ht.place
  · rfl

end WellFormed

/-! ### Several steps -/

theorem foldlM_step_append {here name : FullName} {parts : List String} {part : String}
    (h : (parts ++ [part]).foldlM t.step here = .ok name) :
    ∃ above, parts.foldlM t.step here = .ok above ∧ t.step above part = .ok name := by
  rw [List.foldlM_append] at h
  obtain ⟨above, habove, h⟩ := bind_eq_ok.1 h
  rw [List.foldlM_cons] at h
  obtain ⟨name', hname, h⟩ := bind_eq_ok.1 h
  cases h
  exact ⟨above, habove, hname⟩

theorem foldlM_step_concat {here above name : FullName} {parts : List String} {part : String}
    (habove : parts.foldlM t.step here = .ok above) (h : t.step above part = .ok name) :
    (parts ++ [part]).foldlM t.step here = .ok name := by
  rw [List.foldlM_append, habove]
  exact bind_eq_ok.2 ⟨above, rfl, by rw [List.foldlM_cons, h]; rfl⟩

theorem name_of_steps {here name : FullName} {parts : List String}
    (h : parts.foldlM t.step here = .ok name) : name = spell here parts := by
  induction parts using List.reverseRecOn generalizing name with
  | nil => cases h; rfl
  | append_singleton parts part ih =>
      obtain ⟨above, habove, hstep⟩ := foldlM_step_append h
      rw [spell_append, ← ih habove]
      exact name_of_step hstep

theorem steps_of_directories
    (hkept : ∀ n, t.node? n = some .directory → t'.node? n = some .directory) {here name : FullName}
    {parts : List String} (h : parts.foldlM t.step here = .ok name)
    (hthere : (t'.node? name).isSome) : parts.foldlM t'.step here = .ok name := by
  induction parts using List.reverseRecOn generalizing name with
  | nil => exact h
  | append_singleton parts part ih =>
      obtain ⟨above, habove, hstep⟩ := foldlM_step_append h
      have hdirectory := hkept above (step_eq_ok.1 hstep).1
      exact foldlM_step_concat (ih habove (by rw [hdirectory]; rfl))
        (step_of_directories hkept hstep hthere)

theorem WellFormed.isSome_of_steps (ht : t.WellFormed) {name : FullName} {parts : List String}
    (h : parts.foldlM t.step (t.start p) = .ok name) : (t.node? name).isSome := by
  induction parts using List.reverseRecOn generalizing name with
  | nil =>
      cases h
      rw [ht.directory_start p]
      rfl
  | append_singleton parts part _ =>
      obtain ⟨above, _, hstep⟩ := foldlM_step_append h
      exact ht.isSome_of_step hstep

theorem steps_below (ht : t.WellFormed) {start here : FullName} {parts names : List String}
    (h : parts.foldlM t.step start = .ok here) (hthere : (t.node? (here ++ names)).isSome) :
    (parts ++ names).foldlM t.step start = .ok (here ++ names) := by
  induction names using List.reverseRecOn with
  | nil => simpa using h
  | append_singleton names last ih =>
      obtain ⟨node, hnode⟩ := Option.isSome_iff_exists.1 hthere
      have hlast : isEntryName last = true := ht.isEntryName_of_mem hnode (by simp)
      obtain ⟨_, hdots, _, _, hsize⟩ := isEntryName_iff.1 hlast
      have hparent := ht.node?_dropLast hnode
      rw [← List.append_assoc, List.dropLast_concat] at hparent
      rw [← List.append_assoc]
      refine foldlM_step_concat (ih (by rw [hparent]; rfl))
        (step_eq_ok.2 ⟨hparent, .inr ⟨hdots, hsize, ?_⟩⟩)
      rw [← List.append_assoc] at hthere
      exact ⟨by rw [List.append_assoc], hthere⟩

/-! ### Paths -/

theorem followParts_eq_ok {parts : List String} {name : FullName} :
    t.followParts p parts = .ok name ↔ p.hasNull = false ∧ p.text.utf8ByteSize ≤ greatestPathSize ∧
      parts.foldlM t.step (t.start p) = .ok name := by
  rw [followParts]
  cases p.hasNull with
  | true => simp
  | false =>
      by_cases hsize : greatestPathSize < p.text.utf8ByteSize
      · simp [hsize, Nat.not_le_of_lt hsize]
      · cases parts.foldlM t.step (t.start p) <;> simp [hsize, Nat.le_of_not_lt hsize,
          Except.mapError]

/-- **A path leads to the name that it spells out.** -/
theorem follow_eq_ok {name : FullName} (h : t.follow p = .ok name) : t.fullName p = .ok name := by
  obtain ⟨hnull, _, hsteps⟩ := followParts_eq_ok.1 h
  exact fullName_eq_ok.2 ⟨hnull, (name_of_steps hsteps).symm⟩

/-- A path keeps leading where it leads, as long as the directories are there and something stands
under the name. -/
theorem follow_of_directories (hwork : t'.workingDirectory = t.workingDirectory)
    (hkept : ∀ n, t.node? n = some .directory → t'.node? n = some .directory) {name : FullName}
    (h : t.follow p = .ok name) (hthere : (t'.node? name).isSome) : t'.follow p = .ok name := by
  obtain ⟨hnull, hsize, hsteps⟩ := followParts_eq_ok.1 h
  refine followParts_eq_ok.2 ⟨hnull, hsize, ?_⟩
  rw [start_eq hwork]
  exact steps_of_directories hkept hsteps hthere

theorem hasNull_append (anchor : Anchor) (parts names : List String) :
    (Path.mk anchor (parts ++ names)).hasNull =
      ((Path.mk anchor parts).hasNull || names.any (·.toList.contains (Char.ofNat 0))) := by
  simp only [Path.hasNull, List.any_append]

theorem hasNull_names {names : List String} (h : ∀ part ∈ names, isEntryName part = true) :
    names.any (·.toList.contains (Char.ofNat 0)) = false := by
  rw [List.any_eq_false]
  intro part hpart
  simpa using (isEntryName_iff.1 (h part hpart)).2.2.2.1

/-- A path that goes on below a directory leads to what stands there, unless it is too long. -/
theorem follow_below (ht : t.WellFormed) {here : FullName} {names : List String} {node : Node}
    (h : t.follow p = .ok here) (hnode : t.node? (here ++ names) = some node)
    (hsize : (p.below names).text.utf8ByteSize ≤ greatestPathSize) :
    t.follow (p.below names) = .ok (here ++ names) := by
  obtain ⟨hnull, _, hsteps⟩ := followParts_eq_ok.1 h
  have hnames : ∀ part ∈ names, isEntryName part = true :=
    fun part hpart => ht.isEntryName_of_mem hnode (List.mem_append_right _ hpart)
  refine followParts_eq_ok.2 ⟨?_, hsize, steps_below ht hsteps (by rw [hnode]; rfl)⟩
  rw [Path.below, hasNull_append, hasNull_names hnames, Bool.or_false]
  exact hnull

theorem fullName_below {here : FullName} {names : List String} (h : t.fullName p = .ok here)
    (hnames : ∀ part ∈ names, isEntryName part = true) :
    t.fullName (p.below names) = .ok (here ++ names) := by
  obtain ⟨hnull, hspell⟩ := fullName_eq_ok.1 h
  refine fullName_eq_ok.2 ⟨?_, ?_⟩
  · rw [Path.below, hasNull_append, hasNull_names hnames, Bool.or_false]
    exact hnull
  · rw [← spell_names hnames here, ← hspell]
    exact spell_append ..

theorem fullName_below_name {here : FullName} {name : String} (h : t.fullName p = .ok here)
    (hname : isEntryName name = true) : t.fullName (p.below [name]) = .ok (here ++ [name]) :=
  fullName_below h fun _ hpart => List.mem_singleton.1 hpart ▸ hname

/-! ### What a path leads to -/

theorem find?_of_follow {name : FullName} (h : t.follow p = .ok name) :
    t.find? p = .ok (t.node? name) := by
  rw [find?, h]

theorem isFile_of_follow {name : FullName} (h : t.follow p = .ok name) :
    t.isFile p = .ok (match t.node? name with | some (.file _) => true | _ => false) := by
  rw [isFile, find?_of_follow h]
  cases t.node? name with
  | none => rfl
  | some node => cases node <;> rfl

theorem isDirectory_of_follow {name : FullName} (h : t.follow p = .ok name) :
    t.isDirectory p = .ok (t.node? name == some .directory) := by
  rw [isDirectory, find?_of_follow h]
  rfl

/-- What is found stands under the name to which the path leads. -/
theorem find?_eq_some {node : Node} (h : t.find? p = .ok (some node)) :
    ∃ name, t.follow p = .ok name ∧ t.node? name = some node := by
  rw [find?] at h
  split at h
  · next name hname => exact ⟨name, hname, Except.ok.inj h⟩
  · split at h <;> cases h

theorem isFile_eq_true (h : t.isFile p = .ok true) : ∃ name octets, t.follow p = .ok name ∧
    t.node? name = some (.file octets) ∧ t.readFile p = .ok octets := by
  rw [isFile] at h
  obtain ⟨found, hfound, h⟩ := bind_eq_ok.1 h
  split at h
  · next octets =>
    obtain ⟨name, hname, hnode⟩ := find?_eq_some hfound
    refine ⟨name, octets, hname, hnode, ?_⟩
    rw [readFile, hname]
    exact bind_eq_ok.2 ⟨name, rfl, by rw [hnode]; rfl⟩
  · cases h

theorem isDirectory_eq_true (h : t.isDirectory p = .ok true) :
    ∃ name, t.follow p = .ok name ∧ t.node? name = some .directory := by
  rw [isDirectory] at h
  obtain ⟨found, hfound, h⟩ := bind_eq_ok.1 h
  have hdirectory : found = some .directory := by simpa using Except.ok.inj h
  exact find?_eq_some (hdirectory ▸ hfound)

theorem readFile_of_follow {name : FullName} {octets : Octets} (h : t.follow p = .ok name)
    (hnode : t.node? name = some (.file octets)) : t.readFile p = .ok octets := by
  rw [readFile, h]
  exact bind_eq_ok.2 ⟨name, rfl, by rw [hnode]; rfl⟩

theorem readFile_eq_ok {octets : Octets} (h : t.readFile p = .ok octets) :
    ∃ name, t.follow p = .ok name ∧ t.node? name = some (.file octets) := by
  rw [readFile] at h
  obtain ⟨name, hname, h⟩ := bind_eq_ok.1 h
  split at h
  · next hnode =>
    cases h
    exact ⟨name, hname, hnode⟩
  · cases h

/-! ### The name that a path has or would get -/

/-- The name that a path has or would get, in the parts it is made of: the path has no parts, or its
last part leads somewhere, or it leads nowhere yet. -/
theorem target_cases {name : FullName} {node : Option Node} (h : t.target p = .ok (name, node)) :
    (p.parts = [] ∧ t.follow p = .ok name ∧ node = some .directory) ∨
      ∃ front part parent, p.parts = front ++ [part] ∧ t.followParts p front = .ok parent ∧
        ((t.step parent part = .ok name ∧ node = t.node? name) ∨
          (t.step parent part = .error .missing ∧ name = parent ++ [part] ∧ node = none)) := by
  rw [target] at h
  obtain ⟨parent, hparent, h⟩ := bind_eq_ok.1 h
  split at h
  · next hlast =>
    have hparts : p.parts = [] := List.getLast?_eq_none_iff.1 hlast
    rw [hparts] at hparent
    cases h
    exact .inl ⟨hparts, by rw [follow, hparts]; exact hparent, rfl⟩
  · next part hlast =>
    obtain ⟨front, hparts⟩ := List.getLast?_eq_some_iff.1 hlast
    rw [hparts, List.dropLast_concat] at hparent
    refine .inr ⟨front, part, parent, hparts, hparent, ?_⟩
    split at h
    · next found hfound =>
      cases h
      exact .inl ⟨hfound, rfl⟩
    · next hmissing =>
      cases h
      exact .inr ⟨hmissing, rfl, rfl⟩
    · cases h

theorem follow_of_front {front : List String} {part : String} {parent name : FullName}
    (hparts : p.parts = front ++ [part]) (hparent : t.followParts p front = .ok parent)
    (hstep : t.step parent part = .ok name) : t.follow p = .ok name := by
  obtain ⟨hnull, hsize, hsteps⟩ := followParts_eq_ok.1 hparent
  refine followParts_eq_ok.2 ⟨hnull, hsize, ?_⟩
  rw [hparts]
  exact foldlM_step_concat hsteps hstep

/-- A path leads to what stands under the name that it has. -/
theorem follow_of_target {name : FullName} {node : Node} (h : t.target p = .ok (name, some node)) :
    t.follow p = .ok name := by
  rcases target_cases h with ⟨_, hfollow, _⟩ | ⟨front, part, parent, hparts, hparent, hstep⟩
  · exact hfollow
  · obtain ⟨hstep, _⟩ | ⟨_, _, hnone⟩ := hstep
    · exact follow_of_front hparts hparent hstep
    · cases hnone

namespace WellFormed

/-- The last step of a path that leads nowhere yet is one from a directory. -/
theorem directory_of_missing (ht : t.WellFormed) {front : List String} {part : String}
    {parent : FullName} (hparent : t.followParts p front = .ok parent)
    (hmissing : t.step parent part = .error .missing) : t.node? parent = some .directory := by
  obtain ⟨node, hnode⟩ :=
    Option.isSome_iff_exists.1 (ht.isSome_of_steps (followParts_eq_ok.1 hparent).2.2)
  cases node with
  | directory => exact hnode
  | file octets => rw [step, hnode] at hmissing; cases hmissing

/-- **The name that a path has or would get** is the one that it spells out.  What stands under it
is a directory, or it stands in a directory under a name that the system takes. -/
theorem target_eq_ok (ht : t.WellFormed) (hp : p.Proper) {name : FullName} {node : Option Node}
    (h : t.target p = .ok (name, node)) :
    t.fullName p = .ok name ∧ node = t.node? name ∧
    (node = some .directory ∨
      ∃ parent part, name = parent ++ [part] ∧ t.node? parent = some .directory ∧
        isEntryName part = true) := by
  rcases target_cases h with ⟨_, hfollow, rfl⟩ | ⟨front, part, parent, hparts, hparent, hlast⟩
  · have hname := follow_eq_ok hfollow
    refine ⟨hname, ?_, .inl rfl⟩
    rw [← (fullName_eq_ok.1 hname).2, show p.parts = [] by assumption]
    exact (ht.directory_start p).symm
  · rcases hlast with ⟨hstep, rfl⟩ | ⟨hmissing, rfl, rfl⟩
    · refine ⟨follow_eq_ok (follow_of_front hparts hparent hstep), rfl, ?_⟩
      obtain ⟨hdirectory, ⟨_, rfl⟩ | ⟨_, _, rfl, hthere⟩⟩ := step_eq_ok.1 hstep
      · exact .inl (ht.node?_dropLast hdirectory)
      · obtain ⟨node, hnode⟩ := Option.isSome_iff_exists.1 hthere
        exact .inr ⟨parent, part, rfl, hdirectory, ht.isEntryName_of_mem hnode (by simp)⟩
    · have hdirectory := ht.directory_of_missing hparent hmissing
      obtain ⟨hdots, hsize, hnone⟩ := (step_eq_missing hdirectory).1 hmissing
      obtain ⟨hnull, _, hsteps⟩ := followParts_eq_ok.1 hparent
      have hpart : part ∈ p.parts := by simp [hparts]
      refine ⟨fullName_eq_ok.2 ⟨hnull, ?_⟩, hnone.symm, .inr ⟨parent, part, rfl, hdirectory, ?_⟩⟩
      · rw [hparts, spell_append, ← name_of_steps hsteps]
        simp [spell, hdots]
      · refine isEntryName_iff.2 ⟨(hp part hpart).1, hdots, (hp part hpart).2, ?_, hsize⟩
        rw [Path.hasNull, List.any_eq_false] at hnull
        simpa using hnull part hpart

/-- A path that leads somewhere has the name to which it leads. -/
theorem target_of_follow (ht : t.WellFormed) {name : FullName} (h : t.follow p = .ok name) :
    t.target p = .ok (name, t.node? name) := by
  obtain ⟨hnull, hsize, hsteps⟩ := followParts_eq_ok.1 h
  rw [target]
  cases hlast : p.parts.getLast? with
  | none =>
      have hparts : p.parts = [] := List.getLast?_eq_none_iff.1 hlast
      refine bind_eq_ok.2 ⟨name, by rw [hparts, List.dropLast_nil, ← hparts]; exact h, ?_⟩
      rw [← (fullName_eq_ok.1 (follow_eq_ok h)).2, hparts]
      show Except.ok _ = Except.ok (t.start p, t.node? (t.start p))
      rw [ht.directory_start p]
      rfl
  | some part =>
      obtain ⟨front, hparts⟩ := List.getLast?_eq_some_iff.1 hlast
      rw [hparts] at hsteps
      obtain ⟨parent, hparent, hstep⟩ := foldlM_step_append hsteps
      refine bind_eq_ok.2 ⟨parent, ?_, by simp only [hstep]; rfl⟩
      rw [hparts, List.dropLast_concat]
      exact followParts_eq_ok.2 ⟨hnull, hsize, hparent⟩

/-- A path leads to what is put under the name that it has or would get. -/
theorem follow_put (ht : t.WellFormed) {name : FullName} {old : Option Node} {node : Node}
    (h : t.target p = .ok (name, old)) (hold : node = .directory ∨ old ≠ some .directory) :
    (t.put name node).follow p = .ok name := by
  rcases target_cases h with ⟨hparts, hfollow, rfl⟩ | ⟨front, part, parent, hparts, hparent, hlast⟩
  · obtain ⟨hnull, hsize, hsteps⟩ := followParts_eq_ok.1 hfollow
    rw [hparts] at hsteps
    exact followParts_eq_ok.2 ⟨hnull, hsize, by rw [hparts]; exact hsteps⟩
  · have hkept : node = .directory ∨ t.node? name ≠ some .directory := by
      rcases hlast with ⟨_, rfl⟩ | ⟨hmissing, rfl, rfl⟩
      · exact hold
      · refine .inr ?_
        rw [((step_eq_missing (ht.directory_of_missing hparent hmissing)).1 hmissing).2.2]
        exact nofun
    have hdirectories : ∀ n, t.node? n = some .directory →
        (t.put name node).node? n = some .directory :=
      fun n => directory_put hkept
    rcases hlast with ⟨hstep, _⟩ | ⟨hmissing, rfl, _⟩
    · refine follow_of_directories (workingDirectory_put ..) hdirectories
        (follow_of_front hparts hparent hstep) ?_
      by_cases hname : name = []
      · rw [hname]
        rfl
      · rw [node?_put_self t node hname]
        rfl
    · have hdirectory := ht.directory_of_missing hparent hmissing
      obtain ⟨hdots, hname, hnone⟩ := (step_eq_missing hdirectory).1 hmissing
      obtain ⟨hnull, hsize, hsteps⟩ := followParts_eq_ok.1 hparent
      have hfront : (t.put (parent ++ [part]) node).followParts p front = .ok parent := by
        refine followParts_eq_ok.2 ⟨hnull, hsize, ?_⟩
        exact steps_of_directories hdirectories hsteps (by rw [hdirectories parent hdirectory]; rfl)
      refine follow_of_front hparts hfront
        (step_eq_ok.2 ⟨hdirectories parent hdirectory, .inr ⟨hdots, hname, rfl, ?_⟩⟩)
      rw [node?_put_self t node (by simp)]
      rfl

end WellFormed

end FileTree

end LocalisedEnum

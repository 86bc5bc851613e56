import LocalisedEnum.Proofs.FileTree.Operations
import LocalisedEnum.Proofs.Run.Generation

/-!
**What removing leaves.**

Removing what is no longer produced takes away files of extension classes that begin as generated
files do, and nothing else, however far it comes.  When it goes through, none of them is left.

Main definitions:

* `FileTree.Sheds` — a tree that has become another by files that are gone;
* `Discarded` — the files that a generation no longer produces.

Main results:

* `mem_staleCandidates` — what is considered;
* `RemovalAll.sheds` — **only discarded files go**;
* `RemovalAll.node?_of_discarded` — and all of them go when nothing fails.
-/

set_option autoImplicit false
set_option relaxedAutoImplicit false

namespace LocalisedEnum

/-! ### Files that are gone -/

namespace FileTree

/-- A tree that has become another by files that are gone. -/
structure Sheds (gone : FullName → Prop) (t t' : FileTree) : Prop where
  workingDirectory : t'.workingDirectory = t.workingDirectory
  wellFormed : t'.WellFormed
  nodes : ∀ name, t'.node? name = t.node? name ∨
    gone name ∧ (∃ octets, t.node? name = some (.file octets)) ∧ t'.node? name = none

namespace Sheds

variable {gone : FullName → Prop} {t t' t'' : FileTree}

theorem refl (ht : t.WellFormed) : Sheds gone t t :=
  ⟨rfl, ht, fun _ => .inl rfl⟩

theorem trans (h : Sheds gone t t') (h' : Sheds gone t' t'') : Sheds gone t t'' where
  workingDirectory := h'.workingDirectory.trans h.workingDirectory
  wellFormed := h'.wellFormed
  nodes name := by
    rcases h.nodes name with hsame | hgone
    · rcases h'.nodes name with hsame' | ⟨hgone, hfile, hnone⟩
      · exact .inl (hsame'.trans hsame)
      · exact .inr ⟨hgone, hsame ▸ hfile, hnone⟩
    · refine .inr ⟨hgone.1, hgone.2.1, ?_⟩
      rcases h'.nodes name with hsame' | ⟨_, _, hnone⟩
      · exact hsame'.trans hgone.2.2
      · exact hnone

theorem node?_of_some (h : Sheds gone t t') {name : FullName} {node : Node}
    (hnode : t'.node? name = some node) : t.node? name = some node := by
  rcases h.nodes name with hsame | ⟨_, _, hnone⟩
  · exact hsame ▸ hnode
  · rw [hnode] at hnone
    cases hnone

theorem node?_of_none (h : Sheds gone t t') {name : FullName} (hnone : t.node? name = none) :
    t'.node? name = none := by
  rcases h.nodes name with hsame | ⟨_, _, hnone'⟩
  · exact hsame.trans hnone
  · exact hnone'

theorem directory_iff (h : Sheds gone t t') {name : FullName} :
    t'.node? name = some .directory ↔ t.node? name = some .directory := by
  refine ⟨h.node?_of_some, fun hnode => ?_⟩
  rcases h.nodes name with hsame | ⟨_, ⟨octets, hfile⟩, _⟩
  · exact hsame.trans hnode
  · rw [hnode] at hfile
    cases hfile

theorem keeps (h : Sheds gone t t') : t.Keeps t' :=
  ⟨h.workingDirectory, h.wellFormed, fun _ => h.directory_iff.2⟩

theorem clear (h : Sheds gone t t') {p : Path} (hclear : t.Clear p) : t'.Clear p where
  noNull := hclear.noNull
  size := hclear.size
  names := hclear.names
  beginnings front hfront := by
    rw [start_eq h.workingDirectory]
    exact (hclear.beginnings front hfront).imp h.node?_of_none h.directory_iff.2

end Sheds

theorem WellFormed.sheds_erase {gone : FullName → Prop} {t : FileTree} (ht : t.WellFormed)
    {name : FullName} {octets : Octets} (hfile : t.node? name = some (.file octets))
    (hgone : gone name) : Sheds gone t (t.erase name) where
  workingDirectory := rfl
  wellFormed := ht.erase hfile
  nodes other := by
    rw [ht.node?_erase_file hfile]
    split
    · next heq => exact .inr ⟨heq ▸ hgone, ⟨octets, heq ▸ hfile⟩, rfl⟩
    · exact .inl rfl

end FileTree

/-! ### What is considered -/

theorem mem_sortTexts {texts : List String} {text : String} :
    text ∈ sortTexts texts ↔ text ∈ texts :=
  (List.mergeSort_perm _ _).mem_iff

/-- **What is considered**: what has the name of an extension class's file and is not produced. -/
theorem mem_staleCandidates {t : FileTree} (ht : t.WellFormed) {here : FullName}
    {produced : List String} {name : String} :
    name ∈ staleCandidates t here produced ↔
      isExtensionFileName name = true ∧ name ∉ produced ∧ (t.node? (here ++ [name])).isSome := by
  rw [staleCandidates, mem_sortTexts, List.mem_filterMap]
  constructor
  · rintro ⟨⟨names, node⟩, hmem, h⟩
    obtain ⟨_, hnode⟩ := ht.mem_descendants_iff.1 hmem
    rcases names with _ | ⟨only, _ | _⟩
    · cases h
    · simp only [Option.ite_none_right_eq_some, Bool.and_eq_true, Bool.not_eq_true',
        Option.some.injEq, List.contains_eq_mem, decide_eq_false_iff_not] at h
      obtain ⟨⟨hname, hproduced⟩, rfl⟩ := h
      exact ⟨hname, hproduced, by rw [hnode]; rfl⟩
    · cases h
  · rintro ⟨hname, hproduced, hthere⟩
    obtain ⟨node, hnode⟩ := Option.isSome_iff_exists.1 hthere
    exact ⟨([name], node), ht.mem_descendants_iff.2 ⟨List.cons_ne_nil _ _, hnode⟩,
      by simp [hname, hproduced]⟩

/-- **A file that a generation no longer produces**: a file of an extension class in the directory
that is not among those produced and begins as generated files do. -/
def Discarded (t : FileTree) (here : FullName) (codec : NamedCodec) (produced : List String)
    (name : FullName) : Prop :=
  ∃ file octets own text, name = here ++ [file] ∧ isExtensionFileName file = true ∧
    file ∉ produced ∧ t.node? name = some (.file octets) ∧ codec = .ok own ∧
    own.decodeLeniently octets = .ok text ∧ beginsAsGenerated text = true

/-! ### What is left -/

section

variable {directory : Path} {codec : NamedCodec} {produced : List String} {t t' : FileTree}
  {here : FullName}

/-- What is read below a directory stands there. -/
theorem FileTree.node?_of_readFile_below (hhere : t.follow directory = .ok here) {name : String}
    (hname : isEntryName name = true) {octets : Octets}
    (h : t.readFile (directory.below [name]) = .ok octets) :
    t.follow (directory.below [name]) = .ok (here ++ [name]) ∧
    t.node? (here ++ [name]) = some (.file octets) := by
  obtain ⟨full, hfollow, hnode⟩ := FileTree.readFile_eq_ok h
  have hbelow := FileTree.fullName_below_name (FileTree.follow_eq_ok hhere) hname
  rw [FileTree.follow_eq_ok hfollow] at hbelow
  cases hbelow
  exact ⟨hfollow, hnode⟩

theorem Removal.sheds {gone : FullName → Prop} {name : String} {r : Except RunError Bool}
    (h : Removal directory codec name t r t') (ht : t.WellFormed)
    (hhere : t.follow directory = .ok here) (hname : isEntryName name = true)
    (hgone : ∀ octets own text, t.node? (here ++ [name]) = some (.file octets) → codec = .ok own →
      own.decodeLeniently octets = .ok text → beginsAsGenerated text = true →
      gone (here ++ [name])) : FileTree.Sheds gone t t' := by
  cases h with
  | unexamined h => exact .refl ht
  | noFile h => exact .refl ht
  | unread h hcode => exact .refl ht
  | foreign h hcodec hcode hheader => exact .refl ht
  | removed h hcodec hcode hheader hfollow =>
      obtain ⟨hfollow', hnode⟩ := FileTree.node?_of_readFile_below hhere hname h
      rw [hfollow'] at hfollow
      cases hfollow
      exact ht.sheds_erase hnode (hgone _ _ _ hnode hcodec hcode hheader)

/-- Where nothing is, nothing comes to be. -/
theorem Removal.node?_of_none {name : String} {r : Except RunError Bool}
    (h : Removal directory codec name t r t') (ht : t.WellFormed)
    (hhere : t.follow directory = .ok here) (hname : isEntryName name = true) {other : FullName}
    (hnone : t.node? other = none) : t'.node? other = none := by
  have hsheds : FileTree.Sheds (fun _ => True) t t' :=
    h.sheds ht hhere hname fun _ _ _ _ _ _ _ => trivial
  exact hsheds.node?_of_none hnone

/-- A file that begins as generated files do is gone when its removal succeeds. -/
theorem Removal.node?_eq_none {name : String} {b : Bool}
    (h : Removal directory codec name t (.ok b) t') (ht : t.WellFormed)
    (hhere : t.follow directory = .ok here) (hname : isEntryName name = true) {octets : Octets}
    {own : Codec} {text : CodeText} (hnode : t.node? (here ++ [name]) = some (.file octets))
    (hcodec : codec = .ok own) (hcode : own.decodeLeniently octets = .ok text)
    (hheader : beginsAsGenerated text = true) : t'.node? (here ++ [name]) = none := by
  generalize hr : (Except.ok b : Except RunError Bool) = r at h
  cases h with
  | unexamined h => cases hr
  | unread h hcode => cases hr
  | noFile h =>
      -- A path that is too long is refused, and any other leads to the file.
      by_cases hsize : (directory.below [name]).text.utf8ByteSize ≤ FileTree.greatestPathSize
      · rw [FileTree.isFile_of_follow (FileTree.follow_below ht hhere hnode hsize), hnode] at h
        cases h
      · have hnull : (directory.below [name]).hasNull = false := by
          exact
            (FileTree.fullName_eq_ok.1
              (FileTree.fullName_below_name (FileTree.follow_eq_ok hhere) hname)).1
        rw [FileTree.isFile, FileTree.find?, FileTree.follow, FileTree.followParts, hnull,
          if_neg Bool.false_ne_true, if_pos (Nat.lt_of_not_le hsize)] at h
        cases h
  | foreign h hcodec' hcode' hheader' =>
      obtain ⟨_, hnode'⟩ := FileTree.node?_of_readFile_below hhere hname h
      cases hnode.symm.trans hnode'
      cases hcodec.symm.trans hcodec'
      cases hcode.symm.trans hcode'
      rw [hheader] at hheader'
      cases hheader'
  | removed h hcodec' hcode' hheader' hfollow =>
      obtain ⟨hfollow', _⟩ := FileTree.node?_of_readFile_below hhere hname h
      rw [hfollow'] at hfollow
      cases hfollow
      rw [ht.node?_erase_file hnode, if_pos rfl]

theorem isEntryName_of_mem_staleCandidates (ht : t.WellFormed) {name : String}
    (h : name ∈ staleCandidates t here produced) : isEntryName name = true := by
  obtain ⟨_, _, hthere⟩ := (mem_staleCandidates ht).1 h
  obtain ⟨node, hnode⟩ := Option.isSome_iff_exists.1 hthere
  exact ht.isEntryName_of_mem hnode (by simp)

/-- What all removals keep of the first tree. -/
theorem Removal.sheds_of_sheds {s s' : FileTree} (ht : t.WellFormed)
    (hhere : t.follow directory = .ok here) (hdirectory : t.node? here = some .directory)
    {name : String} (hname : name ∈ staleCandidates t here produced) {r : Except RunError Bool}
    (h : Removal directory codec name s r s')
    (hs : FileTree.Sheds (Discarded t here codec produced) t s) :
    FileTree.Sheds (Discarded t here codec produced) t s' := by
  refine hs.trans
    (h.sheds hs.wellFormed (hs.keeps.follow_directory hhere hdirectory)
      (isEntryName_of_mem_staleCandidates ht hname) ?_)
  intro octets own text hnode hcodec hcode hheader
  obtain ⟨hextension, hproduced, _⟩ := (mem_staleCandidates ht).1 hname
  exact ⟨name, octets, own, text, rfl, hextension, hproduced, hs.node?_of_some hnode, hcodec, hcode,
    hheader⟩

namespace RemovalAll

/-- **Only discarded files go.** -/
theorem sheds {r : Except RunError Nat} (h : RemovalAll directory codec produced t r t')
    (ht : t.WellFormed) (hhere : t.fullName directory = .ok here) :
    FileTree.Sheds (Discarded t here codec produced) t t' := by
  cases h with
  | unexamined h => exact .refl ht
  | absent h => exact .refl ht
  | listed h hdirectory hremove =>
      rw [FileTree.follow_eq_ok h] at hhere
      cases hhere
      exact hremove.invariant
        (fun name hname s r s' hstep hs => hstep.sheds_of_sheds ht h hdirectory hname hs) (.refl ht)

/-- **All discarded files go** when nothing fails, provided that the path leads to the directory. -/
theorem node?_of_discarded {n : Nat} (h : RemovalAll directory codec produced t (.ok n) t')
    (ht : t.WellFormed) (hhere : t.fullName directory = .ok here)
    (hleads : t.node? here = some .directory → t.isDirectory directory ≠ .ok false)
    {name : FullName} (hname : Discarded t here codec produced name) : t'.node? name = none := by
  obtain ⟨file, octets, own, text, rfl, hextension, hproduced, hnode, hcodec, hcode, hheader⟩ :=
    hname
  have hdirectory : t.node? here = some .directory := by simpa using ht.node?_dropLast hnode
  rcases h.of_ok with ⟨h, _⟩ | ⟨_, removed, h, _, hremove⟩
  · exact absurd h (hleads hdirectory)
  · cases (FileTree.follow_eq_ok h).symm.trans hhere
    have hmem : file ∈ staleCandidates t here produced :=
      (mem_staleCandidates ht).2 ⟨hextension, hproduced, by rw [hnode]; rfl⟩
    refine hremove.of_mem_of_ok (I := FileTree.Sheds (Discarded t here codec produced) t)
      (Q := fun s => s.node? (here ++ [file]) = none) rfl (.refl ht)
      (fun name hname s b s' hstep hs => hstep.sheds_of_sheds ht h hdirectory hname hs) ?_ ?_
      (.inr hmem)
    · intro s b s' hstep hs
      rcases hs.nodes (here ++ [file]) with hsame | ⟨_, _, hnone⟩
      · exact hstep.node?_eq_none hs.wellFormed (hs.keeps.follow_directory h hdirectory)
          (isEntryName_of_mem_staleCandidates ht hmem) (hsame.trans hnode) hcodec hcode hheader
      · exact hstep.node?_of_none hs.wellFormed (hs.keeps.follow_directory h hdirectory)
          (isEntryName_of_mem_staleCandidates ht hmem) hnone
    · intro name hname s b s' hstep hs hnone
      exact hstep.node?_of_none hs.wellFormed (hs.keeps.follow_directory h hdirectory)
        (isEntryName_of_mem_staleCandidates ht hname) hnone

end RemovalAll

end

end LocalisedEnum

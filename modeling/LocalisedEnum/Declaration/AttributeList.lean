import LocalisedEnum.Declaration
import LocalisedEnum.Declaration.Skip

/-!
**Attributes in front of a declaration.**

Attributes stand in sections between square brackets, several to a section, each with arguments of
which some are named.  A section may name its target; those that belong to the whole program are
read and dropped.

Main definitions:

* `Attribute.withArgument` — an attribute with one more argument;
* `readAttribute`, `readSectionItems`, `readSections` — one attribute, the rest of a section, and
  all sections at the front.

Main results:

* `readAttribute_length_lt`, `readSectionItems_length_lt` — each takes a token;
* `readSections_shrinks` — the sections take a token, or there are none.
-/

set_option autoImplicit false
set_option relaxedAutoImplicit false

namespace LocalisedEnum

/-! ### One attribute -/

/-- An attribute with one more argument.  The argument is named when it begins with a name and an
equals sign, and positional otherwise; a name and a colon in front of a positional argument are
dropped. -/
def Attribute.withArgument (a : Attribute) (argument : List Token) : Except EscapeError Attribute :=
  match argument with
  | key :: mark :: value =>
    if key.kind = .identifier ∧ mark.text = "=" then do
      return { a with named := assign key.plain (← evaluate value) a.named }
    else if key.kind = .identifier ∧ mark.text = ":" then do
      return { a with positional := a.positional ++ [← evaluate value] }
    else do
      return { a with positional := a.positional ++ [← evaluate argument] }
  | _ => do
    return { a with positional := a.positional ++ [← evaluate argument] }

/-- The name with the type arguments that may follow it. -/
def withTypeArguments (name : String) (ts : List Token) : Except Fault (String × List Token) :=
  if headIs "<" ts then
    match takeGroup "<" ">" ts with
    | .ok (inside, rest) => .ok (name ++ "<" ++ joinTokens inside ++ ">", rest)
    | .error e => .error e
  else .ok (name, ts)

/-- The argument list that may follow the name of an attribute. -/
def readArgumentList (ts : List Token) : Except Fault (List (List Token) × List Token) :=
  if headIs "(" ts then
    match takeGroup "(" ")" ts with
    | .ok (inside, rest) => .ok (splitArguments inside, rest)
    | .error e => .error e
  else .ok ([], ts)

/-- The attribute at the front. -/
def readAttribute (path : String) (ts : List Token) : Except Fault (Attribute × List Token) := do
  let (name, afterName) ← qualifiedName ts
  let (name, afterTypes) ← withTypeArguments name afterName
  let (arguments, rest) ← readArgumentList afterTypes
  let bare : Attribute := ⟨name, [], [], ts.head?.map (Token.location path)⟩
  let full ← orEscapeFault (arguments.foldlM Attribute.withArgument bare)
  return (full, rest)

theorem withTypeArguments_length_le {name result : String} {ts rest : List Token}
    (h : withTypeArguments name ts = .ok (result, rest)) : rest.length ≤ ts.length := by
  simp only [withTypeArguments] at h
  split at h
  · split at h
    · next heq => cases h; exact Nat.le_of_lt (takeGroup_length_lt heq)
    · cases h
  · cases h; exact Nat.le_refl _

theorem readArgumentList_length_le {arguments : List (List Token)} {ts rest : List Token}
    (h : readArgumentList ts = .ok (arguments, rest)) : rest.length ≤ ts.length := by
  simp only [readArgumentList] at h
  split at h
  · split at h
    · next heq => cases h; exact Nat.le_of_lt (takeGroup_length_lt heq)
    · cases h
  · cases h; exact Nat.le_refl _

theorem readAttribute_length_lt {path : String} {a : Attribute} {ts rest : List Token}
    (h : readAttribute path ts = .ok (a, rest)) : rest.length < ts.length := by
  obtain ⟨⟨name, afterName⟩, h1, h⟩ := bind_eq_ok.1 h
  obtain ⟨⟨name', afterTypes⟩, h2, h⟩ := bind_eq_ok.1 h
  obtain ⟨⟨arguments, rest'⟩, h3, h⟩ := bind_eq_ok.1 h
  obtain ⟨full, h4, h⟩ := bind_eq_ok.1 h
  cases h
  have h1 := qualifiedName_length_lt h1
  have h2 := withTypeArguments_length_le h2
  have h3 := readArgumentList_length_le h3
  exact Nat.lt_of_le_of_lt (Nat.le_trans h3 h2) h1

/-! ### Sections -/

/-- The attributes up to the bracket that closes a section, and what follows it.  A comma may follow
each attribute. -/
def readSectionItems (path : String) (ts : List Token) :
    Except Fault (List Attribute × List Token) :=
  if headIs "]" ts then .ok ([], ts.drop 1)
  else
    match _h : readAttribute path ts with
    | .error e => .error e
    | .ok (a, rest) =>
      match readSectionItems path (skip "," rest) with
      | .error e => .error e
      | .ok (more, rest) => .ok (a :: more, rest)
  termination_by ts.length
  decreasing_by
    exact Nat.lt_of_le_of_lt (skip_length_le ..) (readAttribute_length_lt _h)

/-- The attributes of a section, as a chain of steps. -/
theorem readSectionItems_eq (path : String) (ts : List Token) :
    readSectionItems path ts =
      if headIs "]" ts then .ok ([], ts.drop 1)
      else do
        let (a, rest) ← readAttribute path ts
        let (more, rest) ← readSectionItems path (skip "," rest)
        return (a :: more, rest) := by
  rw [readSectionItems]
  split
  · rfl
  · split
    · next he => rw [he]; rfl
    · next a rest ha =>
      rw [ha]
      cases hmore : readSectionItems path (skip "," rest) with
      | error e => simp only [bind, Except.bind, hmore]
      | ok more => simp only [bind, Except.bind, hmore]; rfl

theorem length_drop_one_lt_of_headIs {text : String} {ts : List Token} (h : headIs text ts = true) :
    (ts.drop 1).length < ts.length := by
  cases ts with
  | nil => cases h
  | cons => exact Nat.lt_succ_self _

theorem readSectionItems_length_lt {path : String} {as : List Attribute} {ts rest : List Token}
    (h : readSectionItems path ts = .ok (as, rest)) : rest.length < ts.length := by
  fun_induction readSectionItems path ts generalizing as with
  | case1 ts hhead => cases h; exact length_drop_one_lt_of_headIs hhead
  | case2 => cases h
  | case3 => cases h
  | case4 ts _ a afterItem hitem more rest' hmore ih =>
    cases h
    have h1 := ih hmore
    have h2 := skip_length_le "," afterItem
    have h3 := readAttribute_length_lt hitem
    omega

/-- The targets of sections that belong to the whole program. -/
def globalTargets : List String := ["assembly", "module"]

/-- The attributes of a section with the given target that belong to the declaration behind it. -/
def keptItems (target : String) (items : List Attribute) : List Attribute :=
  if globalTargets.contains target then [] else items

/-- The target at the front of a section, empty without one, and what follows it. -/
def sectionTarget : List Token → String × List Token
  | t :: mark :: rest =>
    if mark.text = ":" ∧ t.kind = .identifier then (t.text, rest) else ("", t :: mark :: rest)
  | ts => ("", ts)

theorem sectionTarget_length_le (ts : List Token) : (sectionTarget ts).2.length ≤ ts.length := by
  match ts with
  | [] => exact Nat.le_refl _
  | [_] => exact Nat.le_refl _
  | t :: mark :: rest =>
    simp only [sectionTarget]
    split
    · simp only [List.length_cons]; omega
    · exact Nat.le_refl _

/-- The attributes of the sections at the front, without those that belong to the whole program. -/
def readSections (path : String) (ts : List Token) : Except Fault (List Attribute × List Token) :=
  if _hhead : headIs "[" ts then
    match _h : readSectionItems path (sectionTarget (ts.drop 1)).2 with
    | .error e => .error e
    | .ok (items, rest) =>
      match readSections path rest with
      | .error e => .error e
      | .ok (more, rest) =>
        .ok (keptItems (sectionTarget (ts.drop 1)).1 items ++ more, rest)
  else .ok ([], ts)
  termination_by ts.length
  decreasing_by
    have h1 := readSectionItems_length_lt _h
    have h2 := sectionTarget_length_le (ts.drop 1)
    have h3 := length_drop_one_lt_of_headIs _hhead
    omega

/-- The attributes of all sections at the front, as a chain of steps. -/
theorem readSections_eq (path : String) (ts : List Token) :
    readSections path ts =
      if headIs "[" ts then do
        let (items, rest) ← readSectionItems path (sectionTarget (ts.drop 1)).2
        let (more, rest) ← readSections path rest
        return (keptItems (sectionTarget (ts.drop 1)).1 items ++ more, rest)
      else .ok ([], ts) := by
  rw [readSections]
  split
  · split
    · next he => rw [he]; rfl
    · next items rest hitems =>
      rw [hitems]
      cases hmore : readSections path rest with
      | error e => simp only [bind, Except.bind, hmore]
      | ok more => simp only [bind, Except.bind, hmore]; rfl
  · rfl

theorem readSections_shrinks {path : String} {as : List Attribute} {ts rest : List Token}
    (h : readSections path ts = .ok (as, rest)) : rest = ts ∨ rest.length < ts.length := by
  fun_induction readSections path ts generalizing as with
  | case1 => cases h
  | case2 => cases h
  | case3 ts hhead items afterItems hitems more rest' hmore ih =>
    cases h
    have h1 := ih hmore
    have h2 := readSectionItems_length_lt hitems
    have h3 := sectionTarget_length_le (ts.drop 1)
    have h4 := length_drop_one_lt_of_headIs hhead
    right
    rcases h1 with h1 | h1
    · subst h1; omega
    · omega
  | case4 => cases h; exact Or.inl rfl

theorem readSections_length_le {path : String} {as : List Attribute} {ts rest : List Token}
    (h : readSections path ts = .ok (as, rest)) : rest.length ≤ ts.length := by
  rcases readSections_shrinks h with h | h
  · exact h ▸ Nat.le_refl _
  · exact Nat.le_of_lt h

end LocalisedEnum

import LocalisedEnum.Declaration.Fault

/-!
**Names, groups and statements.**

Between the parts of a declaration that matter stand parts that are passed over: balanced groups,
and statements that run to their semicolon.  Each function here takes a part off the front of the
tokens and gives what remains; what remains is never longer.

Main definitions:

* `qualifiedName` — a name with its segments;
* `takeGroup` — a balanced group of one kind of bracket;
* `takeStatement` — the tokens up to a semicolon outside all brackets.

Main results:

* `expect_eq_ok`, `takeGroup_eq_ok`, `takeStatementFrom_cons_eq_ok` — what each has taken where it
  succeeds;
* `qualifiedName_length_lt`, `takeGroup_length_lt`, `takeStatement_length_lt` — each takes a token.
-/

set_option autoImplicit false
set_option relaxedAutoImplicit false

namespace LocalisedEnum

/-! ### Single tokens -/

/-- The first token. -/
def nextToken : List Token → Except Fault (Token × List Token)
  | [] => .error .endOfFile
  | t :: rest => .ok (t, rest)

theorem nextToken_length_lt {ts rest : List Token} {t : Token} (h : nextToken ts = .ok (t, rest)) :
    rest.length < ts.length := by
  cases ts with
  | nil => cases h
  | cons => cases h; exact Nat.lt_succ_self _

/-- Takes off the first token, which has to be `text`. -/
def expect (text : String) : List Token → Except Fault (List Token)
  | [] => .error .endOfFile
  | t :: rest => if t.text = text then .ok rest else .error (.at (.expected text t.text) t)

theorem expect_eq_ok {text : String} {ts rest : List Token} :
    expect text ts = .ok rest ↔ ∃ t, ts = t :: rest ∧ t.text = text := by
  constructor
  · intro h
    cases ts with
    | nil => cases h
    | cons t ts =>
      rw [expect] at h
      split at h
      · next ht => cases h; exact ⟨t, rfl, ht⟩
      · cases h
  · rintro ⟨t, rfl, ht⟩
    rw [expect, if_pos ht]

theorem expect_length_lt {text : String} {ts rest : List Token} (h : expect text ts = .ok rest) :
    rest.length < ts.length := by
  obtain ⟨t, rfl, _⟩ := expect_eq_ok.1 h
  exact Nat.lt_succ_self _

/-- The tokens without a first token that is `text`. -/
def skip (text : String) : List Token → List Token
  | [] => []
  | t :: rest => if t.text = text then rest else t :: rest

theorem skip_length_le (text : String) (ts : List Token) : (skip text ts).length ≤ ts.length := by
  cases ts with
  | nil => exact Nat.le_refl _
  | cons t ts =>
    simp only [skip]
    split
    · exact Nat.le_succ _
    · exact Nat.le_refl _

/-! ### Qualified names -/

/-- A mark between the segments of a name. -/
def isNameMark (t : Token) : Bool :=
  t.text == "." || t.text == "::"

/-- The rest of a name of which `name` has been read. -/
def qualifiedNameFrom (name : String) : List Token → Except Fault (String × List Token)
  | [] => .ok (name, [])
  | [t] => if isNameMark t then .error .endOfFile else .ok (name, [t])
  | t :: part :: rest =>
    if isNameMark t then qualifiedNameFrom (name ++ t.text ++ part.plain) rest
    else .ok (name, t :: part :: rest)

/-- A name with its segments, each without the mark that lets a keyword stand for a name. -/
def qualifiedName : List Token → Except Fault (String × List Token)
  | [] => .error .endOfFile
  | t :: rest => qualifiedNameFrom t.plain rest

theorem qualifiedNameFrom_length_le {name result : String} {ts rest : List Token}
    (h : qualifiedNameFrom name ts = .ok (result, rest)) : rest.length ≤ ts.length := by
  fun_induction qualifiedNameFrom name ts with
  | case1 => cases h; exact Nat.le_refl _
  | case2 => cases h
  | case3 => cases h; exact Nat.le_refl _
  | case4 name t part tail _ ih =>
    have := ih h
    simp only [List.length_cons]
    omega
  | case5 => cases h; exact Nat.le_refl _

theorem qualifiedName_length_lt {name : String} {ts rest : List Token}
    (h : qualifiedName ts = .ok (name, rest)) : rest.length < ts.length := by
  cases ts with
  | nil => cases h
  | cons t ts => exact Nat.lt_succ_of_le (qualifiedNameFrom_length_le h)

/-! ### Groups -/

/-- The inside of a group that has been opened, `depth` groups of the same kind being open inside
it, and what follows the group. -/
def groupInside (opening closing : String) (depth : Nat) :
    List Token → Option (List Token × List Token)
  | [] => none
  | t :: rest =>
    let keep := fun (p : List Token × List Token) => (t :: p.1, p.2)
    if t.text = opening then (groupInside opening closing (depth + 1) rest).map keep
    else if t.text = closing then
      match depth with
      | 0 => some ([], rest)
      | depth + 1 => (groupInside opening closing depth rest).map keep
    else (groupInside opening closing depth rest).map keep

theorem groupInside_length_lt {opening closing : String} {depth : Nat}
    {ts inside rest : List Token} (h : groupInside opening closing depth ts = some (inside, rest)) :
    rest.length < ts.length := by
  induction ts generalizing depth inside with
  | nil => cases h
  | cons t ts ih =>
    simp only [groupInside] at h
    split at h
    · obtain ⟨⟨i, r⟩, hp, he⟩ := Option.map_eq_some_iff.1 h
      cases he
      exact Nat.lt_succ_of_lt (ih hp)
    · split at h
      · split at h
        · cases h; exact Nat.lt_succ_self _
        · obtain ⟨⟨i, r⟩, hp, he⟩ := Option.map_eq_some_iff.1 h
          cases he
          exact Nat.lt_succ_of_lt (ih hp)
      · obtain ⟨⟨i, r⟩, hp, he⟩ := Option.map_eq_some_iff.1 h
        cases he
        exact Nat.lt_succ_of_lt (ih hp)

/-- The inside of the balanced group at the front, and what follows it. -/
def takeGroup (opening closing : String) : List Token → Except Fault (List Token × List Token)
  | [] => .error .endOfFile
  | t :: rest =>
    if t.text = opening then
      match groupInside opening closing 0 rest with
      | some result => .ok result
      | none => .error (.at (.unclosed opening) t)
    else .error (.at (.expected opening t.text) t)

/-- A group is the bracket that opens it, and its inside with the bracket that closes it. -/
theorem takeGroup_eq_ok {opening closing : String} {ts inside rest : List Token} :
    takeGroup opening closing ts = .ok (inside, rest) ↔
      ∃ t behind, ts = t :: behind ∧ t.text = opening ∧
        groupInside opening closing 0 behind = some (inside, rest) := by
  constructor
  · intro h
    cases ts with
    | nil => cases h
    | cons t ts =>
      rw [takeGroup] at h
      split at h
      · next ht =>
        split at h
        · next hinside => cases h; exact ⟨t, ts, rfl, ht, hinside⟩
        · cases h
      · cases h
  · rintro ⟨t, behind, rfl, ht, hinside⟩
    rw [takeGroup, if_pos ht, hinside]

theorem takeGroup_length_lt {opening closing : String} {ts inside rest : List Token}
    (h : takeGroup opening closing ts = .ok (inside, rest)) : rest.length < ts.length := by
  obtain ⟨t, behind, rfl, _, hinside⟩ := takeGroup_eq_ok.1 h
  exact Nat.lt_succ_of_lt (groupInside_length_lt hinside)

/-! ### Statements -/

/-- How a token changes the depth of nesting in a statement. -/
def statementNesting (t : Token) : Int :=
  if ["(", "[", "\x7b"].contains t.text then 1
  else if [")", "]", "\x7d"].contains t.text then -1
  else 0

/-- The tokens before the semicolon that ends a statement at the given depth, and those after it. -/
def takeStatementFrom (depth : Int) : List Token → Except Fault (List Token × List Token)
  | [] => .error .endOfFile
  | t :: rest =>
    if t.text = ";" ∧ depth ≤ 0 then .ok ([], rest)
    else match takeStatementFrom (depth + statementNesting t) rest with
      | .ok (inside, rest) => .ok (t :: inside, rest)
      | .error e => .error e

/-- The tokens of the statement at the front without its semicolon, and what follows it. -/
def takeStatement (ts : List Token) : Except Fault (List Token × List Token) :=
  takeStatementFrom 0 ts

/-- A token of a statement ends it, or goes into it. -/
theorem takeStatementFrom_cons_eq_ok {depth : Int} {t : Token} {ts inside rest : List Token} :
    takeStatementFrom depth (t :: ts) = .ok (inside, rest) ↔
      ((t.text = ";" ∧ depth ≤ 0) ∧ inside = [] ∧ rest = ts) ∨
        (¬(t.text = ";" ∧ depth ≤ 0) ∧ ∃ more, inside = t :: more ∧
          takeStatementFrom (depth + statementNesting t) ts = .ok (more, rest)) := by
  rw [takeStatementFrom]
  constructor
  · intro h
    split at h
    · next ht => cases h; exact .inl ⟨ht, rfl, rfl⟩
    · next ht =>
      split at h
      · next more _ hmore => cases h; exact .inr ⟨ht, more, rfl, hmore⟩
      · cases h
  · rintro (⟨ht, rfl, rfl⟩ | ⟨ht, more, rfl, hmore⟩)
    · rw [if_pos ht]
    · rw [if_neg ht, hmore]

theorem takeStatementFrom_length_lt {depth : Int} {ts inside rest : List Token}
    (h : takeStatementFrom depth ts = .ok (inside, rest)) : rest.length < ts.length := by
  induction ts generalizing depth inside with
  | nil => cases h
  | cons t ts ih =>
    rcases takeStatementFrom_cons_eq_ok.1 h with ⟨_, rfl, rfl⟩ | ⟨_, more, rfl, hmore⟩
    · exact Nat.lt_succ_self _
    · exact Nat.lt_succ_of_lt (ih hmore)

theorem takeStatement_length_lt {ts inside rest : List Token}
    (h : takeStatement ts = .ok (inside, rest)) : rest.length < ts.length :=
  takeStatementFrom_length_lt h

end LocalisedEnum

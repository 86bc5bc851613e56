import LocalisedEnum.Compilation

/-!
**The parts of a type.**

Declarations of one qualified name are parts of one type.  The index of a compilation takes the
declarations in order and puts each to the parts of its name that are there; so what it holds under
a name in the end is the first part with the others merged into it, one after the other.  The
properties of the whole are those of the parts, in order, and a constant has the value that it has
in the first part with a constant of its name.

Main definitions:

* `partsOf` — the declarations of a qualified name;
* `mergeAll` — the type that parts make together.

Main results:

* `get?_typeIndex` — **the index holds what the parts of a name make together**;
* `properties_foldl_merge`, `valueOf?_foldl_merge` — the properties and the constants of the whole.
-/

set_option autoImplicit false
set_option relaxedAutoImplicit false

namespace LocalisedEnum

/-- The declarations of a qualified name, in order. -/
def partsOf (types : List TypeDeclaration) (name : String) : List TypeDeclaration :=
  types.filter (·.qualifiedName == name)

theorem mem_partsOf {types : List TypeDeclaration} {name : String} {t : TypeDeclaration} :
    t ∈ partsOf types name ↔ t ∈ types ∧ t.qualifiedName = name := by
  rw [partsOf, List.mem_filter, beq_iff_eq]

/-- The type that parts make together. -/
def mergeAll : List TypeDeclaration → Option TypeDeclaration
  | [] => none
  | t :: parts => some (parts.foldl TypeDeclaration.merge t)

/-! ### The index -/

theorem get?_foldl_add (index : TypeIndex) (types : List TypeDeclaration) (name : String) :
    (types.foldl TypeIndex.add index).get? name =
      mergeAll ((index.get? name).toList ++ partsOf types name) := by
  induction types generalizing index with
  | nil => cases h : index.get? name <;> simp [partsOf, mergeAll, h]
  | cons t types ih =>
      rw [List.foldl_cons, ih, TypeIndex.get?_add]
      by_cases ht : t.qualifiedName = name
      · have hparts : partsOf (t :: types) name = t :: partsOf types name :=
          List.filter_cons_of_pos (beq_iff_eq.2 ht)
        rw [if_pos ht, hparts]
        cases index.get? name <;> rfl
      · have hparts : partsOf (t :: types) name = partsOf types name :=
          List.filter_cons_of_neg fun h => ht (beq_iff_eq.1 h)
        rw [if_neg ht, hparts]

theorem qualifiedName_of_get? {index : TypeIndex} {name : String} {t : TypeDeclaration}
    (h : index.get? name = some t) : t.qualifiedName = name := by
  have hfound := List.find?_some h
  exact beq_iff_eq.1 hfound

/-- **The index holds what the parts of a name make together.** -/
theorem get?_typeIndex (c : Compilation) (name : String) :
    c.typeIndex.get? name = mergeAll (partsOf c.types name) :=
  get?_foldl_add .empty c.types name

/-- What the index holds under a name is the first part of the name, with the others merged into
it. -/
theorem exists_parts_of_get? {c : Compilation} {name : String} {t : TypeDeclaration}
    (h : c.typeIndex.get? name = some t) :
    ∃ first parts, partsOf c.types name = first :: parts ∧
      t = parts.foldl TypeDeclaration.merge first := by
  rw [get?_typeIndex] at h
  cases hparts : partsOf c.types name with
  | nil =>
      rw [hparts] at h
      cases h
  | cons first parts =>
      rw [hparts] at h
      cases h
      exact ⟨first, parts, rfl, rfl⟩

/-! ### The whole -/

@[simp] theorem qualifiedName_foldl_merge (t : TypeDeclaration) (parts : List TypeDeclaration) :
    (parts.foldl TypeDeclaration.merge t).qualifiedName = t.qualifiedName := by
  induction parts generalizing t with
  | nil => rfl
  | cons part parts ih => rw [List.foldl_cons, ih, TypeDeclaration.qualifiedName_merge]

theorem properties_foldl_merge (t : TypeDeclaration) (parts : List TypeDeclaration) :
    (parts.foldl TypeDeclaration.merge t).properties = (t :: parts).flatMap (·.properties) := by
  induction parts generalizing t with
  | nil => simp
  | cons part parts ih => simp [ih, TypeDeclaration.merge]

theorem valueOf?_assignNew {α : Type} (name key : String) (value : α) (values : List (String × α)) :
    valueOf? name (assignNew key value values) =
      (valueOf? name values).or (valueOf? name [(key, value)]) := by
  rw [assignNew]
  split
  · next hkey =>
    by_cases hname : key = name
    · rw [← hname]
      cases h : valueOf? key values with
      | none =>
          rw [h] at hkey
          cases hkey
      | some v => rfl
    · have hnone : valueOf? name [(key, value)] = none := by simp [valueOf?, hname]
      rw [hnone, Option.or_none]
  · simp only [valueOf?, List.find?_append, Option.map_or]

theorem valueOf?_foldl_assignNew {α : Type} (name : String) (more values : List (String × α)) :
    valueOf? name (more.foldl (fun acc (key, value) => assignNew key value acc) values) =
      (valueOf? name values).or (valueOf? name more) := by
  induction more generalizing values with
  | nil =>
      rw [List.foldl_nil, show valueOf? name ([] : List (String × α)) = none from rfl,
        Option.or_none]
  | cons entry more ih =>
      obtain ⟨key, value⟩ := entry
      have hcons : valueOf? name ((key, value) :: more) =
          (valueOf? name [(key, value)]).or (valueOf? name more) := by
        simp only [valueOf?, ← List.singleton_append (l := more), List.find?_append, Option.map_or]
      rw [List.foldl_cons, ih, valueOf?_assignNew, Option.or_assoc, hcons]

theorem valueOf?_foldl_merge (name : String) (t : TypeDeclaration) (parts : List TypeDeclaration) :
    valueOf? name (parts.foldl TypeDeclaration.merge t).constants =
      (t :: parts).findSome? fun part => valueOf? name part.constants := by
  induction parts generalizing t with
  | nil => simp
  | cons part parts ih =>
      rw [List.foldl_cons, ih, List.findSome?_cons, List.findSome?_cons, List.findSome?_cons,
        TypeDeclaration.merge, valueOf?_foldl_assignNew]
      cases valueOf? name t.constants <;> rfl

end LocalisedEnum

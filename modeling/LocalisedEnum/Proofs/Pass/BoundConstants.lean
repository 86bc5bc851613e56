import LocalisedEnum.Proofs.Declaration.ConstantNames
import LocalisedEnum.Proofs.Pass.LookupOrder
import LocalisedEnum.Proofs.Pass.MarkedNames
import LocalisedEnum.Proofs.Pass.Parts

/-!
**Constants in the place of references.**

A named value that is not evaluated is kept as it is written.  If it is written as a member access
it may refer to a string constant: to a constant of the type in front of its last point, or without
a point to a constant of a type around the enum, the innermost that declares one of that name.
These references, and no other values, are replaced by the constants.

Main definitions:

* `IsMemberAccess` — names with a point or a double colon between each two;
* `EnumDeclaration.typeAround` — the types around an enum;
* `RefersTo` — the constant that a text refers to.

Main results:

* `isMemberAccess_iff` — member accesses are recognised;
* `constantValue_eq_some_iff` — **a reference is looked up** exactly if it refers to a constant;
* `RefersTo.isWrittenName` — in files that are read it has a single name behind its last point;
* `bindConstants_exact` — **exactly the references** to constants are replaced.
-/

set_option autoImplicit false
set_option relaxedAutoImplicit false

namespace LocalisedEnum

/-! ### Member accesses -/

/-- A name as it is written: the start of a word and the rest of it, perhaps behind the mark. -/
inductive IsWrittenName : List Char → Prop
  | plain {c : Char} {cs : List Char} (hc : isWordStart c = true)
      (hcs : ∀ x ∈ cs, isWord x = true) : IsWrittenName (c :: cs)
  | marked {c : Char} {cs : List Char} (hc : isWordStart c = true)
      (hcs : ∀ x ∈ cs, isWord x = true) : IsWrittenName ('@' :: c :: cs)

/-- The marks between two names. -/
def accessMarks : List (List Char) := [['.'], [':', ':']]

/-- **A member access**: names with a mark between each two. -/
inductive IsMemberAccess : List Char → Prop
  | single {name : List Char} (hname : IsWrittenName name) : IsMemberAccess name
  | more {name mark rest : List Char} (hname : IsWrittenName name) (hmark : mark ∈ accessMarks)
      (hrest : IsMemberAccess rest) : IsMemberAccess (name ++ (mark ++ rest))

/-- A mark begins with a sign. -/
theorem exists_sign_of_mem_accessMarks {mark : List Char} (h : mark ∈ accessMarks) :
    ∃ sign more, mark = sign :: more ∧ isWord sign = false := by
  rcases List.mem_cons.1 h with rfl | h
  · exact ⟨'.', [], rfl, rfl⟩
  · exact ⟨':', [':'], List.mem_singleton.1 h, rfl⟩

theorem afterName?_written {name more : List Char} (hname : IsWrittenName name)
    (hmore : ∀ x ∈ more.head?, isWord x = false) : afterName? (name ++ more) = some more := by
  have hrest : ∀ cs : List Char, (∀ x ∈ cs, isWord x = true) →
      (cs ++ more).dropWhile isWord = more := by
    intro cs hcs
    rw [List.dropWhile_append_of_pos hcs]
    cases more with
    | nil => rfl
    | cons x more => rw [List.dropWhile_cons_of_neg (by rw [hmore x rfl]; exact Bool.false_ne_true)]
  cases hname with
  | @plain c cs hc hcs =>
      have hmark : '@' ≠ c := by
        rintro rfl
        exact absurd hc (by decide)
      rw [List.cons_append, afterName?, dropStart?, if_neg hmark]
      simp only [Option.getD_none, if_pos hc, hrest cs hcs]
  | @marked c cs hc hcs =>
      rw [afterName?]
      simp only [List.cons_append, dropStart?, if_pos, Option.getD_some, if_pos hc, hrest cs hcs]

theorem exists_of_afterName? {cs more : List Char} (h : afterName? cs = some more) :
    ∃ name, cs = name ++ more ∧ IsWrittenName name := by
  rw [afterName?] at h
  split at h
  · cases h
  · next c rest heq =>
    split at h
    · next hc =>
      cases h
      have hword : ∀ x ∈ rest.takeWhile isWord, isWord x = true :=
        List.all_eq_true.1 List.all_takeWhile
      have hsplit : c :: rest = (c :: rest.takeWhile isWord) ++ rest.dropWhile isWord := by
        rw [List.cons_append, List.takeWhile_append_dropWhile]
      cases hmark : dropStart? ['@'] cs with
      | none =>
          rw [hmark] at heq
          exact ⟨_, heq.trans hsplit, .plain hc hword⟩
      | some behind =>
          rw [hmark] at heq
          have hbehind : behind = c :: rest := heq
          rw [dropStart?_eq_some_iff.1 hmark, hbehind]
          exact ⟨'@' :: c :: rest.takeWhile isWord, congrArg ('@' :: ·) hsplit, .marked hc hword⟩
    · cases h

theorem afterNameMark?_eq_some_iff {cs rest : List Char} :
    afterNameMark? cs = some rest ↔ ∃ mark ∈ accessMarks, cs = mark ++ rest := by
  constructor
  · intro h
    simp only [afterNameMark?] at h
    split at h
    · cases h; exact ⟨['.'], by decide, rfl⟩
    · cases h; exact ⟨[':', ':'], by decide, rfl⟩
    · cases h
  · rintro ⟨mark, hmark, rfl⟩
    rcases List.mem_cons.1 hmark with rfl | hmark
    · rfl
    · rw [List.mem_singleton.1 hmark]
      rfl

/-- **Member accesses are recognised.** -/
theorem isMemberAccess_iff {cs : List Char} : isMemberAccess cs = true ↔ IsMemberAccess cs := by
  constructor
  · intro h
    fun_induction isMemberAccess cs with
    | case1 => cases h
    | case2 cs hname =>
        obtain ⟨name, rfl, hwritten⟩ := exists_of_afterName? hname
        rw [List.append_nil]
        exact .single hwritten
    | case3 => cases h
    | case4 cs c tail hname rest hmark ih =>
        obtain ⟨name, rfl, hwritten⟩ := exists_of_afterName? hname
        obtain ⟨mark, hmark, heq⟩ := afterNameMark?_eq_some_iff.1 hmark
        rw [heq]
        exact .more hwritten hmark (ih h)
  · intro h
    induction h with
    | @single name hname =>
        have hend : afterName? (name ++ []) = some [] := afterName?_written hname (by rintro _ ⟨⟩)
        rw [List.append_nil] at hend
        rw [isMemberAccess_eq, hend]
    | @more name mark rest hname hmark _ ih =>
        have hstop : ∀ x ∈ (mark ++ rest).head?, isWord x = false := by
          obtain ⟨sign, more, rfl, hsign⟩ := exists_sign_of_mem_accessMarks hmark
          rintro x ⟨⟩
          exact hsign
        have hbehind : afterNameMark? (mark ++ rest) = some rest :=
          afterNameMark?_eq_some_iff.2 ⟨mark, hmark, rfl⟩
        rw [isMemberAccess_eq, afterName?_written hname hstop]
        cases hne : mark ++ rest with
        | nil => rfl
        | cons c tail =>
            rw [hne] at hbehind
            simp only [hbehind, ih]

theorem IsWrittenName.not_mem_point {name : List Char} (h : IsWrittenName name) : '.' ∉ name := by
  have hnot : ∀ {c : Char} {cs : List Char}, isWordStart c = true → (∀ x ∈ cs, isWord x = true) →
      '.' ∉ c :: cs := by
    intro c cs hc hcs hmem
    rcases List.mem_cons.1 hmem with rfl | hmem
    · exact absurd hc (by decide)
    · exact absurd (hcs _ hmem) (by decide)
  cases h with
  | plain hc hcs => exact hnot hc hcs
  | marked hc hcs =>
      intro hmem
      rcases List.mem_cons.1 hmem with heq | hmem
      · exact absurd heq (by decide)
      · exact hnot hc hcs hmem

/-- A member access does not begin with a point. -/
theorem IsMemberAccess.head_ne {cs : List Char} (h : IsMemberAccess cs) : cs.head? ≠ some '.' := by
  have hfirst : ∀ {name : List Char} (rest : List Char), IsWrittenName name →
      (name ++ rest).head? ≠ some '.' := by
    intro name rest hname
    cases hname with
    | plain hc _ =>
        rintro ⟨⟩
        exact absurd hc (by decide)
    | marked _ _ => rintro ⟨⟩
  cases h with
  | single hname => simpa using hfirst [] hname
  | more hname _ _ => exact hfirst _ hname

/-- What stands behind the last point is a member access by itself. -/
theorem IsMemberAccess.behindPoint {cs front name : List Char} (h : IsMemberAccess cs)
    (hsplit : cs = front ++ '.' :: name) (hname : '.' ∉ name) : IsMemberAccess name := by
  induction h generalizing front with
  | single hwritten =>
      exact absurd (hsplit ▸ List.mem_append_right _ List.mem_cons_self) hwritten.not_mem_point
  | @more first mark rest hwritten hmark hrest ih =>
      rw [← List.append_assoc] at hsplit
      rcases List.append_eq_append_iff.1 hsplit with ⟨back, -, hback⟩ | ⟨back, hlead, hback⟩
      · exact ih hback
      cases back with
      | nil =>
          have hpoint : rest = [] ++ '.' :: name := hback.symm
          exact ih hpoint
      | cons point back =>
          -- the last point is the mark, since there is none in the first name
          obtain ⟨rfl, rfl⟩ := List.cons_eq_cons.1 hback
          have hmem : '.' ∈ first ++ mark := hlead ▸ List.mem_append_right _ List.mem_cons_self
          have hpoint : mark = ['.'] := by
            rcases List.mem_cons.1 hmark with hmark | hmark
            · exact hmark
            · rw [List.mem_singleton.1 hmark] at hmem
              exact absurd ((List.mem_append.1 hmem).resolve_right (by decide))
                hwritten.not_mem_point
          rcases List.eq_nil_or_concat back with rfl | ⟨init, last, rfl⟩
          · exact hrest
          · rw [List.concat_eq_append] at hlead hname
            have hlast : '.' = last := by
              rw [hpoint, ← List.cons_append, ← List.append_assoc] at hlead
              exact (List.append_singleton_inj.1 hlead).2
            exact absurd
              (List.mem_append_left _ (List.mem_append_right _ (List.mem_singleton.2 hlast))) hname

/-! ### References -/

/-- A text has no point, or it is split by its last one. -/
theorem exists_lastPoint (text : String) :
    '.' ∉ text.toList ∨ ∃ front name, text = front ++ "." ++ name ∧ '.' ∉ name.toList := by
  by_cases hpoint : '.' ∈ text.toList
  · obtain ⟨back, front, hsplit, hback⟩ := List.eq_append_cons_of_mem (List.mem_reverse.2 hpoint)
    refine .inr ⟨String.ofList front.reverse, String.ofList back.reverse, ?_, ?_⟩
    · rw [← String.toList_inj, ← List.reverse_reverse text.toList, hsplit]
      simp
    · simpa using hback
  · exact .inl hpoint

/-- A name without the mark in front of it. -/
def unmarkedName (name : String) : String :=
  String.ofList (name.toList.dropWhile (· == '@'))

/-- **A type around an enum**, counted from the outside. -/
def EnumDeclaration.typeAround (c : Compilation) (e : EnumDeclaration)
    (depth : Fin e.containingTypes.length) : Option TypeDeclaration :=
  c.typeIndex.get? (qualify e.namespaceName (joinDots (e.containingTypes.take (depth + 1))))

/-- **The constant that a text refers to** in the attributes of an enum: that of a type by the name
behind the last point, or that of the innermost type around the enum that declares one of this
name. -/
inductive RefersTo (c : Compilation) (e : EnumDeclaration) : String → CodeText → Prop
  | ofType {typeName name : String} {t : TypeDeclaration} {value : CodeText}
      (haccess : IsMemberAccess (typeName ++ "." ++ name).toList) (hname : '.' ∉ name.toList)
      (htype : c.findType typeName e.context = some t)
      (hvalue : valueOf? (unmarkedName name) t.constants = some value) :
      RefersTo c e (typeName ++ "." ++ name) value
  | around {name : String} {value : CodeText} (haccess : IsMemberAccess name.toList)
      (hname : '.' ∉ name.toList) (depth : Fin e.containingTypes.length) {t : TypeDeclaration}
      (htype : e.typeAround c depth = some t)
      (hvalue : valueOf? (unmarkedName name) t.constants = some value)
      (hinnermost : ∀ deeper t', depth < deeper → e.typeAround c deeper = some t' →
        valueOf? (unmarkedName name) t'.constants = none) : RefersTo c e name value

section References

variable {c : Compilation} {e : EnumDeclaration}

/-- The types around an enum are searched from the inside outwards. -/
theorem containingConstant_eq_some_iff {name : String} {value : CodeText} :
    containingConstant c e.context name = some value ↔
      ∃ depth, (e.typeAround c depth).bind (fun t => valueOf? name t.constants) = some value ∧
        ∀ deeper, depth < deeper →
          (e.typeAround c deeper).bind (fun t => valueOf? name t.constants) = none := by
  have hsearch : containingConstant c e.context name =
      ((List.finRange e.containingTypes.length).map Fin.rev).findSome? fun depth =>
        (e.typeAround c depth).bind fun t => valueOf? name t.constants := by
    rw [containingConstant, outwards_eq_map, List.findSome?_map, List.findSome?_map]
    refine congrArg (List.findSome? · _) (funext fun i => ?_)
    have hne : e.containingTypes.take (i.rev + 1) ≠ [] := by
      have hpos : 0 < e.containingTypes.length := Nat.lt_of_le_of_lt (Nat.zero_le _) i.isLt
      rw [← List.length_pos_iff, List.length_take]
      exact Nat.lt_min.2 ⟨Nat.succ_pos _, hpos⟩
    exact congrArg (fun key => (c.typeIndex.get? key).bind fun t => valueOf? name t.constants)
      (joinDots_namespacePart e.namespaceName hne)
  have hsorted : ((List.finRange e.containingTypes.length).map Fin.rev).Pairwise (· > ·) := by
    refine List.pairwise_map.2 ((List.pairwise_lt_finRange _).imp fun {i j} hlt => ?_)
    exact Fin.rev_lt_rev.2 hlt
  rw [hsearch,
    @findSome?_eq_some_iff_first _ _ (· > ·) (fun depth => lt_irrefl depth)
      (fun _ _ h => lt_asymm h) _ _ hsorted]
  have hall : ∀ depth, depth ∈ (List.finRange e.containingTypes.length).map Fin.rev := fun depth =>
    List.mem_map.2 ⟨depth.rev, List.mem_finRange _, Fin.rev_rev depth⟩
  simp only [hall, true_and, forall_const]

theorem constantValue_ofType {typeName name : String}
    (haccess : IsMemberAccess (typeName ++ "." ++ name).toList) (hname : '.' ∉ name.toList)
    (context : LookupContext) :
    constantValue c context (typeName ++ "." ++ name) =
      (c.findType typeName context).bind fun t => valueOf? (unmarkedName name) t.constants := by
  have htype : typeName ≠ "" := by
    rintro rfl
    exact haccess.head_ne (by rw [String.toList_append]; rfl)
  rw [constantValue, if_pos (isMemberAccess_iff.2 haccess)]
  simp only [splitAtLastPoint_append typeName hname, if_neg htype]
  rfl

theorem constantValue_around {name : String} (haccess : IsMemberAccess name.toList)
    (hname : '.' ∉ name.toList) (context : LookupContext) :
    constantValue c context name = containingConstant c context (unmarkedName name) := by
  rw [constantValue, if_pos (isMemberAccess_iff.2 haccess)]
  simp only [splitAtLastPoint_of_not_mem hname]
  rfl

/-- **A reference is looked up** exactly if it refers to a constant. -/
theorem constantValue_eq_some_iff {text : String} {value : CodeText} :
    constantValue c e.context text = some value ↔ RefersTo c e text value := by
  constructor
  · intro h
    by_cases haccess : isMemberAccess text.toList = true
    · rw [isMemberAccess_iff] at haccess
      rcases exists_lastPoint text with hname | ⟨typeName, name, rfl, hname⟩
      · rw [constantValue_around haccess hname, containingConstant_eq_some_iff] at h
        obtain ⟨depth, hdepth, hinnermost⟩ := h
        obtain ⟨t, htype, hvalue⟩ := Option.bind_eq_some_iff.1 hdepth
        refine .around haccess hname depth htype hvalue fun deeper t' hdeeper htype' => ?_
        exact Option.bind_eq_none_iff.1 (hinnermost deeper hdeeper) t' htype'
      · rw [constantValue_ofType haccess hname] at h
        obtain ⟨t, htype, hvalue⟩ := Option.bind_eq_some_iff.1 h
        exact .ofType haccess hname htype hvalue
    · rw [constantValue, if_neg haccess] at h
      cases h
  · intro h
    cases h with
    | ofType haccess hname htype hvalue =>
        rw [constantValue_ofType haccess hname, htype]
        exact hvalue
    | around haccess hname depth htype hvalue hinnermost =>
        rw [constantValue_around haccess hname, containingConstant_eq_some_iff]
        refine
          ⟨depth, by rw [htype]; exact hvalue, fun deeper hdeeper => Option.bind_eq_none_iff.2 ?_⟩
        exact fun t' htype' => hinnermost deeper t' hdeeper htype'

/-! ### Attributes -/

theorem bindConstant_of_refersTo {text : String} {value : CodeText} (h : RefersTo c e text value) :
    bindConstant c e.context (.raw text) = .text value := by
  rw [bindConstant, constantValue_eq_some_iff.2 h]
  rfl

/-- A value that is replaced is a reference. -/
theorem exists_refersTo_of_bindConstant_ne {value : ArgumentValue}
    (h : bindConstant c e.context value ≠ value) :
    ∃ text constant, value = .raw text ∧ RefersTo c e text constant := by
  cases value with
  | raw text =>
      cases hconstant : constantValue c e.context text with
      | some constant => exact ⟨text, constant, rfl, constantValue_eq_some_iff.1 hconstant⟩
      | none =>
          rw [bindConstant, hconstant] at h
          exact absurd rfl h
  | _ => exact absurd rfl h

theorem bindConstant_bindConstant (context : LookupContext) (value : ArgumentValue) :
    bindConstant c context (bindConstant c context value) = bindConstant c context value := by
  cases value with
  | raw text =>
      cases hconstant : constantValue c context text with
      | some constant => simp only [bindConstant, hconstant, Option.map_some, Option.getD_some]
      | none => simp only [bindConstant, hconstant, Option.map_none, Option.getD_none]
  | _ => rfl

end References

/-! ### Names in files that are read -/

/-- Without the mark there is the start of a word in front of a written name. -/
theorem IsWrittenName.dropWhile_mark {name : List Char} (h : IsWrittenName name)
    (rest : List Char) :
    ∃ c cs, isWordStart c = true ∧ (name ++ rest).dropWhile (· == '@') = c :: (cs ++ rest) := by
  have hunmarked : ∀ {c : Char} (cs : List Char), isWordStart c = true →
      (c :: cs).dropWhile (· == '@') = c :: cs := by
    intro c cs hc
    refine List.dropWhile_cons_of_neg fun hmark => ?_
    rw [beq_iff_eq.1 hmark] at hc
    exact absurd hc (by decide)
  cases h with
  | @plain c cs hc _ => exact ⟨c, cs, hc, hunmarked _ hc⟩
  | @marked c cs hc _ => exact ⟨c, cs, hc, (List.dropWhile_cons_of_pos rfl).trans (hunmarked _ hc)⟩

/-- A member access begins with the start of a word. -/
theorem IsMemberAccess.unmarkedName_head {name : String} (h : IsMemberAccess name.toList) :
    ∃ c cs, isWordStart c = true ∧ (unmarkedName name).toList = c :: cs := by
  rw [unmarkedName, String.toList_ofList]
  generalize name.toList = chars at h
  cases h with
  | single hname =>
      obtain ⟨c, cs, hc, hcs⟩ := hname.dropWhile_mark []
      rw [List.append_nil] at hcs
      exact ⟨c, _, hc, hcs⟩
  | more hname =>
      obtain ⟨c, cs, hc, hcs⟩ := hname.dropWhile_mark _
      exact ⟨c, _, hc, hcs⟩

/-- A member access that is an identifier without its mark is a single name. -/
theorem IsMemberAccess.isWrittenName {name : String} (h : IsMemberAccess name.toList)
    (hidentifier : isIdentifier (unmarkedName name) = true) : IsWrittenName name.toList := by
  have hword : ∀ x ∈ name.toList.dropWhile (· == '@'), isWord x = true := fun x hx =>
    isWord_of_mem_identifier hidentifier (by rwa [unmarkedName, String.toList_ofList])
  generalize name.toList = chars at h hword
  cases h with
  | single hname => exact hname
  | @more first mark rest hname hmark _ =>
      obtain ⟨c, cs, _, hcs⟩ := hname.dropWhile_mark (mark ++ rest)
      obtain ⟨sign, more, rfl, hsign⟩ := exists_sign_of_mem_accessMarks hmark
      have hmem : sign ∈ c :: (cs ++ (sign :: more ++ rest)) := by simp
      rw [hword sign (hcs ▸ hmem)] at hsign
      cases hsign

section Read

variable {c : Compilation} {name : String} {t : TypeDeclaration} {value : CodeText}

/-- The constants of a type are those of its declarations. -/
theorem exists_declaration_of_get? {key : String} (h : c.typeIndex.get? key = some t)
    (hvalue : valueOf? name t.constants = some value) :
    ∃ part ∈ c.types, valueOf? name part.constants = some value := by
  rw [(isEntry_of_get? h).constants] at hvalue
  obtain ⟨part, hpart, hvalue⟩ := List.exists_of_findSome?_eq_some hvalue
  exact ⟨part, (mem_partsOf.1 hpart).1, hvalue⟩

variable (hread : ∀ file ∈ c.files, ∃ path text, readSource path text = .ok file)
include hread

/-- A constant of a file that is read has a single name. -/
theorem IsMemberAccess.isWrittenName_of_constant (haccess : IsMemberAccess name.toList)
    {key : String} (htype : c.typeIndex.get? key = some t)
    (hvalue : valueOf? (unmarkedName name) t.constants = some value) :
    IsWrittenName name.toList := by
  obtain ⟨part, hpart, hvalue⟩ := exists_declaration_of_get? htype hvalue
  obtain ⟨file, hfile, hpart⟩ := List.mem_flatMap.1 hpart
  obtain ⟨path, text, hsource⟩ := hread file hfile
  obtain ⟨entry, hentry, rfl⟩ := Option.map_eq_some_iff.1 hvalue
  have hkey : entry.1 = unmarkedName name := by simpa using List.find?_some hentry
  obtain ⟨token, htoken, hname⟩ :=
    readSource_constantNames hsource part hpart entry (List.mem_of_find?_eq_some hentry)
  obtain ⟨first, rest, hfirst, hrest⟩ := haccess.unmarkedName_head
  rw [← hkey, hname] at hrest
  refine haccess.isWrittenName ?_
  rw [← hkey, hname]
  exact isIdentifier_plain htoken hrest hfirst

/-- **In files that are read** a reference is a single name, or a name behind the last point of
it. -/
theorem RefersTo.isWrittenName {e : EnumDeclaration} {text : String} (h : RefersTo c e text value) :
    ∃ name : String, IsWrittenName name.toList ∧
      (text = name ∨ ∃ typeName, text = typeName ++ "." ++ name) := by
  cases h with
  | @ofType typeName name t value haccess hname htype hvalue =>
      obtain ⟨key, hkey⟩ := findType_eq_some htype
      have hbehind : IsMemberAccess name.toList := by
        have hsplit : (typeName ++ "." ++ name).toList = typeName.toList ++ '.' :: name.toList := by
          rw [String.toList_append, String.toList_append, List.append_assoc]
          rfl
        exact haccess.behindPoint hsplit hname
      exact ⟨name, hbehind.isWrittenName_of_constant hread hkey hvalue, .inr ⟨typeName, rfl⟩⟩
  | around haccess hname depth htype hvalue hinnermost =>
      exact ⟨text, haccess.isWrittenName_of_constant hread htype hvalue, .inl rfl⟩

end Read

/-! ### The whole attribute -/

/-- **Exactly the references to constants are replaced.**  The name, the positional arguments, the
place and the names of the named values stay as they are.  A named value that refers to a constant
is replaced by it, and a named value that is replaced does so; in files that are read it is a single
name, or a single name behind its last point.  What has been replaced once is not replaced again. -/
theorem bindConstants_exact (c : Compilation) (e : EnumDeclaration) (a : Attribute) :
    ((bindConstants c e.context a).name = a.name ∧
      (bindConstants c e.context a).positional = a.positional ∧
      (bindConstants c e.context a).location = a.location ∧
      (bindConstants c e.context a).named.map Prod.fst = a.named.map Prod.fst) ∧
    (∀ (i : Nat) key value, a.named[i]? = some (key, value) →
      ∃ value', (bindConstants c e.context a).named[i]? = some (key, value') ∧
        (∀ text constant, value = .raw text → RefersTo c e text constant →
          value' = .text constant) ∧
        (value' ≠ value → ∃ text constant, value = .raw text ∧ RefersTo c e text constant)) ∧
    ((∀ file ∈ c.files, ∃ path text, readSource path text = .ok file) →
      ∀ text constant, RefersTo c e text constant →
        ∃ name : String, IsWrittenName name.toList ∧
          (text = name ∨ ∃ typeName, text = typeName ++ "." ++ name)) ∧
    bindConstants c e.context (bindConstants c e.context a) = bindConstants c e.context a := by
  refine ⟨⟨rfl, rfl, rfl, keys_bindConstants c e.context a⟩, ?_,
    fun hread _ _ h => h.isWrittenName hread, ?_⟩
  · intro i key value hvalue
    refine ⟨bindConstant c e.context value, ?_, ?_, exists_refersTo_of_bindConstant_ne⟩
    · rw [bindConstants, List.getElem?_map, hvalue]
      rfl
    · rintro text constant rfl hrefers
      exact bindConstant_of_refersTo hrefers
  · simp only [bindConstants, List.map_map, Attribute.mk.injEq, true_and, and_true]
    refine List.map_congr_left fun entry _ => ?_
    exact congrArg (Prod.mk entry.1) (bindConstant_bindConstant e.context entry.2)

end LocalisedEnum

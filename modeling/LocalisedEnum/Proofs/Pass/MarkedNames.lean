import LocalisedEnum.Proofs.Declaration.Alike
import LocalisedEnum.Proofs.Declaration.MarkedAttributes
import LocalisedEnum.Proofs.Pass.InertFiles
import LocalisedEnum.Proofs.Pass.SameRequests
import Mathlib.Data.List.TakeWhile

/-!
**Marked names in a pass.**

In the attributes of an enum names may get the sign that lets a keyword be used as a name.  The
names of attributes and arguments and a quoted name are taken without it, and so is the last name of
a reference to a constant.  In the type of `typeof(…)` and in front of the last name of a reference
it stays, and a name with the sign is looked up as it is written.  So a pass is the same with more
marks, as long as no type is written with one; and a type that is written with one is not found.

Main definitions:

* `KeptValue`, `KeepsTypes` — attributes with marks in front of other names than those of types;
* `Marking` — a file with marks in the attributes of one declaration.

Main results:

* `constantValue_mark` — the last name of a reference is taken without its mark;
* `findType_of_mark` — a type that is written with a mark is not found;
* `runPass_marking` — **a pass over a file with marks** in it.
-/

set_option autoImplicit false
set_option relaxedAutoImplicit false

namespace LocalisedEnum

/-! ### The last name of a reference -/

theorem isMemberAccess_eq (cs : List Char) :
    isMemberAccess cs = match afterName? cs with
      | none => false
      | some [] => true
      | some (c :: tail) =>
        match afterNameMark? (c :: tail) with
        | none => false
        | some rest => isMemberAccess rest := by
  rw [isMemberAccess]
  split
  · next hname => rw [hname]
  · next hname => rw [hname]
  · next c tail hname =>
    rw [hname]
    split
    · next hmark => simp only [hmark]
    · next rest hmark => simp only [hmark]

/-- Characters that end with a point. -/
def EndsWithPoint (cs : List Char) : Prop :=
  ∃ front, cs = front ++ ['.']

theorem EndsWithPoint.of_append {front cs : List Char} (h : EndsWithPoint (front ++ cs))
    (hne : cs ≠ []) : EndsWithPoint cs := by
  obtain ⟨lead, heq⟩ := h
  obtain ⟨init, last, rfl⟩ := List.eq_nil_or_concat cs |>.resolve_left hne
  rw [List.concat_eq_append, ← List.append_assoc] at heq
  obtain ⟨_, hlast⟩ := List.append_inj' heq rfl
  exact ⟨init, by rw [List.concat_eq_append, hlast]⟩

theorem dropWhile_append_of_mem {α : Type} {p : α → Bool} {xs : List α} {a : α} (ha : a ∈ xs)
    (hp : p a = false) (ys : List α) : (xs ++ ys).dropWhile p = xs.dropWhile p ++ ys := by
  induction xs with
  | nil => cases ha
  | cons x xs ih =>
      rw [List.cons_append, List.dropWhile_cons, List.dropWhile_cons]
      split
      · next hx =>
        refine ih ((List.mem_cons.1 ha).resolve_left ?_)
        rintro rfl
        rw [hp] at hx
        cases hx
      · rfl

/-- A name is passed over in front of whatever stands behind a point. -/
theorem afterName?_append {cs : List Char} (h : EndsWithPoint cs) (more : List Char) :
    afterName? (cs ++ more) = (afterName? cs).map (· ++ more) ∧
      ∀ rest, afterName? cs = some rest → EndsWithPoint rest := by
  -- the mark in front is taken off in either case
  obtain ⟨name, hname, hends, hmore⟩ : ∃ name, (dropStart? ['@'] cs).getD cs = name ∧
      EndsWithPoint name ∧ (dropStart? ['@'] (cs ++ more)).getD (cs ++ more) = name ++ more := by
    cases cs with
    | nil =>
        obtain ⟨front, heq⟩ := h
        exact absurd heq.symm (List.append_ne_nil_of_right_ne_nil _ (List.cons_ne_nil _ _))
    | cons c cs =>
        by_cases hmark : '@' = c
        · subst hmark
          refine ⟨cs, rfl, @EndsWithPoint.of_append ['@'] cs h ?_, rfl⟩
          rintro rfl
          obtain ⟨front, heq⟩ := h
          have hlast := congrArg List.getLast? heq
          rw [List.getLast?_concat] at hlast
          exact absurd hlast (by decide)
        · refine ⟨c :: cs, ?_, h, ?_⟩
          · rw [dropStart?, if_neg hmark]
            rfl
          · rw [List.cons_append, dropStart?, if_neg hmark]
            rfl
  rw [afterName?, afterName?, hname, hmore]
  obtain ⟨front, rfl⟩ := hends
  cases front with
  | nil =>
      refine ⟨rfl, ?_⟩
      rintro _ ⟨⟩
  | cons c front =>
      have hpoint : isWord '.' = false := by decide
      have hdrop := dropWhile_append_of_mem
        (List.mem_append_right front (List.mem_singleton_self '.')) hpoint more
      simp only [List.cons_append]
      split
      · refine ⟨by rw [hdrop]; rfl, ?_⟩
        intro rest hrest
        cases hrest
        refine @EndsWithPoint.of_append ((front ++ ['.']).takeWhile isWord) _ ⟨front, ?_⟩ ?_
        · exact List.takeWhile_append_dropWhile
        · intro hnil
          have hword := List.dropWhile_eq_nil_iff.1 hnil '.'
            (List.mem_append_right _ (List.mem_singleton_self _))
          rw [hpoint] at hword
          cases hword
      · refine ⟨rfl, ?_⟩
        rintro _ ⟨⟩

/-- So is the mark behind it. -/
theorem afterNameMark?_append {cs : List Char} (h : EndsWithPoint cs) (more : List Char) :
    afterNameMark? (cs ++ more) = (afterNameMark? cs).map (· ++ more) ∧
      ∀ rest, afterNameMark? cs = some rest → rest = [] ∨ EndsWithPoint rest := by
  have hbehind : ∀ {front rest : List Char}, EndsWithPoint (front ++ rest) →
      rest = [] ∨ EndsWithPoint rest := by
    intro front rest hends
    by_cases hrest : rest = []
    · exact .inl hrest
    · exact .inr (hends.of_append hrest)
  rcases cs with _ | ⟨c, _ | ⟨d, tail⟩⟩
  · exact absurd h.choose_spec.symm (List.append_ne_nil_of_right_ne_nil _ (List.cons_ne_nil _ _))
  · obtain ⟨front, heq⟩ := h
    obtain ⟨_, hlast⟩ := @List.append_inj' _ [] _ _ _ heq rfl
    cases hlast
    exact ⟨rfl, fun rest hrest => .inl (Option.some.inj hrest).symm⟩
  · by_cases hpoint : c = '.'
    · subst hpoint
      refine ⟨rfl, fun rest hrest => ?_⟩
      cases hrest
      exact @hbehind ['.'] (d :: tail) h
    by_cases hcolons : c = ':' ∧ d = ':'
    · obtain ⟨rfl, rfl⟩ := hcolons
      refine ⟨rfl, fun rest hrest => ?_⟩
      cases hrest
      exact @hbehind [':', ':'] tail h
    · have hnone : ∀ tail, afterNameMark? (c :: d :: tail) = none := by
        intro tail
        rw [afterNameMark?]
        · rintro rest heq
          exact hpoint (List.cons.inj heq).1
        · rintro rest heq
          injection heq with hc heq
          injection heq with hd heq
          exact hcolons ⟨hc, hd⟩
      rw [List.cons_append, List.cons_append, hnone, hnone]
      refine ⟨rfl, ?_⟩
      rintro _ ⟨⟩

/-- What goes on behind a point may be replaced by what goes on as well. -/
theorem isMemberAccess_append {cs more more' : List Char} (h : EndsWithPoint cs)
    (hmore : isMemberAccess more = isMemberAccess more') :
    isMemberAccess (cs ++ more) = isMemberAccess (cs ++ more') := by
  rw [isMemberAccess_eq (cs ++ more), isMemberAccess_eq (cs ++ more'), (afterName?_append h more).1,
    (afterName?_append h more').1]
  cases hname : afterName? cs with
  | none => rfl
  | some rest =>
      have hrest := (afterName?_append h more).2 rest hname
      have hle := afterName?_length_le hname
      cases rest with
      | nil =>
          obtain ⟨front, heq⟩ := hrest
          exact absurd heq.symm (List.append_ne_nil_of_right_ne_nil _ (List.cons_ne_nil _ _))
      | cons c tail =>
          have hmark := (afterNameMark?_append hrest more).1
          have hmark' := (afterNameMark?_append hrest more').1
          simp only [List.cons_append, Option.map_some] at hmark hmark' ⊢
          rw [hmark, hmark']
          cases hbehind : afterNameMark? (c :: tail) with
          | none => rfl
          | some behind =>
              have hlt := afterNameMark?_length_lt hbehind
              rcases (afterNameMark?_append hrest more).2 behind hbehind with rfl | hends
              · exact hmore
              · exact isMemberAccess_append hends hmore
  termination_by cs.length
  decreasing_by exact Nat.lt_of_lt_of_le hlt hle

theorem splitAtLastPoint_append (typeName : String) {name : String} (h : '.' ∉ name.toList) :
    splitAtLastPoint (typeName ++ "." ++ name) = (typeName, name) := by
  have hsplit : splitString '.' (typeName ++ "." ++ name) = splitString '.' typeName ++ [name] := by
    have hpoint : (typeName ++ "." ++ name).toList = typeName.toList ++ '.' :: name.toList := by
      simp only [String.toList_append, List.append_assoc]
      rfl
    rw [splitString, hpoint, splitOn_append_cons, splitOn_of_not_mem h, List.map_append,
      List.map_singleton, String.ofList_toList]
    rfl
  have hjoin : joinDots (splitString '.' typeName) = typeName := by
    rw [← String.toList_inj, toList_joinDots, splitString, List.map_map]
    have hid : String.toList ∘ String.ofList = id := funext fun _ => String.toList_ofList
    rw [hid, List.map_id, joinSegments_splitOn]
  rw [splitAtLastPoint, hsplit, List.dropLast_concat, hjoin, List.getLastD_eq_getLast?,
    List.getLast?_concat]
  rfl

theorem splitAtLastPoint_of_not_mem {name : String} (h : '.' ∉ name.toList) :
    splitAtLastPoint name = ("", name) := by
  rw [splitAtLastPoint, splitString, splitOn_of_not_mem h]
  exact congrArg (Prod.mk _) String.ofList_toList

/-- A name with its mark, as characters. -/
theorem isMemberAccess_mark {name : String} (h : isIdentifier name = true) :
    isMemberAccess ("@" ++ name).toList = isMemberAccess name.toList := by
  obtain ⟨c, cs, hcs, hc, _⟩ := isIdentifier_iff.1 h
  have hmark : '@' ≠ c := by
    rintro rfl
    exact absurd hc (by decide)
  have hplain : afterName? (c :: cs) = afterName? ('@' :: c :: cs) := by
    rw [afterName?, dropStart?, if_neg hmark]
    rfl
  rw [String.toList_append, hcs]
  change isMemberAccess ('@' :: c :: cs) = isMemberAccess (c :: cs)
  rw [isMemberAccess_eq, isMemberAccess_eq (c :: cs), hplain]

/-- **The last name of a reference** is taken without its mark. -/
theorem constantValue_mark (c : Compilation) (context : LookupContext) {front name : String}
    (hfront : front = "" ∨ ∃ typeName, front = typeName ++ ".") (hname : isIdentifier name = true) :
    constantValue c context (front ++ ("@" ++ name)) = constantValue c context (front ++ name) := by
  have hpoint : '.' ∉ name.toList :=
    fun hmem => absurd (isWord_of_mem_identifier hname hmem) (by decide)
  have hmarked : '.' ∉ ("@" ++ name).toList := by
    rw [String.toList_append, List.mem_append, not_or]
    exact ⟨by decide, hpoint⟩
  have hsame : ("@" ++ name).toList.dropWhile (· == '@') = name.toList.dropWhile (· == '@') := by
    rw [String.toList_append]
    rfl
  rcases hfront with rfl | ⟨typeName, rfl⟩
  · simp only [String.empty_append, constantValue, isMemberAccess_mark hname,
      splitAtLastPoint_of_not_mem hpoint, splitAtLastPoint_of_not_mem hmarked, hsame]
  · have haccess : isMemberAccess (typeName ++ "." ++ ("@" ++ name)).toList =
        isMemberAccess (typeName ++ "." ++ name).toList := by
      have hsplit : ∀ more : String,
          (typeName ++ "." ++ more).toList = (typeName.toList ++ ['.']) ++ more.toList := by
        intro more
        rw [String.toList_append, String.toList_append]
        rfl
      rw [hsplit, hsplit]
      exact isMemberAccess_append ⟨typeName.toList, rfl⟩ (isMemberAccess_mark hname)
    simp only [constantValue, haccess, splitAtLastPoint_append typeName hpoint,
      splitAtLastPoint_append typeName hmarked, hsame]

/-! ### Types that are written with a mark -/

/-- **A type that is written with a mark** is not found among types that have none in their
names. -/
theorem findType_of_mark {c : Compilation} (hc : ∀ t ∈ c.types, '@' ∉ t.qualifiedName.toList)
    {name : String} (h : '@' ∈ name.toList) (context : LookupContext) :
    c.findType name context = none := by
  have hno : ∀ other : String, '@' ∈ other.toList → ¬ Declared c other := by
    rintro other hmark ⟨t, ht, rfl⟩
    exact hc t ht hmark
  have hlead : ∀ lead : String, '@' ∈ (lead ++ "." ++ name).toList := by
    intro lead
    rw [String.toList_append]
    exact List.mem_append_right _ h
  rw [Compilation.findType]
  split
  · next absolute habsolute =>
    refine get?_eq_none_iff.2 (hno absolute ?_)
    rw [eq_append_of_afterStart? habsolute, String.toList_append] at h
    exact (List.mem_append.1 h).resolve_left (by decide)
  · refine findSome?_get?_eq_none fun other hother => hno other ?_
    rw [candidateNames, List.mem_append, List.mem_append, ← nearerNames,
      List.mem_singleton] at hother
    rcases hother with (hother | rfl) | hother
    · obtain ⟨lead, rfl⟩ := exists_lead_of_mem_nearerNames hother
      exact hlead lead
    · exact h
    · obtain ⟨lead, _, rfl⟩ := List.mem_map.1 hother
      exact hlead lead

/-! ### Attributes that are the same but for marks -/

/-- A value as it was, or a reference to a constant whose last name has got a mark. -/
inductive KeptValue (c : Compilation) (context : LookupContext) :
    ArgumentValue → ArgumentValue → Prop
  | same (v : ArgumentValue) : KeptValue c context v v
  | reference {front name : String} (hfront : front = "" ∨ ∃ typeName, front = typeName ++ ".")
      (hname : isIdentifier name = true)
      (hbound : (constantValue c context (front ++ name)).isSome) :
      KeptValue c context (.raw (front ++ name)) (.raw (front ++ ("@" ++ name)))

/-- Attributes whose types are written as they were, in the arguments and in front of the names of
constants. -/
structure KeepsTypes (c : Compilation) (context : LookupContext) (a a' : Attribute) : Prop where
  positional : a'.positional = a.positional
  named : List.Forall₂ (fun entry entry' => KeptValue c context entry.2 entry'.2) a.named a'.named

section

variable {c : Compilation} {context : LookupContext}

theorem KeptValue.bindConstant {v v' : ArgumentValue} (h : KeptValue c context v v') :
    LocalisedEnum.bindConstant c context v' = LocalisedEnum.bindConstant c context v := by
  cases h with
  | same => rfl
  | reference hfront hname hbound =>
      obtain ⟨value, hvalue⟩ := Option.isSome_iff_exists.1 hbound
      simp only [LocalisedEnum.bindConstant, constantValue_mark c context hfront hname, hvalue,
        Option.map_some, Option.getD_some]

theorem named_of_kept {named named' : List (String × ArgumentValue)}
    (h : NamedRemarked named named')
    (hkept : List.Forall₂ (fun entry entry' => KeptValue c context entry.2 entry'.2) named named') :
    (named'.map fun (name, value) => (name, bindConstant c context value)) =
      named.map fun (name, value) => (name, bindConstant c context value) := by
  induction h with
  | nil => rfl
  | cons hentry _ ih =>
      cases hkept with
      | cons hvalue hrest =>
          rw [List.map_cons, List.map_cons, ih hrest]
          simp only [hentry.1, hvalue.bindConstant]

/-- **Attributes that are the same but for marks** make the same requests, if they write types as
they were. -/
theorem sameRequest_of_remarked {a a' : Attribute} (h : a.Remarked a')
    (hkeeps : (Variant.ofAttributeName? a.shortName).isSome → KeepsTypes c context a a') :
    SameRequest c context a a' where
  variant := h.variant
  request v hv order := by
    have hkept := hkeeps (by rw [hv]; rfl)
    exact ofAttribute_congr order v hkept.positional (named_of_kept h.named hkept.named)

/-- An enum that has other attributes in the place of its own, wherever either of them stands. -/
theorem sameRequests_of_replaced {attributes attributes' : List Attribute} {e e' : EnumDeclaration}
    (hattributes : List.Forall₂ (SameRequest c context) attributes attributes')
    (h : ReplacedAttributes context attributes attributes' e.unplaced e'.unplaced) :
    SameRequests c e e' ∧ e'.location.unplaced = e.location.unplaced := by
  obtain ⟨kept, hsame, hkept⟩ : ∃ kept, e'.unplaced = { e.unplaced with attributes := kept } ∧
      List.Forall₂ (SameRequest c e.context) (e.attributes.map Attribute.unplaced) kept := by
    generalize hu : e.unplaced = u, hu' : e'.unplaced = u' at h
    cases h with
    | same =>
        subst hu
        exact ⟨e.attributes.map Attribute.unplaced, rfl,
          List.forall₂_same.2 fun a _ => ⟨rfl, fun _ _ _ => rfl⟩⟩
    | replaced hcontext hattributes' =>
        subst hu
        have hcontext' : e.context = context := hcontext
        have hown : e.attributes.map Attribute.unplaced = attributes := hattributes'
        rw [hcontext', hown]
        exact ⟨attributes', rfl, hattributes⟩
  obtain ⟨name, namespaceName, accessibility, members, own, containingTypes, location, usings⟩ := e
  obtain ⟨name', namespaceName', accessibility', members', own', containingTypes', location',
      usings'⟩ := e'
  simp only [EnumDeclaration.unplaced, EnumDeclaration.mk.injEq] at hsame
  obtain ⟨rfl, rfl, rfl, rfl, rfl, rfl, hlocation, rfl⟩ := hsame
  rw [List.forall₂_map_left_iff, List.forall₂_map_right_iff] at hkept
  refine ⟨.intro (hkept.imp fun a a' ha => ?_), hlocation⟩
  exact ⟨ha.variant, ha.request⟩

end

/-! ### Files with marks -/

/-- **A file with marks** in front of more names in the attributes of one declaration: the tokens in
front of it, its attributes without and with the marks, and the tokens behind them. -/
structure Marking (path text text' : String) where
  front : List Token
  sections : List Token
  sections' : List Token
  rest : List Token
  walk : Walk
  attributes : List Attribute
  tokens : bareTokens text.toList = front ++ (sections ++ rest)
  tokens' : bareTokens text'.toList = front ++ (sections' ++ rest)
  reaches : Walk.Reaches path .start (front ++ (sections ++ rest)) walk (sections ++ rest)
  reads : readSections path (sections ++ rest) = .ok (attributes, rest)
  marks : Remarked (sections ++ rest) (sections' ++ rest)

namespace Marking

variable {path text text' : String} (m : Marking path text text')

/-- Sections begin with a bracket, which has no mark. -/
theorem head?_eq : (m.sections' ++ m.rest).head? = (m.sections ++ m.rest).head? := by
  have hlength := m.marks.length_eq
  have hreads := m.reads
  rw [readSections_eq] at hreads
  split at hreads
  · next hbracket =>
    obtain ⟨t, ts, hts⟩ : ∃ t ts, m.sections ++ m.rest = t :: ts := by
      cases hall : m.sections ++ m.rest with
      | nil =>
          rw [hall] at hbracket
          cases hbracket
      | cons t ts => exact ⟨t, ts, rfl⟩
    have hmarks := m.marks
    rw [hts] at hmarks hbracket
    obtain ⟨t', ts', hts', ht, _⟩ := hmarks.exists_cons
    rw [hts, hts']
    cases ht with
    | refl => rfl
    | marked hname => exact absurd (beq_iff_eq.1 hbracket) (hname.text_ne (by decide))
  · -- without a section there is nothing to put marks into
    have hrest : m.sections ++ m.rest = m.rest := congrArg Prod.snd (Except.ok.inj hreads)
    have hnone : m.sections = [] := List.append_left_eq_self.1 hrest
    have hnone' : m.sections' = [] := by
      rw [hnone, List.length_append, List.nil_append] at hlength
      exact List.length_eq_zero_iff.1 (by omega)
    rw [hnone, hnone']

/-- The attributes are read with the marks as well. -/
theorem exists_attributes : ∃ attributes',
    readSections path (m.sections' ++ m.rest) = .ok (attributes', m.rest) ∧
    List.Forall₂ Attribute.Remarked m.attributes attributes' := by
  obtain ⟨attributes', rest', hread, hrelated, hrest⟩ :=
    readSections_remarked path _ m.marks m.attributes m.rest m.reads
  obtain ⟨used, hused, _⟩ := (takesFront_readSections path _).front hread
  obtain ⟨_, rfl⟩ := List.append_inj' hused hrest.length_eq.symm
  exact ⟨attributes', hread, hrelated⟩

/-- **The file with marks** is read as the file without them, but for the attributes that got
them. -/
theorem exists_file {file : SourceFile} (hfile : readSource path text = .ok file)
    {attributes' : List Attribute}
    (hread : readSections path (m.sections' ++ m.rest) = .ok (attributes', m.rest)) :
    ∃ file', readSource path text' = .ok file' ∧
      file'.unplaced = { file.unplaced with enums := file'.unplaced.enums } ∧
      List.Forall₂ (ReplacedAttributes m.walk.scope.context m.attributes attributes')
        file.unplaced.enums file'.unplaced.enums := by
  obtain ⟨done, hrun, hdone⟩ := run_of_readSource hfile
  rw [m.tokens] at hrun
  obtain ⟨done', hrun', halike⟩ := run_replacedAttributes hrun m.reaches m.head?_eq m.reads hread
  rw [← m.tokens'] at hrun'
  obtain ⟨file', hfile', hdone'⟩ := readSource_of_run hrun'
  refine ⟨file', hfile', ?_⟩
  rw [hdone, hdone']
  cases halike with
  | intro hscope _ =>
      cases hscope with
      | intro henums => exact ⟨rfl, henums⟩

end Marking

/-! ### The pass -/

/-- The enums of a compilation one of whose files has been replaced. -/
theorem forall₂_enums {R : EnumDeclaration → EnumDeclaration → Prop} (hrefl : ∀ e, R e e)
    {file file' : SourceFile} (h : List.Forall₂ R file.enums file'.enums)
    (before after : List SourceFile) :
    List.Forall₂ R (Compilation.mk (before ++ file :: after)).enums
      (Compilation.mk (before ++ file' :: after)).enums := by
  have hsame : ∀ files : List SourceFile,
      List.Forall₂ R (files.flatMap (·.enums)) (files.flatMap (·.enums)) :=
    fun files => List.forall₂_same.2 fun e _ => hrefl e
  simp only [Compilation.enums, List.flatMap_append, List.flatMap_cons]
  exact List.rel_append (hsame before) (List.rel_append h (hsame after))

/-- Names mean the same where a file has been replaced that differs in its enums and in places
only. -/
theorem sameMeaning_of_file {file file' : SourceFile}
    (h : file'.unplaced = { file.unplaced with enums := file'.unplaced.enums })
    (before after : List SourceFile) :
    SameMeaning ⟨before ++ file :: after⟩ ⟨before ++ file' :: after⟩ := by
  have htypes : file'.types.map TypeDeclaration.unplaced =
      file.types.map TypeDeclaration.unplaced :=
    congrArg SourceFile.types h
  have hglobal : file'.unplaced.globalUsings = file.unplaced.globalUsings := by rw [h]
  change file'.globalUsings = file.globalUsings at hglobal
  refine sameMeaning_of_unplaced ?_ ?_
  · simp only [Compilation.types, List.flatMap_append, List.flatMap_cons, List.map_append, htypes]
  · simp only [Compilation.globalUsings, List.flatMap_append, List.flatMap_cons, hglobal]

/-- **A pass over a file with marks.**  Where marks stand in front of other names than those of
types, the sources stay the same, and so do the diagnostics but for the places of enums that have
moved.  A type that is written with a mark is not found. -/
theorem runPass_marking (settings : Settings) {path text text' : String}
    (m : Marking path text text') {file : SourceFile} (hfile : readSource path text = .ok file)
    (before after : List SourceFile) :
    ∃ attributes' file', readSections path (m.sections' ++ m.rest) = .ok (attributes', m.rest) ∧
      readSource path text' = .ok file' ∧
      (List.Forall₂
          (fun a a' => (Variant.ofAttributeName? a.shortName).isSome →
            KeepsTypes ⟨before ++ file :: after⟩ m.walk.scope.context a a') m.attributes
          attributes' →
        (runPass settings ⟨before ++ file' :: after⟩).sources =
          (runPass settings ⟨before ++ file :: after⟩).sources ∧
        (runPass settings ⟨before ++ file' :: after⟩).diagnostics.items.map Diagnostic.unplaced =
          (runPass settings ⟨before ++ file :: after⟩).diagnostics.items.map Diagnostic.unplaced ∧
        (file'.enums.map (·.location) = file.enums.map (·.location) →
          (runPass settings ⟨before ++ file' :: after⟩).diagnostics.items =
            (runPass settings ⟨before ++ file :: after⟩).diagnostics.items)) ∧
      ((∀ t ∈ (Compilation.mk (before ++ file' :: after)).types, '@' ∉ t.qualifiedName.toList) →
        ∀ a ∈ attributes', ∀ value ∈ a.positional ++ a.named.map Prod.snd,
          ∀ name ∈ value.typeName?, '@' ∈ name.toList →
            (Compilation.mk (before ++ file' :: after)).findType name m.walk.scope.context =
              none) := by
  obtain ⟨attributes', hread, hrelated⟩ := m.exists_attributes
  obtain ⟨file', hfile', hunplaced, henums⟩ := m.exists_file hfile hread
  refine ⟨attributes', file', hread, hfile', fun hkeeps => ?_, ?_⟩
  · have hmeaning := sameMeaning_of_file hunplaced before after
    have hrequests :=
      hrelated.mp (fun _ _ hmarks hkept => sameRequest_of_remarked hmarks hkept) hkeeps
    rw [SourceFile.unplaced, SourceFile.unplaced, List.forall₂_map_left_iff,
      List.forall₂_map_right_iff] at henums
    have hpairs := henums.imp fun _ _ h => sameRequests_of_replaced hrequests h
    refine ⟨?_, ?_, fun hplaces => ?_⟩
    · exact runPass_sources_sameRequests hmeaning
        (forall₂_enums (SameRequests.refl _) (hpairs.imp fun _ _ h => h.1) before after)
    · refine runPass_diagnostics_sameRequests hmeaning
        (forall₂_enums (fun e => ⟨.refl _ e, fun _ => rfl⟩) ?_ before after)
      refine hpairs.imp fun e e' h => ⟨h.1, fun d => ?_⟩
      simp only [Diagnostic.movedTo, Diagnostic.unplaced, Option.map_map, Function.comp_def, h.2]
    · rw [← List.forall₂_eq_eq_eq, List.forall₂_map_left_iff, List.forall₂_map_right_iff] at hplaces
      have hstay := hpairs.mp (fun e e' h (hplace : e'.location = e.location) =>
        (⟨h.1, fun d => congrArg (Diagnostic.movedTo · d) hplace⟩ : SameRequests _ e e' ∧
          ∀ d : Diagnostic, id (d.movedTo e'.location) = id (d.movedTo e.location))) hplaces.flip
      have hsame := @runPass_diagnostics_sameRequests settings _ _ hmeaning _ id
        (forall₂_enums (fun e => ⟨.refl _ e, fun _ => rfl⟩) hstay before after)
      rwa [List.map_id, List.map_id] at hsame
  · intro hplain a _ value _ name _ hmark
    exact findType_of_mark hplain hmark _

/-- The characters of a literal are read without decoding it. -/
theorem readSource_ofList (path : String) (cs : List Char) :
    readSource path (String.ofList cs) = readTokens path (tokeniseFrom .start cs) := by
  rw [readSource, tokenise, String.toList_ofList]

/-- An enum with an attribute that names a type and a constant. -/
def unmarkedText : String :=
  String.ofList
    ("[WithLiteralLocalisation(typeof(K),DefaultPropertyName=K.D)]enum E\x7bA\x7d".toList ++
      "class K\x7bconst string D=\"F\";static string F=>D;\x7d".toList)

/-- The same enum with marks in front of other names than those of types. -/
def markedText : String :=
  String.ofList
    ("[@WithLiteralLocalisation(typeof(K),@DefaultPropertyName=K.@D)]enum E\x7bA\x7d".toList ++
      "class K\x7bconst string D=\"F\";static string F=>D;\x7d".toList)

/-- The same enum with a mark in front of the type. -/
def markedTypeText : String :=
  String.ofList
    ("[WithLiteralLocalisation(typeof(@K),DefaultPropertyName=K.D)]enum E\x7bA\x7d".toList ++
      "class K\x7bconst string D=\"F\";static string F=>D;\x7d".toList)

/-- The tokens of the attribute. -/
def attributedTokens (attributeName typeName argumentName constantName : String) : List Token :=
  [⟨.operator, "[", 0, 0⟩, ⟨.identifier, attributeName, 0, 0⟩, ⟨.operator, "(", 0, 0⟩,
    ⟨.identifier, "typeof", 0, 0⟩, ⟨.operator, "(", 0, 0⟩, ⟨.identifier, typeName, 0, 0⟩,
    ⟨.operator, ")", 0, 0⟩, ⟨.operator, ",", 0, 0⟩, ⟨.identifier, argumentName, 0, 0⟩,
    ⟨.operator, "=", 0, 0⟩, ⟨.identifier, "K", 0, 0⟩, ⟨.operator, ".", 0, 0⟩,
    ⟨.identifier, constantName, 0, 0⟩, ⟨.operator, ")", 0, 0⟩, ⟨.operator, "]", 0, 0⟩]

/-- The tokens behind it. -/
def tokensBehind : List Token :=
  [⟨.identifier, "enum", 0, 0⟩, ⟨.identifier, "E", 0, 0⟩, ⟨.operator, "\x7b", 0, 0⟩,
    ⟨.identifier, "A", 0, 0⟩, ⟨.operator, "\x7d", 0, 0⟩, ⟨.identifier, "class", 0, 0⟩,
    ⟨.identifier, "K", 0, 0⟩, ⟨.operator, "\x7b", 0, 0⟩, ⟨.identifier, "const", 0, 0⟩,
    ⟨.identifier, "string", 0, 0⟩, ⟨.identifier, "D", 0, 0⟩, ⟨.operator, "=", 0, 0⟩,
    ⟨.string, "\"F\"", 0, 0⟩, ⟨.operator, ";", 0, 0⟩, ⟨.identifier, "static", 0, 0⟩,
    ⟨.identifier, "string", 0, 0⟩, ⟨.identifier, "F", 0, 0⟩, ⟨.operator, "=>", 0, 0⟩,
    ⟨.identifier, "D", 0, 0⟩, ⟨.operator, ";", 0, 0⟩, ⟨.operator, "\x7d", 0, 0⟩]

/-- The attribute as it is read without places. -/
def placelessAttribute (typeName constantName : String) : Attribute :=
  ⟨"WithLiteralLocalisation", [.typeOf typeName],
    [("DefaultPropertyName", .raw ("K." ++ constantName))], some ⟨"File0.cs", 0, 0⟩⟩

/-- What is read of it, where the type stands in the given column. -/
def attributedFile (typeName constantName : String) (column : Nat) : SourceFile where
  path := "File0.cs"
  usings := []
  globalUsings := []
  enums :=
    [{ name := "E"
       namespaceName := ""
       accessibility := .internalLevel
       members := ["A"]
       attributes :=
         [{ placelessAttribute typeName constantName with location := some ⟨"File0.cs", 1, 2⟩ }]
       containingTypes := []
       location := ⟨"File0.cs", 1, 1⟩
       usings := [] }]
  types :=
    [{ name := "K"
       namespaceName := ""
       kind := "class"
       accessibility := .internalLevel
       properties := [⟨"F", "string", true⟩]
       containingTypes := []
       location := ⟨"File0.cs", 1, column⟩
       constants := [("D", .ofString "F")] }]

/-- What is read of the three texts. -/
theorem readSource_texts :
    readSource "File0.cs" unmarkedText = .ok (attributedFile "K" "D" 70) ∧
      readSource "File0.cs" markedText = .ok (attributedFile "K" "@D" 73) ∧
      readSource "File0.cs" markedTypeText = .ok (attributedFile "@K" "D" 71) :=
  ⟨(readSource_ofList _ _).trans (by decide +kernel),
    (readSource_ofList _ _).trans (by decide +kernel),
    (readSource_ofList _ _).trans (by decide +kernel)⟩

/-- The marks in front of other names than those of types. -/
def nameMarking : Marking "File0.cs" unmarkedText markedText where
  front := []
  sections := attributedTokens "WithLiteralLocalisation" "K" "DefaultPropertyName" "D"
  sections' := attributedTokens "@WithLiteralLocalisation" "K" "@DefaultPropertyName" "@D"
  rest := tokensBehind
  walk := .start
  attributes := [placelessAttribute "K" "D"]
  tokens := (congrArg bareTokens String.toList_ofList).trans (by decide +kernel)
  tokens' := (congrArg bareTokens String.toList_ofList).trans (by decide +kernel)
  reaches := .refl _ _
  reads := by decide +kernel
  marks := by decide +kernel

/-- The mark in front of the type. -/
def typeMarking : Marking "File0.cs" unmarkedText markedTypeText where
  front := []
  sections := attributedTokens "WithLiteralLocalisation" "K" "DefaultPropertyName" "D"
  sections' := attributedTokens "WithLiteralLocalisation" "@K" "DefaultPropertyName" "D"
  rest := tokensBehind
  walk := .start
  attributes := [placelessAttribute "K" "D"]
  tokens := nameMarking.tokens
  tokens' := (congrArg bareTokens String.toList_ofList).trans (by decide +kernel)
  reaches := .refl _ _
  reads := nameMarking.reads
  marks := by decide +kernel

/-- Marks in front of other names change nothing, and the mark in front of the type takes the source
away. -/
theorem runPass_marking_names :
    readSource "File0.cs" unmarkedText = .ok (attributedFile "K" "D" 70) ∧
    (runPass .standard ⟨[attributedFile "K" "D" 70]⟩).diagnostics.items = [] ∧
    (∃ file', readSource "File0.cs" markedText = .ok file' ∧
      (runPass .standard ⟨[file']⟩).sources =
        (runPass .standard ⟨[attributedFile "K" "D" 70]⟩).sources ∧
      (runPass .standard ⟨[file']⟩).diagnostics.items = []) ∧
    ∃ file', readSource "File0.cs" markedTypeText = .ok file' ∧
      (Compilation.mk [file']).findType "@K" ⟨"", [], []⟩ = none ∧
      (runPass .standard ⟨[file']⟩).diagnostics.items.map (·.id) = ["ESG0002", "ESG0001"] := by
  obtain ⟨hfile, hmarked, hmarkedType⟩ := readSource_texts
  have hclean : (runPass .standard ⟨[attributedFile "K" "D" 70]⟩).diagnostics.items = [] := by
    decide +kernel
  refine ⟨hfile, hclean, ?_, ?_⟩
  · obtain ⟨attributes', file', hread, hfile', hkept, _⟩ :=
      runPass_marking .standard nameMarking hfile [] []
    have hattributes : readSections "File0.cs" (nameMarking.sections' ++ nameMarking.rest) =
        .ok ([placelessAttribute "K" "@D"], nameMarking.rest) := by decide +kernel
    rw [hattributes] at hread
    cases hread
    rw [hmarked] at hfile'
    cases hfile'
    have hreference : KeptValue ⟨[attributedFile "K" "D" 70]⟩ ⟨"", [], []⟩ (.raw ("K." ++ "D"))
        (.raw ("K." ++ ("@" ++ "D"))) :=
      .reference (.inr ⟨"K", rfl⟩) (by decide) (by decide +kernel)
    obtain ⟨hsources, _, hdiagnostics⟩ := hkept (.cons (fun _ => ⟨rfl, .cons hreference .nil⟩) .nil)
    exact ⟨_, hmarked, hsources, (hdiagnostics rfl).trans hclean⟩
  · obtain ⟨attributes', file', hread, hfile', _, hlost⟩ :=
      runPass_marking .standard typeMarking hfile [] []
    have hattributes : readSections "File0.cs" (typeMarking.sections' ++ typeMarking.rest) =
        .ok ([placelessAttribute "@K" "D"], typeMarking.rest) := by decide +kernel
    rw [hattributes] at hread
    cases hread
    rw [hmarkedType] at hfile'
    cases hfile'
    have hnone := hlost (by decide) _ (.head _) (.typeOf "@K") (by decide) "@K" rfl (by decide)
    exact ⟨_, hmarkedType, hnone, by decide +kernel⟩

end LocalisedEnum

import LocalisedEnum.Localisation.Variant
import LocalisedEnum.Proofs.Declaration.Marks
import Mathlib.Data.List.Forall2

/-!
**Attributes with marked names.**

The marks in front of the names of attributes and arguments are taken off, and so is the mark of a
quoted name.  In the text of everything else they stay: in the type of `typeof(…)`, and in
expressions without a value.  So attributes with more marks are read wherever they are read with
fewer, and differ in these texts only.

Main definitions:

* `ArgumentValue.Remarked`, `Attribute.Remarked` — values and attributes that differ in the marks of
  such texts.

Main results:

* `evaluate_remarked` — **an expression** with more marks;
* `readAttribute_remarked`, `readSections_remarked` — **the attributes of a declaration** with more
  marks.
-/

set_option autoImplicit false
set_option relaxedAutoImplicit false

namespace LocalisedEnum

variable {ts ts' : List Token}

/-! ### Expressions -/

/-- Values that differ in the marks of the text that they keep. -/
inductive ArgumentValue.Remarked : ArgumentValue → ArgumentValue → Prop
  | refl (v : ArgumentValue) : ArgumentValue.Remarked v v
  | typeOf {ts ts' : List Token} (h : LocalisedEnum.Remarked ts ts') :
      ArgumentValue.Remarked (.typeOf (withoutStart globalMark (joinTokens ts)))
        (.typeOf (withoutStart globalMark (joinTokens ts')))
  | raw {ts ts' : List Token} (h : LocalisedEnum.Remarked ts ts') :
      ArgumentValue.Remarked (.raw (joinTokens ts)) (.raw (joinTokens ts'))

theorem operand?_remarked {operator : String}
    (hoperator : IsFixed operator ∨ (operator, "(") ∈ wordsBefore) (h : Remarked ts ts') :
    Option.Rel Remarked (operand? operator ts) (operand? operator ts') := by
  match ts with
  | [] =>
      cases h
      exact .none
  | [t] =>
      obtain ⟨t', ts', rfl, _, hts⟩ := h.exists_cons
      cases hts
      exact .none
  | t :: opening :: rest =>
      obtain ⟨t', ts', rfl, ht, hts⟩ := h.exists_cons
      obtain ⟨opening', rest', rfl, hopening, hrest⟩ := hts.exists_cons
      have hopening := hopening.text_eq_iff (show IsFixed "(" by decide)
      have hcondition :
          (t'.text = operator ∧ opening'.text = "(" ∧ rest'.getLast?.any (·.text == ")")) ↔
            (t.text = operator ∧ opening.text = "(" ∧ rest.getLast?.any (·.text == ")")) := by
        rw [hopening, hrest.last_eq_iff (by decide)]
        by_cases hopen : opening.text = "("
        · have hfirst : t'.text = operator ↔ t.text = operator :=
            hoperator.elim ht.text_eq_iff fun hword => h.word_eq_iff (hopen ▸ hword)
          rw [hfirst]
        · simp only [hopen, false_and, and_false]
      simp only [operand?, hcondition]
      split
      · exact .some hrest.dropLast
      · exact .none

theorem typeOperand?_remarked (h : Remarked ts ts') :
    (typeOperand? ts = none ∧ typeOperand? ts' = none) ∨
      ∃ inside inside', Remarked inside inside' ∧
        typeOperand? ts = some (withoutStart globalMark (joinTokens inside)) ∧
        typeOperand? ts' = some (withoutStart globalMark (joinTokens inside')) := by
  rw [typeOperand?, typeOperand?]
  match operand? "typeof" ts, operand? "typeof" ts', operand?_remarked (.inl (by decide)) h with
  | _, _, .none => exact .inl ⟨rfl, rfl⟩
  | _, _, .some hinside => exact .inr ⟨_, _, hinside, rfl, rfl⟩

/-- The names among tokens are the same without their marks. -/
theorem names_remarked (h : Remarked ts ts') :
    (ts'.filter (·.kind = .identifier)).map Token.plain =
      (ts.filter (·.kind = .identifier)).map Token.plain := by
  induction ts generalizing ts' with
  | nil =>
      cases h
      rfl
  | cons t ts ih =>
      obtain ⟨t', ts', rfl, ht, hts⟩ := h.exists_cons
      rw [List.filter_cons, List.filter_cons, ht.kind]
      split
      · rw [List.map_cons, List.map_cons, ht.plain, ih hts]
      · exact ih hts

/-- **A quoted name** is read without its marks. -/
theorem nameOperand?_remarked (h : Remarked ts ts') : nameOperand? ts' = nameOperand? ts := by
  have hlast : ∀ inside : List Token, (do
      let last ← (inside.filter (·.kind = .identifier)).getLast?
      return last.plain : Option String) =
        ((inside.filter (·.kind = .identifier)).map Token.plain).getLast? := by
    intro inside
    rw [List.getLast?_map]
    cases (inside.filter (·.kind = .identifier)).getLast? <;> rfl
  simp only [nameOperand?, hlast]
  match operand? "nameof" ts, operand? "nameof" ts', operand?_remarked (.inr (by decide)) h with
  | _, _, .none => rfl
  | _, _, .some hinside => exact congrArg List.getLast? (names_remarked hinside)

/-- A name is no literal, with or without a mark. -/
theorem SameName.literalValue {t t' : Token} (h : SameName t t') :
    t'.literalValue = t.literalValue := by
  cases h with
  | refl => rfl
  | marked hname => simp only [Token.literalValue, Token.marked, hname.kind]

theorem SameName.evaluateToken {t t' : Token} (h : SameName t t') :
    LocalisedEnum.evaluateToken t' = LocalisedEnum.evaluateToken t := by
  cases h with
  | refl => rfl
  | marked hname =>
      -- what has a value by its text is a keyword
      have hnone : ∀ u : Token, u.kind = .identifier → u.text ≠ "null" → u.text ≠ "true" →
          u.text ≠ "false" → LocalisedEnum.evaluateToken u = .ok none := by
        intro u hkind hnull htrue hfalse
        simp only [LocalisedEnum.evaluateToken, hkind, TokenKind.isStringLiteral, hnull, htrue,
          hfalse, Bool.false_eq_true, reduceCtorEq, if_false]
        rfl
      rw [hnone t hname.kind (hname.text_ne (by decide)) (hname.text_ne (by decide))
          (hname.text_ne (by decide)),
        hnone t.marked hname.kind (marked_text_ne t (by decide)) (marked_text_ne t (by decide))
          (marked_text_ne t (by decide))]

theorem negatedNumeral?_remarked (h : Remarked ts ts') :
    negatedNumeral? ts' = negatedNumeral? ts := by
  match ts with
  | [] =>
      cases h
      rfl
  | [_] =>
      obtain ⟨_, _, rfl, _, hts⟩ := h.exists_cons
      cases hts
      rfl
  | [sign, t] =>
      obtain ⟨sign', _, rfl, hsign, hts⟩ := h.exists_cons
      obtain ⟨t', _, rfl, ht, hts⟩ := hts.exists_cons
      cases hts
      simp only [negatedNumeral?, hsign.text_eq_iff (show IsFixed "-" by decide), ht.kind]
      split
      · next hnumber =>
        have hkind : t.kind ≠ .identifier := by
          rw [hnumber.2]
          decide
        rw [ht.eq_of_kind hkind]
      · rfl
  | _ :: _ :: _ :: _ =>
      obtain ⟨_, _, rfl, _, hts⟩ := h.exists_cons
      obtain ⟨_, _, rfl, _, hts⟩ := hts.exists_cons
      obtain ⟨_, _, rfl, _, _⟩ := hts.exists_cons
      rfl

theorem summands?_remarked (h : Remarked ts ts') :
    Option.Rel (List.Forall₂ SameName) (summands? ts) (summands? ts') := by
  fun_induction summands? ts generalizing ts' with
  | case1 =>
      cases h
      exact .none
  | case2 t =>
      obtain ⟨t', _, rfl, ht, hts⟩ := h.exists_cons
      cases hts
      exact .some (.cons ht .nil)
  | case3 t plus rest hplus ih =>
      obtain ⟨t', _, rfl, ht, hts⟩ := h.exists_cons
      obtain ⟨plus', rest', rfl, hplus', hrest⟩ := hts.exists_cons
      rw [summands?, if_pos ((hplus'.text_eq_iff (by decide)).2 hplus)]
      match summands? rest, summands? rest', ih hrest with
      | _, _, .none => exact .none
      | _, _, .some hmore => exact .some (.cons ht hmore)
  | case4 t plus rest hplus =>
      obtain ⟨t', _, rfl, ht, hts⟩ := h.exists_cons
      obtain ⟨plus', rest', rfl, hplus', hrest⟩ := hts.exists_cons
      rw [summands?, if_neg (mt (hplus'.text_eq_iff (by decide)).1 hplus)]
      exact .none

theorem concatenation_sameName {operands operands' : List Token}
    (h : List.Forall₂ SameName operands operands') :
    concatenation operands' = concatenation operands := by
  induction h with
  | nil => rfl
  | cons ht _ ih => rw [concatenation, concatenation, ht.literalValue, ih]

theorem literalSum_remarked (h : Remarked ts ts') : literalSum ts' = literalSum ts := by
  have hsummands := summands?_remarked h
  rw [literalSum, literalSum]
  generalize summands? ts = operands, summands? ts' = operands' at hsummands
  cases hsummands with
  | none => rfl
  | some hoperands => exact concatenation_sameName hoperands

theorem evaluateCompound_remarked (h : Remarked ts ts') {v : ArgumentValue}
    (hv : evaluateCompound ts = .ok v) : ∃ v', evaluateCompound ts' = .ok v' ∧ v.Remarked v' := by
  rw [evaluateCompound] at hv ⊢
  rw [negatedNumeral?_remarked h, literalSum_remarked h]
  split at hv
  · cases hv
    exact ⟨v, rfl, .refl v⟩
  · obtain ⟨sum, hsum, hv⟩ := bind_eq_ok.1 hv
    rw [hsum]
    cases sum with
    | some text =>
        cases hv
        exact ⟨.text text, rfl, .refl _⟩
    | none =>
        cases hv
        exact ⟨.raw (joinTokens ts'), rfl, .raw h⟩

theorem joinTokens_singleton (t : Token) : joinTokens [t] = t.text := by
  rw [joinTokens, joinTokensAfter, String.append_empty]

/-- **An expression** with more marks has the same value, but for the marks in the text that it
keeps. -/
theorem evaluate_remarked (h : Remarked ts ts') {v : ArgumentValue} (hv : evaluate ts = .ok v) :
    ∃ v', evaluate ts' = .ok v' ∧ v.Remarked v' := by
  rcases typeOperand?_remarked h with ⟨hno, hno'⟩ | ⟨inside, inside', hinside, htype, htype'⟩
  · have hname := nameOperand?_remarked h
    cases hquoted : nameOperand? ts with
    | some name =>
        rw [hquoted] at hname
        simp only [evaluate, hno, hquoted] at hv
        cases hv
        exact ⟨.text (.ofString name), by simp only [evaluate, hno', hname], .refl _⟩
    | none =>
        rw [hquoted] at hname
        match ts with
        | [] =>
            cases h
            exact ⟨v, hv, .refl v⟩
        | [t] =>
            obtain ⟨t', _, rfl, ht, hts⟩ := h.exists_cons
            cases hts
            simp only [evaluate, hno, hquoted] at hv
            obtain ⟨value, hvalue, hv⟩ := bind_eq_ok.1 hv
            simp only [evaluate, hno', hname, ht.evaluateToken, hvalue]
            cases value with
            | some value =>
                cases hv
                exact ⟨value, rfl, .refl _⟩
            | none =>
                cases hv
                refine ⟨.raw t'.text, rfl, ?_⟩
                have hraw := ArgumentValue.Remarked.raw h
                rwa [joinTokens_singleton, joinTokens_singleton] at hraw
        | t :: next :: rest =>
            obtain ⟨t', _, rfl, _, hts⟩ := h.exists_cons
            obtain ⟨next', rest', rfl, _, _⟩ := hts.exists_cons
            simp only [evaluate, hno, hquoted] at hv
            simp only [evaluate, hno', hname]
            exact evaluateCompound_remarked h hv
  · simp only [evaluate, htype] at hv
    cases hv
    exact ⟨_, by simp only [evaluate, htype'], .typeOf hinside⟩

/-! ### Arguments -/

theorem nesting_sameName {t t' : Token} (h : SameName t t') :
    nestingWithAngles t' = nestingWithAngles t := by
  have hcontains : ∀ texts : List String, (∀ text ∈ texts, IsFixed text) →
      texts.contains t'.text = texts.contains t.text := by
    intro texts hfixed
    rw [Bool.eq_iff_iff, List.contains_iff_mem, List.contains_iff_mem]
    constructor
    · intro hmem
      exact (h.text_eq_iff (hfixed _ hmem)).1 rfl ▸ hmem
    · intro hmem
      exact (h.text_eq_iff (hfixed _ hmem)).2 rfl ▸ hmem
  rw [nestingWithAngles, nestingWithAngles, hcontains _ (by decide), hcontains _ (by decide)]

theorem splitArgumentsFrom_remarked (depth : Int) {current current' : List Token}
    (h : Remarked (current ++ ts) (current' ++ ts')) (hlength : current'.length = current.length) :
    List.Forall₂ Remarked (splitArgumentsFrom depth current ts)
      (splitArgumentsFrom depth current' ts') := by
  induction ts generalizing depth current current' ts' with
  | nil =>
      obtain ⟨hcurrent, hnil⟩ := h.of_append hlength
      cases hnil
      rw [splitArgumentsFrom, splitArgumentsFrom, hcurrent.isEmpty_eq]
      split
      · exact .nil
      · exact .cons hcurrent .nil
  | cons t ts ih =>
      obtain ⟨hcurrent, hts⟩ := h.of_append hlength
      obtain ⟨t', ts', rfl, ht, hts⟩ := hts.exists_cons
      simp only [splitArgumentsFrom, nesting_sameName ht,
        ht.text_eq_iff (show IsFixed "," by decide)]
      split
      · exact .cons hcurrent (@ih _ _ [] [] hts rfl)
      · refine ih _ ?_ ?_
        · rwa [List.append_assoc, List.append_assoc]
        · rw [List.length_append, List.length_append, hlength]
          rfl

/-- **The arguments** of a list with more marks. -/
theorem splitArguments_remarked (h : Remarked ts ts') :
    List.Forall₂ Remarked (splitArguments ts) (splitArguments ts') :=
  @splitArgumentsFrom_remarked ts ts' 0 [] [] h rfl

/-- Named values with the same names that differ in marks. -/
def NamedRemarked (named named' : List (String × ArgumentValue)) : Prop :=
  List.Forall₂ (fun entry entry' => entry'.1 = entry.1 ∧ entry.2.Remarked entry'.2) named named'

theorem assign_remarked {named named' : List (String × ArgumentValue)}
    (h : NamedRemarked named named') (key : String) {v v' : ArgumentValue} (hv : v.Remarked v') :
    NamedRemarked (assign key v named) (assign key v' named') := by
  induction h with
  | nil => exact .cons ⟨rfl, hv⟩ .nil
  | @cons entry entry' rest rest' hentry hrest ih =>
      obtain ⟨name, value⟩ := entry
      obtain ⟨name', value'⟩ := entry'
      obtain ⟨rfl, hvalue⟩ := hentry
      simp only [assign]
      split
      · exact .cons ⟨rfl, hv⟩ hrest
      · exact .cons ⟨rfl, hvalue⟩ ih

/-- **Attributes that differ in marks**: they ask for the same variant, and have the same arguments
but for the marks in the text that these keep. -/
structure Attribute.Remarked (a a' : Attribute) : Prop where
  variant : Variant.ofAttributeName? a'.shortName = Variant.ofAttributeName? a.shortName
  positional : List.Forall₂ ArgumentValue.Remarked a.positional a'.positional
  named : NamedRemarked a.named a'.named

section

variable {a a' b : Attribute} (h : a.Remarked a')
include h

theorem addPositional_remarked (hts : Remarked ts ts')
    (hread : (do return { a with positional := a.positional ++ [← evaluate ts] } :
          Except EscapeError Attribute) =
      .ok b) :
    ∃ b',
      (do return { a' with positional := a'.positional ++ [← evaluate ts'] } :
            Except EscapeError Attribute) =
        .ok b' ∧ b.Remarked b' := by
  obtain ⟨v, hv, heq⟩ := bind_eq_ok.1 hread
  cases heq
  obtain ⟨v', hv', hmarks⟩ := evaluate_remarked hts hv
  refine ⟨_, bind_eq_ok.2 ⟨v', hv', rfl⟩, h.variant, ?_, h.named⟩
  exact List.rel_append h.positional (.cons hmarks .nil)

theorem withArgument_remarked {argument argument' : List Token}
    (hargument : Remarked argument argument') (hread : a.withArgument argument = .ok b) :
    ∃ b', a'.withArgument argument' = .ok b' ∧ b.Remarked b' := by
  match argument with
  | [] =>
      cases hargument
      exact addPositional_remarked h .nil hread
  | [t] =>
      obtain ⟨t', _, rfl, _, hts⟩ := hargument.exists_cons
      cases hts
      exact addPositional_remarked h hargument hread
  | key :: mark :: value =>
      obtain ⟨key', _, rfl, hkey, hts⟩ := hargument.exists_cons
      obtain ⟨mark', value', rfl, hmark, hvalue⟩ := hts.exists_cons
      simp only [Attribute.withArgument] at hread ⊢
      simp only [hkey.kind, hmark.text_eq_iff (show IsFixed "=" by decide),
        hmark.text_eq_iff (show IsFixed ":" by decide)]
      split at hread
      · next hnamed =>
        rw [if_pos hnamed]
        obtain ⟨v, hv, heq⟩ := bind_eq_ok.1 hread
        cases heq
        obtain ⟨v', hv', hmarks⟩ := evaluate_remarked hvalue hv
        refine ⟨_, bind_eq_ok.2 ⟨v', hv', rfl⟩, h.variant, h.positional, ?_⟩
        rw [hkey.plain]
        exact assign_remarked h.named key.plain hmarks
      · next hnamed =>
        rw [if_neg hnamed]
        split at hread
        · next hlabel =>
          rw [if_pos hlabel]
          exact addPositional_remarked h hvalue hread
        · next hlabel =>
          rw [if_neg hlabel]
          exact addPositional_remarked h hargument hread

end

theorem withArguments_remarked {arguments arguments' : List (List Token)}
    (harguments : List.Forall₂ Remarked arguments arguments') {a a' b : Attribute}
    (h : a.Remarked a') (hread : arguments.foldlM Attribute.withArgument a = .ok b) :
    ∃ b', arguments'.foldlM Attribute.withArgument a' = .ok b' ∧ b.Remarked b' := by
  induction harguments generalizing a a' with
  | nil =>
      cases hread
      exact ⟨a', rfl, h⟩
  | cons hargument _ ih =>
      rw [List.foldlM_cons] at hread
      obtain ⟨next, hnext, hread⟩ := bind_eq_ok.1 hread
      obtain ⟨next', hnext', hmarks⟩ := withArgument_remarked h hargument hnext
      obtain ⟨b', hb', hb⟩ := ih hmarks hread
      refine ⟨b', ?_, hb⟩
      rw [List.foldlM_cons]
      exact bind_eq_ok.2 ⟨next', hnext', hb'⟩

/-! ### Attributes -/

/-- The last character of a text is in its last segment, unless it is the separator. -/
theorem mem_last_splitOn {separator c : Char} (hc : c ≠ separator) (cs : List Char) :
    ∃ last, (splitOn separator (cs ++ [c])).getLast? = some last ∧ c ∈ last := by
  induction cs with
  | nil =>
      rw [List.nil_append, splitOn, if_neg hc]
      exact ⟨[c], rfl, List.mem_singleton_self c⟩
  | cons first cs ih =>
      obtain ⟨last, hlast, hmem⟩ := ih
      rw [List.cons_append, splitOn]
      split
      · exact ⟨last, by rw [List.getLast?_cons, hlast]; rfl, hmem⟩
      · -- the first segment is the last one where there is no other
        rcases hsegments : splitOn separator (cs ++ [c]) with _ | ⟨segment, _ | ⟨next, more⟩⟩
        · exact absurd hsegments (splitOn_ne_nil _ _)
        · rw [hsegments] at hlast
          cases hlast
          exact ⟨first :: segment, rfl, List.mem_cons_of_mem _ hmem⟩
        · rw [hsegments, List.getLast?_cons_cons] at hlast
          exact ⟨last, by rw [extendSegment, List.getLast?_cons_cons, hlast], hmem⟩

/-- A name with type arguments is the name of no attribute that asks for a variant. -/
theorem ofAttributeName?_of_angle (name : String) :
    Variant.ofAttributeName? (shortAttributeName (name ++ ">")) = none := by
  have hof : ∀ {cs : List Char}, '>' ∈ cs → '>' ∈ (String.ofList cs).toList := by
    intro cs hmem
    rwa [String.toList_ofList]
  have hlast : '>' ∈ (lastSegment '.' (name ++ ">")).toList := by
    obtain ⟨last, hlast, hmem⟩ := mem_last_splitOn (show '>' ≠ '.' by decide) name.toList
    rw [lastSegment, splitString, String.toList_append, List.getLastD_eq_getLast?,
      List.getLast?_map]
    change '>' ∈ (((splitOn '.' (name.toList ++ ['>'])).getLast?.map String.ofList).getD "").toList
    rw [hlast]
    exact hof hmem
  have hshort : '>' ∈ (withoutStart globalMark (lastSegment '.' (name ++ ">"))).toList := by
    rw [withoutStart, afterStart?]
    cases hdrop : dropStart? globalMark.toList (lastSegment '.' (name ++ ">")).toList with
    | none => exact hlast
    | some rest =>
        rw [dropStart?_eq_some_iff.1 hdrop] at hlast
        exact hof ((List.mem_append.1 hlast).resolve_left (by decide))
  have hname : '>' ∈ (shortAttributeName (name ++ ">")).toList := by
    rw [shortAttributeName]
    split
    · exact hshort
    · rw [beforeEnd?, dropEnd?]
      cases hdrop : dropStart? attributeEnding.toList.reverse
          (withoutStart globalMark (lastSegment '.' (name ++ ">"))).toList.reverse with
      | none => exact hshort
      | some rest =>
          rw [← List.mem_reverse, dropStart?_eq_some_iff.1 hdrop] at hshort
          exact hof (List.mem_reverse.2 ((List.mem_append.1 hshort).resolve_left (by decide)))
  rw [Variant.ofAttributeName?, List.find?_eq_none]
  have hplain : ∀ v ∈ Variant.all, '>' ∉ v.attributeName.toList := by decide
  intro v hv heq
  rw [← beq_iff_eq.1 heq] at hname
  exact hplain v hv hname

/-- Names of attributes that ask for the same variant. -/
def SameVariant (name name' : String) : Prop :=
  Variant.ofAttributeName? (shortAttributeName name') =
    Variant.ofAttributeName? (shortAttributeName name)

theorem withTypeArguments_remarked (name : String) (h : Remarked ts ts') :
    ReadAlike SameVariant (withTypeArguments name ts) (withTypeArguments name ts') := by
  rw [withTypeArguments, withTypeArguments, h.headIs_eq (by decide)]
  split
  · have hgroup := takeGroup_remarked (show IsFixed "<" by decide) (show IsFixed ">" by decide) h
    cases htake : takeGroup "<" ">" ts with
    | error e => exact .error
    | ok parts =>
        obtain ⟨inside', rest', htake', _, hrest⟩ := hgroup parts.1 parts.2 htake
        rw [htake']
        refine .ok ?_ hrest
        rw [SameVariant, ofAttributeName?_of_angle, ofAttributeName?_of_angle]
  · exact .ok rfl h

theorem readArgumentList_remarked (h : Remarked ts ts') :
    ReadAlike (List.Forall₂ Remarked) (readArgumentList ts) (readArgumentList ts') := by
  rw [readArgumentList, readArgumentList, h.headIs_eq (by decide)]
  split
  · have hgroup := takeGroup_remarked (show IsFixed "(" by decide) (show IsFixed ")" by decide) h
    cases htake : takeGroup "(" ")" ts with
    | error e => exact .error
    | ok parts =>
        obtain ⟨inside', rest', htake', hinside, hrest⟩ := hgroup parts.1 parts.2 htake
        rw [htake']
        exact .ok (splitArguments_remarked hinside) hrest
  · exact .ok .nil h

/-- **An attribute** with more marks. -/
theorem readAttribute_remarked (path : String) (h : Remarked ts ts') :
    ReadAlike Attribute.Remarked (readAttribute path ts) (readAttribute path ts') := by
  rw [readAttribute, readAttribute]
  refine (qualifiedName_remarked h).bind fun name _ afterName afterName' _ hname hafterName => ?_
  subst hname
  refine (withTypeArguments_remarked name hafterName).bind
    fun full full' afterTypes afterTypes' _ hfull hafterTypes => ?_
  refine (readArgumentList_remarked hafterTypes).bind
    fun arguments arguments' rest rest' _ harguments hrest => ?_
  intro a rest₂ hread
  obtain ⟨done, hdone, heq⟩ := bind_eq_ok.1 hread
  cases heq
  rw [orEscapeFault_eq_ok] at hdone
  have hbare : Attribute.Remarked ⟨full, [], [], ts.head?.map (Token.location path)⟩
      ⟨full', [], [], ts'.head?.map (Token.location path)⟩ := ⟨hfull, .nil, .nil⟩
  obtain ⟨done', hdone', hmarks⟩ := withArguments_remarked harguments hbare hdone
  exact ⟨done', rest', bind_eq_ok.2 ⟨done', orEscapeFault_eq_ok.2 hdone', rfl⟩, hmarks, hrest⟩

/-! ### Sections -/

theorem readSectionItems_remarked (path : String) (ts : List Token) {ts' : List Token}
    (h : Remarked ts ts') :
    ReadAlike (List.Forall₂ Attribute.Remarked) (readSectionItems path ts)
      (readSectionItems path ts') := by
  rw [readSectionItems_eq, readSectionItems_eq, h.headIs_eq (by decide)]
  split
  · exact .ok .nil h.drop_one
  · refine (readAttribute_remarked path h).bind fun a a' rest rest' hread ha hrest => ?_
    have hshort := readAttribute_length_lt hread
    have hskip := skip_length_le "," rest
    refine (readSectionItems_remarked path (skip "," rest) (hrest.skip (by decide))).bind ?_
    exact fun more more' behind behind' _ hmore hbehind => .ok (.cons ha hmore) hbehind
  termination_by ts.length
  decreasing_by omega

theorem sectionTarget_remarked (h : Remarked ts ts') :
    Remarked (sectionTarget ts).2 (sectionTarget ts').2 ∧
    globalTargets.contains (sectionTarget ts').1 = globalTargets.contains (sectionTarget ts).1 := by
  match ts with
  | [] =>
      cases h
      exact ⟨.nil, rfl⟩
  | [t] =>
      obtain ⟨t', _, rfl, _, hts⟩ := h.exists_cons
      cases hts
      exact ⟨h, rfl⟩
  | t :: mark :: rest =>
      obtain ⟨t', _, rfl, ht, hts⟩ := h.exists_cons
      obtain ⟨mark', rest', rfl, hmark, hrest⟩ := hts.exists_cons
      simp only [sectionTarget, ht.kind, hmark.text_eq_iff (show IsFixed ":" by decide)]
      split
      · next htarget =>
        refine ⟨hrest, ?_⟩
        have hword : ∀ target ∈ globalTargets, (target, mark.text) ∈ wordsBefore := by
          rw [htarget.1]
          decide
        rw [Bool.eq_iff_iff, List.contains_iff_mem, List.contains_iff_mem]
        constructor
        · intro hmem
          exact (h.word_eq_iff (hword _ hmem)).1 rfl ▸ hmem
        · intro hmem
          exact (h.word_eq_iff (hword _ hmem)).2 rfl ▸ hmem
      · exact ⟨h, rfl⟩

/-- **The attributes of a declaration** with more marks. -/
theorem readSections_remarked (path : String) (ts : List Token) {ts' : List Token}
    (h : Remarked ts ts') :
    ReadAlike (List.Forall₂ Attribute.Remarked) (readSections path ts) (readSections path ts') := by
  rw [readSections_eq, readSections_eq, h.headIs_eq (by decide)]
  split
  · next hhead =>
    obtain ⟨hbehind, htarget⟩ := sectionTarget_remarked h.drop_one
    have htargetLength := sectionTarget_length_le (ts.drop 1)
    have hdrop := length_drop_one_lt_of_headIs hhead
    refine (readSectionItems_remarked path _ hbehind).bind
      fun items items' rest rest' hread hitems hrest => ?_
    have hshort := readSectionItems_length_lt hread
    refine (readSections_remarked path rest hrest).bind
      fun more more' behind behind' _ hmore hbehind => ?_
    refine .ok (List.rel_append ?_ hmore) hbehind
    rw [keptItems, keptItems, htarget]
    split
    · exact .nil
    · exact hitems
  · exact .ok .nil h
  termination_by ts.length
  decreasing_by omega

end LocalisedEnum

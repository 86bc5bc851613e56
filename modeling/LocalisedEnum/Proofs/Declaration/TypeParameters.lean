import LocalisedEnum.Proofs.Declaration.Course

/-!
**Type parameters are passed over.**

Behind the name of a type its header is passed over up to the brace or the semicolon, by counting
brackets.  A list of type parameters is a group of angle brackets in the header, so that a type is
declared with it as it is without.  How many parameters there are is not recorded.

Main definitions:

* `IsTypeParameters` — a list of type parameters, with their number;
* `IsTypeFront` — the tokens of a declaration of a type up to its name.

Main results:

* `headerEnd_typeParameters` — the header ends where it ends without the list;
* `IsTypeFront.run_congr` — a file declares the same with other tokens in a header that ends alike;
* `run_typeParameters` — **a file declares the same with the list as without it**.
-/

set_option autoImplicit false
set_option relaxedAutoImplicit false

namespace LocalisedEnum

/-! ### Lists of type parameters -/

/-- **A list of type parameters**: between angle brackets there is one parameter more than there are
commas. -/
inductive IsTypeParameters : Nat → List Token → Prop
  | intro {opening closing : Token} {inside : List Token} (hopening : opening.text = "<")
      (hclosing : closing.text = ">") (hinside : ∀ t ∈ inside, headerNesting t = 0) :
      IsTypeParameters (inside.countP (·.text == ",") + 1) (opening :: (inside ++ [closing]))

/-- Inside a bracket the header goes on. -/
theorem headerEnd_inside {depth : Int} (hdepth : depth ≠ 0) (t : Token) (ts : List Token) :
    headerEnd depth (t :: ts) = headerEnd (depth + headerNesting t) ts := by
  rw [headerEnd, if_neg fun h => hdepth h.1]

theorem headerEnd_flat {depth : Int} (hdepth : depth ≠ 0) {inside : List Token}
    (hinside : ∀ t ∈ inside, headerNesting t = 0) (rest : List Token) :
    headerEnd depth (inside ++ rest) = headerEnd depth rest := by
  induction inside with
  | nil => rfl
  | cons t inside ih =>
      rw [List.forall_mem_cons] at hinside
      rw [List.cons_append, headerEnd_inside hdepth, hinside.1, Int.add_zero, ih hinside.2]

/-- **A header ends where it ends** without its type parameters. -/
theorem headerEnd_typeParameters {count : Nat} {params : List Token}
    (h : IsTypeParameters count params) (rest : List Token) :
    headerEnd 0 (params ++ rest) = headerEnd 0 rest := by
  obtain ⟨hopening, hclosing, hinside⟩ := h
  rename_i opening closing inside
  have hopens : headerNesting opening = 1 := by
    rw [headerNesting, hopening]
    decide
  have hcloses : headerNesting closing = -1 := by
    rw [headerNesting, hclosing]
    decide
  have hstop : ¬ ((0 : Int) = 0 ∧ (opening.text = openingBrace ∨ opening.text = ";")) := by
    rw [hopening]
    decide
  calc headerEnd 0 (opening :: (inside ++ [closing]) ++ rest)
      = headerEnd 1 (inside ++ closing :: rest) := by
        rw [List.cons_append, List.append_assoc, headerEnd, if_neg hstop, hopens]
        rfl
    _ = headerEnd 1 (closing :: rest) := headerEnd_flat (by decide) hinside _
    _ = headerEnd 0 rest := by
        rw [headerEnd_inside (by decide), hcloses]
        rfl

/-! ### Declarations of types -/

/-- **The tokens of a declaration of a type up to its name**: attributes, modifiers, the keyword,
for some records a second word, and the name. -/
structure IsTypeFront (path : String) (front : List Token) : Prop where
  parts : ∃ attributes words keyword between name,
    readSections path front = .ok (attributes, words ++ keyword :: (between ++ [name])) ∧
      (∀ t ∈ words, isModifier t = true) ∧ keyword.text ∈ typeKeywords ∧
      skipRecordKind keyword.text (between ++ [name]) = [name]

/-- What stands behind a name does not matter for the word between it and the keyword. -/
theorem skipRecordKind_append {kind : String} {between : List Token} {name : Token}
    (h : skipRecordKind kind (between ++ [name]) = [name]) (rest : List Token) :
    skipRecordKind kind (between ++ name :: rest) = name :: rest := by
  have hne : between ++ [name] ≠ [] := List.append_ne_nil_of_right_ne_nil _ (List.cons_ne_nil _ _)
  have hword : ∀ text, headIs text (between ++ name :: rest) = headIs text (between ++ [name]) := by
    intro text
    have happend := @headIs_append text _ hne [] rest
    rwa [List.append_nil, List.append_assoc, List.singleton_append] at happend
  rw [skipRecordKind] at h ⊢
  rw [hword, hword]
  -- the second word of a record is all that may stand in between
  cases between with
  | nil =>
      split at h
      · split at h
        · cases h
        · next hkind => rw [if_neg hkind, ite_self]; rfl
      · next hrecord => rw [if_neg hrecord]; rfl
  | cons second between =>
      split at h
      · next hrecord =>
        split at h
        · next hkind =>
          rw [if_pos hrecord, if_pos hkind]
          have hnil : between = [] := by simpa using congrArg List.length h
          rw [hnil]
          rfl
        · exact absurd (congrArg List.length h) (by simp)
      · exact absurd (congrArg List.length h) (by simp)

/-- Behind the name of a type its header is all that is read. -/
theorem readTypeHeader_named {kind : String} {between : List Token} {name : Token}
    (hname : skipRecordKind kind (between ++ [name]) = [name]) (start : Token) (more : List Token) :
    readTypeHeader kind start (between ++ name :: more) =
      match headerEnd 0 more with
      | some (stop, rest) => .ok (⟨name.plain, stop.text != ";"⟩, rest)
      | none => .error (.at (.missingBody name.plain) start) := by
  rw [readTypeHeader, skipRecordKind_append hname]
  rfl

/-- What a declaration of a type reads behind its attributes. -/
theorem declareBody_type {w : Walk} {path : String} {start keyword : Token}
    {attributes : List Attribute} {modifiers : List String} (hkeyword : keyword.text ∈ typeKeywords)
    (ts : List Token) :
    w.declareBody path start attributes modifiers (keyword :: ts) =
      w.declareType path keyword.text start modifiers ts := by
  have hother : ∀ word ∈ ["global", "using", "namespace", "enum"],
      (keyword.text == word) = false := by
    intro word hword
    have hwords : ∀ word ∈ ["global", "using", "namespace", "enum"], word ∉ typeKeywords := by
      decide
    rw [beq_eq_false_iff_ne]
    rintro rfl
    exact hwords _ hword hkeyword
  simp only [List.forall_mem_cons] at hother
  obtain ⟨hglobal, husing, hnamespace, henum, _⟩ := hother
  rw [Walk.declareBody_cons]
  simp only [Walk.declareHead, hglobal, husing, hnamespace, henum, Bool.and_false, Bool.false_and,
    Bool.false_eq_true, if_false, List.contains_iff_mem, hkeyword, if_true]

/-- A keyword of a type is no modifier. -/
theorem isModifier_type {keyword : Token} (hkeyword : keyword.text ∈ typeKeywords) :
    isModifier keyword = false := by
  have hnone : ∀ word ∈ typeKeywords, modifierWords.contains word = false := by decide
  exact hnone _ hkeyword

/-- **A declaration of a type** is read from what stands up to its name and from what stands behind
it. -/
theorem IsTypeFront.declareFrom_eq {path : String} {front : List Token}
    (h : IsTypeFront path front) :
    ∃ kind modifiers between name, skipRecordKind kind (between ++ [name]) = [name] ∧
      ∀ (w : Walk) (start : Token) (more : List Token), w.declareFrom path start (front ++ more) =
        w.declareType path kind start modifiers (between ++ name :: more) := by
  obtain ⟨attributes, words, keyword, between, name, hsections, hwords, hkeyword, hname⟩ := h.parts
  have hne : words ++ keyword :: (between ++ [name]) ≠ [] :=
    List.append_ne_nil_of_right_ne_nil _ (List.cons_ne_nil _ _)
  refine ⟨keyword.text, words.map Token.text, between, name, hname, ?_⟩
  intro w start more
  rw [declareFrom_of_sections hsections hne, List.append_assoc, List.cons_append, List.append_assoc,
    List.singleton_append, readModifiers_append hwords (isModifier_type hkeyword)]
  exact declareBody_type hkeyword _

/-- A declaration of a type leaves what its header leaves. -/
theorem IsTypeFront.declareFrom_ok_iff {path : String} {front : List Token}
    (h : IsTypeFront path front) (w : Walk) (start : Token) (more rest : List Token) :
    (∃ w', w.declareFrom path start (front ++ more) = .ok (w', rest)) ↔
      ∃ stop, headerEnd 0 more = some (stop, rest) := by
  obtain ⟨kind, modifiers, between, name, hname, hread⟩ := h.declareFrom_eq
  rw [hread, Walk.declareType, readTypeHeader_named hname]
  constructor
  · rintro ⟨w', hdeclare⟩
    obtain ⟨⟨header, rest'⟩, hheader, hbody⟩ := bind_eq_ok.1 hdeclare
    have hrest : rest' = rest := by
      simp only at hbody
      split at hbody
      · cases hbody; rfl
      · cases hbody; rfl
    subst hrest
    split at hheader
    · next stop _ hend => cases hheader; exact ⟨stop, hend⟩
    · cases hheader
  · rintro ⟨stop, hend⟩
    simp only [hend]
    cases hbody : (stop.text != ";")
    · exact ⟨_, rfl⟩
    · exact ⟨_, rfl⟩

/-- A declaration of a type begins with a bracket, a modifier or its keyword. -/
theorem IsTypeFront.exists_cons {path : String} {front : List Token} (h : IsTypeFront path front) :
    ∃ t more, front = t :: more ∧ t.text ≠ closingBrace ∧ t.text ≠ ";" := by
  obtain ⟨attributes, words, keyword, between, name, hsections, hwords, hkeyword, _⟩ := h.parts
  have hword : ∀ text ∈ modifierWords ++ typeKeywords, text ≠ closingBrace ∧ text ≠ ";" := by decide
  rcases front_eq_of_sections hsections with hopen | rfl
  · cases front with
    | nil => cases hopen
    | cons t more =>
        rw [headIs_cons, beq_iff_eq] at hopen
        refine ⟨t, more, rfl, ?_⟩
        rw [hopen]
        decide
  · cases words with
    | nil => exact ⟨keyword, _, rfl, hword _ (List.mem_append_right _ hkeyword)⟩
    | cons t words =>
        refine ⟨t, _, rfl, hword _ (List.mem_append_left _ ?_)⟩
        exact List.contains_iff_mem.1 (hwords t List.mem_cons_self)

/-- **A file declares the same** with other tokens behind the name of a type, as long as the header
ends alike. -/
theorem IsTypeFront.run_congr {path : String} {front more more' : List Token}
    (h : IsTypeFront path front) (hend : headerEnd 0 more = headerEnd 0 more') (w : Walk) :
    Walk.run path w (front ++ more) = Walk.run path w (front ++ more') := by
  obtain ⟨kind, modifiers, between, name, hname, hread⟩ := h.declareFrom_eq
  obtain ⟨t, others, hcons, hbrace, hsemicolon⟩ := h.exists_cons
  have hdeclare : w.declareFrom path t (front ++ more) = w.declareFrom path t (front ++ more') := by
    rw [hread, hread, Walk.declareType, Walk.declareType, readTypeHeader_named hname,
      readTypeHeader_named hname, hend]
  rw [hcons] at hdeclare ⊢
  rw [List.cons_append, List.cons_append] at hdeclare ⊢
  exact Walk.run_congr hbrace hsemicolon hdeclare

/-- **A file declares the same** with a list of type parameters behind the name of a type as without
it. -/
theorem run_typeParameters {path : String} {front params : List Token} {count : Nat}
    (hfront : IsTypeFront path front) (hparams : IsTypeParameters count params) (w : Walk)
    (rest : List Token) :
    Walk.run path w (front ++ (params ++ rest)) = Walk.run path w (front ++ rest) :=
  hfront.run_congr (headerEnd_typeParameters hparams rest) w

end LocalisedEnum

import LocalisedEnum.Proofs.Declaration.WrittenValues

/-!
**Attributes as they are written.**

An attribute has a name, values in a row, and values under names that are all different.  Attributes
stand in sections in front of a declaration, as many as one likes to a section.  What is written so
is read again: the attributes in order, whatever section they stand in, each with its values in
order.

Main definitions:

* `WrittenAttribute`, `WrittenSection` — attributes and sections as they are written;
* `WrittenAttribute.recorded`, `WrittenSection.recorded` — the attributes that are recorded.

Main results:

* `splitArguments_joined` — an argument list falls into its arguments;
* `readAttribute_recorded` — **an attribute** is read back;
* `readSections_recorded` — **the sections of attributes** in front of a declaration are.
-/

set_option autoImplicit false
set_option relaxedAutoImplicit false

namespace LocalisedEnum

/-! ### Argument lists -/

/-- Arguments with commas between them. -/
def joinArguments : List (List Lexeme) → List Lexeme
  | [] => []
  | [argument] => argument
  | argument :: next :: rest => argument ++ comma :: joinArguments (next :: rest)

/-- **An argument list falls into its arguments.** -/
theorem splitArguments_joined {arguments : List (List Lexeme)}
    (h : ∀ argument ∈ arguments, argument ≠ [] ∧ StaysWhole 0 (tokensOf argument)) :
    splitArguments (tokensOf (joinArguments arguments)) = arguments.map tokensOf := by
  rw [splitArguments]
  induction arguments with
  | nil => rfl
  | cons argument rest ih =>
      obtain ⟨⟨hne, hwhole⟩, hrest⟩ := List.forall_mem_cons.1 h
      cases rest with
      | nil =>
          have hnil : (tokensOf argument).isEmpty = false := by
            rw [List.isEmpty_eq_false_iff]
            exact fun hnil => hne (List.map_eq_nil_iff.1 hnil)
          rw [joinArguments, ← List.append_nil (tokensOf argument), hwhole, splitArgumentsFrom,
            List.nil_append, hnil]
          rfl
      | cons next rest =>
          rw [joinArguments, tokensOf_append, tokensOf_cons, hwhole, List.nil_append,
            splitArgumentsFrom, List.map_cons, ← ih hrest]
          exact if_pos ⟨rfl, rfl⟩

theorem isNested_joined {arguments : List (List Lexeme)}
    (h : ∀ argument ∈ arguments, IsNested argument) : IsNested (joinArguments arguments) := by
  have hcomma : IsNested [comma] := isNested_flat fun l hl => List.mem_singleton.1 hl ▸ (by decide)
  induction arguments with
  | nil => exact ⟨.nil, rfl⟩
  | cons argument rest ih =>
      obtain ⟨hargument, hrest⟩ := List.forall_mem_cons.1 h
      cases rest with
      | nil => exact hargument
      | cons next rest => exact hargument.append (hcomma.append (ih hrest))

/-! ### Named values -/

theorem assign_of_not_mem {α : Type} {name : String} {values : List (String × α)}
    (h : name ∉ values.map Prod.fst) (value : α) :
    assign name value values = values ++ [(name, value)] := by
  induction values with
  | nil => rfl
  | cons entry rest ih =>
      rw [List.map_cons, List.mem_cons, not_or] at h
      rw [assign, if_neg (Ne.symm h.1), ih h.2, List.cons_append]

/-- Values under names that are all different are kept in order. -/
theorem assignAll_of_nodup {α : Type} {values into : List (String × α)}
    (h : ((into ++ values).map Prod.fst).Nodup) : assignAll values into = into ++ values := by
  induction values generalizing into with
  | nil => exact (List.append_nil into).symm
  | cons entry rest ih =>
      obtain ⟨name, value⟩ := entry
      have hnew : name ∉ into.map Prod.fst := by
        rw [List.map_append, List.map_cons, List.nodup_append] at h
        exact fun hmem => h.2.2 _ hmem _ List.mem_cons_self rfl
      have hassoc : into ++ [(name, value)] ++ rest = into ++ (name, value) :: rest :=
        List.append_assoc ..
      rw [← hassoc] at h ⊢
      rw [← ih h]
      exact congrArg (assignAll rest) (assign_of_not_mem hnew value)

/-! ### Attributes as they are written -/

/-- **An attribute as it is written**: a name, values in a row, and values under names that are all
different.  Without values the parentheses may be left out. -/
structure WrittenAttribute where
  name : DottedName
  positional : List WrittenValue
  named : List (Word × WrittenValue)
  parentheses : Bool
  distinct : (named.map fun entry => entry.1.text).Nodup

namespace WrittenAttribute

/-- The tokens of the arguments. -/
def arguments (a : WrittenAttribute) : List (List Lexeme) :=
  a.positional.map (·.lexemes) ++
    a.named.map fun entry => entry.1.lexeme :: equals :: entry.2.lexemes

/-- The tokens of the argument list. -/
def argumentLexemes (a : WrittenAttribute) : List Lexeme :=
  if a.arguments.isEmpty && !a.parentheses then []
  else Bracket.round.opening :: (joinArguments a.arguments ++ [Bracket.round.closing])

/-- The tokens of the attribute. -/
def lexemes (a : WrittenAttribute) : List Lexeme :=
  a.name.lexemes ++ a.argumentLexemes

/-- **The attribute that is recorded**, at no place. -/
def recorded (a : WrittenAttribute) (path : String) : Attribute where
  name := a.name.text
  positional := a.positional.map (·.value)
  named := a.named.map fun entry => (entry.1.text, entry.2.value)
  location := some ⟨path, 0, 0⟩

end WrittenAttribute

/-! ### One attribute -/

theorem WrittenValue.lexemes_ne_nil (v : WrittenValue) : v.lexemes ≠ [] := by
  cases v with
  | integer n =>
      rw [WrittenValue.lexemes, WrittenInteger.lexemes]
      split <;> exact List.cons_ne_nil _ _
  | _ => exact List.cons_ne_nil _ _

theorem mem_arguments {a : WrittenAttribute} {argument : List Lexeme} (h : argument ∈ a.arguments) :
    (∃ v : WrittenValue, argument = v.lexemes) ∨
      ∃ (key : Word) (v : WrittenValue), argument = key.lexeme :: equals :: v.lexemes := by
  rcases List.mem_append.1 h with h | h
  · obtain ⟨v, -, rfl⟩ := List.mem_map.1 h
    exact .inl ⟨v, rfl⟩
  · obtain ⟨⟨key, v⟩, -, rfl⟩ := List.mem_map.1 h
    exact .inr ⟨key, v, rfl⟩

theorem staysWhole_argument {a : WrittenAttribute} {argument : List Lexeme}
    (h : argument ∈ a.arguments) : argument ≠ [] ∧ StaysWhole 0 (tokensOf argument) := by
  rcases mem_arguments h with ⟨v, rfl⟩ | ⟨key, v, rfl⟩
  · exact ⟨v.lexemes_ne_nil, staysWhole_value v⟩
  · refine ⟨List.cons_ne_nil _ _, ?_⟩
    exact (staysWhole_lexeme (l := key.lexeme) (by rintro ⟨⟩)).append
      ((staysWhole_token (t := equals.token) rfl fun h => absurd h (by decide)).append
        (staysWhole_value v))

theorem isNested_argument {a : WrittenAttribute} {argument : List Lexeme}
    (h : argument ∈ a.arguments) : IsNested argument := by
  rcases mem_arguments h with ⟨v, rfl⟩ | ⟨key, v, rfl⟩
  · exact isNested_value v
  · have hequals : IsNested [equals] :=
      isNested_flat fun l hl => List.mem_singleton.1 hl ▸ (by decide)
    exact (isNested_lexeme (l := key.lexeme) (by rintro ⟨⟩)).append
      (hequals.append (isNested_value v))

/-- What follows the name of an attribute. -/
theorem WrittenAttribute.beginsWithout_arguments (a : WrittenAttribute) {texts : List String}
    (htexts : "(" ∉ texts) {rest : List Token} (h : BeginsWithout texts rest) :
    BeginsWithout texts (tokensOf a.argumentLexemes ++ rest) := by
  rw [WrittenAttribute.argumentLexemes]
  split
  · exact h
  · exact beginsWithout_cons.2 htexts

/-- **An argument list** is read as its arguments. -/
theorem readArgumentList_written (a : WrittenAttribute) {rest : List Token}
    (h : BeginsWithout ["("] rest) :
    readArgumentList (tokensOf a.argumentLexemes ++ rest) =
      .ok (a.arguments.map tokensOf, rest) := by
  rw [WrittenAttribute.argumentLexemes]
  split
  · next hempty =>
    rw [Bool.and_eq_true, List.isEmpty_iff] at hempty
    rw [hempty.1, tokensOf_nil, List.nil_append, readArgumentList,
      h.headIs (List.mem_singleton_self _)]
    rfl
  · have hnested : ∀ argument ∈ a.arguments, IsNested argument := fun _ => isNested_argument
    obtain ⟨inside, hinside⟩ := isNested_joined hnested
    have hgroup := takeGroup_nested .round inside rest
    rw [Nested.tokens, hinside] at hgroup
    have hwhole : ∀ argument ∈ a.arguments, argument ≠ [] ∧ StaysWhole 0 (tokensOf argument) :=
      fun _ => staysWhole_argument
    have harguments := splitArguments_joined hwhole
    simp only [tokensOf_cons, tokensOf_append, tokensOf_nil, List.cons_append, List.append_assoc,
      List.nil_append, readArgumentList, headIs_cons]
    simp only [Bracket.opening_token_text, Bracket.openingText, Bracket.closingText] at hgroup ⊢
    rw [hgroup, ← harguments]
    rfl

/-- An argument that does not begin with a name and a mark behind it is positional. -/
theorem withArgument_of_unnamed (a : Attribute) {argument : List Token}
    (h : ∀ key mark rest, argument = key :: mark :: rest → key.kind = .identifier →
      mark.text ≠ "=" ∧ mark.text ≠ ":") {value : ArgumentValue}
    (hvalue : evaluate argument = .ok value) :
    a.withArgument argument = .ok { a with positional := a.positional ++ [value] } := by
  rw [Attribute.withArgument.eq_def]
  split
  · next key mark rest =>
    have hmark := h key mark rest rfl
    rw [if_neg fun hnamed => (hmark hnamed.1).1 hnamed.2,
      if_neg fun hnamed => (hmark hnamed.1).2 hnamed.2, hvalue]
    rfl
  · rw [hvalue]
    rfl

/-- **A value in a row** is recorded behind the others. -/
theorem withArgument_value (a : Attribute) (v : WrittenValue) :
    a.withArgument (tokensOf v.lexemes) =
      .ok { a with positional := a.positional ++ [v.value] } := by
  refine withArgument_of_unnamed a (fun key mark rest heq hkind => ?_) (evaluate_value v)
  cases v with
  | integer n =>
      rw [WrittenValue.lexemes, WrittenInteger.lexemes] at heq
      split at heq
      · cases heq
        cases hkind
      · cases heq
  | typeOf t =>
      cases heq
      decide
  | _ => cases heq

/-- **A value under a name** is recorded under it. -/
theorem withArgument_named (a : Attribute) (key : Word) (v : WrittenValue) :
    a.withArgument (tokensOf (key.lexeme :: equals :: v.lexemes)) =
      .ok { a with named := assign key.text v.value a.named } := by
  rw [tokensOf_cons, tokensOf_cons, Attribute.withArgument, if_pos ⟨rfl, rfl⟩, evaluate_value,
    plain_word]
  rfl

theorem withArguments_positional (a : Attribute) (values : List WrittenValue) :
    ((values.map (·.lexemes)).map tokensOf).foldlM Attribute.withArgument a =
      .ok { a with positional := a.positional ++ values.map (·.value) } := by
  induction values generalizing a with
  | nil => simp only [List.map_nil, List.append_nil]; rfl
  | cons v values ih =>
      rw [List.map_cons, List.map_cons, List.foldlM_cons, withArgument_value]
      refine (ih _).trans ?_
      rw [List.map_cons, List.append_assoc, List.singleton_append]

theorem withArguments_named (a : Attribute) (named : List (Word × WrittenValue)) :
      ((named.map fun entry => entry.1.lexeme :: equals :: entry.2.lexemes).map tokensOf).foldlM
      Attribute.withArgument a =
    .ok { a with named := assignAll (named.map fun entry => (entry.1.text, entry.2.value)) a.named }
      := by
  induction named generalizing a with
  | nil => rfl
  | cons entry named ih =>
      rw [List.map_cons, List.map_cons, List.foldlM_cons, withArgument_named]
      exact ih _

/-- **An attribute is read back**, and what follows it is left. -/
theorem readAttribute_recorded (path : String) (a : WrittenAttribute) {rest : List Token}
    (h : BeginsWithout attributeMarks rest) :
    readAttribute path (tokensOf a.lexemes ++ rest) = .ok (a.recorded path, rest) := by
  have hbehindName : BeginsWithout [".", "::", "<"] (tokensOf a.argumentLexemes ++ rest) :=
    a.beginsWithout_arguments (by decide) (h.mono (by decide))
  have hname := qualifiedName_dotted a.name (hbehindName.mono (by decide))
  have htypes : withTypeArguments a.name.text (tokensOf a.argumentLexemes ++ rest) =
      .ok (a.name.text, tokensOf a.argumentLexemes ++ rest) := by
    rw [withTypeArguments, hbehindName.headIs (by decide)]
    rfl
  have hdistinct : assignAll (a.named.map fun entry => (entry.1.text, entry.2.value)) [] =
      a.named.map fun entry => (entry.1.text, entry.2.value) := by
    refine assignAll_of_nodup ?_
    rw [List.nil_append, List.map_map]
    exact a.distinct
  have hfull : (a.arguments.map tokensOf).foldlM Attribute.withArgument
      ⟨a.name.text, [], [], some ⟨path, 0, 0⟩⟩ = .ok (a.recorded path) := by
    rw [WrittenAttribute.arguments, List.map_append, List.foldlM_append, withArguments_positional]
    refine (withArguments_named _ a.named).trans ?_
    rw [hdistinct]
    rfl
  have hhead : ((tokensOf a.lexemes ++ rest).head?.map (Token.location path)) = some ⟨path, 0, 0⟩ :=
    rfl
  rw [readAttribute, hhead, WrittenAttribute.lexemes, tokensOf_append, List.append_assoc, hname]
  simp only [bind, Except.bind, htypes, readArgumentList_written a (h.mono (by decide)), hfull,
    orEscapeFault]
  rfl

/-! ### Sections -/

/-- **A section of attributes as it is written.** -/
structure WrittenSection where
  first : WrittenAttribute
  others : List WrittenAttribute

namespace WrittenSection

/-- The tokens of the section. -/
def lexemes (s : WrittenSection) : List Lexeme :=
  Bracket.square.opening ::
    (s.first.lexemes ++
      ((s.others.flatMap fun a => comma :: a.lexemes) ++ [Bracket.square.closing]))

/-- **The attributes of the section as they are recorded.** -/
def recorded (s : WrittenSection) (path : String) : List Attribute :=
  (s.first :: s.others).map (·.recorded path)

end WrittenSection

/-- The tokens of more attributes of a section, each behind a comma, and what follows the
section. -/
def writtenTail (others : List WrittenAttribute) (rest : List Token) : List Token :=
  tokensOf (others.flatMap fun a => comma :: a.lexemes) ++ Bracket.square.closing.token :: rest

theorem beginsWithout_writtenTail (others : List WrittenAttribute) (rest : List Token) :
    BeginsWithout (":" :: attributeMarks) (writtenTail others rest) := by
  cases others with
  | nil => exact beginsWithout_cons.2 (by decide)
  | cons a others => exact beginsWithout_cons.2 (by decide)

/-- An attribute is not the end of its section. -/
theorem headIs_written (a : WrittenAttribute) (rest : List Token) :
    headIs "]" (tokensOf a.lexemes ++ rest) = false :=
  beq_eq_false_iff_ne.2 (a.name.head.text_ne (by decide))

/-- **The attributes of a section** are read back. -/
theorem readSectionItems_recorded (path : String) (first : WrittenAttribute)
    (others : List WrittenAttribute) (rest : List Token) :
    readSectionItems path (tokensOf first.lexemes ++ writtenTail others rest) =
      .ok ((first :: others).map (·.recorded path), rest) := by
  induction others generalizing first with
  | nil =>
      have hfirst :=
        readAttribute_recorded path first ((beginsWithout_writtenTail [] rest).mono (by decide))
      have hend : readSectionItems path (skip "," (writtenTail [] rest)) = .ok ([], rest) := by
        rw [readSectionItems_eq]
        rfl
      rw [readSectionItems_eq, headIs_written, hfirst]
      simp only [bind, Except.bind, hend]
      rfl
  | cons next others ih =>
      have hfirst := readAttribute_recorded path first
        ((beginsWithout_writtenTail (next :: others) rest).mono (by decide))
      have hskip : skip "," (writtenTail (next :: others) rest) =
          tokensOf next.lexemes ++ writtenTail others rest := by
        simp only [writtenTail, List.flatMap_cons, List.cons_append, tokensOf_cons, tokensOf_append,
          List.append_assoc]
        rfl
      rw [readSectionItems_eq, headIs_written, hfirst]
      simp only [bind, Except.bind, hskip, ih]
      rfl

/-- The first attribute of a section is not taken for its target. -/
theorem sectionTarget_written (first : WrittenAttribute) {rest : List Token}
    (h : BeginsWithout [":"] rest) :
    sectionTarget (tokensOf first.lexemes ++ rest) = ("", tokensOf first.lexemes ++ rest) := by
  have hbehind : BeginsWithout [":"]
      (tokensOf (first.name.tail.flatMap fun part => [dot, part.lexeme]) ++
        (tokensOf first.argumentLexemes ++ rest)) := by
    cases first.name.tail with
    | nil => exact first.beginsWithout_arguments (by decide) h
    | cons part parts => exact beginsWithout_cons.2 (by decide)
  rw [WrittenAttribute.lexemes, DottedName.lexemes, List.cons_append, tokensOf_cons,
    tokensOf_append, List.cons_append, List.append_assoc]
  exact sectionTarget_of_ne (hbehind.headIs (List.mem_singleton_self _))

/-- **The sections of attributes** in front of a declaration are read back. -/
theorem readSections_recorded (path : String) (sections : List WrittenSection) {rest : List Token}
    (h : headIs "[" rest = false) :
    readSections path (tokensOf (sections.flatMap (·.lexemes)) ++ rest) =
      .ok (sections.flatMap (·.recorded path), rest) := by
  induction sections with
  | nil =>
      rw [readSections_eq, List.flatMap_nil, tokensOf_nil, List.nil_append, h]
      rfl
  | cons s sections ih =>
      obtain ⟨first, others⟩ := s
      have htail : BeginsWithout [":"]
          (writtenTail others (tokensOf (sections.flatMap (·.lexemes)) ++ rest)) :=
        (beginsWithout_writtenTail others _).mono (by decide)
      have htokens : tokensOf
              ((⟨first, others⟩ :: sections : List WrittenSection).flatMap (·.lexemes)) ++ rest =
          Bracket.square.opening.token ::
            (tokensOf first.lexemes ++
              writtenTail others (tokensOf (sections.flatMap (·.lexemes)) ++ rest)) := by
        simp [WrittenSection.lexemes, writtenTail]
      have hopening : headIs "[" (Bracket.square.opening.token :: (tokensOf first.lexemes ++
          writtenTail others (tokensOf (sections.flatMap (·.lexemes)) ++ rest))) = true := rfl
      rw [htokens, readSections_eq, if_pos hopening, List.drop_one, List.tail_cons,
        sectionTarget_written first htail, readSectionItems_recorded]
      simp only [bind, Except.bind, ih]
      rfl

end LocalisedEnum

import LocalisedEnum.Proofs.Declaration.Tree

/-!
**Names and attributes read back.**

A reader of a name or of an attribute takes its own tokens off the front and leaves the rest alone,
as long as the rest does not go on with the name: no point, no angle bracket and no parenthesis
follows.  What an attribute says is not asked for here, only that it is read at all: its arguments
are expressions, and every expression without a faulty escape has a value.

Main definitions:

* `BeginsWithout` — tokens that do not begin with one of some texts.

Main results:

* `qualifiedName_dotted` — names joined by points are read as one;
* `evaluate_isOk` — an expression without a faulty escape has a value;
* `readAttribute_tokens`, `readSectionItems_tokens` — an attribute, and the attributes of a section;
* `readSections_tokens` — **the sections of attributes** in front of a declaration.
-/

set_option autoImplicit false
set_option relaxedAutoImplicit false

namespace LocalisedEnum

/-! ### Words and names -/

@[simp] theorem Modifier.lexeme_text (m : Modifier) : m.lexeme.text = m.text := rfl

/-- A word has no mark in front of it. -/
theorem plainName_of_isIdentifier {text : String} (h : isIdentifier text = true) :
    plainName text = text := by
  simp only [isIdentifier] at h
  simp only [plainName]
  split
  · next rest heq =>
    rw [heq] at h
    cases h
  · rfl

@[simp] theorem plain_word (w : Word) : w.lexeme.token.plain = w.text :=
  plainName_of_isIdentifier w.identifier

/-- A word is none of the texts that are no words. -/
theorem Word.text_ne (w : Word) {text : String} (h : isIdentifier text = false) :
    w.text ≠ text := by
  intro heq
  have hw := w.identifier
  rw [heq, h] at hw
  cases hw

/-- A name without colons has no mark of an absolute name in front of it. -/
theorem withoutStart_of_not_mem {name : String} (h : ':' ∉ name.toList) :
    withoutStart globalMark name = name := by
  have hnone : dropStart? globalMark.toList name.toList = none := by
    rw [Option.eq_none_iff_forall_ne_some]
    intro rest hrest
    refine h ?_
    rw [dropStart?_eq_some_iff.1 hrest]
    exact List.mem_append_left _ (by decide)
  rw [withoutStart, afterStart?, hnone]
  rfl

theorem headIs_cons (text : String) (t : Token) (ts : List Token) :
    headIs text (t :: ts) = (t.text == text) := rfl

/-- The tokens do not begin with one of the given texts. -/
def BeginsWithout (texts : List String) (ts : List Token) : Prop :=
  ∀ t ∈ ts.head?, t.text ∉ texts

theorem beginsWithout_nil (texts : List String) : BeginsWithout texts [] := by
  simp [BeginsWithout]

theorem beginsWithout_cons {texts : List String} {t : Token} {ts : List Token} :
    BeginsWithout texts (t :: ts) ↔ t.text ∉ texts := by
  simp [BeginsWithout]

theorem BeginsWithout.headIs {texts : List String} {ts : List Token} (h : BeginsWithout texts ts)
    {text : String} (htext : text ∈ texts) : headIs text ts = false := by
  cases ts with
  | nil => rfl
  | cons t ts =>
      rw [headIs_cons, beq_eq_false_iff_ne]
      rintro rfl
      exact h t rfl htext

theorem BeginsWithout.mono {texts texts' : List String} {ts : List Token}
    (h : BeginsWithout texts ts) (hsub : ∀ text ∈ texts', text ∈ texts) : BeginsWithout texts' ts :=
  fun t ht hmem => h t ht (hsub _ hmem)

theorem qualifiedNameFrom_end {rest : List Token} (h : BeginsWithout [".", "::"] rest)
    (name : String) : qualifiedNameFrom name rest = .ok (name, rest) := by
  match rest with
  | [] => rfl
  | [t] =>
      have ht : isNameMark t = false := by simpa [isNameMark] using h t rfl
      simp [qualifiedNameFrom, ht]
  | t :: part :: rest =>
      have ht : isNameMark t = false := by simpa [isNameMark] using h t rfl
      simp [qualifiedNameFrom, ht]

theorem qualifiedNameFrom_names (names : List Word) {rest : List Token}
    (h : BeginsWithout [".", "::"] rest) (name : String) :
    qualifiedNameFrom name (tokensOf (names.flatMap fun part => [dot, part.lexeme]) ++ rest) =
      .ok (joinDots (name :: names.map (·.text)), rest) := by
  induction names generalizing name with
  | nil => exact qualifiedNameFrom_end h name
  | cons part names ih =>
      have hmark : isNameMark dot.token = true := rfl
      simp only [List.flatMap_cons, List.cons_append, List.nil_append, tokensOf_cons,
        qualifiedNameFrom, hmark, if_true, ih, plain_word]
      rfl

/-- Names joined by points are read as one. -/
theorem qualifiedName_dotted (n : DottedName) {rest : List Token}
    (h : BeginsWithout [".", "::"] rest) :
    qualifiedName (tokensOf n.lexemes ++ rest) = .ok (n.text, rest) := by
  rw [DottedName.lexemes, tokensOf_cons, List.cons_append, qualifiedName, plain_word,
    qualifiedNameFrom_names n.tail h]
  rfl

/-! ### Expressions have values -/

/-- Whether the literal that a token may be has a value, or none for a harmless reason. -/
def Token.Decodes (t : Token) : Prop :=
  ∃ value, t.literalValue = .ok value

theorem Lexeme.token_decodes (l : Lexeme) : l.token.Decodes :=
  l.decodes

theorem mem_of_summands? {ts operands : List Token} (h : summands? ts = some operands) :
    ∀ t ∈ operands, t ∈ ts := by
  fun_induction summands? ts generalizing operands with
  | case1 => cases h
  | case2 t =>
      cases h
      exact fun t ht => ht
  | case3 t plus rest hplus ih =>
      obtain ⟨more, hmore, rfl⟩ := Option.map_eq_some_iff.1 h
      intro u hu
      rcases List.mem_cons.1 hu with rfl | hu
      · exact List.mem_cons_self
      · exact List.mem_cons_of_mem _ (List.mem_cons_of_mem _ (ih hmore u hu))
  | case4 => cases h

theorem concatenation_isOk {ts : List Token} (h : ∀ t ∈ ts, t.Decodes) :
    ∃ value, concatenation ts = .ok value := by
  induction ts with
  | nil => exact ⟨_, rfl⟩
  | cons t rest ih =>
      obtain ⟨value, hvalue⟩ := h t List.mem_cons_self
      obtain ⟨more, hmore⟩ := ih fun t ht => h t (List.mem_cons_of_mem _ ht)
      exact ⟨_, by rw [concatenation, hvalue, hmore]; rfl⟩

theorem evaluateCompound_isOk {ts : List Token} (h : ∀ t ∈ ts, t.Decodes) :
    ∃ value, evaluateCompound ts = .ok value := by
  rw [evaluateCompound]
  cases negatedNumeral? ts with
  | some value => exact ⟨value, rfl⟩
  | none =>
      cases hsummands : summands? ts with
      | none => exact ⟨_, by rw [literalSum, hsummands]; rfl⟩
      | some operands =>
          obtain ⟨value, hvalue⟩ :=
            concatenation_isOk fun t ht => h t (mem_of_summands? hsummands t ht)
          exact ⟨_, by rw [literalSum, hsummands]; simp only [hvalue]; rfl⟩

theorem evaluateToken_isOk {t : Token} (h : t.Decodes) : ∃ value, evaluateToken t = .ok value := by
  obtain ⟨value, hvalue⟩ := h
  rw [evaluateToken, hvalue]
  split
  · exact ⟨_, rfl⟩
  · split
    · exact ⟨_, rfl⟩
    · split
      · exact ⟨_, rfl⟩
      · split
        · exact ⟨_, rfl⟩
        · split <;> exact ⟨_, rfl⟩

/-- **An expression without a faulty escape has a value.** -/
theorem evaluate_isOk {ts : List Token} (h : ∀ t ∈ ts, t.Decodes) :
    ∃ value, evaluate ts = .ok value := by
  unfold evaluate
  split
  · exact ⟨_, rfl⟩
  · exact ⟨_, rfl⟩
  · next t _ _ =>
    obtain ⟨value, hvalue⟩ := evaluateToken_isOk (h t List.mem_cons_self)
    exact ⟨_, by rw [hvalue]; rfl⟩
  · exact evaluateCompound_isOk h

/-! ### Sections of attributes -/

theorem qualifiedNameFrom_marked (parts : List (NameMark × Word)) {rest : List Token}
    (h : BeginsWithout [".", "::"] rest) (name : String) :
    ∃ result, qualifiedNameFrom name
      (tokensOf (parts.flatMap fun part => [part.1.lexeme, part.2.lexeme]) ++ rest) =
        .ok (result, rest) := by
  induction parts generalizing name with
  | nil => exact ⟨name, qualifiedNameFrom_end h name⟩
  | cons part parts ih =>
      have hmark : isNameMark part.1.lexeme.token = true := by cases part.1 <;> rfl
      simp only [List.flatMap_cons, List.cons_append, List.nil_append, tokensOf_cons,
        qualifiedNameFrom, hmark, if_true]
      exact ih _

/-- Type arguments inside angle brackets go into the group, and leave the depth as it was. -/
theorem groupInside_types (types : TypeArguments) (depth : Nat) (rest : List Token) :
    groupInside "<" ">" depth (tokensOf types.lexemes ++ rest) =
      (groupInside "<" ">" depth rest).map fun p => (tokensOf types.lexemes ++ p.1, p.2) := by
  induction types generalizing depth rest with
  | nil => simp [TypeArguments.lexemes]
  | leaf t h more ih =>
      simp only [List.mem_cons, List.not_mem_nil, or_false, not_or] at h
      rw [TypeArguments.lexemes, tokensOf_cons, List.cons_append,
        groupInside_other depth _ h.1 h.2, ih, Option.map_map]
      rfl
  | group inside more ihInside ihMore =>
      have hopening : openingAngle.token.text = "<" := rfl
      have hclosing : closingAngle.token.text = ">" := rfl
      rw [TypeArguments.lexemes, tokensOf_cons, tokensOf_append, tokensOf_cons, List.cons_append,
        List.append_assoc, List.cons_append, groupInside_opening depth _ hopening, ihInside,
        groupInside_closing depth _ (by decide) hclosing, ihMore]
      simp [Function.comp_def]

/-- What follows the name of an attribute. -/
theorem beginsWithout_types (a : AttributeSyntax) {texts : List String} (htexts : "<" ∉ texts)
    {rest : List Token} (h : BeginsWithout texts rest) :
    BeginsWithout texts (tokensOf a.typeLexemes ++ rest) := by
  rw [AttributeSyntax.typeLexemes]
  cases a.typeArguments with
  | none => exact h
  | some types => exact beginsWithout_cons.2 htexts

theorem beginsWithout_arguments (a : AttributeSyntax) {texts : List String} (htexts : "(" ∉ texts)
    {rest : List Token} (h : BeginsWithout texts rest) :
    BeginsWithout texts (tokensOf a.argumentLexemes ++ rest) := by
  rw [AttributeSyntax.argumentLexemes]
  cases a.arguments with
  | none => exact h
  | some arguments => exact beginsWithout_cons.2 htexts

theorem withTypeArguments_tokens (a : AttributeSyntax) (name : String) {rest : List Token}
    (h : BeginsWithout ["<"] rest) :
    ∃ result, withTypeArguments name (tokensOf a.typeLexemes ++ rest) = .ok (result, rest) := by
  rw [AttributeSyntax.typeLexemes]
  cases a.typeArguments with
  | none => exact ⟨name, by simp [withTypeArguments, h.headIs (List.mem_singleton_self _)]⟩
  | some types =>
      have hend : groupInside "<" ">" 0 (closingAngle.token :: rest) = some ([], rest) :=
        groupInside_end rest (by decide) rfl
      have hopening : openingAngle.text = "<" := rfl
      refine ⟨name ++ "<" ++ joinTokens (tokensOf types.lexemes) ++ ">", ?_⟩
      simp [withTypeArguments, headIs_cons, takeGroup, hopening, groupInside_types, hend]

theorem mem_of_splitArgumentsFrom {depth : Int} {current ts argument : List Token}
    (h : argument ∈ splitArgumentsFrom depth current ts) :
    ∀ t ∈ argument, t ∈ current ∨ t ∈ ts := by
  induction ts generalizing depth current with
  | nil =>
      intro t ht
      simp only [splitArgumentsFrom] at h
      split at h
      · cases h
      · rw [List.mem_singleton.1 h] at ht
        exact Or.inl ht
  | cons u rest ih =>
      intro t ht
      simp only [splitArgumentsFrom] at h
      split at h
      · rcases List.mem_cons.1 h with rfl | h
        · exact Or.inl ht
        · exact Or.inr (List.mem_cons_of_mem _ ((ih h t ht).resolve_left List.not_mem_nil))
      · rcases ih h t ht with ht | ht
        · rcases List.mem_append.1 ht with ht | ht
          · exact Or.inl ht
          · exact Or.inr (List.mem_singleton.1 ht ▸ List.mem_cons_self)
        · exact Or.inr (List.mem_cons_of_mem _ ht)

theorem withArgument_isOk (a : Attribute) {argument : List Token} (h : ∀ t ∈ argument, t.Decodes) :
    ∃ result, a.withArgument argument = .ok result := by
  obtain ⟨value, hvalue⟩ := evaluate_isOk h
  -- a name in front of the value takes two tokens away, and the others have a value as well
  rw [Attribute.withArgument.eq_def]
  split
  · next key mark tail =>
    have hdecodes : ∀ t ∈ tail, t.Decodes := fun t ht =>
      h t (List.mem_cons_of_mem _ (List.mem_cons_of_mem _ ht))
    obtain ⟨tailValue, htail⟩ := evaluate_isOk hdecodes
    split
    · exact ⟨_, by rw [htail]; rfl⟩
    · split
      · exact ⟨_, by rw [htail]; rfl⟩
      · exact ⟨_, by rw [hvalue]; rfl⟩
  · exact ⟨_, by rw [hvalue]; rfl⟩

theorem withArguments_isOk (a : Attribute) {arguments : List (List Token)}
    (h : ∀ argument ∈ arguments, ∀ t ∈ argument, t.Decodes) :
    ∃ result, arguments.foldlM Attribute.withArgument a = .ok result := by
  induction arguments generalizing a with
  | nil => exact ⟨a, rfl⟩
  | cons argument rest ih =>
      obtain ⟨next, hnext⟩ := withArgument_isOk a (h argument List.mem_cons_self)
      obtain ⟨result, hresult⟩ :=
        ih next fun other hother => h other (List.mem_cons_of_mem _ hother)
      exact ⟨result, by rw [List.foldlM_cons, hnext]; exact hresult⟩

theorem readArgumentList_tokens (a : AttributeSyntax) {rest : List Token}
    (h : BeginsWithout ["("] rest) :
    ∃ arguments, readArgumentList (tokensOf a.argumentLexemes ++ rest) = .ok (arguments, rest) ∧
      ∀ argument ∈ arguments, ∀ t ∈ argument, t.Decodes := by
  rw [AttributeSyntax.argumentLexemes]
  cases a.arguments with
  | none =>
      refine ⟨[], ?_, fun _ hmem => nomatch hmem⟩
      simp [readArgumentList, h.headIs (List.mem_singleton_self _)]
  | some arguments =>
      have hgroup := takeGroup_nested .round arguments rest
      refine ⟨splitArguments arguments.tokens, ?_, ?_⟩
      · simp only [tokensOf_cons, tokensOf_append, tokensOf_nil, List.cons_append,
          List.append_assoc, List.nil_append, readArgumentList, headIs_cons]
        rw [← Nested.tokens]
        simp only [Bracket.opening_token_text, Bracket.openingText, Bracket.closingText] at hgroup ⊢
        rw [hgroup]
        rfl
      · intro argument hargument t ht
        rcases mem_of_splitArgumentsFrom hargument t ht with ht | ht
        · cases ht
        · obtain ⟨l, _, rfl⟩ := List.mem_map.1 ht
          exact l.token_decodes

/-- The texts that would go on with an attribute. -/
def attributeMarks : List String := [".", "::", "<", "("]

/-- **An attribute** is read, and what follows it is left. -/
theorem readAttribute_tokens (path : String) (a : AttributeSyntax) {rest : List Token}
    (h : BeginsWithout attributeMarks rest) :
    ∃ result, readAttribute path (tokensOf a.lexemes ++ rest) = .ok (result, rest) := by
  -- from the back to the front: each part stands in front of what does not go on with it
  have harguments : BeginsWithout [".", "::", "<"] (tokensOf a.argumentLexemes ++ rest) :=
    beginsWithout_arguments a (by decide) (h.mono (by decide))
  have htypes : BeginsWithout [".", "::"]
      (tokensOf a.typeLexemes ++ (tokensOf a.argumentLexemes ++ rest)) :=
    beginsWithout_types a (by decide) (harguments.mono (by decide))
  obtain ⟨name, hname⟩ := qualifiedNameFrom_marked a.tail htypes a.head.text
  obtain ⟨fullName, hfullName⟩ := withTypeArguments_tokens a name (harguments.mono (by decide))
  obtain ⟨arguments, hlist, hdecodes⟩ := readArgumentList_tokens a (h.mono (by decide))
  have hqualified : qualifiedName (tokensOf a.lexemes ++ rest) =
      .ok (name, tokensOf a.typeLexemes ++ (tokensOf a.argumentLexemes ++ rest)) := by
    rw [AttributeSyntax.lexemes, AttributeSyntax.nameLexemes]
    simpa only [List.cons_append, tokensOf_cons, tokensOf_append, List.append_assoc, qualifiedName,
      plain_word] using hname
  obtain ⟨full, hfull⟩ := withArguments_isOk ⟨fullName, [], [],
    (tokensOf a.lexemes ++ rest).head?.map (Token.location path)⟩ hdecodes
  refine ⟨full, ?_⟩
  simp only [readAttribute, hqualified, bind, Except.bind, hfullName, hlist, hfull, orEscapeFault]
  rfl

/-- The tokens of more attributes of a section, each behind a comma, up to the closing bracket. -/
def sectionTail (others : List AttributeSyntax) (rest : List Token) : List Token :=
  tokensOf (others.flatMap fun a => comma :: a.lexemes) ++ Bracket.square.closing.token :: rest

theorem beginsWithout_sectionTail (others : List AttributeSyntax) (rest : List Token) :
    BeginsWithout (":" :: attributeMarks) (sectionTail others rest) := by
  cases others with
  | nil => exact beginsWithout_cons.2 (by decide)
  | cons a others => exact beginsWithout_cons.2 (by decide)

theorem headIs_attribute (a : AttributeSyntax) {text : String} (h : isIdentifier text = false)
    (rest : List Token) : headIs text (tokensOf a.lexemes ++ rest) = false :=
  beq_eq_false_iff_ne.2 (a.head.text_ne h)

/-- **The attributes of a section** are read up to the closing bracket. -/
theorem readSectionItems_tokens (path : String) (first : AttributeSyntax)
    (others : List AttributeSyntax) (rest : List Token) :
    ∃ items, readSectionItems path (tokensOf first.lexemes ++ sectionTail others rest) =
      .ok (items, rest) := by
  induction others generalizing first with
  | nil =>
      obtain ⟨a, ha⟩ := readAttribute_tokens path first
        ((beginsWithout_sectionTail [] rest).mono (by decide))
      have hend : readSectionItems path (skip "," (sectionTail [] rest)) = .ok ([], rest) := by
        rw [readSectionItems_eq]
        rfl
      rw [readSectionItems_eq, headIs_attribute first (by decide), ha]
      exact ⟨[a], by simp only [bind, Except.bind, hend]; rfl⟩
  | cons next others ih =>
      obtain ⟨a, ha⟩ := readAttribute_tokens path first
        ((beginsWithout_sectionTail (next :: others) rest).mono (by decide))
      obtain ⟨items, hitems⟩ := ih next
      have hskip : skip "," (sectionTail (next :: others) rest) =
          tokensOf next.lexemes ++ sectionTail others rest := by
        simp only [sectionTail, List.flatMap_cons, List.cons_append, tokensOf_cons, tokensOf_append,
          List.append_assoc]
        rfl
      rw [readSectionItems_eq, headIs_attribute first (by decide), ha]
      exact ⟨a :: items, by simp only [bind, Except.bind, hskip, hitems]; rfl⟩

/-- A section without a target begins with its first attribute. -/
theorem sectionTarget_of_ne {t : Token} {ts : List Token} (h : headIs ":" ts = false) :
    sectionTarget (t :: ts) = ("", t :: ts) := by
  cases ts with
  | nil => rfl
  | cons mark rest =>
      have hmark : mark.text ≠ ":" := by simpa [headIs_cons] using h
      simp [sectionTarget, hmark]

theorem beginsWithout_parts (parts : List (NameMark × Word)) {rest : List Token}
    (h : BeginsWithout [":"] rest) :
    BeginsWithout [":"]
      (tokensOf (parts.flatMap fun part => [part.1.lexeme, part.2.lexeme]) ++ rest) := by
  cases parts with
  | nil => exact h
  | cons part parts =>
      refine beginsWithout_cons.2 ?_
      cases part.1 <;> decide

theorem headIs_colon_attribute (a : AttributeSyntax) {rest : List Token}
    (h : BeginsWithout [":"] rest) :
    ∃ more, tokensOf a.lexemes ++ rest = a.head.lexeme.token :: more ∧ headIs ":" more = false := by
  refine ⟨tokensOf (a.tail.flatMap fun part => [part.1.lexeme, part.2.lexeme]) ++
    (tokensOf a.typeLexemes ++ (tokensOf a.argumentLexemes ++ rest)), ?_, ?_⟩
  · simp [AttributeSyntax.lexemes, AttributeSyntax.nameLexemes]
  · have harguments := beginsWithout_arguments a (by decide) h
    have htypes := beginsWithout_types a (by decide) harguments
    exact (beginsWithout_parts a.tail htypes).headIs (List.mem_singleton_self _)

/-- **The sections of attributes** in front of a declaration are read as a whole. -/
theorem readSections_tokens (path : String) (sections : List SectionSyntax) {rest : List Token}
    (h : headIs "[" rest = false) :
    ∃ items, readSections path (tokensOf (sections.flatMap SectionSyntax.lexemes) ++ rest) =
      .ok (items, rest) := by
  induction sections with
  | nil => exact ⟨[], by rw [readSections_eq]; simp [h]⟩
  | cons s sections ih =>
      -- behind the bracket stands a target with its colon, or the first attribute and no colon
      obtain ⟨more, hmore⟩ := ih
      obtain ⟨target, first, others⟩ := s
      have hinside : ∃ name,
          sectionTarget
              ((tokensOf (SectionSyntax.lexemes ⟨target, first, others⟩) ++
                (tokensOf (sections.flatMap SectionSyntax.lexemes) ++ rest)).drop 1) =
            (name, tokensOf first.lexemes ++
              sectionTail others (tokensOf (sections.flatMap SectionSyntax.lexemes) ++ rest)) := by
        obtain ⟨tail, htail, hcolon⟩ := headIs_colon_attribute first
          ((beginsWithout_sectionTail others
            (tokensOf (sections.flatMap SectionSyntax.lexemes) ++ rest)).mono (by decide))
        cases target with
        | none =>
            refine ⟨"", ?_⟩
            rw [htail, ← sectionTarget_of_ne hcolon, ← htail]
            simp [SectionSyntax.lexemes, sectionTail]
        | some target =>
            refine ⟨target.text, ?_⟩
            simp [SectionSyntax.lexemes, sectionTail, sectionTarget, colon, Word.lexeme,
              Lexeme.word]
      obtain ⟨name, hname⟩ := hinside
      obtain ⟨items, hitems⟩ := readSectionItems_tokens path first others
        (tokensOf (sections.flatMap SectionSyntax.lexemes) ++ rest)
      have hhead : headIs "[" (tokensOf (SectionSyntax.lexemes ⟨target, first, others⟩) ++
          (tokensOf (sections.flatMap SectionSyntax.lexemes) ++ rest)) = true := rfl
      refine ⟨keptItems name items ++ more, ?_⟩
      rw [List.flatMap_cons, tokensOf_append, List.append_assoc, readSections_eq, if_pos hhead,
        hname]
      simp only [bind, Except.bind, hitems, hmore]
      rfl

end LocalisedEnum

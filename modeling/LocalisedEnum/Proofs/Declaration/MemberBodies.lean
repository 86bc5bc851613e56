import LocalisedEnum.Proofs.Declaration.Alike
import LocalisedEnum.Proofs.Declaration.Depth
import LocalisedEnum.Proofs.Declaration.Respacing

/-!
**The bodies of members are opaque.**

Behind its header a member has a group of braces or an arrow and an expression.  Neither is looked
into: the walk goes on behind the brace that closes the group, or behind the semicolon that ends the
expression.  So a file declares the same with another body in its place, whatever that says.
Constants are no such members, for their values are read, and what begins with the word `delegate`
is none either: it is a statement up to a semicolon, in which brackets of all kinds count.

Main definitions:

* `IsMemberFront` — the tokens of a member up to its body;
* `ReplacedBody` — one body in the place of another.

Main results:

* `readMember_replacedBody` — a member is read the same with another body;
* `run_replacedBody` — **the walk goes on** as it does with the other body;
* `readTokens_replacedBody` — **a file declares the same** but for the places.
-/

set_option autoImplicit false
set_option relaxedAutoImplicit false

namespace LocalisedEnum

/-! ### Groups of braces -/

theorem groupInside_of_braceDepth {depth : Nat} {inside : List Token} {closing : Token}
    (h : braceDepth depth inside = some 0) (hclosing : closing.text = closingBrace)
    (rest : List Token) :
    groupInside openingBrace closingBrace depth (inside ++ closing :: rest) =
      some (inside, rest) := by
  have hdistinct : closingBrace ≠ openingBrace := by decide
  induction inside generalizing depth with
  | nil =>
      cases h
      exact groupInside_end rest (by rw [hclosing]; exact hdistinct) hclosing
  | cons t inside ih =>
      rw [List.cons_append]
      by_cases hopens : t.text = openingBrace
      · rw [braceDepth_opening _ hopens] at h
        rw [groupInside_opening _ _ hopens, ih h]
        rfl
      · by_cases hcloses : t.text = closingBrace
        · cases depth with
          | zero =>
              simp only [braceDepth, if_neg hopens, if_pos hcloses] at h
              cases h
          | succ depth =>
              rw [braceDepth_closing _ hcloses] at h
              rw [groupInside_closing _ _ hopens hcloses, ih h]
              rfl
        · rw [braceDepth_other _ fun hbrace => hbrace.elim hopens hcloses] at h
          rw [groupInside_other _ _ hopens hcloses, ih h]
          rfl

/-- **Balanced braces between braces** are a group. -/
theorem takeGroup_balanced {opening closing : Token} {inside : List Token}
    (hopening : opening.text = openingBrace) (hinside : Balanced inside)
    (hclosing : closing.text = closingBrace) (rest : List Token) :
    takeGroup openingBrace closingBrace (opening :: (inside ++ closing :: rest)) =
      .ok (inside, rest) := by
  simp only [takeGroup, if_pos hopening,
    groupInside_of_braceDepth (balanced_iff.1 hinside) hclosing]

/-! ### Bodies -/

/-- **One body in the place of another**: between the same braces, or between the same arrow and
semicolon.  Of the first expression the semicolon has to be the end; the second has brackets that
balance by their number and no semicolon outside them. -/
inductive ReplacedBody : List Token → List Token → Prop
  | braces {opening closing : Token} {inside inside' : List Token}
      (hopening : opening.text = openingBrace) (hclosing : closing.text = closingBrace)
      (hinside : Balanced inside) (hinside' : Balanced inside') :
      ReplacedBody (opening :: (inside ++ [closing])) (opening :: (inside' ++ [closing]))
  | expression {arrow semicolon : Token} {expression expression' : List Token}
      (harrow : arrow.text = "=>") (hsemicolon : semicolon.text = ";")
      (hread : takeStatement (expression ++ [semicolon]) = .ok (expression, []))
      (hbalanced : BalancedBy statementNesting expression')
      (hclosed : ¬ Exposed statementNesting [";"] 0 expression') :
      ReplacedBody (arrow :: (expression ++ [semicolon])) (arrow :: (expression' ++ [semicolon]))

section Header

variable {header : List Token} (htotal : depthBehind roundNesting header = 0)
  (hclosed : ¬ Exposed roundNesting memberMarks 0 header)

include htotal hclosed

/-- A member with a group of braces goes on with what may stand behind its braces. -/
theorem readMember_braces {opening closing : Token} {inside : List Token}
    (hopening : opening.text = openingBrace) (hinside : Balanced inside)
    (hclosing : closing.text = closingBrace) (modifiers : List String) (rest : List Token) :
    readMember modifiers (header ++ opening :: (inside ++ closing :: rest)) =
      skipAfterBraces header (propertyOf header modifiers).isSome rest >>= fun rest =>
        .ok (propertyOf header modifiers, rest) := by
  have hheader := memberHeader_balanced hclosed (by rw [htotal]; rfl) (by rw [hopening]; decide)
    (inside ++ closing :: rest)
  have hother : openingBrace ≠ closingBrace ∧ openingBrace ≠ ";" := by decide
  simp only [readMember, hheader, hopening, if_neg hother.1, if_neg hother.2,
    takeGroup_balanced hopening hinside hclosing]
  rfl

/-- A member with an expression ends with its semicolon. -/
theorem readMember_expression {arrow : Token} {inside ts rest : List Token}
    (harrow : arrow.text = "=>") (hread : takeStatement ts = .ok (inside, rest))
    (modifiers : List String) :
    readMember modifiers (header ++ arrow :: ts) = .ok (propertyOf header modifiers, rest) := by
  have hheader := memberHeader_balanced hclosed (by rw [htotal]; rfl) (by rw [harrow]; decide) ts
  have hother : "=>" ≠ closingBrace ∧ "=>" ≠ ";" ∧ "=>" ≠ openingBrace := by decide
  simp only [readMember, hheader, harrow, if_neg hother.1, if_neg hother.2.1, if_neg hother.2.2,
    hread]
  rfl

/-- **A member is read the same** with another body. -/
theorem readMember_replacedBody {body body' : List Token} (hbody : ReplacedBody body body')
    (modifiers : List String) (rest : List Token) :
    readMember modifiers (header ++ (body ++ rest)) =
      readMember modifiers (header ++ (body' ++ rest)) := by
  cases hbody with
  | braces hopening hclosing hinside hinside' =>
      simp only [List.cons_append, List.append_assoc, List.nil_append]
      rw [readMember_braces htotal hclosed hopening hinside hclosing,
        readMember_braces htotal hclosed hopening hinside' hclosing]
  | @expression arrow semicolon expression expression' harrow hsemicolon hread hbalanced
      hexpression =>
      obtain ⟨used, hused, hfront⟩ := (takesFront_takeStatement _).front hread
      rw [List.append_nil] at hused
      have hbefore : takeStatement (expression ++ [semicolon] ++ rest) = .ok (expression, rest) :=
        hused ▸ hfront rest (.atEnd rest fun _ _ => List.not_mem_nil)
      have hafter : takeStatement (expression' ++ [semicolon] ++ rest) =
          .ok (expression', rest) := by
        rw [List.append_assoc]
        exact takeStatement_balanced hbalanced hexpression hsemicolon rest
      rw [List.cons_append, List.cons_append, readMember_expression htotal hclosed harrow hbefore,
        readMember_expression htotal hclosed harrow hafter]

end Header

/-! ### Members -/

/-- The words that begin a declaration in the body of a type that is no member. -/
def introducingWords : List String := "enum" :: "delegate" :: typeKeywords

/-- **The tokens of a member up to its body**: attributes, modifiers and a header.  The header ends
outside all brackets, and none of the marks that end one stands there before. -/
structure IsMemberFront (path : String) (front : List Token) : Prop where
  parts : ∃ attributes words head more,
    readSections path front = .ok (attributes, words ++ head :: more) ∧
    (∀ t ∈ words, isModifier t = true) ∧ "const" ∉ words.map Token.text ∧ isModifier head = false ∧
    head.text ∉ introducingWords ∧ depthBehind roundNesting (head :: more) = 0 ∧
    ¬ Exposed roundNesting memberMarks 0 (head :: more)

/-- What a declaration of a member reads behind its modifiers. -/
theorem declareBody_member {w : Walk} {path : String} {start head : Token}
    {attributes : List Attribute} {modifiers : List String} (htype : w.scope.inType = true)
    (hhead : head.text ∉ introducingWords) (hconst : "const" ∉ modifiers) (ts : List Token) :
    w.declareBody path start attributes modifiers (head :: ts) =
      w.declareMember modifiers (head :: ts) := by
  simp only [introducingWords, List.mem_cons, not_or] at hhead
  rw [Walk.declareBody_cons]
  simp [Walk.declareHead, htype, hhead, hconst]

theorem IsMemberFront.declareFrom_replacedBody {path : String} {front body body' : List Token}
    (hfront : IsMemberFront path front) (hbody : ReplacedBody body body') {w : Walk}
    (htype : w.scope.inType = true) (start : Token) (rest : List Token) :
    w.declareFrom path start (front ++ (body ++ rest)) =
      w.declareFrom path start (front ++ (body' ++ rest)) := by
  obtain
      ⟨attributes, words, head, more, hsections, hwords, hconst, hhead, hword, htotal, hclosed⟩ :=
    hfront.parts
  have hread : ∀ ts, w.declareFrom path start (front ++ ts) =
      w.declareMember (words.map Token.text) (head :: more ++ ts) := by
    intro ts
    have hne : words ++ head :: more ≠ [] :=
      List.append_ne_nil_of_right_ne_nil _ (List.cons_ne_nil _ _)
    rw [declareFrom_of_sections hsections hne, List.append_assoc, List.cons_append,
      readModifiers_append hwords hhead]
    exact declareBody_member htype hword hconst _
  rw [hread, hread, Walk.declareMember, Walk.declareMember,
    readMember_replacedBody htotal hclosed hbody]

/-- A member begins with a bracket, a modifier or its header. -/
theorem IsMemberFront.exists_cons {path : String} {front : List Token}
    (h : IsMemberFront path front) :
    ∃ t more, front = t :: more ∧ t.text ≠ closingBrace ∧ t.text ≠ ";" := by
  obtain ⟨attributes, words, head, more, hsections, hwords, _, _, _, _, hclosed⟩ := h.parts
  rcases front_eq_of_sections hsections with hopen | rfl
  · cases front with
    | nil => cases hopen
    | cons t others =>
        rw [headIs_cons, beq_iff_eq] at hopen
        refine ⟨t, others, rfl, ?_⟩
        rw [hopen]
        decide
  · cases words with
    | nil =>
        rw [exposed_cons, not_or] at hclosed
        have hmarks : ∀ text ∈ [closingBrace, ";"], text ∈ memberMarks := by decide
        refine ⟨head, more, rfl, ?_, ?_⟩
        · exact fun hbrace => hclosed.1 ⟨rfl, hbrace ▸ hmarks _ (by decide)⟩
        · exact fun hsemicolon => hclosed.1 ⟨rfl, hsemicolon ▸ hmarks _ (by decide)⟩
    | cons t words =>
        have hword : ∀ text ∈ modifierWords, text ≠ closingBrace ∧ text ≠ ";" := by decide
        exact ⟨t, _, rfl, hword _ (List.contains_iff_mem.1 (hwords t List.mem_cons_self))⟩

/-! ### Files -/

/-- **The walk goes on** in front of a member as it does in front of the same member with another
body. -/
theorem run_replacedBody {path : String} {front body body' : List Token}
    (hfront : IsMemberFront path front) (hbody : ReplacedBody body body') {w : Walk}
    (htype : w.scope.inType = true) (rest : List Token) :
    Walk.run path w (front ++ (body ++ rest)) = Walk.run path w (front ++ (body' ++ rest)) := by
  obtain ⟨t, more, rfl, hbrace, hsemicolon⟩ := hfront.exists_cons
  exact Walk.run_congr hbrace hsemicolon (hfront.declareFrom_replacedBody hbody htype t rest)

/-- **A file declares the same**, but for the places, with another body of a member of a type. -/
theorem readTokens_replacedBody {path : String} {before front body body' rest ts' : List Token}
    {w : Walk}
    (hreaches :
      Walk.Reaches path .start (before ++ (front ++ (body ++ rest))) w (front ++ (body ++ rest)))
    (htype : w.scope.inType = true) (hfront : IsMemberFront path front)
    (hbody : ReplacedBody body body')
    (hts' : unplaceAll ts' = unplaceAll (before ++ (front ++ (body' ++ rest)))) :
    SameReading (readTokens path (before ++ (front ++ (body ++ rest)))) (readTokens path ts') := by
  obtain ⟨t, more, hcons, _⟩ := hfront.exists_cons
  obtain ⟨used, hused, hreaches'⟩ := hreaches.front
  cases List.append_cancel_right hused
  have hrun : Walk.run path .start (before ++ (front ++ (body ++ rest))) =
      Walk.run path .start (before ++ (front ++ (body' ++ rest))) := by
    rw [hreaches.run, (hreaches' (front ++ (body' ++ rest)) (by rw [hcons]; rfl)).run,
      run_replacedBody hfront hbody htype]
  refine sameReading_of_unplacedFile ?_
  rw [← readTokens_unplaced path ts', hts', readTokens_unplaced, readTokens, readTokens, hrun]
  cases Walk.run path .start (before ++ (front ++ (body' ++ rest))) with
  | ok done => rfl
  | error e => cases e <;> rfl

/-- An enum and a property in the body of a method are not declared. -/
theorem readTokens_replacedBody_method :
    let opening : Token := ⟨.operator, openingBrace, 1, 1⟩
    let closing : Token := ⟨.operator, closingBrace, 1, 1⟩
    let before := tokenise "class C \x7b"
    let front := tokenise "int M(int v)"
    let body := opening :: (tokenise "return v;" ++ [closing])
    let body' :=
      opening :: (tokenise "enum E \x7b A \x7d public static string Q => \"q\";" ++ [closing])
    let rest := tokenise "public static string P => \"p\"; \x7d"
    SameReading (readTokens "File0.cs" (before ++ (front ++ (body ++ rest))))
      (readTokens "File0.cs" (before ++ (front ++ (body' ++ rest)))) := by
  intro opening closing before front body body' rest
  have hbody : ReplacedBody body body' := by
    refine .braces rfl rfl ?_ ?_ <;> rw [balanced_iff] <;> decide +kernel
  have hfront : IsMemberFront "File0.cs" front := by
    refine ⟨[], [], ⟨.identifier, "int", 1, 1⟩, front.drop 1, ?_, ?_, ?_, ?_, ?_, ?_, ?_⟩ <;> decide
      +kernel
  -- the body of the class is entered in one step
  obtain ⟨w, hreaches, htype⟩ : ∃ w,
      Walk.Reaches "File0.cs" .start (before ++ (front ++ (body ++ rest))) w
        (front ++ (body ++ rest)) ∧ w.scope.inType = true := by
    have hbefore : before = [⟨.identifier, "class", 1, 1⟩, ⟨.identifier, "C", 1, 7⟩,
        ⟨.operator, openingBrace, 1, 9⟩] := by
      decide +kernel
    rw [hbefore]
    refine ⟨Walk.start.enter (Walk.start.scope.openType
      ⟨"C", "", "class", .internalLevel, [], [], ⟨"File0.cs", 1, 1⟩, []⟩), ?_, rfl⟩
    refine .step (.declaration (by decide) (by decide) ?_) (.refl _ _)
    rw [Walk.declare_eq, Walk.declareFrom, readSections_eq]
    rfl
  exact readTokens_replacedBody hreaches htype hfront hbody rfl

/-- In a declaration of constants, and in one that begins with the word `delegate`, brackets of all
kinds count.  An opening parenthesis in the place of a group of braces takes the rest of the file
with it. -/
theorem readTokens_unbalancedBody :
    let replaced (before inside behind : String) := readTokens "File0.cs" (tokenise before ++
      (⟨.operator, openingBrace, 1, 1⟩ ::
        (tokenise inside ++ [⟨.operator, closingBrace, 1, 1⟩]) ++ tokenise behind))
    (Balanced (tokenise "A = 1") ∧ Balanced (tokenise "get;") ∧ Balanced (tokenise "(")) ∧
      ((replaced "class C \x7b const F X = new F" "A = 1" "; \x7d").isOk = true ∧
        (replaced "class C \x7b const F X = new F" "(" "; \x7d").isOk = false) ∧
      (replaced "class C \x7b unsafe delegate*<void> P" "get;" "int N; \x7d").isOk = true ∧
        (replaced "class C \x7b unsafe delegate*<void> P" "(" "int N; \x7d").isOk = false := by
  intro replaced
  refine ⟨⟨?_, ?_, ?_⟩, ?_, ?_⟩
  · rw [balanced_iff]; decide +kernel
  · rw [balanced_iff]; decide +kernel
  · rw [balanced_iff]; decide +kernel
  · decide +kernel
  · decide +kernel

end LocalisedEnum

import LocalisedEnum.Proofs.Declaration.Overlooked

/-!
**Braces that do not balance.**

The walk counts braces as scopes: the header of a type or of a namespace block opens one, and a
closing brace between declarations closes it.  The braces of an enum and the body of a member are
closed where they are opened.  So a file whose braces do not balance is refused, unless one of its
declarations overlooks a brace, and its braces do not lead from the number of scopes that are open
in front of it to the number that are open behind it.

Main definitions:

* `Balanced` — braces of which none is closed before it is opened, and none stays open;
* `braceDepth` — the number of open braces behind some tokens;
* `Walk.Miscounts` — a declaration of a file whose braces do not lead where the scopes do, for it
  overlooks one.

Main results:

* `braceDepth_eq_some_iff` — the number of open braces, by counting those in front of each place;
* `braceDepth_of_overlooks` — **a declaration that overlooks no brace** keeps as many scopes open as
  braces;
* `braceDepth_of_run` — **the walk over a file** keeps as many scopes open as braces;
* `readSource_of_not_balanced` — **a text whose braces do not balance** is refused, or one of its
  declarations miscounts;
* `readSource_stray` — a text with such a declaration that is accepted.
-/

set_option autoImplicit false
set_option relaxedAutoImplicit false

namespace LocalisedEnum

/-! ### Counting braces -/

/-- How many of the tokens have a text. -/
def countText (text : String) (ts : List Token) : Nat :=
  ts.countP (·.text == text)

/-- **Balanced braces**: in front of every place at least as many are opened as closed, and as many
in all. -/
def Balanced (ts : List Token) : Prop :=
  (∀ front, front <+: ts → countText closingBrace front ≤ countText openingBrace front) ∧
    countText closingBrace ts = countText openingBrace ts

/-- The number of open braces behind some tokens, `depth` being open in front of them.  There is
none if one is closed that is not open. -/
def braceDepth (depth : Nat) : List Token → Option Nat
  | [] => some depth
  | t :: ts =>
    if t.text = openingBrace then braceDepth (depth + 1) ts
    else if t.text = closingBrace then
      match depth with
      | 0 => none
      | depth + 1 => braceDepth depth ts
    else braceDepth depth ts

/-- A brace, of either kind. -/
def IsBrace (t : Token) : Prop :=
  t.text = openingBrace ∨ t.text = closingBrace

section Depth

variable {depth : Nat} {t : Token} (ts : List Token)

theorem braceDepth_opening (ht : t.text = openingBrace) :
    braceDepth depth (t :: ts) = braceDepth (depth + 1) ts := by
  simp only [braceDepth, if_pos ht]

theorem braceDepth_closing (ht : t.text = closingBrace) :
    braceDepth (depth + 1) (t :: ts) = braceDepth depth ts := by
  have hopening : closingBrace ≠ openingBrace := by decide
  simp only [braceDepth, ht, if_neg hopening, if_pos]

theorem braceDepth_other (ht : ¬ IsBrace t) : braceDepth depth (t :: ts) = braceDepth depth ts := by
  simp only [braceDepth, if_neg (fun h => ht (Or.inl h)), if_neg (fun h => ht (Or.inr h))]

end Depth

theorem braceDepth_append (depth : Nat) (ts us : List Token) :
    braceDepth depth (ts ++ us) =
      (braceDepth depth ts).bind fun depth' => braceDepth depth' us := by
  induction ts generalizing depth with
  | nil => rfl
  | cons t ts ih =>
      by_cases hopening : t.text = openingBrace
      · rw [List.cons_append, braceDepth_opening _ hopening, braceDepth_opening _ hopening, ih]
      · by_cases hclosing : t.text = closingBrace
        · cases depth with
          | zero =>
              simp only [List.cons_append, braceDepth, if_neg hopening, if_pos hclosing,
                Option.bind_none]
          | succ depth =>
              rw [List.cons_append, braceDepth_closing _ hclosing, braceDepth_closing _ hclosing,
                ih]
        · have ht : ¬ IsBrace t := fun h => h.elim hopening hclosing
          rw [List.cons_append, braceDepth_other _ ht, braceDepth_other _ ht, ih]

/-- Tokens without a brace leave the number as it is. -/
theorem braceDepth_of_forall (depth : Nat) {ts : List Token} (h : ∀ t ∈ ts, ¬ IsBrace t) :
    braceDepth depth ts = some depth := by
  induction ts with
  | nil => rfl
  | cons t ts ih =>
      rw [braceDepth_other _ (h t List.mem_cons_self),
        ih fun u hu => h u (List.mem_cons_of_mem _ hu)]

/-- The inside of a group of braces, as many being open inside it, closes these. -/
theorem braceDepth_groupInside {opened depth : Nat} {ts inside rest : List Token}
    (h : groupInside openingBrace closingBrace opened ts = some (inside, rest)) :
    braceDepth (depth + opened) inside = some depth := by
  induction ts generalizing opened inside with
  | nil => cases h
  | cons t ts ih =>
      rcases groupInside_cons_eq h with ⟨_, _, rfl, rfl, _⟩ | ⟨opened', more, rfl, hmore, hdepth⟩
      · rfl
      · rcases hdepth with ⟨hopening, rfl⟩ | ⟨_, hclosing, rfl⟩ | ⟨hopening, hclosing, rfl⟩
        · rw [braceDepth_opening _ hopening]
          exact ih hmore
        · rw [← Nat.add_assoc, braceDepth_closing _ hclosing]
          exact ih hmore
        · rw [braceDepth_other _ fun hbrace => hbrace.elim hopening hclosing]
          exact ih hmore

@[simp] theorem countText_nil (text : String) : countText text [] = 0 := rfl

theorem countText_cons (text : String) (t : Token) (ts : List Token) :
    countText text (t :: ts) = countText text ts + if t.text = text then 1 else 0 := by
  simp [countText, List.countP_cons]

theorem forall_prefix_cons {P : List Token → Prop} {t : Token} {ts : List Token} :
    (∀ front, front <+: t :: ts → P front) ↔ P [] ∧ ∀ front, front <+: ts → P (t :: front) := by
  constructor
  · intro h
    exact ⟨h [] List.nil_prefix, fun front hfront => h _ ((List.prefix_cons_inj t).2 hfront)⟩
  · rintro ⟨hnil, hcons⟩ front hfront
    rcases List.prefix_cons_iff.1 hfront with rfl | ⟨tail, rfl, htail⟩
    · exact hnil
    · exact hcons tail htail

/-- The number of open braces is found by counting: nowhere are more closed than have been
opened. -/
theorem braceDepth_eq_some_iff {depth depth' : Nat} {ts : List Token} :
    braceDepth depth ts = some depth' ↔ (∀ front, front <+: ts →
        countText closingBrace front ≤ depth + countText openingBrace front) ∧
      depth' + countText closingBrace ts = depth + countText openingBrace ts := by
  have hdistinct : closingBrace ≠ openingBrace := by decide
  induction ts generalizing depth with
  | nil => simp [braceDepth, eq_comm]
  | cons t ts ih =>
      rw [forall_prefix_cons]
      by_cases hopening : t.text = openingBrace
      · have hclosing : t.text ≠ closingBrace := fun h => hdistinct (h.symm.trans hopening)
        simp only [braceDepth, countText_cons, if_pos hopening, if_neg hclosing, ih, countText_nil]
        constructor
        · rintro ⟨hfronts, htotal⟩
          refine ⟨⟨Nat.zero_le _, fun front hfront => ?_⟩, by omega⟩
          have := hfronts front hfront
          omega
        · rintro ⟨⟨_, hfronts⟩, htotal⟩
          refine ⟨fun front hfront => ?_, by omega⟩
          have := hfronts front hfront
          omega
      · by_cases hclosing : t.text = closingBrace
        · cases depth with
          | zero =>
              -- the token itself is closed without having been opened
              simp only [braceDepth, countText_cons, if_neg hopening, if_pos hclosing, reduceCtorEq,
                false_iff]
              rintro ⟨⟨_, hfronts⟩, _⟩
              have := hfronts [] List.nil_prefix
              simp at this
          | succ depth =>
              simp only [braceDepth, countText_cons, if_neg hopening, if_pos hclosing, ih,
                countText_nil]
              constructor
              · rintro ⟨hfronts, htotal⟩
                refine ⟨⟨Nat.zero_le _, fun front hfront => ?_⟩, by omega⟩
                have := hfronts front hfront
                omega
              · rintro ⟨⟨_, hfronts⟩, htotal⟩
                refine ⟨fun front hfront => ?_, by omega⟩
                have := hfronts front hfront
                omega
        · simp only [braceDepth, countText_cons, if_neg hopening, if_neg hclosing, ih,
            countText_nil]
          simp

theorem balanced_iff {ts : List Token} : Balanced ts ↔ braceDepth 0 ts = some 0 := by
  simp only [braceDepth_eq_some_iff, Nat.zero_add, Balanced]

/-! ### Declarations -/

/-- **Behind its modifiers a declaration that overlooks no brace** keeps as many scopes open as
braces. -/
theorem braceDepth_of_bodyOverlooks {w w' : Walk} {modifiers : List String}
    {rest used overlooked : List Token} (h : w.BodyOverlooks w' modifiers rest used overlooked)
    (hfree : ∀ t ∈ overlooked, ¬ IsBrace t) :
    braceDepth w.outer.length used = some w'.outer.length := by
  cases h with
  | @block head brace header _ hbrace houter =>
      rw [← List.cons_append, braceDepth_append, braceDepth_of_forall _ hfree, Option.bind_some,
        braceDepth_opening _ hbrace, houter]
      rfl
  | @enum head name opening closing header inside _ _ hopening hclosing houter =>
      have hfront : ∀ t ∈ head :: name :: header, ¬ IsBrace t := by
        intro t ht
        refine hfree t ?_
        rw [← List.cons_append, ← List.cons_append]
        exact List.mem_append_left _ ht
      have hinside : ∀ t ∈ inside, ¬ IsBrace t := fun t ht =>
        hfree t (List.mem_cons_of_mem _ (List.mem_cons_of_mem _ (List.mem_append_right _ ht)))
      rw [← List.cons_append, ← List.cons_append, braceDepth_append, braceDepth_of_forall _ hfront,
        Option.bind_some, braceDepth_opening _ hopening, braceDepth_append,
        braceDepth_of_forall _ hinside, Option.bind_some, braceDepth_closing _ hclosing, houter]
      rfl
  | statement _ houter => rw [braceDepth_of_forall _ hfree, houter]
  | member _ _ houter => rw [braceDepth_of_forall _ hfree, houter]
  | @body header inside back opening closing _ hopening hbody houter =>
      have hheader : ∀ t ∈ header, ¬ IsBrace t := fun t ht => hfree t (List.mem_append_left _ ht)
      have hback : ∀ t ∈ back, ¬ IsBrace t := fun t ht => hfree t (List.mem_append_right _ ht)
      obtain ⟨brace, heq, hclosing, _⟩ := groupInside_front hbody
      cases List.append_cancel_left heq
      rw [braceDepth_append, braceDepth_of_forall _ hheader, Option.bind_some,
        braceDepth_opening _ hopening, braceDepth_append, braceDepth_groupInside hbody,
        Option.bind_some, braceDepth_closing _ hclosing, braceDepth_of_forall _ hback, houter]

/-- A modifier is no brace. -/
theorem not_isBrace_of_isModifier {t : Token} (h : isModifier t = true) : ¬ IsBrace t := by
  have hopening : openingBrace ∉ modifierWords := by decide
  have hclosing : closingBrace ∉ modifierWords := by decide
  rintro (ht | ht)
  · exact hopening (ht ▸ List.contains_iff_mem.1 h)
  · exact hclosing (ht ▸ List.contains_iff_mem.1 h)

/-- **A declaration that overlooks no brace** keeps as many scopes open as braces. -/
theorem braceDepth_of_overlooks {path : String} {w w' : Walk} {rest used overlooked : List Token}
    (h : w.Overlooks path w' rest used overlooked) (hfree : ∀ t ∈ overlooked, ¬ IsBrace t) :
    braceDepth w.outer.length used = some w'.outer.length := by
  cases h with
  | @intro sections words body overlooked attributes _ hwords hbody =>
      have hsections : ∀ t ∈ sections, ¬ IsBrace t :=
        fun t ht => hfree t (List.mem_append_left _ ht)
      have htaken : words = (words ++ (body ++ rest)).takeWhile isModifier := by
        have hrest : (words ++ (body ++ rest)).dropWhile isModifier = body ++ rest :=
          congrArg Prod.snd hwords
        have hall :=
          List.takeWhile_append_dropWhile (p := isModifier) (l := words ++ (body ++ rest))
        rw [hrest] at hall
        exact (List.append_cancel_right hall).symm
      have hmodifiers : ∀ t ∈ words, ¬ IsBrace t := by
        intro t ht
        rw [htaken] at ht
        exact not_isBrace_of_isModifier (List.all_eq_true.1 List.all_takeWhile t ht)
      rw [braceDepth_append, braceDepth_of_forall _ hsections, Option.bind_some, braceDepth_append,
        braceDepth_of_forall _ hmodifiers, Option.bind_some]
      exact braceDepth_of_bodyOverlooks hbody fun t ht => hfree t (List.mem_append_right _ ht)

/-! ### Pieces of a file -/

/-- **A declaration that miscounts**: somewhere in a file a declaration overlooks a brace, and its
braces do not lead from the number of scopes that are open in front of it to the number that are
open behind it. -/
def Walk.Miscounts (path : String) (w : Walk) (ts : List Token) : Prop :=
  ∃ w₁ w₂ used overlooked rest, Walk.Reaches path w ts w₁ (used ++ rest) ∧
    Walk.Step path w₁ (used ++ rest) w₂ rest ∧ w₁.Overlooks path w₂ rest used overlooked ∧
      (∃ t ∈ overlooked, IsBrace t) ∧ braceDepth w₁.outer.length used ≠ some w₂.outer.length

/-- A piece leads where the scopes do, unless it is a declaration that miscounts. -/
theorem braceDepth_of_step {path : String} {w w' : Walk} {used rest : List Token}
    (h : Walk.Step path w (used ++ rest) w' rest)
    (hcounts : ¬ Walk.Miscounts path w (used ++ rest)) :
    braceDepth w.outer.length used = some w'.outer.length := by
  have hstep := h
  generalize hts : used ++ rest = ts at h
  cases h with
  | @close t _ _ htext hclose =>
      have hused : used = [t] := List.append_cancel_right hts
      rw [Walk.close?] at hclose
      split at hclose
      · cases hclose
      · next s outer houter =>
        cases hclose
        rw [hused, houter, List.length_cons, braceDepth_closing _ htext]
        rfl
  | @semicolon t _ htext =>
      have hused : used = [t] := List.append_cancel_right hts
      have hopening : ";" ≠ openingBrace := by decide
      have hclosing : ";" ≠ closingBrace := by decide
      have hbrace : ¬ IsBrace t := by
        rw [IsBrace, htext]
        exact fun h => h.elim hopening hclosing
      rw [hused, braceDepth_other _ hbrace]
      rfl
  | @declaration t _ more _ _ _ hdeclare =>
      obtain ⟨used', overlooked, hused, hoverlooks⟩ := overlooks_of_declare hdeclare
      cases List.append_cancel_right (hts.trans hused)
      by_cases hcount : braceDepth w.outer.length used = some w'.outer.length
      · exact hcount
      · by_cases hbrace : ∃ u ∈ overlooked, IsBrace u
        · exact absurd ⟨w, w', used, overlooked, rest, .refl _ _, hstep, hoverlooks, hbrace, hcount⟩
            hcounts
        · exact braceDepth_of_overlooks hoverlooks fun u hu hu' => hbrace ⟨u, hu, hu'⟩

/-- What miscounts behind a piece miscounts in front of it. -/
theorem Walk.Miscounts.behind {path : String} {w w' : Walk} {ts rest : List Token}
    (hstep : Walk.Step path w ts w' rest) (h : Walk.Miscounts path w' rest) :
    Walk.Miscounts path w ts := by
  obtain ⟨w₁, w₂, used, overlooked, remaining, hreaches, hdeclaration⟩ := h
  exact ⟨w₁, w₂, used, overlooked, remaining, .step hstep hreaches, hdeclaration⟩

/-- **The walk over a file** keeps as many scopes open as braces, and ends with none. -/
theorem braceDepth_of_run {path : String} {w done : Walk} {ts : List Token}
    (h : Walk.run path w ts = .ok done) (hcounts : ¬ Walk.Miscounts path w ts) :
    braceDepth w.outer.length ts = some 0 := by
  obtain ⟨hreaches, houter⟩ := Walk.reaches_of_run h
  clear h
  generalize hend : ([] : List Token) = rest at hreaches
  induction hreaches with
  | refl =>
      rw [← hend, houter]
      rfl
  | step hstep _ ih =>
      have hrest := ih (fun hmiss => hcounts (hmiss.behind hstep)) houter hend
      obtain ⟨used, _, rfl, _⟩ := hstep.front
      rw [braceDepth_append, braceDepth_of_step hstep hcounts, Option.bind_some, hrest]

/-- **A text whose braces do not balance** is refused, or else one of its declarations miscounts. -/
theorem readSource_of_not_balanced {path text : String} (h : ¬ Balanced (tokenise text)) :
    (∃ e, readSource path text = .error e) ∨ Walk.Miscounts path .start (tokenise text) := by
  cases hread : readSource path text with
  | error e => exact Or.inl ⟨e, rfl⟩
  | ok file =>
      right
      obtain ⟨done, hrun, _⟩ := readTokens_eq_ok.1 hread
      by_cases hcounts : Walk.Miscounts path .start (tokenise text)
      · exact hcounts
      · exact absurd (balanced_iff.2 (braceDepth_of_run hrun hcounts)) h

/-- A class whose header closes a brace is accepted, although its braces do not balance. -/
theorem readSource_stray :
    ¬ Balanced (tokenise "class C \x7d \x7b \x7d") ∧
      ((∃ e, readSource "File0.cs" "class C \x7d \x7b \x7d" = .error e) ∨
        Walk.Miscounts "File0.cs" .start (tokenise "class C \x7d \x7b \x7d")) ∧
      ∃ file, readSource "File0.cs" "class C \x7d \x7b \x7d" = .ok file := by
  have hbalanced : ¬ Balanced (tokenise "class C \x7d \x7b \x7d") := by
    rw [balanced_iff]
    decide +kernel
  refine ⟨hbalanced, readSource_of_not_balanced hbalanced, ?_⟩
  have hread : (readSource "File0.cs" "class C \x7d \x7b \x7d").isOk = true := by decide +kernel
  cases hfile : readSource "File0.cs" "class C \x7d \x7b \x7d" with
  | error e =>
      rw [hfile] at hread
      cases hread
  | ok file => exact ⟨file, rfl⟩

end LocalisedEnum

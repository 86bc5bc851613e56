import LocalisedEnum.Keyword
import LocalisedEnum.Proofs.Declaration.AttributeSection

/-!
**Marks at names.**

Any name may be written with the at sign that lets a keyword be used as a name.  Readers look for
punctuation and for keywords, which have no mark, so that tokens with more marks fall into the same
parts: names end where they ended, and groups close where they closed.

Main definitions:

* `Token.marked`, `Token.IsName` — a token with the sign in front, and names that may have one;
* `Remarked` — **the same tokens with marks** in front of more names;
* `ReadAlike` — two readers that agree but for marks.

Main results:

* `Remarked.exists_append` — marks fall into the parts of what they are put in;
* `qualifiedName_remarked` — a name is read without its marks;
* `takeGroup_remarked` — a group with marks inside.
-/

set_option autoImplicit false
set_option relaxedAutoImplicit false

namespace LocalisedEnum

/-! ### Marked names -/

/-- A token with the sign in front of it that lets a keyword be used as a name. -/
def Token.marked (t : Token) : Token :=
  { t with text := "@" ++ t.text }

/-- A name that is no keyword and has no mark. -/
structure Token.IsName (t : Token) : Prop where
  kind : t.kind = .identifier
  identifier : isIdentifier t.text = true
  noKeyword : t.text ∉ keywords

/-- The same token, or the same name with a mark. -/
inductive SameName (t : Token) : Token → Prop
  | refl : SameName t t
  | marked (h : t.IsName) : SameName t t.marked

/-- A text that no name has, with or without a mark. -/
def IsFixed (text : String) : Prop :=
  (isIdentifier text = true → text ∈ keywords) ∧ text.toList.head? ≠ some '@'

instance (text : String) : Decidable (IsFixed text) :=
  inferInstanceAs (Decidable (_ ∧ _))

theorem Token.IsName.text_ne {t : Token} (h : t.IsName) {text : String} (hfixed : IsFixed text) :
    t.text ≠ text := by
  rintro rfl
  exact h.noKeyword (hfixed.1 h.identifier)

theorem marked_text_ne (t : Token) {text : String} (hfixed : IsFixed text) :
    t.marked.text ≠ text := by
  rintro rfl
  refine hfixed.2 ?_
  rw [Token.marked, String.toList_append]
  rfl

namespace SameName

variable {t t' : Token} (h : SameName t t')
include h

theorem kind : t'.kind = t.kind := by
  cases h <;> rfl

theorem plain : t'.plain = t.plain := by
  cases h with
  | refl => rfl
  | marked hname =>
      have hplain : t.plain = t.text := plainName_of_isIdentifier hname.identifier
      rw [hplain, Token.plain, plainName, Token.marked, String.toList_append]
      exact String.ofList_toList

theorem text_eq_iff {text : String} (hfixed : IsFixed text) : t'.text = text ↔ t.text = text := by
  cases h with
  | refl => rfl
  | marked hname => exact iff_of_false (marked_text_ne t hfixed) (hname.text_ne hfixed)

theorem text_beq {text : String} (hfixed : IsFixed text) :
    (t'.text == text) = (t.text == text) := by
  rw [Bool.eq_iff_iff, beq_iff_eq, beq_iff_eq, h.text_eq_iff hfixed]

/-- The text of what is no identifier stays. -/
theorem eq_of_kind (hkind : t.kind ≠ .identifier) : t' = t := by
  cases h with
  | refl => rfl
  | marked hname => exact absurd hname.kind hkind

end SameName

/-! ### Marked tokens -/

/-- Words that are no names in front of the texts beside them: the operator that quotes a name, and
the targets of sections. -/
def wordsBefore : List (String × String) :=
  ("nameof", "(") :: globalTargets.map fun target => (target, ":")

/-- **The same tokens with more marks**: some names have got one. -/
inductive Remarked : List Token → List Token → Prop
  | nil : Remarked [] []
  | keep (t : Token) {ts ts' : List Token} (h : Remarked ts ts') : Remarked (t :: ts) (t :: ts')
  | mark {t : Token} {ts ts' : List Token} (hname : t.IsName)
      (hword : ∀ word ∈ wordsBefore, t.text = word.1 → headIs word.2 ts = false)
      (h : Remarked ts ts') : Remarked (t :: ts) (t.marked :: ts')

namespace Remarked

variable {ts ts' us : List Token}

theorem refl (ts : List Token) : Remarked ts ts := by
  induction ts with
  | nil => exact .nil
  | cons t ts ih => exact .keep t ih

theorem exists_cons {t : Token} (h : Remarked (t :: ts) us) :
    ∃ t' ts', us = t' :: ts' ∧ SameName t t' ∧ Remarked ts ts' := by
  cases h with
  | @keep _ _ ts' h => exact ⟨t, ts', rfl, .refl, h⟩
  | @mark _ _ ts' hname _ h => exact ⟨t.marked, ts', rfl, .marked hname, h⟩

theorem length_eq (h : Remarked ts ts') : ts'.length = ts.length := by
  induction h with
  | nil => rfl
  | keep t _ ih => exact congrArg Nat.succ ih
  | mark _ _ _ ih => exact congrArg Nat.succ ih

theorem isEmpty_eq (h : Remarked ts ts') : ts'.isEmpty = ts.isEmpty := by
  cases h <;> rfl

theorem headIs_eq (h : Remarked ts ts') {text : String} (hfixed : IsFixed text) :
    headIs text ts' = headIs text ts := by
  cases ts with
  | nil =>
      cases h
      rfl
  | cons t ts =>
      obtain ⟨t', ts', rfl, ht, _⟩ := h.exists_cons
      exact ht.text_beq hfixed

/-- A word stands as it is in front of the text beside which it is no name. -/
theorem word_eq_iff {t t' opening : Token} (h : Remarked (t :: opening :: ts) (t' :: us))
    {text : String} (hword : (text, opening.text) ∈ wordsBefore) :
    t'.text = text ↔ t.text = text := by
  cases h with
  | keep => rfl
  | mark _ hno _ =>
      have hplain : ∀ word ∈ wordsBefore, word.1.toList.head? ≠ some '@' := by decide
      refine iff_of_false ?_ fun heq => ?_
      · rintro rfl
        exact hplain _ hword (by rw [Token.marked, String.toList_append]; rfl)
      · have hhead : headIs opening.text (opening :: ts) = true := beq_self_eq_true _
        rw [hno _ hword heq] at hhead
        cases hhead

theorem drop_one (h : Remarked ts ts') : Remarked (ts.drop 1) (ts'.drop 1) := by
  cases h with
  | nil => exact .nil
  | keep _ h => exact h
  | mark _ _ h => exact h

theorem skip (h : Remarked ts ts') {text : String} (hfixed : IsFixed text) :
    Remarked (skip text ts) (skip text ts') := by
  cases ts with
  | nil =>
      cases h
      exact .nil
  | cons t ts =>
      obtain ⟨t', ts', rfl, ht, hrest⟩ := h.exists_cons
      simp only [LocalisedEnum.skip, ht.text_eq_iff hfixed]
      split
      · exact hrest
      · exact h

/-- Marks fall into the parts of what they are put in. -/
theorem exists_append {a b : List Token} (h : Remarked (a ++ b) us) :
    ∃ a' b', us = a' ++ b' ∧ a'.length = a.length ∧ Remarked a a' ∧ Remarked b b' := by
  induction a generalizing us with
  | nil => exact ⟨[], us, rfl, rfl, .nil, h⟩
  | cons t a ih =>
      cases h with
      | keep _ h =>
          obtain ⟨a', b', rfl, hlength, ha, hb⟩ := ih h
          exact ⟨t :: a', b', rfl, congrArg Nat.succ hlength, .keep t ha, hb⟩
      | mark hname hword h =>
          obtain ⟨a', b', rfl, hlength, ha, hb⟩ := ih h
          refine ⟨t.marked :: a', b', rfl, congrArg Nat.succ hlength, .mark hname ?_ ha, hb⟩
          intro word hmem htext
          have hhead := hword word hmem htext
          -- in front of the end of a part stands nothing, which is no text either
          cases a with
          | nil => rfl
          | cons => exact hhead

theorem of_append {a b a' b' : List Token} (h : Remarked (a ++ b) (a' ++ b'))
    (hlength : a'.length = a.length) : Remarked a a' ∧ Remarked b b' := by
  obtain ⟨c, d, heq, hc, ha, hb⟩ := h.exists_append
  obtain ⟨rfl, rfl⟩ := List.append_inj heq (hlength.trans hc.symm)
  exact ⟨ha, hb⟩

/-- The last token, where there is one, and what stands in front of it. -/
theorem dropLast (h : Remarked ts ts') : Remarked ts.dropLast ts'.dropLast := by
  rw [List.dropLast_eq_take, List.dropLast_eq_take, h.length_eq]
  have hsplit := h
  rw [← List.take_append_drop (ts.length - 1) ts,
    ← List.take_append_drop (ts.length - 1) ts'] at hsplit
  refine (hsplit.of_append ?_).1
  rw [List.length_take, List.length_take, h.length_eq]

theorem last_eq_iff (h : Remarked ts ts') {text : String} (hfixed : IsFixed text) :
    ts'.getLast?.any (·.text == text) = ts.getLast?.any (·.text == text) := by
  rcases List.eq_nil_or_concat ts with rfl | ⟨front, last, heq⟩
  · cases h
    rfl
  · rw [List.concat_eq_append] at heq
    subst heq
    obtain ⟨front', back', rfl, _, _, hback⟩ := h.exists_append
    obtain ⟨last', rest', rfl, hlast, hrest⟩ := hback.exists_cons
    cases hrest
    rw [List.getLast?_concat, List.getLast?_concat]
    exact hlast.text_beq hfixed

end Remarked

instance (t : Token) : Decidable t.IsName :=
  decidable_of_iff (t.kind = .identifier ∧ isIdentifier t.text = true ∧ t.text ∉ keywords)
    ⟨fun ⟨hkind, hidentifier, hkeyword⟩ => ⟨hkind, hidentifier, hkeyword⟩,
      fun h => ⟨h.kind, h.identifier, h.noKeyword⟩⟩

theorem remarked_cons_iff {t t' : Token} {ts ts' : List Token} :
    Remarked (t :: ts) (t' :: ts') ↔ (t' = t ∨ t' = t.marked ∧ t.IsName ∧
      ∀ word ∈ wordsBefore, t.text = word.1 → headIs word.2 ts = false) ∧ Remarked ts ts' := by
  constructor
  · intro h
    cases h with
    | keep _ h => exact ⟨.inl rfl, h⟩
    | mark hname hword h => exact ⟨.inr ⟨rfl, hname, hword⟩, h⟩
  · rintro ⟨rfl | ⟨rfl, hname, hword⟩, h⟩
    · exact .keep _ h
    · exact .mark hname hword h

instance decidableRemarked : (ts ts' : List Token) → Decidable (Remarked ts ts')
  | [], [] => isTrue .nil
  | [], _ :: _ => isFalse nofun
  | _ :: _, [] => isFalse nofun
  | _ :: ts, _ :: ts' =>
    have := decidableRemarked ts ts'
    decidable_of_iff _ remarked_cons_iff.symm

/-! ### Readers that agree but for marks -/

/-- Where the first has read something the second has read what goes with it, and what remains has
more marks. -/
def ReadAlike {α : Type} (R : α → α → Prop) (x y : Except Fault (α × List Token)) : Prop :=
  ∀ a rest, x = .ok (a, rest) → ∃ a' rest', y = .ok (a', rest') ∧ R a a' ∧ Remarked rest rest'

section

variable {α β : Type} {R : α → α → Prop} {S : β → β → Prop}

theorem ReadAlike.ok {a a' : α} {rest rest' : List Token} (h : R a a')
    (hrest : Remarked rest rest') : ReadAlike R (.ok (a, rest)) (.ok (a', rest')) := by
  intro b rest₂ heq
  cases heq
  exact ⟨a', rest', rfl, h, hrest⟩

theorem ReadAlike.error {e : Fault} {y : Except Fault (α × List Token)} :
    ReadAlike R (.error e) y :=
  nofun

theorem ReadAlike.bind {x y : Except Fault (α × List Token)}
    {f g : α × List Token → Except Fault (β × List Token)} (h : ReadAlike R x y)
    (hfg : ∀ a a' rest rest', x = .ok (a, rest) → R a a' → Remarked rest rest' →
      ReadAlike S (f (a, rest)) (g (a', rest'))) : ReadAlike S (x >>= f) (y >>= g) := by
  intro b rest heq
  obtain ⟨⟨a, mid⟩, hx, hf⟩ := bind_eq_ok.1 heq
  obtain ⟨a', mid', hy, hR, hmid⟩ := h a mid hx
  obtain ⟨b', rest', hg, hS, hrest⟩ := hfg a a' mid mid' hx hR hmid b rest hf
  exact ⟨b', rest', bind_eq_ok.2 ⟨_, hy, hg⟩, hS, hrest⟩

end

/-! ### Names and groups -/

variable {ts ts' : List Token}

theorem qualifiedNameFrom_remarked (name : String) (h : Remarked ts ts') :
    ReadAlike Eq (qualifiedNameFrom name ts) (qualifiedNameFrom name ts') := by
  have hmark : ∀ {t t' : Token}, SameName t t' → isNameMark t' = isNameMark t := by
    intro t t' ht
    rw [isNameMark, ht.text_beq (by decide), ht.text_beq (by decide)]
    rfl
  fun_induction qualifiedNameFrom name ts generalizing ts' with
  | case1 name =>
      cases h
      exact .ok rfl .nil
  | case2 => exact .error
  | case3 name t hno =>
      obtain ⟨t', rest', rfl, ht, hrest⟩ := h.exists_cons
      cases hrest
      rw [qualifiedNameFrom, hmark ht, if_neg hno]
      exact .ok rfl h
  | case4 name t part rest hyes ih =>
      obtain ⟨t', rest', rfl, ht, hrest⟩ := h.exists_cons
      obtain ⟨part', rest', rfl, hpart, hrest⟩ := hrest.exists_cons
      have htext : t'.text = t.text := by
        rw [isNameMark, Bool.or_eq_true, beq_iff_eq, beq_iff_eq] at hyes
        rcases hyes with heq | heq
        · rw [heq, (ht.text_eq_iff (by decide)).2 heq]
        · rw [heq, (ht.text_eq_iff (by decide)).2 heq]
      rw [qualifiedNameFrom, hmark ht, if_pos hyes, htext, hpart.plain]
      exact ih hrest
  | case5 name t part rest hno =>
      obtain ⟨t', rest', rfl, ht, hrest⟩ := h.exists_cons
      obtain ⟨part', rest', rfl, hpart, hrest⟩ := hrest.exists_cons
      rw [qualifiedNameFrom, hmark ht, if_neg hno]
      exact .ok rfl h

/-- **A name** is read without its marks. -/
theorem qualifiedName_remarked (h : Remarked ts ts') :
    ReadAlike Eq (qualifiedName ts) (qualifiedName ts') := by
  cases ts with
  | nil => exact .error
  | cons t ts =>
      obtain ⟨t', ts', rfl, ht, hrest⟩ := h.exists_cons
      rw [qualifiedName, qualifiedName, ht.plain]
      exact qualifiedNameFrom_remarked t.plain hrest

/-- What a group takes up: its inside, the closing bracket, and the rest. -/
theorem exists_closing_of_groupInside {opening closing : String} {depth : Nat}
    {inside rest : List Token} (h : groupInside opening closing depth ts = some (inside, rest)) :
    ∃ stop, ts = inside ++ stop :: rest := by
  induction ts generalizing depth inside with
  | nil => cases h
  | cons t ts ih =>
      have hkeep : ∀ {depth : Nat},
          (groupInside opening closing depth ts).map (fun p => (t :: p.1, p.2)) =
              some (inside, rest) → ∃ stop, t :: ts = inside ++ stop :: rest := by
        intro depth hmap
        obtain ⟨⟨inside', rest'⟩, hinside, heq⟩ := Option.map_eq_some_iff.1 hmap
        cases heq
        obtain ⟨stop, rfl⟩ := ih hinside
        exact ⟨stop, rfl⟩
      by_cases hopen : t.text = opening
      · rw [groupInside_opening _ _ hopen] at h
        exact hkeep h
      by_cases hclose : t.text = closing
      · cases depth with
        | zero =>
            rw [groupInside_end _ hopen hclose] at h
            cases h
            exact ⟨t, rfl⟩
        | succ depth =>
            rw [groupInside_closing _ _ hopen hclose] at h
            exact hkeep h
      · rw [groupInside_other _ _ hopen hclose] at h
        exact hkeep h

theorem exists_groupInside_remarked {opening closing : String} (hopening : IsFixed opening)
    (hclosing : IsFixed closing) {depth : Nat} {inside rest : List Token} (h : Remarked ts ts')
    (hread : groupInside opening closing depth ts = some (inside, rest)) :
    ∃ inside' rest', groupInside opening closing depth ts' = some (inside', rest') ∧
      inside'.length = inside.length := by
  induction ts generalizing ts' depth inside with
  | nil => cases hread
  | cons t ts ih =>
      obtain ⟨t', ts', rfl, ht, hts⟩ := h.exists_cons
      have hkeep : ∀ {depth : Nat},
          (groupInside opening closing depth ts).map (fun p => (t :: p.1, p.2)) =
              some (inside, rest) →
            ∃ inside' rest',
              (groupInside opening closing depth ts').map (fun p => (t' :: p.1, p.2)) =
                some (inside', rest') ∧ inside'.length = inside.length := by
        intro depth hmap
        obtain ⟨⟨inner, rest₁⟩, hinner, heq⟩ := Option.map_eq_some_iff.1 hmap
        cases heq
        obtain ⟨inner', rest', hinner', hlength⟩ := ih hts hinner
        exact ⟨t' :: inner', rest', by rw [hinner']; rfl, congrArg Nat.succ hlength⟩
      -- the brackets are where they were
      have hopen' := ht.text_eq_iff hopening
      have hclose' := ht.text_eq_iff hclosing
      by_cases hopen : t.text = opening
      · rw [groupInside_opening _ _ hopen] at hread
        rw [groupInside_opening _ _ (hopen'.2 hopen)]
        exact hkeep hread
      have hno := mt hopen'.1 hopen
      by_cases hclose : t.text = closing
      · cases depth with
        | zero =>
            rw [groupInside_end _ hopen hclose] at hread
            cases hread
            exact ⟨[], ts', groupInside_end _ hno (hclose'.2 hclose), rfl⟩
        | succ depth =>
            rw [groupInside_closing _ _ hopen hclose] at hread
            rw [groupInside_closing _ _ hno (hclose'.2 hclose)]
            exact hkeep hread
      · rw [groupInside_other _ _ hopen hclose] at hread
        rw [groupInside_other _ _ hno (mt hclose'.1 hclose)]
        exact hkeep hread

/-- **A group** with marks inside. -/
theorem takeGroup_remarked {opening closing : String} (hopening : IsFixed opening)
    (hclosing : IsFixed closing) (h : Remarked ts ts') :
    ReadAlike Remarked (takeGroup opening closing ts) (takeGroup opening closing ts') := by
  cases ts with
  | nil => exact .error
  | cons t ts =>
      obtain ⟨t', ts', rfl, ht, hts⟩ := h.exists_cons
      simp only [takeGroup, ht.text_eq_iff hopening]
      split
      · intro inside rest hread
        cases hinside : groupInside opening closing 0 ts with
        | none =>
            rw [hinside] at hread
            cases hread
        | some parts =>
            rw [hinside] at hread
            cases hread
            obtain ⟨inside', rest', hinside', hlength⟩ :=
              exists_groupInside_remarked hopening hclosing hts hinside
            obtain ⟨stop, rfl⟩ := exists_closing_of_groupInside hinside
            obtain ⟨stop', rfl⟩ := exists_closing_of_groupInside hinside'
            obtain ⟨hin, hbehind⟩ := hts.of_append hlength
            exact ⟨inside', rest', by rw [hinside'], hin, hbehind.drop_one⟩
      · exact .error

end LocalisedEnum

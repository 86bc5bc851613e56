import LocalisedEnum.Proofs.Declaration.AttributeSection

/-!
**Readers take what they need from the front.**

A reader of tokens takes some off the front and leaves the rest.  What it makes of those that it
takes does not depend on the rest, except that it may look at the first token it leaves: a name goes
on behind a point, sections go on with a square bracket, and a closing brace is left for the block
that it closes.  So the rest can be replaced by any other tokens that the reader would leave too.

Main definitions:

* `MayFollow` — tokens that may stand in the place of others;
* `TakesFront` — a reader that does the same with what it takes in front of any such tokens.

Main results:

* `TakesFront.bind`, `TakesFront.choice`, `TakesFront.ite` — readers that are put together from
  readers;
* `takesFront_qualifiedName`, `takesFront_takeGroup`, `takesFront_takeStatement` — names, groups,
  statements;
* `takesFront_readAttribute`, `takesFront_readSections` — **attributes** and their sections.
-/

set_option autoImplicit false
set_option relaxedAutoImplicit false

namespace LocalisedEnum

/-! ### What may stand behind the tokens that are taken -/

/-- Tokens that a reader may leave because of what they are: the end of a block, and the sign of an
alias or an initialiser. -/
def leftTexts : List String := [closingBrace, "="]

/-- `rest'` may stand in the place of `rest`: it begins with the same token, or else `rest` is not
left because of what it begins with, and `rest'` does not begin with one of `opens`, which could
belong to what stands in front. -/
def MayFollow (opens : List String) (rest rest' : List Token) : Prop :=
  rest'.head? = rest.head? ∨ BeginsWithout leftTexts rest ∧ BeginsWithout opens rest'

theorem headIs_append {text : String} {used : List Token} (hne : used ≠ [])
    (rest rest' : List Token) : headIs text (used ++ rest') = headIs text (used ++ rest) := by
  cases used with
  | nil => exact absurd rfl hne
  | cons => rfl

/-- What is taken is some token, if fewer are left. -/
theorem ne_nil_of_taken {ts used rest : List Token} (hts : ts = used ++ rest)
    (h : rest.length < ts.length) : used ≠ [] := by
  rintro rfl
  rw [hts] at h
  exact absurd h (Nat.lt_irrefl _)

theorem beginsWithout_of_headIs {text : String} {ts : List Token} (h : headIs text ts = false) :
    BeginsWithout [text] ts := by
  cases ts with
  | nil => exact beginsWithout_nil _
  | cons t ts =>
      rw [beginsWithout_cons]
      simpa [headIs] using h

namespace MayFollow

variable {opens opens' : List String} {rest rest' : List Token}

theorem refl (opens : List String) (rest : List Token) : MayFollow opens rest rest :=
  Or.inl rfl

/-- What a reader leaves nothing in front of may go on with anything that it would not take. -/
theorem atEnd (rest' : List Token) (h : BeginsWithout opens rest') : MayFollow opens [] rest' :=
  Or.inr ⟨beginsWithout_nil _, h⟩

theorem mono (h : MayFollow opens rest rest') (hsub : ∀ text ∈ opens', text ∈ opens) :
    MayFollow opens' rest rest' :=
  h.imp_right fun h => ⟨h.1, h.2.mono hsub⟩

/-- What does not begin with one of the texts is not replaced by what does. -/
theorem beginsWithout (h : MayFollow opens rest rest') {texts : List String}
    (hsub : ∀ text ∈ texts, text ∈ opens) (hrest : BeginsWithout texts rest) :
    BeginsWithout texts rest' := by
  rcases h with h | h
  · intro t ht
    exact hrest t (h ▸ ht)
  · exact h.2.mono hsub

/-- A text that does not stand in front is not brought there. -/
theorem headIs_eq_false (h : MayFollow opens rest rest') {text : String} (htext : text ∈ opens)
    (hrest : headIs text rest = false) : headIs text rest' = false := by
  have hsub : ∀ other ∈ [text], other ∈ opens := fun other hmem => List.mem_singleton.1 hmem ▸ htext
  exact (h.beginsWithout hsub (beginsWithout_of_headIs hrest)).headIs List.mem_cons_self

/-- A text that does not stand in front is not brought there, whatever has been taken. -/
theorem headIs_append_eq_false (h : MayFollow opens rest rest') {text : String}
    (htext : text ∈ opens) {used : List Token} (hused : headIs text (used ++ rest) = false) :
    headIs text (used ++ rest') = false := by
  cases used with
  | cons t used => exact hused
  | nil => exact h.headIs_eq_false htext hused

/-- What is left because of what it begins with is replaced only by what begins so too. -/
theorem exists_cons {t : Token} {ts : List Token} (h : MayFollow opens (t :: ts) rest')
    (ht : t.text ∈ leftTexts) : ∃ ts', rest' = t :: ts' := by
  rcases h with h | h
  · exact List.head?_eq_some_iff.1 h
  · exact absurd ht (beginsWithout_cons.1 h.1)

/-- Behind the same tokens anything may stand that may stand there; without tokens in between it has
to do for the reader in front as well. -/
theorem behind (h : MayFollow opens' rest rest') (used : List Token)
    (hopens : used ≠ [] ∨ headIs closingBrace rest = true ∨ ∀ text ∈ opens, text ∈ opens') :
    MayFollow opens (used ++ rest) (used ++ rest') := by
  cases used with
  | cons t used => exact Or.inl rfl
  | nil =>
      rcases hopens with hne | hbrace | hsub
      · exact absurd rfl hne
      · cases rest with
        | nil => cases hbrace
        | cons t rest =>
            obtain ⟨ts', rfl⟩ := h.exists_cons (beq_iff_eq.1 hbrace ▸ List.mem_cons_self)
            exact Or.inl rfl
      · exact h.mono hsub

end MayFollow

/-! ### Readers -/

/-- **A reader that takes its tokens off the front** of `ts`: it leaves the end of `ts`, and it does
the same in front of anything that may follow. -/
structure TakesFront {α : Type} (opens : List String)
    (read : List Token → Except Fault (α × List Token)) (ts : List Token) : Prop where
  front : ∀ {a : α} {rest : List Token}, read ts = .ok (a, rest) → ∃ used, ts = used ++ rest ∧
    ∀ rest' : List Token, MayFollow opens rest rest' → read (used ++ rest') = .ok (a, rest')

namespace TakesFront

variable {α β : Type} {opens opens' : List String} {ts : List Token}
  {read : List Token → Except Fault (α × List Token)}

theorem mono (h : TakesFront opens' read ts) (hsub : ∀ text ∈ opens', text ∈ opens) :
    TakesFront opens read ts := by
  constructor
  intro a rest hread
  obtain ⟨used, hts, hused⟩ := h.front hread
  exact ⟨used, hts, fun rest' hrest' => hused rest' (hrest'.mono hsub)⟩

theorem length_le (h : TakesFront opens read ts) {a : α} {rest : List Token}
    (hread : read ts = .ok (a, rest)) : rest.length ≤ ts.length := by
  obtain ⟨used, rfl, _⟩ := h.front hread
  simp only [List.length_append]
  omega

/-- A reader that takes no notice of what follows may stand in front of anything. -/
theorem anywhere (h : TakesFront [] read ts) : TakesFront opens read ts :=
  h.mono (List.forall_mem_nil _)

/-- A reader that takes nothing. -/
theorem nothing (a : α) : TakesFront opens (fun ts => .ok (a, ts)) ts := by
  constructor
  intro b rest hread
  cases hread
  exact ⟨[], rfl, fun _ _ => rfl⟩

/-- A reader that only gives its result another form. -/
theorem map (h : TakesFront opens read ts) (f : α → β) :
    TakesFront opens (fun ts => read ts >>= fun p => pure (f p.1, p.2)) ts := by
  constructor
  intro b rest hread
  obtain ⟨⟨a, mid⟩, ha, hb⟩ := bind_eq_ok.1 hread
  cases hb
  obtain ⟨used, hts, hused⟩ := h.front ha
  refine ⟨used, hts, ?_⟩
  intro rest' hrest'
  simp only [hused rest' hrest']
  rfl

/-- **Two readers in a row.**  The second takes a token or leaves the end of a block, or else it is
as careful about what follows as the first. -/
theorem bind (h : TakesFront opens' read ts) (next : α → List Token → Except Fault (β × List Token))
    (hnext : ∀ {a mid}, read ts = .ok (a, mid) → TakesFront opens (next a) mid)
    (hopens : ∀ {a mid b rest}, read ts = .ok (a, mid) → next a mid = .ok (b, rest) →
      rest.length < mid.length ∨ headIs closingBrace rest = true ∨ ∀ text ∈ opens', text ∈ opens) :
    TakesFront opens (fun ts => read ts >>= fun p => next p.1 p.2) ts := by
  constructor
  intro b rest hread
  obtain ⟨⟨a, mid⟩, ha, hb⟩ := bind_eq_ok.1 hread
  obtain ⟨used, rfl, hused⟩ := h.front ha
  obtain ⟨more, rfl, hmore⟩ := (hnext ha).front hb
  refine ⟨used ++ more, (List.append_assoc ..).symm, ?_⟩
  intro rest' hrest'
  have hbehind : MayFollow opens' (more ++ rest) (more ++ rest') := by
    refine hrest'.behind more ((hopens ha hb).imp_left ?_)
    rintro hlength rfl
    exact absurd hlength (Nat.lt_irrefl _)
  simp only [List.append_assoc, hused _ hbehind]
  exact hmore rest' hrest'

/-- A reader behind tokens that are dropped by `f`. -/
theorem after {f : List Token → List Token} {read : List Token → Except Fault (β × List Token)}
    (h : TakesFront opens' (fun ts => .ok ((), f ts)) ts) (hread : TakesFront opens read (f ts))
    (hopens : ∀ {b rest}, read (f ts) = .ok (b, rest) →
      rest.length < (f ts).length ∨ headIs closingBrace rest = true ∨
      ∀ text ∈ opens', text ∈ opens) : TakesFront opens (fun ts => read (f ts)) ts := by
  refine h.bind (fun _ ts => read ts) ?_ ?_
  · intro _ mid hmid
    cases hmid
    exact hread
  · intro _ mid b rest hmid hb
    cases hmid
    exact hopens hb

/-- **A choice by what stands in front.**  What is taken decides, together with what may follow. -/
theorem choice {c : List Token → Bool} {yes no : List Token → Except Fault (α × List Token)}
    (hyes : c ts = true → TakesFront opens yes ts) (hno : c ts = false → TakesFront opens no ts)
    (hsame : ∀ {a used rest rest'}, ts = used ++ rest →
      (if c ts then yes ts else no ts) = .ok (a, rest) → MayFollow opens rest rest' →
      c (used ++ rest') = c ts) :
    TakesFront opens (fun ts => if c ts then yes ts else no ts) ts := by
  constructor
  intro a rest hread
  cases hc : c ts with
  | true =>
      have hread' := hread
      simp only [hc, if_true] at hread'
      obtain ⟨used, hts, hused⟩ := (hyes hc).front hread'
      refine ⟨used, hts, ?_⟩
      intro rest' hrest'
      simp only [hsame hts hread hrest', hc, if_true]
      exact hused rest' hrest'
  | false =>
      have hread' := hread
      simp only [hc, Bool.false_eq_true, if_false] at hread'
      obtain ⟨used, hts, hused⟩ := (hno hc).front hread'
      refine ⟨used, hts, ?_⟩
      intro rest' hrest'
      simp only [hsame hts hread hrest', hc, Bool.false_eq_true, if_false]
      exact hused rest' hrest'

/-- **A choice by the first token.**  The reader for the token takes one, and so does the other, or
else it leaves nothing that begins with the token. -/
theorem ite {text : String} {yes no : List Token → Except Fault (α × List Token)}
    (hyes : headIs text ts = true → TakesFront opens yes ts)
    (hno : headIs text ts = false → TakesFront opens no ts)
    (htakes : ∀ {a rest}, headIs text ts = true → yes ts = .ok (a, rest) → rest.length < ts.length)
    (htext : text ∈ opens ∨ ∀ {a rest}, no ts = .ok (a, rest) → rest.length < ts.length) :
    TakesFront opens (fun ts => if headIs text ts then yes ts else no ts) ts := by
  refine .choice hyes hno ?_
  intro a used rest rest' hts hread hrest'
  cases hhead : headIs text ts with
  | true =>
      simp only [hhead, if_true] at hread
      rw [headIs_append (ne_nil_of_taken hts (htakes hhead hread)) rest, ← hts, hhead]
  | false =>
      simp only [hhead, Bool.false_eq_true, if_false] at hread
      rcases htext with htext | hlength
      · exact hrest'.headIs_append_eq_false htext (hts ▸ hhead)
      · rw [headIs_append (ne_nil_of_taken hts (hlength hread)) rest, ← hts, hhead]

/-- A token that is known to stand in front. -/
theorem dropOne {text : String} (h : headIs text ts = true) (a : α) :
    TakesFront opens (fun ts => .ok (a, ts.drop 1)) ts := by
  constructor
  intro b rest hread
  cases ts with
  | nil => cases h
  | cons t ts =>
      cases hread
      exact ⟨[t], rfl, fun _ _ => rfl⟩

/-- A reader behind a token that has been looked at. -/
theorem behindHead {read' : List Token → Except Fault (α × List Token)}
    (h : TakesFront opens read ts) (t : Token) (hread : ∀ ts, read' (t :: ts) = read ts) :
    TakesFront opens read' (t :: ts) := by
  constructor
  intro a rest heq
  rw [hread] at heq
  obtain ⟨used, rfl, hused⟩ := h.front heq
  refine ⟨t :: used, rfl, ?_⟩
  intro rest' hrest'
  rw [List.cons_append, hread]
  exact hused rest' hrest'

/-- A reader that does what another does in front of the same first token.  It takes this token, or
else leaves the end of a block. -/
theorem sameHead {read' : List Token → Except Fault (α × List Token)} {t : Token}
    (h : TakesFront opens read (t :: ts)) (hread : ∀ ts, read' (t :: ts) = read (t :: ts))
    (htakes : ∀ {a rest}, read (t :: ts) = .ok (a, rest) →
      rest.length < (t :: ts).length ∨ t.text = closingBrace) :
    TakesFront opens read' (t :: ts) := by
  constructor
  intro a rest heq
  rw [hread] at heq
  obtain ⟨used, hts, hused⟩ := h.front heq
  refine ⟨used, hts, ?_⟩
  intro rest' hrest'
  cases used with
  | cons u used =>
      cases hts
      rw [List.cons_append, hread]
      exact hused rest' hrest'
  | nil =>
      rw [List.nil_append] at hts
      subst hts
      have hbrace := (htakes heq).resolve_left (Nat.lt_irrefl _)
      obtain ⟨ts', rfl⟩ := hrest'.exists_cons (hbrace ▸ List.mem_cons_self)
      rw [List.nil_append, hread]
      exact hused _ hrest'

end TakesFront

/-! ### Tokens, names, groups and statements -/

theorem takesFront_nextToken (ts : List Token) : TakesFront [] nextToken ts := by
  constructor
  intro t rest hread
  cases ts with
  | nil => cases hread
  | cons t ts =>
      cases hread
      exact ⟨[t], rfl, fun _ _ => rfl⟩

theorem takesFront_qualifiedNameFrom (name : String) (ts : List Token) :
    TakesFront [".", "::"] (qualifiedNameFrom name) ts := by
  -- a name ends in front of a token that is no mark, and stays as it is in front of another one
  have hend : ∀ {rest : List Token} {name : String}, BeginsWithout [".", "::"] rest →
      ∀ rest', MayFollow [".", "::"] rest rest' →
        qualifiedNameFrom name rest' = .ok (name, rest') :=
    fun hrest rest' hrest' => qualifiedNameFrom_end (hrest'.beginsWithout (fun _ h => h) hrest) _
  have hmark : ∀ {t : Token} {rest : List Token}, isNameMark t = false →
      BeginsWithout [".", "::"] (t :: rest) := by
    intro t rest ht
    rw [beginsWithout_cons]
    simpa [isNameMark] using ht
  constructor
  intro result rest hread
  fun_induction qualifiedNameFrom name ts with
  | case1 name =>
      cases hread
      exact ⟨[], rfl, hend (beginsWithout_nil _)⟩
  | case2 => cases hread
  | case3 name t ht =>
      cases hread
      exact ⟨[], rfl, hend (hmark (Bool.eq_false_iff.2 ht))⟩
  | case4 name t part tail ht ih =>
      obtain ⟨used, rfl, hused⟩ := ih hread
      refine ⟨t :: part :: used, rfl, ?_⟩
      intro rest' hrest'
      simp only [List.cons_append, qualifiedNameFrom, ht, if_true]
      exact hused rest' hrest'
  | case5 name t part tail ht =>
      cases hread
      exact ⟨[], rfl, hend (hmark (Bool.eq_false_iff.2 ht))⟩

theorem takesFront_qualifiedName (ts : List Token) : TakesFront [".", "::"] qualifiedName ts := by
  constructor
  intro result rest hread
  cases ts with
  | nil => cases hread
  | cons t ts =>
      obtain ⟨used, rfl, hused⟩ := (takesFront_qualifiedNameFrom t.plain ts).front hread
      exact ⟨t :: used, rfl, hused⟩

/-- **A token of a group** closes it, or goes into it, at whatever depth the group goes on. -/
theorem groupInside_cons_eq {opening closing : String} {depth : Nat} {t : Token}
    {ts inside rest : List Token}
    (h : groupInside opening closing depth (t :: ts) = some (inside, rest)) :
    (t.text ≠ opening ∧ t.text = closing ∧ depth = 0 ∧ inside = [] ∧ rest = ts) ∨
    ∃ depth' more, inside = t :: more ∧ groupInside opening closing depth' ts = some (more, rest) ∧
      (t.text = opening ∧ depth' = depth + 1 ∨
        t.text ≠ opening ∧ t.text = closing ∧ depth = depth' + 1 ∨
        t.text ≠ opening ∧ t.text ≠ closing ∧ depth' = depth) := by
  have hkept : ∀ {depth' : Nat},
      (groupInside opening closing depth' ts).map (fun p => (t :: p.1, p.2)) = some (inside, rest) →
        ∃ more, inside = t :: more ∧ groupInside opening closing depth' ts = some (more, rest) := by
    intro depth' hmore
    obtain ⟨⟨more, rest⟩, hinside, heq⟩ := Option.map_eq_some_iff.1 hmore
    cases heq
    exact ⟨more, rfl, hinside⟩
  by_cases hopening : t.text = opening
  · rw [groupInside_opening depth ts hopening] at h
    obtain ⟨more, hinside, hmore⟩ := hkept h
    exact Or.inr ⟨_, more, hinside, hmore, Or.inl ⟨hopening, rfl⟩⟩
  · by_cases hclosing : t.text = closing
    · cases depth with
      | zero =>
          rw [groupInside_end ts hopening hclosing] at h
          cases h
          exact Or.inl ⟨hopening, hclosing, rfl, rfl, rfl⟩
      | succ depth =>
          rw [groupInside_closing depth ts hopening hclosing] at h
          obtain ⟨more, hinside, hmore⟩ := hkept h
          exact Or.inr ⟨_, more, hinside, hmore, Or.inr (Or.inl ⟨hopening, hclosing, rfl⟩)⟩
    · rw [groupInside_other depth ts hopening hclosing] at h
      obtain ⟨more, hinside, hmore⟩ := hkept h
      exact Or.inr ⟨_, more, hinside, hmore, Or.inr (Or.inr ⟨hopening, hclosing, rfl⟩)⟩

/-- A group ends with the bracket that closes it, whatever follows. -/
theorem groupInside_front {opening closing : String} {depth : Nat} {ts inside rest : List Token}
    (h : groupInside opening closing depth ts = some (inside, rest)) :
    ∃ t, ts = inside ++ t :: rest ∧ t.text = closing ∧
      ∀ rest', groupInside opening closing depth (inside ++ t :: rest') = some (inside, rest') := by
  induction ts generalizing depth inside with
  | nil => cases h
  | cons t ts ih =>
      rcases groupInside_cons_eq h with
        ⟨hopening, hclosing, rfl, rfl, rfl⟩ | ⟨depth', more, rfl, hmore, hdepth⟩
      · exact ⟨t, rfl, hclosing, fun rest' => groupInside_end rest' hopening hclosing⟩
      · obtain ⟨last, rfl, hlast, hfront⟩ := ih hmore
        refine ⟨last, rfl, hlast, ?_⟩
        intro rest'
        rcases hdepth with ⟨hopening, rfl⟩ | ⟨hopening, hclosing, rfl⟩ | ⟨hopening, hclosing, rfl⟩
        · rw [List.cons_append, groupInside_opening _ _ hopening, hfront rest', Option.map_some]
        · rw [List.cons_append, groupInside_closing _ _ hopening hclosing, hfront rest',
            Option.map_some]
        · rw [List.cons_append, groupInside_other _ _ hopening hclosing, hfront rest',
            Option.map_some]

theorem takesFront_takeGroup (opening closing : String) (ts : List Token) :
    TakesFront [] (takeGroup opening closing) ts := by
  constructor
  intro inside rest hread
  obtain ⟨t, behind, rfl, ht, hinside⟩ := takeGroup_eq_ok.1 hread
  obtain ⟨last, rfl, _, hfront⟩ := groupInside_front hinside
  refine ⟨t :: (inside ++ [last]), by simp, ?_⟩
  intro rest' _
  refine takeGroup_eq_ok.2 ⟨t, inside ++ last :: rest', by simp, ht, hfront rest'⟩

theorem takeStatementFrom_front {depth : Int} {ts inside rest : List Token}
    (h : takeStatementFrom depth ts = .ok (inside, rest)) :
    ∃ used, ts = used ++ rest ∧
      ∀ rest', takeStatementFrom depth (used ++ rest') = .ok (inside, rest') := by
  induction ts generalizing depth inside with
  | nil => cases h
  | cons t ts ih =>
      rcases takeStatementFrom_cons_eq_ok.1 h with ⟨ht, rfl, rfl⟩ | ⟨ht, more, rfl, hmore⟩
      · exact ⟨[t], rfl, fun rest' => takeStatementFrom_cons_eq_ok.2 (.inl ⟨ht, rfl, rfl⟩)⟩
      · obtain ⟨used, rfl, hused⟩ := ih hmore
        exact ⟨t :: used, rfl,
          fun rest' => takeStatementFrom_cons_eq_ok.2 (.inr ⟨ht, more, rfl, hused rest'⟩)⟩

theorem takesFront_takeStatement (ts : List Token) : TakesFront [] takeStatement ts := by
  constructor
  intro inside rest hread
  obtain ⟨used, hts, hused⟩ := takeStatementFrom_front hread
  exact ⟨used, hts, fun rest' _ => hused rest'⟩

theorem takesFront_skip (text : String) (ts : List Token) :
    TakesFront [text] (fun ts => .ok ((), skip text ts)) ts := by
  have hskip : (fun ts => (.ok ((), skip text ts) : Except Fault (Unit × List Token))) =
      fun ts => if headIs text ts then .ok ((), ts.drop 1) else .ok ((), ts) := by
    funext ts
    cases ts with
    | nil => rfl
    | cons t ts => by_cases ht : t.text = text <;> simp [skip, headIs, ht]
  rw [hskip]
  refine .ite (fun hhead => .dropOne hhead ()) (fun _ => .nothing ()) ?_ (Or.inl List.mem_cons_self)
  intro a rest hhead hread
  cases hread
  exact length_drop_one_lt_of_headIs hhead

/-! ### Attributes -/

theorem takesFront_withTypeArguments (name : String) (ts : List Token) :
    TakesFront ["<"] (withTypeArguments name) ts := by
  have hread : withTypeArguments name = fun ts =>
      if headIs "<" ts then
        takeGroup "<" ">" ts >>= fun p => pure (name ++ "<" ++ joinTokens p.1 ++ ">", p.2)
      else .ok (name, ts) := by
    funext ts
    rw [withTypeArguments]
    split
    · cases takeGroup "<" ">" ts <;> rfl
    · rfl
  have hgroup :=
    (takesFront_takeGroup "<" ">" ts).map fun inside => name ++ "<" ++ joinTokens inside ++ ">"
  rw [hread]
  refine .ite (fun _ => hgroup.anywhere) (fun _ => .nothing name) ?_
    (Or.inl List.mem_cons_self)
  intro result rest _ h
  obtain ⟨⟨inside, mid⟩, htake, heq⟩ := bind_eq_ok.1 h
  cases heq
  exact takeGroup_length_lt htake

theorem takesFront_readArgumentList (ts : List Token) : TakesFront ["("] readArgumentList ts := by
  have hread : readArgumentList = fun ts => if headIs "(" ts then (takeGroup "(" ")" ts >>= fun p =>
      pure (splitArguments p.1, p.2)) else .ok ([], ts) := by
    funext ts
    rw [readArgumentList]
    split
    · cases takeGroup "(" ")" ts <;> rfl
    · rfl
  have hgroup := (takesFront_takeGroup "(" ")" ts).map splitArguments
  rw [hread]
  refine .ite (fun _ => hgroup.anywhere) (fun _ => .nothing []) ?_
    (Or.inl List.mem_cons_self)
  intro arguments rest _ h
  obtain ⟨⟨inside, mid⟩, htake, heq⟩ := bind_eq_ok.1 h
  cases heq
  exact takeGroup_length_lt htake

/-- An attribute with the given arguments, whose name stands at the given place. -/
def fullAttribute (name : String) (location : Option SourceLocation)
    (arguments : List (List Token)) : Except Fault Attribute :=
  orEscapeFault (arguments.foldlM Attribute.withArgument ⟨name, [], [], location⟩)

/-- The attribute at the front is read in three steps, and its place is that of the first token. -/
theorem readAttribute_eq (path : String) (ts : List Token) :
    readAttribute path ts =
      (qualifiedName ts >>= fun p => withTypeArguments p.1 p.2 >>= fun p =>
        readArgumentList p.2 >>= fun q => pure ((p.1, q.1), q.2)) >>= fun p =>
          fullAttribute p.1.1 (ts.head?.map (Token.location path)) p.1.2 >>= fun a =>
              pure (a, p.2) := by
  rw [readAttribute]
  simp only [bind_assoc, pure_bind]
  rfl

theorem takesFront_readAttribute (path : String) (ts : List Token) :
    TakesFront attributeMarks (readAttribute path) ts := by
  let arguments := fun (type : String) (ts : List Token) =>
    readArgumentList ts >>= fun q => pure ((type, q.1), q.2)
  let types := fun (name : String) (ts : List Token) =>
    withTypeArguments name ts >>= fun p => arguments p.1 p.2
  have harguments : ∀ (type : String) (ts : List Token),
      TakesFront attributeMarks (arguments type) ts := by
    intro type ts
    exact ((takesFront_readArgumentList ts).map (Prod.mk type)).mono (by decide)
  have htypes : ∀ (name : String) (ts : List Token), TakesFront attributeMarks (types name) ts := by
    intro name ts
    exact (takesFront_withTypeArguments name ts).bind arguments (fun _ => harguments _ _)
      fun _ _ => Or.inr (Or.inr (by decide))
  have hparts := (takesFront_qualifiedName ts).bind types (fun _ => htypes _ _)
    fun _ _ => Or.inr (Or.inr (by decide))
  constructor
  intro a rest hread
  have hlength := readAttribute_length_lt hread
  rw [readAttribute_eq] at hread
  obtain ⟨⟨⟨name, arguments⟩, mid⟩, hmid, h⟩ := bind_eq_ok.1 hread
  obtain ⟨full, hfull, h⟩ := bind_eq_ok.1 h
  cases h
  obtain ⟨used, rfl, hused⟩ := hparts.front hmid
  refine ⟨used, rfl, ?_⟩
  intro rest' hrest'
  -- the place of the attribute is that of a token that has been taken
  have hhead : (used ++ rest').head? = (used ++ mid).head? := by
    cases used with
    | nil => exact absurd hlength (Nat.lt_irrefl _)
    | cons => rfl
  rw [readAttribute_eq, hused rest' hrest', hhead]
  exact bind_eq_ok.2 ⟨_, rfl, bind_eq_ok.2 ⟨a, hfull, rfl⟩⟩

/-- The attributes of a section are read up to the bracket that closes it, so anything may
follow. -/
theorem takesFront_readSectionItems (path : String) (ts : List Token) :
    TakesFront [] (readSectionItems path) ts := by
  -- the attributes behind one that has been read, and the comma after it
  let others := fun (a : Attribute) (ts : List Token) =>
    readSectionItems path (skip "," ts) >>= fun more => pure (a :: more.1, more.2)
  have hread : readSectionItems path = fun ts => if headIs "]" ts then .ok ([], ts.drop 1) else
      readAttribute path ts >>= fun p => others p.1 p.2 := funext (readSectionItems_eq path)
  have hshort : ∀ {a : Attribute} {mid items rest}, others a mid = .ok (items, rest) →
      rest.length < mid.length := by
    intro a mid items rest h
    obtain ⟨⟨more, rest⟩, hmore, heq⟩ := bind_eq_ok.1 h
    cases heq
    exact Nat.lt_of_lt_of_le (readSectionItems_length_lt hmore) (skip_length_le "," mid)
  induction hlength : ts.length using Nat.strongRecOn generalizing ts with
  | ind n ih =>
  have hothers : ∀ {a : Attribute} {mid : List Token}, readAttribute path ts = .ok (a, mid) →
      TakesFront [] (others a) mid := by
    intro a mid ha
    have hmid := readAttribute_length_lt ha
    have hskip := skip_length_le "," mid
    refine ((takesFront_skip "," mid).after (ih _ (by omega) _ rfl) ?_).map (a :: ·)
    exact fun h => Or.inl (readSectionItems_length_lt h)
  rw [hread]
  refine .ite (fun hhead => .dropOne hhead []) (fun _ => ?_) ?_ (Or.inr ?_)
  · exact (takesFront_readAttribute path ts).bind others hothers fun _ h => Or.inl (hshort h)
  · intro items rest hhead h
    cases h
    exact length_drop_one_lt_of_headIs hhead
  · intro items rest h
    obtain ⟨⟨a, mid⟩, ha, h⟩ := bind_eq_ok.1 h
    exact Nat.lt_trans (hshort h) (readAttribute_length_lt ha)

theorem sectionTarget_cons (t : Token) (ts : List Token) : sectionTarget (t :: ts) =
    if headIs ":" ts = true ∧ t.kind = .identifier then (t.text, ts.drop 1) else ("", t :: ts) := by
  cases ts with
  | nil => rfl
  | cons mark ts => simp [sectionTarget, headIs_cons]

/-- A target is read from the first two tokens of a section, so it is the same in front of other
tokens, as long as these do not begin with a colon. -/
theorem sectionTarget_front {ts used rest : List Token} (h : (sectionTarget ts).2 = used ++ rest)
    (hne : used ≠ []) :
    ∃ front, ts = front ++ rest ∧ front ≠ [] ∧
      ∀ rest', MayFollow [":"] rest rest' →
        sectionTarget (front ++ rest') = ((sectionTarget ts).1, used ++ rest') := by
  obtain ⟨u, used, rfl⟩ := List.exists_cons_of_ne_nil hne
  cases ts with
  | nil => cases h
  | cons t ts =>
      rw [sectionTarget_cons] at h ⊢
      by_cases htarget : headIs ":" ts = true ∧ t.kind = .identifier
      · obtain ⟨colon, ts, rfl⟩ : ∃ colon tail, ts = colon :: tail := by
          cases ts with
          | nil => exact absurd htarget.1 (by decide)
          | cons colon tail => exact ⟨colon, tail, rfl⟩
        rw [if_pos htarget] at h ⊢
        refine ⟨t :: colon :: u :: used, congrArg (t :: colon :: ·) h, List.cons_ne_nil _ _, ?_⟩
        intro rest' _
        rw [List.cons_append, sectionTarget_cons, if_pos (by exact htarget)]
        rfl
      · rw [if_neg htarget] at h ⊢
        cases h
        refine ⟨u :: used, rfl, List.cons_ne_nil _ _, ?_⟩
        intro rest' hrest'
        have hno : ¬ (headIs ":" (used ++ rest') = true ∧ u.kind = .identifier) := by
          rintro ⟨hcolon, hkind⟩
          have hno : headIs ":" (used ++ rest) = false := by
            rw [Bool.eq_false_iff]
            exact fun hcolon => htarget ⟨hcolon, hkind⟩
          rw [hrest'.headIs_append_eq_false List.mem_cons_self hno] at hcolon
          cases hcolon
        rw [List.cons_append, sectionTarget_cons, if_neg hno]

/-- The marks with which sections go on. -/
def sectionMarks : List String := ["[", ":"]

theorem takesFront_readSections (path : String) (ts : List Token) :
    TakesFront sectionMarks (readSections path) ts := by
  constructor
  intro attributes rest hread
  fun_induction readSections path ts generalizing attributes with
  | case1 => cases hread
  | case2 => cases hread
  | case3 ts hhead items afterItems hitems more rest hmore ih =>
      cases hread
      obtain ⟨bracket, ts, rfl⟩ : ∃ bracket tail, ts = bracket :: tail := by
        cases ts with
        | nil => cases hhead
        | cons bracket tail => exact ⟨bracket, tail, rfl⟩
      obtain ⟨used, hused, hitemsFront⟩ := (takesFront_readSectionItems path _).front hitems
      have hne := ne_nil_of_taken hused (readSectionItems_length_lt hitems)
      obtain ⟨front, hfront, _, htarget⟩ := sectionTarget_front hused hne
      obtain ⟨others, rfl, hothers⟩ := ih hmore
      have hts : ts = front ++ (others ++ rest) := hfront
      refine ⟨bracket :: (front ++ others), by rw [hts]; simp, ?_⟩
      intro rest' hrest'
      have hcolon : MayFollow [":"] (others ++ rest) (others ++ rest') :=
        hrest'.behind others (Or.inr (Or.inr (by decide)))
      have hany : MayFollow [] (others ++ rest) (others ++ rest') :=
        hrest'.behind others (Or.inr (Or.inr (by decide)))
      have hbracket : headIs "[" (bracket :: (front ++ (others ++ rest'))) = true := hhead
      rw [List.cons_append, List.append_assoc, readSections_eq, if_pos hbracket,
        List.drop_succ_cons, List.drop_zero, htarget _ hcolon]
      exact bind_eq_ok.2 ⟨_, hitemsFront _ hany, bind_eq_ok.2 ⟨_, hothers _ hrest', rfl⟩⟩
  | case4 ts hhead =>
      cases hread
      refine ⟨[], rfl, ?_⟩
      intro rest' hrest'
      have hno : headIs "[" rest' = false :=
        hrest'.headIs_eq_false List.mem_cons_self (Bool.eq_false_iff.2 hhead)
      rw [List.nil_append, readSections_eq, hno]
      rfl


end LocalisedEnum

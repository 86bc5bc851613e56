import LocalisedEnum.Proofs.Declaration.Effects
import Mathlib.Data.List.Basic

/-!
**Where recorded names come from.**

Names are taken by their places among the tokens.  A value of an enum and a property of a type have
to be identifiers.  The name of an enum is whatever stands behind `enum`, that of a type whatever
stands behind the keyword of a type, and a segment of a namespace whatever stands behind `namespace`
or behind the mark between two segments.  So these are whole identifiers as far as identifiers stand
in these places, and otherwise they are what stands there: a literal, a number, a sign, or the first
character of a word that is no identifier.

Main definitions:

* `WholeName` — a name that is a whole identifier of the text;
* `NameBehind` — a name that is whatever stands behind a word;
* `QualifiedIn`, `NamespaceIn` — the namespaces of a text, with the tokens that are their segments;
* `EnumDeclaration.NamesIn`, `TypeDeclaration.NamesIn` — where the names of a declaration come from;
* `EnumDeclaration.WholeNames`, `TypeDeclaration.WholeNames` — a declaration whose names are all
  whole.

Main results:

* `readEnumMembers_names`, `readMember_name` — values and properties are whole identifiers;
* `Walk.NamesIn.step` — each piece of a file keeps it that all names come from their places;
* `readSource_names` — **where the names come from that are read from a text**;
* `readSource_names_literal` — an enum that is recorded under a literal.
-/

set_option autoImplicit false
set_option relaxedAutoImplicit false

namespace LocalisedEnum

/-! ### Places of names -/

/-- The word and the token right behind it. -/
def Behind (words : List String) (ts : List Token) (t : Token) : Prop :=
  ∃ word : Token, word.text ∈ words ∧ [word, t] <:+: ts

/-- **A whole identifier** of the text, without its mark. -/
def WholeName (ts : List Token) (name : String) : Prop :=
  ∃ t ∈ ts, t.kind = .identifier ∧ name = t.plain

/-- **Whatever stands behind a word**, without a mark in front of it. -/
def NameBehind (words : List String) (ts : List Token) (name : String) : Prop :=
  ∃ t, Behind words ts t ∧ name = t.plain

/-- The marks between the segments of a name. -/
def nameMarks : List String := [".", "::"]

/-- A name behind `namespace`, with its segments. -/
inductive QualifiedIn (ts : List Token) : List Token → String → Prop
  | first {t : Token} (ht : Behind ["namespace"] ts t) : QualifiedIn ts [t] t.plain
  | next {segments : List Token} {name : String} {mark t : Token}
      (hname : QualifiedIn ts segments name) (hmark : mark.text ∈ nameMarks)
      (ht : [mark, t] <:+: ts) : QualifiedIn ts (segments ++ [t]) (name ++ mark.text ++ t.plain)

/-- A namespace, with the segments of its own name behind those of the namespaces around it. -/
inductive NamespaceIn (ts : List Token) : List Token → String → Prop
  | globally : NamespaceIn ts [] ""
  | inside {outer segments : List Token} {namespaceName name : String}
      (houter : NamespaceIn ts outer namespaceName) (hname : QualifiedIn ts segments name) :
      NamespaceIn ts (outer ++ segments) (qualify namespaceName name)

/-- **Where the names of an enum come from.** -/
structure EnumDeclaration.NamesIn (ts : List Token) (e : EnumDeclaration) : Prop where
  name : NameBehind ["enum"] ts e.name
  members : ∀ member ∈ e.members, WholeName ts member
  containingTypes : ∀ outer ∈ e.containingTypes, NameBehind typeKeywords ts outer
  namespaceName : ∃ segments, NamespaceIn ts segments e.namespaceName

/-- **Where the names of a type come from.** -/
structure TypeDeclaration.NamesIn (ts : List Token) (t : TypeDeclaration) : Prop where
  name : NameBehind typeKeywords ts t.name
  properties : ∀ p ∈ t.properties, WholeName ts p.name
  containingTypes : ∀ outer ∈ t.containingTypes, NameBehind typeKeywords ts outer
  namespaceName : ∃ segments, NamespaceIn ts segments t.namespaceName

section Places

variable {words : List String} {ts all : List Token} {name : String}

theorem Behind.mono {t : Token} (h : Behind words ts t) (hts : ts <:+: all) :
    Behind words all t := by
  obtain ⟨word, hword, hpair⟩ := h
  exact ⟨word, hword, hpair.trans hts⟩

theorem Behind.mem {t : Token} (h : Behind words ts t) : t ∈ ts := by
  obtain ⟨word, _, hpair⟩ := h
  exact hpair.subset (List.mem_cons_of_mem _ List.mem_cons_self)

theorem behind_cons {word t : Token} (hword : word.text ∈ words) (rest : List Token) :
    Behind words (word :: t :: rest) t :=
  ⟨word, hword, (List.prefix_append [word, t] rest).isInfix⟩

theorem WholeName.mono (h : WholeName ts name) (hts : ts <:+: all) : WholeName all name := by
  obtain ⟨t, ht, hkind, hname⟩ := h
  exact ⟨t, hts.subset ht, hkind, hname⟩

theorem NameBehind.mono (h : NameBehind words ts name) (hts : ts <:+: all) :
    NameBehind words all name := by
  obtain ⟨t, ht, hname⟩ := h
  exact ⟨t, ht.mono hts, hname⟩

/-- What stands behind a word is a whole name if it is an identifier. -/
theorem NameBehind.whole (h : NameBehind words ts name)
    (hkinds : ∀ t, Behind words ts t → t.kind = .identifier) : WholeName ts name := by
  obtain ⟨t, ht, hname⟩ := h
  exact ⟨t, ht.mem, hkinds t ht, hname⟩

theorem QualifiedIn.mono {segments : List Token} (h : QualifiedIn ts segments name)
    (hts : ts <:+: all) : QualifiedIn all segments name := by
  induction h with
  | first ht => exact .first (ht.mono hts)
  | next _ hmark ht ih => exact .next ih hmark (ht.trans hts)

/-- Each segment stands behind the word `namespace` or behind a mark. -/
theorem QualifiedIn.behind {segments : List Token} (h : QualifiedIn ts segments name) {t : Token}
    (ht : t ∈ segments) : Behind ("namespace" :: nameMarks) ts t := by
  induction h with
  | first hfirst =>
      obtain ⟨word, hword, hpair⟩ := hfirst
      rw [List.mem_singleton.1 ht]
      exact ⟨word, List.mem_singleton.1 hword ▸ List.mem_cons_self, hpair⟩
  | next _ hmark hpair ih =>
      rcases List.mem_append.1 ht with ht | ht
      · exact ih ht
      · rw [List.mem_singleton.1 ht]
        exact ⟨_, List.mem_cons_of_mem _ hmark, hpair⟩

theorem NamespaceIn.behind {segments : List Token} (h : NamespaceIn ts segments name) {t : Token}
    (ht : t ∈ segments) : Behind ("namespace" :: nameMarks) ts t := by
  induction h with
  | globally => cases ht
  | inside _ hname ih => exact (List.mem_append.1 ht).elim ih hname.behind

end Places

/-! ### Readers of names -/

section Readers

variable {path : String} {start : Token} {ts rest : List Token}

theorem qualifiedNameFrom_in {all segments : List Token} {name result : String}
    (h : qualifiedNameFrom name ts = .ok (result, rest)) (hname : QualifiedIn all segments name)
    (hts : ts <:+: all) : ∃ segments, QualifiedIn all segments result := by
  fun_induction qualifiedNameFrom name ts generalizing segments with
  | case1 => cases h; exact ⟨segments, hname⟩
  | case2 => cases h
  | case3 => cases h; exact ⟨segments, hname⟩
  | case4 name mark part tail hmark ih =>
    have hpair : [mark, part] <:+: mark :: part :: tail :=
      (List.prefix_append [mark, part] tail).isInfix
    have htail : tail <:+: mark :: part :: tail := (List.suffix_append [mark, part] tail).isInfix
    refine ih h (.next hname ?_ (hpair.trans hts)) (htail.trans hts)
    rw [isNameMark, Bool.or_eq_true, beq_iff_eq, beq_iff_eq] at hmark
    rcases hmark with hmark | hmark <;> rw [hmark] <;> decide
  | case5 => cases h; exact ⟨segments, hname⟩

/-- A name behind `namespace` is made up of what stands behind the word and behind the marks. -/
theorem qualifiedName_in {head : Token} {name : String} (hhead : head.text = "namespace")
    (h : qualifiedName ts = .ok (name, rest)) :
    ∃ segments, QualifiedIn (head :: ts) segments name := by
  cases ts with
  | nil => cases h
  | cons t ts =>
      exact qualifiedNameFrom_in h (.first (behind_cons (List.mem_singleton.2 hhead) ts))
        (List.suffix_append [head, t] ts).isInfix

/-- **A value of an enum** is a whole identifier. -/
theorem readEnumMember_name {enumName name : String}
    (h : readEnumMember path enumName start ts = .ok (name, rest)) : WholeName ts name := by
  obtain ⟨⟨attributes, afterSections⟩, hsections, h⟩ := bind_eq_ok.1 h
  obtain ⟨⟨member, afterMember⟩, hmember, h⟩ := bind_eq_ok.1 h
  obtain ⟨sections, hts, _⟩ := (takesFront_readSections path ts).front hsections
  simp only at h
  split at h
  · next hkind =>
    split at h
    · cases h
      cases afterSections with
      | nil => cases hmember
      | cons t more =>
          cases hmember
          exact ⟨member, hts ▸ List.mem_append_right _ List.mem_cons_self, hkind, rfl⟩
    · cases h
  · cases h

/-- **The values of an enum** are whole identifiers. -/
theorem readEnumMembers_names {enumName : String} {members : List String}
    (h : readEnumMembers path enumName start ts = .ok (members, rest)) :
    ∀ member ∈ members, WholeName ts member := by
  fun_induction readEnumMembers path enumName start ts generalizing members with
  | case1 => cases h; exact List.forall_mem_nil _
  | case2 => cases h
  | case3 => cases h
  | case4 ts _ member mid hmember more rest' hmore ih =>
    cases h
    obtain ⟨used, rfl, _⟩ := (takesFront_readEnumMember path enumName start ts).front hmember
    intro name hname
    rcases List.mem_cons.1 hname with rfl | hname
    · exact readEnumMember_name hmember
    · exact (ih hmore name hname).mono (List.suffix_append _ _).isInfix

/-- An enum has the name behind its keyword, and its values are whole identifiers. -/
theorem readEnumBody_names {head : Token} {name : String} {members : List String}
    (hhead : head.text = "enum") (h : readEnumBody path start ts = .ok (name, members, rest)) :
    NameBehind ["enum"] (head :: ts) name ∧ ∀ member ∈ members, WholeName (head :: ts) member := by
  obtain ⟨⟨nameToken, afterName⟩, hname, h⟩ := bind_eq_ok.1 h
  obtain ⟨⟨opening, body⟩, hopening, h⟩ := bind_eq_ok.1 h
  obtain ⟨⟨members', rest'⟩, hmembers, heq⟩ := bind_eq_ok.1 h
  cases heq
  obtain ⟨header, rfl, _⟩ := enumBrace_eq hopening
  cases ts with
  | nil => cases hname
  | cons t ts =>
      cases hname
      refine
        ⟨⟨nameToken, behind_cons (List.mem_singleton.2 hhead) _, rfl⟩, fun member hmember => ?_⟩
      have hbody : body <:+: head :: nameToken :: (header ++ opening :: body) := by
        refine List.IsSuffix.isInfix ⟨head :: nameToken :: (header ++ [opening]), ?_⟩
        simp
      exact (readEnumMembers_names hmembers member hmember).mono hbody

/-- A type has the name behind its keyword, or behind the second word of a record. -/
theorem readTypeHeader_name {head : Token} {header : TypeHeader} (hhead : head.text ∈ typeKeywords)
    (h : readTypeHeader head.text start ts = .ok (header, rest)) :
    NameBehind typeKeywords (head :: ts) header.name := by
  obtain ⟨⟨name, afterName⟩, hname, h⟩ := bind_eq_ok.1 h
  have hheader : header.name = name.plain := by
    simp only at h
    split at h <;> cases h
    rfl
  rw [hheader]
  rw [skipRecordKind] at hname
  have hdirect : nextToken ts = .ok (name, afterName) →
      NameBehind typeKeywords (head :: ts) name.plain := by
    intro hnext
    cases ts with
    | nil => cases hnext
    | cons t ts =>
        cases hnext
        exact ⟨_, behind_cons hhead _, rfl⟩
  split at hname
  · split at hname
    · next hkind =>
      cases ts with
      | nil => cases hname
      | cons second ts =>
          cases ts with
          | nil => cases hname
          | cons t ts =>
              cases hname
              have hsecond : second.text ∈ typeKeywords := by
                rw [headIs_cons, headIs_cons, Bool.or_eq_true, beq_iff_eq, beq_iff_eq] at hkind
                rcases hkind with hkind | hkind <;> rw [hkind] <;> decide
              exact ⟨_, (behind_cons hsecond _).mono (List.suffix_cons head _).isInfix, rfl⟩
    · exact hdirect hname
  · exact hdirect hname

/-- The name of a property is the last token of its header, which is an identifier. -/
theorem propertyOf_name {header : List Token} {modifiers : List String} {p : PropertyDeclaration}
    (h : propertyOf header modifiers = some p) : WholeName header p.name := by
  rw [propertyOf] at h
  split at h
  · next name beforeName more hreverse =>
    simp only at h
    split at h
    · next hproperty =>
      cases h
      simp only [Bool.and_eq_true, decide_eq_true_eq] at hproperty
      refine ⟨name, ?_, hproperty.1.1.1.1, rfl⟩
      rw [← List.mem_reverse, hreverse]
      exact List.mem_cons_self
    · cases h
  · cases h

/-- **A property** has a whole identifier for its name. -/
theorem readMember_name {modifiers : List String} {property : Option PropertyDeclaration}
    (h : readMember modifiers ts = .ok (property, rest)) : ∀ p ∈ property, WholeName ts p.name := by
  intro p hp
  obtain ⟨header, stop, afterStop, hheader, hending⟩ := readMember_eq_ok.1 h
  obtain ⟨rfl, _⟩ := memberHeader_front hheader
  cases hending with
  | block => cases hp
  | semicolon => cases hp
  | braces => exact (propertyOf_name hp).mono (List.prefix_append _ _).isInfix
  | expression => exact (propertyOf_name hp).mono (List.prefix_append _ _).isInfix

end Readers

/-! ### The walk -/

/-- **The names in an open scope** come from their places. -/
structure Scope.NamesIn (ts : List Token) (s : Scope) : Prop where
  enums : ∀ e ∈ s.enums, e.NamesIn ts
  types : ∀ t ∈ s.types, t.NamesIn ts
  owner : ∀ t ∈ s.owner, t.NamesIn ts
  properties : ∀ p ∈ s.properties, WholeName ts p.name
  containingTypes : ∀ outer ∈ s.containingTypes, NameBehind typeKeywords ts outer
  namespaceName : ∃ segments, NamespaceIn ts segments s.namespaceName

/-- The names in all open scopes. -/
structure Walk.NamesIn (ts : List Token) (w : Walk) : Prop where
  scope : w.scope.NamesIn ts
  outer : ∀ s ∈ w.outer, s.NamesIn ts

section Walk

variable {all : List Token}

theorem Scope.NamesIn.file : Scope.file.NamesIn all where
  enums := List.forall_mem_nil _
  types := List.forall_mem_nil _
  owner := fun _ h => nomatch h
  properties := List.forall_mem_nil _
  containingTypes := List.forall_mem_nil _
  namespaceName := ⟨[], .globally⟩

theorem Walk.NamesIn.start : Walk.start.NamesIn all :=
  ⟨.file, List.forall_mem_nil _⟩

theorem Scope.NamesIn.fullNamespace {s : Scope} (h : s.NamesIn all) {segments : List Token}
    {name : String} (hname : QualifiedIn all segments name) :
    ∃ segments, NamespaceIn all segments (s.fullNamespace name) := by
  obtain ⟨outer, houter⟩ := h.namespaceName
  exact ⟨outer ++ segments, .inside houter hname⟩

/-- The types of a closed scope are those that it holds, and its owner with the properties that it
holds. -/
theorem Scope.NamesIn.closedTypes {s : Scope} (h : s.NamesIn all) :
    ∀ t ∈ s.closedTypes, t.NamesIn all := by
  intro t ht
  rw [Scope.closedTypes] at ht
  split at ht
  · next owner howner =>
    rcases List.mem_cons.1 ht with rfl | ht
    · have hnames := h.owner owner howner
      exact ⟨hnames.name, h.properties, hnames.containingTypes, hnames.namespaceName⟩
    · exact h.types t ht
  · exact h.types t ht

theorem Scope.NamesIn.absorb {s inside : Scope} (h : s.NamesIn all) (hinside : inside.NamesIn all) :
    (s.absorb inside).NamesIn all :=
  { h with
    enums := fun e he => (List.mem_append.1 he).elim (h.enums e) (hinside.enums e)
    types := fun t ht => (List.mem_append.1 ht).elim (h.types t) (hinside.closedTypes t) }

theorem Scope.NamesIn.declaredEnum {s : Scope} (h : s.NamesIn all) {path : String} {start : Token}
    {attributes : List Attribute} {modifiers : List String} {name : String} {members : List String}
    (hname : NameBehind ["enum"] all name) (hmembers : ∀ member ∈ members, WholeName all member) :
    (s.declaredEnum path start attributes modifiers name members).NamesIn all :=
  ⟨hname, hmembers, h.containingTypes, h.namespaceName⟩

theorem Scope.NamesIn.declaredType {s : Scope} (h : s.NamesIn all) {path kind : String}
    {start : Token} {modifiers : List String} {name : String}
    (hname : NameBehind typeKeywords all name) :
    (s.declaredType path kind start modifiers name).NamesIn all :=
  ⟨hname, List.forall_mem_nil _, h.containingTypes, h.namespaceName⟩

theorem Scope.NamesIn.openType {s : Scope} (h : s.NamesIn all) {t : TypeDeclaration}
    (ht : t.NamesIn all) : (s.openType t).NamesIn all where
  enums := List.forall_mem_nil _
  types := List.forall_mem_nil _
  owner := fun _ howner => Option.some.inj howner ▸ ht
  properties := List.forall_mem_nil _
  containingTypes := fun outer houter =>
    (List.mem_append.1 houter).elim (h.containingTypes outer) fun hlast =>
      List.mem_singleton.1 hlast ▸ ht.name
  namespaceName := h.namespaceName

/-- **A declaration** takes its names from their places. -/
theorem Walk.NamesIn.effect {w w' : Walk} {path : String} {start : Token}
    {attributes : List Attribute} {modifiers : List String} {ts rest : List Token}
    (hw : w.NamesIn all) (hts : ts <:+: all)
    (h : Walk.Effect path w start attributes modifiers ts w' rest) : w'.NamesIn all := by
  have hscope := hw.scope
  cases h with
  | importGlobally => exact ⟨hscope, hw.outer⟩
  | importLocally => exact ⟨{ hscope with }, hw.outer⟩
  | namespaceLine hhead hread =>
      obtain ⟨segments, hname⟩ := qualifiedName_in hhead hread
      exact ⟨{ hscope with namespaceName := hscope.fullNamespace (hname.mono hts) }, hw.outer⟩
  | namespaceBlock hhead hread =>
      obtain ⟨segments, hname⟩ := qualifiedName_in hhead hread
      have hopened : (w.scope.openNamespace _).NamesIn all :=
        { (Scope.NamesIn.file : Scope.file.NamesIn all) with
          namespaceName := hscope.fullNamespace (hname.mono hts) }
      exact ⟨hopened, List.forall_mem_cons.2 ⟨hscope, hw.outer⟩⟩
  | enum hhead hread =>
      obtain ⟨hname, hmembers⟩ := readEnumBody_names hhead hread
      refine ⟨{ hscope with enums := fun e he => ?_ }, hw.outer⟩
      rcases List.mem_append.1 he with he | he
      · exact hscope.enums e he
      · rw [List.mem_singleton.1 he]
        exact hscope.declaredEnum (hname.mono hts) fun member hmember =>
          (hmembers member hmember).mono hts
  | typeBlock hhead hread =>
      have hname := (readTypeHeader_name hhead hread).mono hts
      exact ⟨hscope.openType (hscope.declaredType hname), List.forall_mem_cons.2 ⟨hscope, hw.outer⟩⟩
  | typeLine hhead hread =>
      refine ⟨{ hscope with types := fun t ht => ?_ }, hw.outer⟩
      rcases List.mem_append.1 ht with ht | ht
      · exact hscope.types t ht
      · rw [List.mem_singleton.1 ht]
        exact hscope.declaredType ((readTypeHeader_name hhead hread).mono hts)
  | delegate => exact hw
  | constants => exact ⟨{ hscope with }, hw.outer⟩
  | member hread =>
      refine ⟨{ hscope with properties := fun p hp => ?_ }, hw.outer⟩
      rcases List.mem_append.1 hp with hp | hp
      · exact hscope.properties p hp
      · exact (readMember_name hread p (Option.mem_toList.1 hp)).mono hts

/-- **Each piece of a file** keeps it that the names come from their places. -/
theorem Walk.NamesIn.step {w w' : Walk} {path : String} {ts rest : List Token} (hw : w.NamesIn all)
    (hts : ts <:+ all) (h : Walk.Step path w ts w' rest) : w'.NamesIn all ∧ rest <:+ all := by
  obtain ⟨used, _, hused, _⟩ := h.front
  refine ⟨?_, (hused ▸ List.suffix_append used rest).trans hts⟩
  have hscopes :=
    h.scopes (P := fun s => s.NamesIn all) ⟨hw.scope, hw.outer⟩ Scope.NamesIn.absorb ?_
  · exact ⟨hscopes.1, hscopes.2⟩
  · rintro t more - - ⟨-, hsections, heffect⟩
    have hw' := hw.effect ((readModifiers_suffix hsections).trans hts).isInfix heffect
    exact ⟨hw'.scope, hw'.outer⟩

end Walk

/-! ### The whole text -/

/-- The words and the marks behind which names stand. -/
def nameWords : List String := "enum" :: typeKeywords ++ "namespace" :: nameMarks

/-- A namespace of which each segment is a whole identifier of the text. -/
def WholeNamespace (ts : List Token) (namespaceName : String) : Prop :=
  ∃ segments, NamespaceIn ts segments namespaceName ∧ ∀ t ∈ segments, t ∈ ts ∧ t.kind = .identifier

/-- **An enum whose names are all whole identifiers** of the text. -/
structure EnumDeclaration.WholeNames (ts : List Token) (e : EnumDeclaration) : Prop where
  name : WholeName ts e.name
  members : ∀ member ∈ e.members, WholeName ts member
  containingTypes : ∀ outer ∈ e.containingTypes, WholeName ts outer
  namespaceName : WholeNamespace ts e.namespaceName

/-- **A type whose names are all whole identifiers** of the text. -/
structure TypeDeclaration.WholeNames (ts : List Token) (t : TypeDeclaration) : Prop where
  name : WholeName ts t.name
  properties : ∀ p ∈ t.properties, WholeName ts p.name
  containingTypes : ∀ outer ∈ t.containingTypes, WholeName ts outer
  namespaceName : WholeNamespace ts t.namespaceName

section Whole

variable {ts : List Token} {words : List String}

theorem Behind.of_subset {words' : List String} (hsub : ∀ word ∈ words, word ∈ words') {t : Token}
    (h : Behind words ts t) : Behind words' ts t := by
  obtain ⟨word, hword, hpair⟩ := h
  exact ⟨word, hsub _ hword, hpair⟩

theorem wholeNamespace {namespaceName : String}
    (hkinds : ∀ t, Behind nameWords ts t → t.kind = .identifier)
    (h : ∃ segments, NamespaceIn ts segments namespaceName) : WholeNamespace ts namespaceName := by
  obtain ⟨segments, hsegments⟩ := h
  refine ⟨segments, hsegments, fun t ht => ?_⟩
  have hbehind := hsegments.behind ht
  exact ⟨hbehind.mem, hkinds t (hbehind.of_subset fun word hword => List.mem_append_right _ hword)⟩

variable (hkinds : ∀ t, Behind nameWords ts t → t.kind = .identifier)
include hkinds

theorem wholeName_of_typeKeywords {name : String} (h : NameBehind typeKeywords ts name) :
    WholeName ts name :=
  h.whole fun t ht => hkinds t (ht.of_subset fun _ hword =>
    List.mem_append_left _ (List.mem_cons_of_mem _ hword))

theorem EnumDeclaration.NamesIn.whole {e : EnumDeclaration} (h : e.NamesIn ts) :
    e.WholeNames ts where
  name := h.name.whole fun t ht => hkinds t (ht.of_subset fun _ hword =>
    List.mem_append_left _ (List.mem_singleton.1 hword ▸ List.mem_cons_self))
  members := h.members
  containingTypes :=
    fun outer houter => wholeName_of_typeKeywords hkinds (h.containingTypes outer houter)
  namespaceName := wholeNamespace hkinds h.namespaceName

theorem TypeDeclaration.NamesIn.whole {t : TypeDeclaration} (h : t.NamesIn ts) :
    t.WholeNames ts where
  name := wholeName_of_typeKeywords hkinds h.name
  properties := h.properties
  containingTypes :=
    fun outer houter => wholeName_of_typeKeywords hkinds (h.containingTypes outer houter)
  namespaceName := wholeNamespace hkinds h.namespaceName

end Whole

/-- **Where the names come from that are read from a text.**  Values of enums and properties are
whole identifiers.  The other names are what stands behind the words and the marks for names; so all
names are whole identifiers if nothing but identifiers stands there. -/
theorem readSource_names {path text : String} {file : SourceFile}
    (h : readSource path text = .ok file) :
    (∀ e ∈ file.enums, e.NamesIn (tokenise text)) ∧ (∀ t ∈ file.types, t.NamesIn (tokenise text)) ∧
    ((∀ t, Behind nameWords (tokenise text) t → t.kind = .identifier) →
      (∀ e ∈ file.enums, e.WholeNames (tokenise text)) ∧
      ∀ t ∈ file.types, t.WholeNames (tokenise text)) := by
  obtain ⟨w, ⟨hnames, _⟩, _, rfl⟩ := readSource_invariant
    (P := fun w ts => w.NamesIn (tokenise text) ∧ ts <:+ tokenise text)
    ⟨.start, List.suffix_refl _⟩ (fun _ _ _ _ hw hpiece => hw.1.step hw.2 hpiece) h
  have henums := hnames.scope.enums
  have htypes := hnames.scope.types
  exact ⟨henums, htypes, fun hkinds =>
    ⟨fun e he => (henums e he).whole hkinds, fun t ht => (htypes t ht).whole hkinds⟩⟩

/-- An enum with a literal where its name belongs. -/
def literalNameText : String :=
  "enum \"x\" \x7b A \x7d"

/-- What is read from this text. -/
def literalNameFile : SourceFile where
  path := "File0.cs"
  usings := []
  globalUsings := []
  enums :=
    [{ name := "\"x\""
       namespaceName := ""
       accessibility := .internalLevel
       members := ["A"]
       attributes := []
       containingTypes := []
       location := ⟨"File0.cs", 1, 1⟩
       usings := [] }]
  types := []

/-- The enum in this text is recorded under the literal, which is no whole identifier; its value is
one. -/
theorem readSource_names_literal :
    readSource "File0.cs" literalNameText = .ok literalNameFile ∧
      ∀ e ∈ literalNameFile.enums, e.NamesIn (tokenise literalNameText) ∧
        ¬ WholeName (tokenise literalNameText) e.name := by
  have hread : readSource "File0.cs" literalNameText = .ok literalNameFile := by decide +kernel
  have hnone : ∀ t ∈ tokenise literalNameText, t.kind = .identifier → t.plain ≠ "\"x\"" := by
    decide +kernel
  refine ⟨hread, fun e he => ⟨(readSource_names hread).1 e he, ?_⟩⟩
  rintro ⟨t, ht, hkind, hname⟩
  obtain rfl := List.mem_singleton.1 he
  exact hnone t ht hkind hname.symm

end LocalisedEnum

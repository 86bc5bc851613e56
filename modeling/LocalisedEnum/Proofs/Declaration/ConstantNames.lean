import LocalisedEnum.Proofs.Declaration.AttributeSection
import LocalisedEnum.Proofs.Declaration.Effects
import LocalisedEnum.Proofs.Token.Edges

/-!
**Constants are recorded under names of the text.**

A declaration of constants is taken apart at its commas, and each part gives a value to the name in
front of its equals sign.  A name that is given a value twice keeps the later one.  So the constants
of a type are found from their declarators, and each of them is named by a token of the text; if it
begins like a word, by an identifier.

Main definitions:

* `declaredValue` — the value that a declarator gives to a name;
* `NamedIn` — a name that is a token of the text.

Main results:

* `valueOf?_assignAll` — the value under a name is the last one that has been put there;
* `valueOf?_constantsOf` — **the value of a constant** is that of the last declarator that gives it
  one;
* `readSource_constantNames` — **each constant** of a file that is read is named by a token of it;
* `isIdentifier_plain` — a token that begins like a word is an identifier.
-/

set_option autoImplicit false
set_option relaxedAutoImplicit false

namespace LocalisedEnum

/-! ### Values under names -/

theorem valueOf?_assign {α : Type} (name key : String) (value : α) (values : List (String × α)) :
    valueOf? name (assign key value values) =
      if key = name then some value else valueOf? name values := by
  induction values with
  | nil =>
      by_cases hkey : key = name
      · simp [valueOf?, assign, hkey]
      · simp [valueOf?, assign, hkey]
  | cons entry values ih =>
      obtain ⟨n, v⟩ := entry
      by_cases hn : n = key
      · subst hn
        by_cases hkey : n = name
        · simp [valueOf?, assign, hkey]
        · simp [valueOf?, assign, hkey]
      · simp only [valueOf?] at ih
        by_cases hname : n = name
        · subst hname
          simp [valueOf?, assign, hn, Ne.symm hn]
        · simp [valueOf?, assign, hn, hname, ih]

/-- The value under a name is the last one that has been put there. -/
theorem valueOf?_assignAll {α : Type} (name : String) (values into : List (String × α)) :
    valueOf? name (assignAll values into) =
      (values.reverse.findSome? fun (n, value) => if n = name then some value else none).or
        (valueOf? name into) := by
  rw [assignAll]
  induction values generalizing into with
  | nil => rfl
  | cons entry values ih =>
      obtain ⟨key, value⟩ := entry
      rw [List.foldl_cons, ih, valueOf?_assign, List.reverse_cons, List.findSome?_append,
        Option.or_assoc]
      by_cases hkey : key = name
      · simp [hkey]
      · simp [hkey]

theorem mem_of_mem_assign {α : Type} {key : String} {value : α} {values : List (String × α)}
    {entry : String × α} (h : entry ∈ assign key value values) :
    entry = (key, value) ∨ entry ∈ values := by
  induction values with
  | nil => exact .inl (List.mem_singleton.1 h)
  | cons first values ih =>
      obtain ⟨n, v⟩ := first
      rw [assign] at h
      split at h
      · next hn =>
        rcases List.mem_cons.1 h with rfl | h
        · exact .inl (hn ▸ rfl)
        · exact .inr (List.mem_cons_of_mem _ h)
      · rcases List.mem_cons.1 h with rfl | h
        · exact .inr List.mem_cons_self
        · exact (ih h).imp_right (List.mem_cons_of_mem _)

/-- What is there in the end has been put there, or was there. -/
theorem mem_of_mem_assignAll {α : Type} {values into : List (String × α)} {entry : String × α}
    (h : entry ∈ assignAll values into) : entry ∈ values ∨ entry ∈ into := by
  rw [assignAll] at h
  induction values generalizing into with
  | nil => exact .inr h
  | cons first values ih =>
      rcases ih h with hvalues | hinto
      · exact .inl (List.mem_cons_of_mem _ hvalues)
      · rcases mem_of_mem_assign hinto with rfl | hinto
        · exact .inl List.mem_cons_self
        · exact .inr hinto

/-! ### Declarators -/

/-- **The value that a declarator gives to a name**, if it gives it one. -/
def declaredValue (name : String) (declarator : List Token) : Option CodeText :=
  match constantOf declarator with
  | .ok (some (n, value)) => if n = name then some value else none
  | _ => none

/-- **The value of a constant** is that of the last declarator that gives it one. -/
theorem valueOf?_constantsOf {declarators : List (List Token)}
    {constants : List (String × CodeText)} (h : constantsOf declarators = .ok constants)
    (name : String) :
    valueOf? name constants = declarators.reverse.findSome? (declaredValue name) := by
  obtain ⟨found, hfound, heq⟩ := bind_eq_ok.1 h
  cases heq
  rw [ofAssignments, valueOf?_assignAll]
  show Option.or _ none = _
  rw [Option.or_none]
  clear h
  induction declarators generalizing found with
  | nil => cases hfound; rfl
  | cons declarator declarators ih =>
      rw [List.mapM_cons] at hfound
      obtain ⟨first, hfirst, hfound⟩ := bind_eq_ok.1 hfound
      obtain ⟨others, hothers, hfound⟩ := bind_eq_ok.1 hfound
      cases hfound
      rw [List.reverse_cons, List.findSome?_append, ← ih others hothers]
      cases first with
      | none => simp [declaredValue, hfirst]
      | some entry => simp [declaredValue, hfirst, List.findSome?_append]

/-! ### Names of constants -/

/-- A name of the text, without its mark. -/
def NamedIn (ts : List Token) (name : String) : Prop :=
  ∃ t ∈ ts, name = t.plain

/-- A declarator names its constant by the last token in front of its equals sign. -/
theorem namedIn_of_constantOf {declarator : List Token} {entry : String × CodeText}
    (h : constantOf declarator = .ok (some entry)) : NamedIn declarator entry.1 := by
  simp only [constantOf] at h
  split at h
  · next last equals initialiser hlast _ =>
    obtain ⟨result, _, hresult⟩ := bind_eq_ok.1 h
    split at hresult
    · cases hresult
      exact ⟨last, (List.takeWhile_sublist _).subset (List.mem_of_getLast? hlast), rfl⟩
    · cases hresult
  · cases h

/-- The tokens of a statement stand among those it is read from. -/
theorem mem_of_takeStatementFrom {depth : Int} {ts inside rest : List Token}
    (h : takeStatementFrom depth ts = .ok (inside, rest)) : ∀ t ∈ inside, t ∈ ts := by
  induction ts generalizing depth inside with
  | nil => cases h
  | cons u ts ih =>
      rcases takeStatementFrom_cons_eq_ok.1 h with ⟨_, rfl, _⟩ | ⟨_, more, rfl, hmore⟩
      · exact List.forall_mem_nil _
      · intro t ht
        rcases List.mem_cons.1 ht with rfl | ht
        · exact List.mem_cons_self
        · exact List.mem_cons_of_mem _ (ih hmore t ht)

/-- What is found for a list of items is found for one of them. -/
theorem exists_of_mem_mapM {ε α β : Type} {f : α → Except ε β} {xs : List α} {ys : List β}
    (h : xs.mapM f = .ok ys) {y : β} (hy : y ∈ ys) : ∃ x ∈ xs, f x = .ok y := by
  induction xs generalizing ys with
  | nil =>
      cases h
      cases hy
  | cons x xs ih =>
      rw [List.mapM_cons] at h
      obtain ⟨first, hfirst, h⟩ := bind_eq_ok.1 h
      obtain ⟨others, hothers, h⟩ := bind_eq_ok.1 h
      cases h
      rcases List.mem_cons.1 hy with rfl | hy
      · exact ⟨x, List.mem_cons_self, hfirst⟩
      · obtain ⟨x', hx', hf⟩ := ih hothers hy
        exact ⟨x', List.mem_cons_of_mem _ hx', hf⟩

/-- **Constants are named** by tokens of their declaration. -/
theorem readConstants_names {ts rest : List Token} {constants : List (String × CodeText)}
    (h : readConstants ts = .ok (constants, rest)) : ∀ entry ∈ constants, NamedIn ts entry.1 := by
  obtain ⟨⟨inside, rest'⟩, hstatement, h⟩ := bind_eq_ok.1 h
  obtain ⟨found, hfound, heq⟩ := bind_eq_ok.1 h
  cases heq
  have hconstants : constantsOf (splitArguments inside) = .ok constants := by
    cases hof : constantsOf (splitArguments inside) with
    | error e => rw [hof] at hfound; cases hfound
    | ok _ => rw [hof] at hfound; cases hfound; rfl
  obtain ⟨values, hvalues, heq⟩ := bind_eq_ok.1 hconstants
  cases heq
  intro entry hentry
  have hmem := (mem_of_mem_assignAll hentry).resolve_right List.not_mem_nil
  obtain ⟨_, hfound', rfl⟩ := List.mem_filterMap.1 hmem
  obtain ⟨declarator, hdeclarator, hconstant⟩ := exists_of_mem_mapM hvalues hfound'
  obtain ⟨t, ht, hname⟩ := namedIn_of_constantOf hconstant
  exact ⟨t, mem_of_takeStatementFrom hstatement t
    ((mem_of_splitArgumentsFrom hdeclarator t ht).resolve_left List.not_mem_nil), hname⟩

/-! ### The walk -/

/-- The constants of a scope, and of the types in it, are named by tokens. -/
structure Scope.ConstantsNamed (all : List Token) (s : Scope) : Prop where
  constants : ∀ entry ∈ s.constants, NamedIn all entry.1
  types : ∀ t ∈ s.types, ∀ entry ∈ t.constants, NamedIn all entry.1

/-- The constants of all open scopes. -/
structure Walk.ConstantsNamed (all : List Token) (w : Walk) : Prop where
  scope : w.scope.ConstantsNamed all
  outer : ∀ s ∈ w.outer, s.ConstantsNamed all

section Walk

variable {all : List Token}

theorem Scope.ConstantsNamed.empty {s : Scope} (hconstants : s.constants = [])
    (htypes : s.types = []) : s.ConstantsNamed all where
  constants := hconstants ▸ List.forall_mem_nil _
  types := htypes ▸ List.forall_mem_nil _

theorem Scope.ConstantsNamed.absorb {s inside : Scope} (h : s.ConstantsNamed all)
    (hinside : inside.ConstantsNamed all) : (s.absorb inside).ConstantsNamed all where
  constants := h.constants
  types := by
    intro t ht
    rcases List.mem_append.1 ht with ht | ht
    · exact h.types t ht
    · rw [Scope.closedTypes] at ht
      split at ht
      · rcases List.mem_cons.1 ht with rfl | ht
        · exact hinside.constants
        · exact hinside.types t ht
      · exact hinside.types t ht

/-- **A declaration** names its constants by its tokens. -/
theorem Walk.ConstantsNamed.effect {w w' : Walk} {path : String} {start : Token}
    {attributes : List Attribute} {modifiers : List String} {ts rest : List Token}
    (hw : w.ConstantsNamed all) (hts : ts <:+ all)
    (h : Walk.Effect path w start attributes modifiers ts w' rest) : w'.ConstantsNamed all := by
  have hscope := hw.scope
  cases h with
  | namespaceBlock => exact ⟨.empty rfl rfl, List.forall_mem_cons.2 ⟨hscope, hw.outer⟩⟩
  | typeBlock => exact ⟨.empty rfl rfl, List.forall_mem_cons.2 ⟨hscope, hw.outer⟩⟩
  | typeLine =>
      refine ⟨⟨hscope.constants, fun t ht => ?_⟩, hw.outer⟩
      rcases List.mem_append.1 ht with ht | ht
      · exact hscope.types t ht
      · rw [List.mem_singleton.1 ht]
        exact List.forall_mem_nil _
  | constants hread =>
      refine ⟨⟨fun entry hentry => ?_, hscope.types⟩, hw.outer⟩
      rcases mem_of_mem_assignAll hentry with hentry | hentry
      · obtain ⟨t, ht, hname⟩ := readConstants_names hread entry hentry
        exact ⟨t, hts.subset ht, hname⟩
      · exact hscope.constants entry hentry
  | _ => exact ⟨⟨hscope.constants, hscope.types⟩, hw.outer⟩

/-- **Each piece of a file** keeps it that the constants are named by its tokens. -/
theorem Walk.ConstantsNamed.step {w w' : Walk} {path : String} {ts rest : List Token}
    (hw : w.ConstantsNamed all) (hts : ts <:+ all) (h : Walk.Step path w ts w' rest) :
    w'.ConstantsNamed all ∧ rest <:+ all := by
  obtain ⟨used, _, hused, _⟩ := h.front
  refine ⟨?_, (hused ▸ List.suffix_append used rest).trans hts⟩
  have hscopes := h.scopes (P := fun s => s.ConstantsNamed all) ⟨hw.scope, hw.outer⟩
    Scope.ConstantsNamed.absorb ?_
  · exact ⟨hscopes.1, hscopes.2⟩
  · rintro t more - - ⟨-, hsections, heffect⟩
    have hw' := hw.effect ((readModifiers_suffix hsections).trans hts) heffect
    exact ⟨hw'.scope, hw'.outer⟩

end Walk

/-! ### The whole text -/

/-- **Each constant** of a file that is read is named by a token of it. -/
theorem readSource_constantNames {path text : String} {file : SourceFile}
    (h : readSource path text = .ok file) :
    ∀ t ∈ file.types, ∀ entry ∈ t.constants, NamedIn (tokenise text) entry.1 := by
  obtain ⟨w, ⟨hnames, _⟩, _, rfl⟩ := readSource_invariant
    (P := fun w ts => w.ConstantsNamed (tokenise text) ∧ ts <:+ tokenise text)
    ⟨⟨.empty rfl rfl, List.forall_mem_nil _⟩, List.suffix_refl _⟩
    (fun _ _ _ _ hw hpiece => hw.1.step hw.2 hpiece) h
  exact hnames.scope.types

/-! ### Tokens that begin like words -/

/-- A token is a lexeme of the text. -/
theorem exists_lexeme_of_mem (p : Place) (cs : List Char) {t : Token} (ht : t ∈ tokeniseFrom p cs) :
    ∃ back, lexeme (t.text.toList ++ back) = (some t.kind, t.text.toList.length) := by
  induction p, cs using lexeme_induction with
  | nil p =>
      rw [tokeniseFrom_nil] at ht
      cases ht
  | cons p kind text rest htext h ih =>
      rw [tokeniseFrom_lexeme p text htext h, List.mem_append, Option.mem_toList] at ht
      rcases ht with ht | ht
      · obtain ⟨k, rfl, rfl⟩ := Option.map_eq_some_iff.1 ht
        exact ⟨rest, by simpa using h⟩
      · exact ih ht

/-- **A token that begins like a word** is an identifier. -/
theorem isIdentifier_plain {text : String} {t : Token} (ht : t ∈ tokenise text) {c : Char}
    {cs : List Char} (hplain : t.plain.toList = c :: cs) (hc : isWordStart c = true) :
    isIdentifier t.plain = true := by
  obtain ⟨back, h⟩ := exists_lexeme_of_mem .start text.toList ht
  -- the word goes on as far as there are word characters
  have hword : ∀ x ∈ (cs ++ back).takeWhile isWord, isWord x = true :=
    List.all_eq_true.1 List.all_takeWhile
  have hend : ∀ x ∈ ((cs ++ back).dropWhile isWord).head?, isWord x = false := by
    intro x hx
    have hstop := List.head?_dropWhile_not isWord (cs ++ back)
    rwa [Option.mem_def.1 hx] at hstop
  have hlength : ((cs ++ back).takeWhile isWord).length = cs.length := by
    rw [Token.plain, plainName] at hplain
    split at hplain
    · next marked hmarked =>
      rw [String.toList_ofList] at hplain
      have hlexeme := lexeme_markedWord hc hword hend
      rw [List.takeWhile_append_dropWhile] at hlexeme
      rw [hmarked, hplain, List.cons_append, List.cons_append, hlexeme] at h
      simpa using congrArg Prod.snd h
    · have hlexeme := lexeme_word hc hword hend
      rw [List.takeWhile_append_dropWhile] at hlexeme
      rw [hplain, List.cons_append, hlexeme] at h
      simpa using congrArg Prod.snd h
  rw [isIdentifier, hplain]
  simp only [hc, Bool.true_and, List.all_eq_true]
  exact (takeWhile_length_eq hlength).1

end LocalisedEnum

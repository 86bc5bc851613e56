import LocalisedEnum.Proofs.Declaration.Course

/-!
**What a declaration does.**

A declaration is its attributes, its modifiers, and one of a few kinds behind them.  Each kind reads
its tokens in its own way and changes the walk in one place: it adds a declaration to the innermost
scope, opens a scope, or leaves the walk as it is.

Main definitions:

* `Scope.declaredEnum`, `Scope.declaredType` — the declaration that an enum or a type leaves in a
  scope;
* `Walk.Effect` — the kinds of declarations, with what each reads and what it does;
* `Walk.DeclaredAs` — a declaration with its attributes and modifiers.

Main results:

* `Walk.declareHead_effect` — **every declaration** is of one of these kinds;
* `Walk.declaredAs` — the same with its attributes and modifiers;
* `Walk.Step.scopes` — what the open scopes keep behind a piece of a file;
* `Walk.run_invariant` — what every piece of a file keeps holds at its end.
-/

set_option autoImplicit false
set_option relaxedAutoImplicit false

namespace LocalisedEnum

/-! ### Declarations in a scope -/

/-- The declaration that an enum leaves in a scope. -/
def Scope.declaredEnum (s : Scope) (path : String) (start : Token) (attributes : List Attribute)
    (modifiers : List String) (name : String) (members : List String) : EnumDeclaration where
  name := name
  namespaceName := s.namespaceName
  accessibility := .ofModifiers modifiers s.inType
  members := members
  attributes := attributes
  containingTypes := s.containingTypes
  location := start.location path
  usings := s.usings

/-- The declaration that the header of a type leaves in a scope. -/
def Scope.declaredType (s : Scope) (path kind : String) (start : Token) (modifiers : List String)
    (name : String) : TypeDeclaration where
  name := name
  namespaceName := s.namespaceName
  kind := kind
  accessibility := .ofModifiers modifiers s.inType
  properties := []
  containingTypes := s.containingTypes
  location := start.location path
  constants := []

/-! ### The kinds of declarations -/

/-- **What a declaration does** behind its attributes and modifiers: the tokens in front of the
walk, the walk behind the declaration, and the tokens that remain. -/
inductive Walk.Effect (path : String) (w : Walk) (start : Token) (attributes : List Attribute)
    (modifiers : List String) : List Token → Walk → List Token → Prop
  | importGlobally {first second : Token} {ts rest : List Token} {name : Option String}
      (hread : readUsing ts = .ok (name, rest)) :
      Walk.Effect path w start attributes modifiers (first :: second :: ts)
        { w with globalUsings := w.globalUsings ++ name.toList } rest
  | importLocally {head : Token} {ts rest : List Token} {name : Option String}
      (hread : readUsing ts = .ok (name, rest)) :
      Walk.Effect path w start attributes modifiers (head :: ts)
        (w.update fun s => { s with usings := s.usings ++ name.toList }) rest
  | namespaceLine {head semicolon : Token} {ts rest : List Token} {name : String}
      (hhead : head.text = "namespace") (hread : qualifiedName ts = .ok (name, semicolon :: rest)) :
      Walk.Effect path w start attributes modifiers (head :: ts)
        (w.update fun s => { s with namespaceName := s.fullNamespace name }) rest
  | namespaceBlock {head brace : Token} {ts rest : List Token} {name : String}
      (hhead : head.text = "namespace") (hread : qualifiedName ts = .ok (name, brace :: rest)) :
      Walk.Effect path w start attributes modifiers (head :: ts)
        (w.enter (w.scope.openNamespace name)) rest
  | enum {head : Token} {ts rest : List Token} {name : String} {members : List String}
      (hhead : head.text = "enum")
      (hread : readEnumBody path start ts = .ok (name, members, rest)) :
      Walk.Effect path w start attributes modifiers (head :: ts)
        (w.update fun s => { s with
          enums := s.enums ++ [w.scope.declaredEnum path start attributes modifiers name members] })
        rest
  | typeBlock {head : Token} {ts rest : List Token} {header : TypeHeader}
      (hhead : head.text ∈ typeKeywords)
      (hread : readTypeHeader head.text start ts = .ok (header, rest)) :
      Walk.Effect path w start attributes modifiers (head :: ts)
        (w.enter
          (w.scope.openType (w.scope.declaredType path head.text start modifiers header.name))) rest
  | typeLine {head : Token} {ts rest : List Token} {header : TypeHeader}
      (hhead : head.text ∈ typeKeywords)
      (hread : readTypeHeader head.text start ts = .ok (header, rest)) :
      Walk.Effect path w start attributes modifiers (head :: ts)
        (w.update fun s =>
          { s with
            types := s.types ++ [w.scope.declaredType path head.text start modifiers header.name] })
        rest
  | delegate {head : Token} {ts inside rest : List Token}
      (hread : takeStatement ts = .ok (inside, rest)) :
      Walk.Effect path w start attributes modifiers (head :: ts) w rest
  | constants {ts rest : List Token} {constants : List (String × CodeText)}
      (hread : readConstants ts = .ok (constants, rest)) :
      Walk.Effect path w start attributes modifiers ts
        (w.update fun s => { s with constants := assignAll constants s.constants }) rest
  | member {ts rest : List Token} {property : Option PropertyDeclaration}
      (hread : readMember modifiers ts = .ok (property, rest)) :
      Walk.Effect path w start attributes modifiers ts
        (w.update fun s => { s with properties := s.properties ++ property.toList }) rest

section Kinds

variable {w w' : Walk} {path : String} {start head : Token} {attributes : List Attribute}
  {modifiers : List String} {ts rest : List Token}

theorem Walk.declareNamespace_effect (hhead : head.text = "namespace")
    (h : w.declareNamespace ts = .ok (w', rest)) :
    Walk.Effect path w start attributes modifiers (head :: ts) w' rest := by
  obtain ⟨⟨name, afterName⟩, hname, h⟩ := bind_eq_ok.1 h
  simp only at h
  split at h
  · next hsemicolon =>
    cases afterName with
    | nil => cases hsemicolon
    | cons semicolon afterName =>
        cases h
        exact .namespaceLine hhead hname
  · obtain ⟨rest', hexpect, h⟩ := bind_eq_ok.1 h
    cases h
    obtain ⟨brace, rfl, _⟩ := expect_eq_ok.1 hexpect
    exact .namespaceBlock hhead hname

theorem Walk.declareType_effect (hhead : head.text ∈ typeKeywords)
    (h : w.declareType path head.text start modifiers ts = .ok (w', rest)) :
    Walk.Effect path w start attributes modifiers (head :: ts) w' rest := by
  obtain ⟨⟨header, rest'⟩, hheader, h⟩ := bind_eq_ok.1 h
  simp only at h
  split at h
  · cases h
    exact .typeBlock hhead hheader
  · cases h
    exact .typeLine hhead hheader

/-- **Every declaration** behind its attributes and modifiers is of one of the kinds. -/
theorem Walk.declareHead_effect
    (h : w.declareHead path start attributes modifiers head ts = .ok (w', rest)) :
    Walk.Effect path w start attributes modifiers (head :: ts) w' rest := by
  revert h
  refine Walk.declareHead_cases (motive := fun x => x = .ok (w', rest) → _) ?importGlobally
    ?importLocally ?inNamespace ?enum ?type ?delegate ?constants ?member
  case importGlobally =>
    intro _ _ husing h
    obtain ⟨⟨name, rest'⟩, hread, heq⟩ := bind_eq_ok.1 h
    cases ts with
    | nil => cases husing
    | cons second ts =>
        cases heq
        exact .importGlobally hread
  case importLocally =>
    intro _ _ h
    obtain ⟨⟨name, rest'⟩, hread, heq⟩ := bind_eq_ok.1 h
    cases heq
    exact .importLocally hread
  case inNamespace => exact fun _ hhead => declareNamespace_effect hhead
  case enum =>
    intro hhead h
    obtain ⟨⟨name, members, rest'⟩, hread, heq⟩ := bind_eq_ok.1 h
    cases heq
    exact .enum hhead hread
  case type => exact fun hhead => declareType_effect hhead
  case delegate =>
    intro _ h
    obtain ⟨⟨inside, rest'⟩, hread, heq⟩ := bind_eq_ok.1 h
    cases heq
    exact .delegate hread
  case constants =>
    intro _ _ _ h
    obtain ⟨⟨constants, rest'⟩, hread, heq⟩ := bind_eq_ok.1 h
    cases heq
    exact .constants hread
  case member =>
    intro _ _ h
    obtain ⟨⟨property, rest'⟩, hread, heq⟩ := bind_eq_ok.1 h
    cases heq
    exact .member hread

end Kinds

/-- **A declaration** with its attributes and its modifiers. -/
inductive Walk.DeclaredAs (path : String) (w : Walk) (ts : List Token) (w' : Walk)
    (rest : List Token) : Prop
  | intro {start : Token} {more afterSections : List Token} {attributes : List Attribute}
      (hstart : ts = start :: more)
      (hsections : readSections path ts = .ok (attributes, afterSections))
      (heffect : Walk.Effect path w start attributes (readModifiers afterSections).1
        (readModifiers afterSections).2 w' rest) : Walk.DeclaredAs path w ts w' rest

/-- What stands behind the attributes and the modifiers is the end of the tokens. -/
theorem readModifiers_suffix {path : String} {attributes : List Attribute}
    {ts afterSections : List Token} (h : readSections path ts = .ok (attributes, afterSections)) :
    (readModifiers afterSections).2 <:+ ts := by
  obtain ⟨sections, rfl, _⟩ := (takesFront_readSections path ts).front h
  have hmodifiers : (readModifiers afterSections).2 <:+ afterSections :=
    List.dropWhile_suffix isModifier
  exact hmodifiers.trans (List.suffix_append sections afterSections)

theorem Walk.declaredAs {w w' : Walk} {path : String} {start : Token} {ts rest : List Token}
    (h : w.declare path start ts = .ok (w', rest)) : w.DeclaredAs path (start :: ts) w' rest := by
  obtain ⟨⟨attributes, afterSections⟩, hsections, h⟩ := bind_eq_ok.1 h
  simp only at h
  split at h
  · cases h
  · next head tail hbody =>
    refine .intro rfl hsections ?_
    rw [hbody]
    exact declareHead_effect h

/-! ### The whole walk -/

/-- **What the open scopes keep** behind a piece of a file: what a scope keeps when it takes up a
closed one, and what declarations keep. -/
theorem Walk.Step.scopes {P : Scope → Prop} {w w' : Walk} {path : String} {ts rest : List Token}
    (h : Walk.Step path w ts w' rest) (hw : P w.scope ∧ ∀ s ∈ w.outer, P s)
    (habsorb : ∀ {s inside : Scope}, P s → P inside → P (s.absorb inside))
    (hdeclare : ∀ {t : Token} {more : List Token}, ts = t :: more → t.text ≠ closingBrace →
      w.DeclaredAs path ts w' rest → P w'.scope ∧ ∀ s ∈ w'.outer, P s) :
    P w'.scope ∧ ∀ s ∈ w'.outer, P s := by
  cases h with
  | close _ hclose =>
      rw [Walk.close?] at hclose
      split at hclose
      · cases hclose
      · next s outer houter =>
        cases hclose
        have hbelow := List.forall_mem_cons.1 (houter ▸ hw.2)
        exact ⟨habsorb hbelow.1 hw.1, hbelow.2⟩
  | semicolon => exact hw
  | declaration hbrace _ h => exact hdeclare rfl hbrace (Walk.declaredAs h)

/-- **What every piece of a file keeps** holds at the end of the file. -/
theorem Walk.run_invariant {path : String} {P : Walk → List Token → Prop}
    (hstep : ∀ w ts w' rest, P w ts → Walk.Step path w ts w' rest → P w' rest) (w : Walk)
    (ts : List Token) {done : Walk} (hP : P w ts) (h : Walk.run path w ts = .ok done) :
    P done [] ∧ done.outer = [] := by
  obtain ⟨hreaches, houter⟩ := Walk.reaches_of_run h
  exact ⟨hreaches.invariant hstep hP, houter⟩

/-- What is read from a text has what every piece of it keeps. -/
theorem readSource_invariant {path text : String} {file : SourceFile} {P : Walk → List Token → Prop}
    (hstart : P .start (tokenise text))
    (hstep : ∀ w ts w' rest, P w ts → Walk.Step path w ts w' rest → P w' rest)
    (h : readSource path text = .ok file) : ∃ w, P w [] ∧ w.outer = [] ∧ file = w.result path := by
  obtain ⟨w, hrun, rfl⟩ := readTokens_eq_ok.1 h
  obtain ⟨hP, houter⟩ := Walk.run_invariant hstep .start (tokenise text) hstart hrun
  exact ⟨w, hP, houter, rfl⟩

end LocalisedEnum

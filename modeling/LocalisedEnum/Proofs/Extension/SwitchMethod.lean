import LocalisedEnum.Declaration
import LocalisedEnum.Declaration.Skip

/-!
**Methods around a switch, as programs.**

A generated method is code, and what it does is decided by the meaning of code: it runs its
statements, takes the first section of its switch whose label is that of the value or else the
default section, and ends with a text or with an exception.  A section that neither leaves the
switch nor the method is not allowed, and a local has to be declared before it is assigned and
assigned before it is used.

The reader below knows statements, sections and methods as they can be written in any layout, and
nothing of mappings; the interpreter runs what has been read.

Main definitions:

* `CallExpression`, `Statement`, `SwitchSection`, `SwitchMethod` — the programs;
* `switchMethod?` — **the reader**, from tokens;
* `runStatements`, `SwitchMethod.run?` — **the interpreter**.

Main results:

* `statements_end`, `statements_cons`, `switchSections_nil`, `switchSections_cons` — the loops of
  the reader, one round at a time;
* `SwitchMethod.run?_eq` — a run, part by part.
-/

set_option autoImplicit false
set_option relaxedAutoImplicit false

namespace LocalisedEnum

/-! ### Programs -/

/-- An expression: a name, with the arguments of a call or without.  Names and arguments are kept as
they are written. -/
structure CallExpression where
  name : String
  arguments : Option (List String)
  deriving DecidableEq, Repr

/-- The statements that end with a semicolon. -/
inductive Statement where
  | declares (type target : String)
  | assigns (target : String) (value : CallExpression)
  | breaks
  | returns (value : CallExpression)
  | throws (exception : CallExpression)
  deriving DecidableEq, Repr

/-- A section of a switch.  The default section has no label. -/
structure SwitchSection where
  label : Option String
  body : List Statement
  deriving DecidableEq, Repr

/-- A parameter of a method.  The receiver of an extension method is marked. -/
structure Parameter where
  isReceiver : Bool
  type : String
  name : String
  deriving DecidableEq, Repr

/-- A public static method with one switch in it, and the statements in front of the switch and
behind it. -/
structure SwitchMethod where
  returnType : String
  name : String
  parameters : List Parameter
  front : List Statement
  subject : String
  sections : List SwitchSection
  back : List Statement
  deriving DecidableEq, Repr

/-! ### Reading expressions -/

/-- The rest of a name of which `name` has been read, as it is written. -/
def writtenNameFrom (name : String) : List Token → String × List Token
  | mark :: part :: rest =>
    if isNameMark mark ∧ part.kind = .identifier then
      writtenNameFrom (name ++ mark.text ++ part.text) rest
    else (name, mark :: part :: rest)
  | ts => (name, ts)

/-- The name at the front with its segments, as it is written. -/
def writtenName? : List Token → Option (String × List Token)
  | [] => none
  | t :: rest => if t.kind = .identifier then some (writtenNameFrom t.text rest) else none

/-- What stands inside the group at the front, and what follows it. -/
def group? (opening closing : String) (ts : List Token) : Option (List Token × List Token) :=
  (takeGroup opening closing ts).toOption

/-- The expression that tokens are. -/
def callExpression? (ts : List Token) : Option CallExpression := do
  let (name, rest) ← writtenName? ts
  if rest.isEmpty then return ⟨name, none⟩
  else
    let (inside, behind) ← group? "(" ")" rest
    if behind.isEmpty then return ⟨name, some ((splitArguments inside).map joinTokens)⟩ else none

/-! ### Reading statements -/

/-- The local that tokens assign to or declare. -/
def localStatement? (ts : List Token) : Option Statement := do
  let (name, rest) ← writtenName? ts
  if headIs "=" rest then return .assigns name (← callExpression? (rest.drop 1))
  else
    let (target, behind) ← writtenName? rest
    if behind.isEmpty then return .declares name target else none

/-- The statement that tokens in front of a semicolon are. -/
def statement? (ts : List Token) : Option Statement :=
  match ts with
  | [] => none
  | t :: rest =>
    if t.text = "break" then if rest.isEmpty then some .breaks else none
    else if t.text = "return" then (callExpression? rest).map .returns
    else if t.text = "throw" then
      if headIs "new" rest then (callExpression? (rest.drop 1)).map .throws else none
    else localStatement? (t :: rest)

/-- The words and marks that no statement in front of a semicolon begins with. -/
def statementEnds : List String := ["case", "default", "switch", "\x7d"]

/-- The statements at the front. -/
def statements (ts : List Token) : Option (List Statement × List Token) :=
  if ts.head?.all fun t => statementEnds.contains t.text then some ([], ts)
  else
    match _h : takeStatement ts with
    | .error _ => none
    | .ok (inside, rest) => do
      let first ← statement? inside
      let (more, rest) ← statements rest
      return (first :: more, rest)
  termination_by ts.length
  decreasing_by exact takeStatement_length_lt _h

theorem statements_end {ts : List Token}
    (h : ∀ t ∈ ts.head?, t.text ∈ statementEnds) : statements ts = some ([], ts) := by
  rw [statements, if_pos]
  cases ts with
  | nil => rfl
  | cons t rest => simpa using h t rfl

theorem statements_nil : statements [] = some ([], []) :=
  statements_end fun _ ht => nomatch ht

theorem statements_cons {t : Token} {ts inside rest : List Token} {first : Statement}
    (ht : t.text ∉ statementEnds) (h : takeStatement (t :: ts) = .ok (inside, rest))
    (hfirst : statement? inside = some first) :
    statements (t :: ts) = (statements rest).map fun p => (first :: p.1, p.2) := by
  rw [statements, if_neg (by simpa using ht)]
  split
  · next he =>
    rw [h] at he
    cases he
  · next inside' rest' he =>
    rw [h] at he
    cases he
    rw [hfirst]
    cases statements rest <;> rfl

theorem statements_length_le {ts rest : List Token} {found : List Statement}
    (h : statements ts = some (found, rest)) : rest.length ≤ ts.length := by
  fun_induction statements ts generalizing found with
  | case1 => cases h; exact Nat.le_refl _
  | case2 => cases h
  | case3 ts _ inside afterFirst hstatement ih =>
      obtain ⟨first, _, h⟩ := Option.bind_eq_some_iff.1 h
      obtain ⟨⟨more, rest'⟩, hmore, h⟩ := Option.bind_eq_some_iff.1 h
      cases h
      have hlength := takeStatement_length_lt hstatement
      have hrest := ih hmore
      omega

/-! ### Reading sections and methods -/

/-- What stands behind a colon at the front. -/
def behindColon? (label : Option String) (ts : List Token) : Option (Option String × List Token) :=
  if headIs ":" ts then some (label, ts.drop 1) else none

/-- The label of the section at the front. -/
def sectionLabel? : List Token → Option (Option String × List Token)
  | [] => none
  | t :: rest =>
    if t.text = "case" then do
      let (label, behind) ← writtenName? rest
      behindColon? (some label) behind
    else if t.text = "default" then behindColon? none rest
    else none

theorem writtenNameFrom_length_le (name : String) (ts : List Token) :
    (writtenNameFrom name ts).2.length ≤ ts.length := by
  match ts with
  | [] => exact Nat.le_refl _
  | [_] => exact Nat.le_refl _
  | mark :: part :: rest =>
      have ih := writtenNameFrom_length_le (name ++ mark.text ++ part.text) rest
      rw [writtenNameFrom]
      split
      · simp only [List.length_cons]
        omega
      · exact Nat.le_refl _

theorem behindColon?_length_le {label found : Option String} {ts rest : List Token}
    (h : behindColon? label ts = some (found, rest)) : rest.length ≤ ts.length := by
  rw [behindColon?] at h
  split at h
  · cases h
    simp only [List.length_drop]
    omega
  · cases h

theorem sectionLabel?_length_lt {label : Option String} {ts rest : List Token}
    (h : sectionLabel? ts = some (label, rest)) : rest.length < ts.length := by
  cases ts with
  | nil => cases h
  | cons t ts =>
      simp only [sectionLabel?] at h
      refine Nat.lt_succ_of_le ?_
      split at h
      · obtain ⟨⟨name, behind⟩, hname, h⟩ := Option.bind_eq_some_iff.1 h
        refine Nat.le_trans (behindColon?_length_le h) ?_
        cases ts with
        | nil => cases hname
        | cons u us =>
            simp only [writtenName?] at hname
            split at hname
            · have hbehind : (writtenNameFrom u.text us).2 = behind :=
                congrArg Prod.snd (Option.some.inj hname)
              rw [← hbehind]
              exact Nat.le_succ_of_le (writtenNameFrom_length_le ..)
            · cases hname
      · split at h
        · exact behindColon?_length_le h
        · cases h

/-- The sections that the body of a switch is made of. -/
def switchSections (ts : List Token) : Option (List SwitchSection) :=
  if ts.isEmpty then some []
  else
    match _hlabel : sectionLabel? ts with
    | none => none
    | some (label, behind) =>
      match _hbody : statements behind with
      | none => none
      | some (body, rest) => (switchSections rest).map (⟨label, body⟩ :: ·)
  termination_by ts.length
  decreasing_by
    exact Nat.lt_of_le_of_lt (statements_length_le _hbody) (sectionLabel?_length_lt _hlabel)

theorem switchSections_nil : switchSections [] = some [] := by
  rw [switchSections]
  rfl

theorem switchSections_cons {ts behind rest : List Token} {label : Option String}
    {body : List Statement} (hlabel : sectionLabel? ts = some (label, behind))
    (hbody : statements behind = some (body, rest)) :
    switchSections ts = (switchSections rest).map (⟨label, body⟩ :: ·) := by
  have hts : ts.isEmpty = false := by
    cases ts with
    | nil => cases hlabel
    | cons => rfl
  rw [switchSections, hts]
  simp only [Bool.false_eq_true, if_false]
  split
  · next hnone =>
    rw [hlabel] at hnone
    cases hnone
  · next label' behind' hsome =>
    rw [hlabel] at hsome
    cases hsome
    split
    · next hnone =>
      rw [hbody] at hnone
      cases hnone
    · next body' rest' hsome =>
      rw [hbody] at hsome
      cases hsome
      rfl

/-- The parameter that tokens are. -/
def parameter? (ts : List Token) : Option Parameter := do
  let isReceiver := headIs "this" ts
  let (type, rest) ← writtenName? (if isReceiver then ts.drop 1 else ts)
  let (name, behind) ← writtenName? rest
  if behind.isEmpty then return ⟨isReceiver, type, name⟩ else none

/-- The value that a switch is about, its sections, and what stands behind it. -/
def switch? (ts : List Token) : Option (String × List SwitchSection × List Token) := do
  if headIs "switch" ts then
    let (subject, rest) ← group? "(" ")" (ts.drop 1)
    let (inside, rest) ← group? "\x7b" "\x7d" rest
    return (joinTokens subject, ← switchSections inside, rest)
  else none

/-- What stands behind the given words. -/
def behindWords? : List String → List Token → Option (List Token)
  | [], ts => some ts
  | word :: words, ts => if headIs word ts then behindWords? words (ts.drop 1) else none

/-- **The method** that tokens are. -/
def switchMethod? (ts : List Token) : Option SwitchMethod := do
  let (returnType, rest) ← writtenName? (← behindWords? ["public", "static"] ts)
  let (name, rest) ← writtenName? rest
  let (parameters, rest) ← group? "(" ")" rest
  let (body, rest) ← group? "\x7b" "\x7d" rest
  let (front, behind) ← statements body
  let (subject, sections, behind) ← switch? behind
  let (back, behind) ← statements behind
  if rest.isEmpty && behind.isEmpty then
    return ⟨returnType, name, ← (splitArguments parameters).mapM parameter?, front, subject,
      sections, back⟩
  else none

/-! ### Running a method -/

/-- A text that a method gets hold of: the string of a property, or a text with an argument put into
it. -/
inductive MethodText where
  | property (reference : String)
  | formatted (pattern : MethodText) (argument : String)
  deriving DecidableEq, Repr

/-- How a method ends: with a text, or with an exception and its arguments. -/
inductive MethodEnd where
  | text (t : MethodText)
  | exception (thrown : CallExpression)
  deriving DecidableEq, Repr

/-- The locals that have been declared, the last one first, each with its value if it has one. -/
abbrev Locals := List (String × Option MethodText)

/-- How statements end: they run out, they leave the switch, or they leave the method. -/
inductive Flow where
  | onward (locals : Locals)
  | leavesSwitch (locals : Locals)
  | leavesMethod (how : MethodEnd)
  deriving DecidableEq, Repr

/-- The text that a name stands for: the value of a local, which has to have one, or else the string
of a property.  A parameter is no text. -/
def nameText? (parameters : List String) (locals : Locals) (name : String) : Option MethodText :=
  match valueOf? name locals with
  | some value => value
  | none => if parameters.contains name then none else some (.property name)

/-- The text that an expression stands for: a name, or a text that is formatted with a parameter. -/
def CallExpression.text? (parameters : List String) (locals : Locals) (e : CallExpression) :
    Option MethodText :=
  match e.arguments with
  | none => nameText? parameters locals e.name
  | some [pattern, argument] =>
    if e.name = "string.Format" ∧ parameters.contains argument then
      (nameText? parameters locals pattern).map (.formatted · argument)
    else none
  | some _ => none

/-- Runs statements one after the other. -/
def runStatements (parameters : List String) (locals : Locals) : List Statement → Option Flow
  | [] => some (.onward locals)
  | .declares _ target :: rest => runStatements parameters ((target, none) :: locals) rest
  | .assigns target value :: rest => do
    let text ← value.text? parameters locals
    if (valueOf? target locals).isSome then
      runStatements parameters (assign target (some text) locals) rest
    else none
  | .breaks :: _ => some (.leavesSwitch locals)
  | .returns value :: _ =>
    (value.text? parameters locals).map fun text => .leavesMethod (.text text)
  | .throws exception :: _ => some (.leavesMethod (.exception exception))

namespace SwitchMethod

/-- The section that is taken for a value: the first with its label, or else the default section. -/
def selected? (m : SwitchMethod) (label : String) : Option SwitchSection :=
  (m.sections.find? (·.label == some label)).or (m.sections.find? (·.label == none))

/-- The names of the parameters. -/
def parameterNames (m : SwitchMethod) : List String :=
  m.parameters.map (·.name)

/-- Whether the switch is about the receiver. -/
def isAboutReceiver (m : SwitchMethod) : Bool :=
  (m.parameters.head?).any fun p => p.isReceiver && p.name == m.subject

/-- How the method ends when the statements of a section have ended.  There is no going on from one
section to the next. -/
def behindSection? (m : SwitchMethod) : Flow → Option MethodEnd
  | .onward _ => none
  | .leavesSwitch locals =>
    match runStatements m.parameterNames locals m.back with
    | some (.leavesMethod how) => some how
    | _ => none
  | .leavesMethod how => some how

/-- **What the method does** with the value of a label, which is handed to its receiver: it has to
end with a text or with an exception. -/
def run? (m : SwitchMethod) (label : String) : Option MethodEnd := do
  let .onward locals ← runStatements m.parameterNames [] m.front | none
  let taken ← m.selected? label
  let flow ← runStatements m.parameterNames locals taken.body
  if m.isAboutReceiver then m.behindSection? flow else none

/-- A run goes through the statements in front, the section that is taken, and what follows it. -/
theorem run?_eq {m : SwitchMethod} {label : String} {locals : Locals} {taken : SwitchSection}
    {flow : Flow} (hreceiver : m.isAboutReceiver = true)
    (hfront : runStatements m.parameterNames [] m.front = some (.onward locals))
    (htaken : m.selected? label = some taken)
    (hbody : runStatements m.parameterNames locals taken.body = some flow) :
    m.run? label = m.behindSection? flow := by
  simp [run?, hfront, htaken, hbody, hreceiver]

end SwitchMethod

end LocalisedEnum

import LocalisedEnum.Proofs.Declaration.Course
import LocalisedEnum.Proofs.Declaration.Printing

/-!
**Sections that belong to the whole program.**

Sections of attributes whose target is the assembly or the module may stand between declarations.
They are read together with the attributes of the declaration behind them and dropped, so that they
change nothing of what a file declares, wherever at its top level they are put and however many.
But a declaration has to follow: behind the last one they are taken for the beginning of another,
and the file is refused.

Main definitions:

* `GlobalSections` — the tokens of such sections;
* `Walk.Strewn` — the tokens of a file with such sections between its pieces.

Main results:

* `readSections_globalSections`, `run_globalSections` — sections in front of a declaration are
  passed over;
* `run_strewn` — **the walk over a file** with sections between its pieces;
* `readSource_strewn` — **what a file declares** with sections between its declarations.
-/

set_option autoImplicit false
set_option relaxedAutoImplicit false

namespace LocalisedEnum

/-! ### Where a declaration begins -/

section Start

variable {start start' : Token} (hstart : start.Unplaced) (hstart' : start'.Unplaced)
  (path : String)
include hstart hstart'

/-- Of the token where a declaration begins only its place matters. -/
theorem at_unplaced_eq (cause : FaultCause) : Fault.at cause start = Fault.at cause start' := by
  rw [Fault.at, Fault.at, hstart.1, hstart'.1]

theorem readEnumMember_start (enumName : String) (ts : List Token) :
    readEnumMember path enumName start ts = readEnumMember path enumName start' ts := by
  simp only [readEnumMember, at_unplaced_eq hstart hstart']

theorem readEnumMembers_start (enumName : String) (ts : List Token) :
    readEnumMembers path enumName start ts = readEnumMembers path enumName start' ts := by
  rw [readEnumMembers_eq, readEnumMembers_eq path enumName start',
    readEnumMember_start hstart hstart' path enumName ts]
  split
  · rfl
  · cases hmember : readEnumMember path enumName start' ts with
    | error e => rfl
    | ok p =>
        have ih := readEnumMembers_start enumName p.2
        simp only [bind, Except.bind, ih]
  termination_by ts.length
  decreasing_by exact readEnumMember_length_lt hmember

theorem declareEnum_start (w : Walk) (attributes : List Attribute) (modifiers : List String)
    (ts : List Token) :
    w.declareEnum path start attributes modifiers ts =
      w.declareEnum path start' attributes modifiers ts := by
  have hmembers := readEnumMembers_start hstart hstart' path
  simp only [Walk.declareEnum, readEnumBody, hmembers, location_of_unplaced hstart,
    location_of_unplaced hstart']

theorem declareType_start (w : Walk) (kind : String) (modifiers : List String) (ts : List Token) :
    w.declareType path kind start modifiers ts = w.declareType path kind start' modifiers ts := by
  have hheader : readTypeHeader kind start ts = readTypeHeader kind start' ts := by
    simp only [readTypeHeader, at_unplaced_eq hstart hstart']
  simp only [Walk.declareType, hheader, location_of_unplaced hstart, location_of_unplaced hstart']

theorem declareFrom_start (w : Walk) (ts : List Token) :
    w.declareFrom path start ts = w.declareFrom path start' ts := by
  have hbody : ∀ (attributes : List Attribute) (modifiers : List String) (ts : List Token),
      w.declareBody path start attributes modifiers ts =
        w.declareBody path start' attributes modifiers ts := by
    intro attributes modifiers ts
    cases ts with
    | nil => rw [Walk.declareBody_nil, Walk.declareBody_nil, at_unplaced_eq hstart hstart']
    | cons head ts =>
        simp only [Walk.declareBody_cons, Walk.declareHead, declareEnum_start hstart hstart',
          declareType_start hstart hstart']
  simp only [Walk.declareFrom, hbody]

end Start

/-! ### Sections -/

/-- **Sections of attributes that belong to the whole program**: each has a target that says so, and
its attributes can be read up to the bracket that closes it. -/
inductive GlobalSections (path : String) : List Token → Prop
  | nil : GlobalSections path []
  | cons {bracket target colon : Token} {body gs : List Token} {items : List Attribute}
      (hbracket : bracket.text = "[") (hkind : target.kind = .identifier)
      (htarget : target.text ∈ globalTargets) (hcolon : colon.text = ":")
      (hbody : readSectionItems path body = .ok (items, [])) (hgs : GlobalSections path gs) :
      GlobalSections path (bracket :: target :: colon :: (body ++ gs))

/-- Sections of the whole program leave nothing to the declaration behind them. -/
theorem readSections_globalSections {path : String} {gs : List Token} (h : GlobalSections path gs)
    (ts : List Token) : readSections path (gs ++ ts) = readSections path ts := by
  induction h with
  | nil => rfl
  | @cons bracket target colon body gs items hbracket hkind htarget hcolon hbody hgs ih =>
      have hhead : headIs "[" (bracket :: target :: colon :: (body ++ gs) ++ ts) = true :=
        beq_iff_eq.2 hbracket
      have hdrop : sectionTarget ((bracket :: target :: colon :: (body ++ gs) ++ ts).drop 1) =
          (target.text, body ++ (gs ++ ts)) := by
        simp [sectionTarget, hcolon, hkind]
      -- the section is read the same in front of the other tokens
      obtain ⟨used, hused, hitems⟩ := (takesFront_readSectionItems path body).front hbody
      rw [List.append_nil] at hused
      subst hused
      have hread := hitems (gs ++ ts) (.atEnd _ fun _ _ => List.not_mem_nil)
      have hkept : keptItems target.text items = [] := by
        rw [keptItems, if_pos (List.contains_iff_mem.2 htarget)]
      rw [readSections_eq, if_pos hhead, hdrop]
      simp only [hread, bind, Except.bind, hkept, List.nil_append, ih]
      cases readSections path ts <;> rfl

/-- Sections as they are written are sections of the whole program, if their targets say so. -/
theorem globalSections_tokens (path : String) (sections : List SectionSyntax)
    (h : ∀ s ∈ sections, ∃ target ∈ s.target, target.text ∈ globalTargets) :
    GlobalSections path (tokensOf (sections.flatMap SectionSyntax.lexemes)) := by
  induction sections with
  | nil => exact .nil
  | cons s sections ih =>
      obtain ⟨target, first, others⟩ := s
      obtain ⟨word, hword, htarget⟩ := h _ List.mem_cons_self
      cases hword
      obtain ⟨items, hitems⟩ := readSectionItems_tokens path first others []
      have hmore := ih fun s hs => h s (List.mem_cons_of_mem _ hs)
      have htokens : tokensOf
            ((SectionSyntax.mk (some word) first others :: sections).flatMap
              SectionSyntax.lexemes) =
          Bracket.square.opening.token :: word.lexeme.token :: colon.token ::
            ((tokensOf first.lexemes ++ sectionTail others []) ++
              tokensOf (sections.flatMap SectionSyntax.lexemes)) := by
        simp [SectionSyntax.lexemes, sectionTail]
      rw [htokens]
      exact .cons rfl rfl htarget rfl hitems hmore

theorem declareFrom_globalSections {path : String} {gs : List Token} (h : GlobalSections path gs)
    (w : Walk) (start : Token) (ts : List Token) :
    w.declareFrom path start (gs ++ ts) = w.declareFrom path start ts := by
  rw [Walk.declareFrom, Walk.declareFrom, readSections_globalSections h]

/-- A closing brace or a semicolon is no declaration, and changes nothing when it is read as one. -/
theorem declareFrom_mark (w : Walk) (path : String) (start : Token) {t : Token} (ts : List Token)
    (ht : t.text = closingBrace ∨ t.text = ";") :
    w.declareFrom path start (t :: ts) = .ok (w, if t.text = ";" then ts else t :: ts) := by
  have hnone : t.text ∉ "[" :: modifierWords := by
    rcases ht with ht | ht <;> rw [ht] <;> decide
  have hsections : readSections path (t :: ts) = .ok ([], t :: ts) := by
    have hhead : headIs "[" (t :: ts) = false :=
      beq_eq_false_iff_ne.2 fun heq => hnone (heq ▸ List.mem_cons_self)
    rw [readSections_eq, hhead]
    rfl
  have hmodifiers : readModifiers (t :: ts) = ([], t :: ts) :=
    readModifiers_none (beginsWithout_cons.2 fun hmem => hnone (List.mem_cons_of_mem _ hmem))
  have hmember : w.declareHead path start [] [] t ts = w.declareMember [] (t :: ts) := by
    rcases ht with ht | ht <;> simp [Walk.declareHead, ht, typeKeywords, closingBrace]
  have hheader : memberHeader 0 (t :: ts) = some ([], t, ts) := by
    rw [memberHeader, if_pos]
    rcases ht with ht | ht <;> simp [endsMemberHeader, ht]
  have hread : readMember [] (t :: ts) = .ok (none, if t.text = ";" then ts else t :: ts) := by
    rw [readMember, hheader]
    rcases ht with ht | ht <;> simp [ht, closingBrace]
  rw [Walk.declareFrom, hsections]
  simp only [bind, Except.bind, hmodifiers, Walk.declareBody_cons, hmember]
  rw [Walk.declareMember, hread]
  simp [bind, Except.bind, pure, Except.pure, Walk.update]

/-- **Sections in front of something** are passed over by the walk. -/
theorem run_globalSections {path : String} {gs : List Token} (h : GlobalSections path gs) (w : Walk)
    {t : Token} {ts : List Token} (hgs : ∀ u ∈ gs, u.Unplaced) (ht : t.Unplaced) :
    Walk.run path w (gs ++ t :: ts) = Walk.run path w (t :: ts) := by
  cases h with
  | nil => rfl
  | @cons bracket target colon body gs items hbracket hkind htarget hcolon hbody hmore =>
      have hbrace : bracket.text ≠ closingBrace := by rw [hbracket]; decide
      have hsemicolon : bracket.text ≠ ";" := by rw [hbracket]; decide
      have hdeclare := declareFrom_globalSections
        (.cons hbracket hkind htarget hcolon hbody hmore) w bracket (t :: ts)
      rw [List.cons_append, Walk.run_cons, if_neg hbrace, if_neg hsemicolon, Walk.declare_eq,
        ← List.cons_append, hdeclare]
      by_cases hmark : t.text = closingBrace ∨ t.text = ";"
      · rw [declareFrom_mark w path bracket ts hmark]
        rcases hmark with hmark | hmark
        · have hne : closingBrace ≠ ";" := by decide
          rw [hmark, if_neg hne]
          rfl
        · have hne : t.text ≠ closingBrace := by rw [hmark]; decide
          rw [if_pos hmark, Walk.run_cons path w t ts, if_neg hne, if_pos hmark]
          rfl
      · rw [not_or] at hmark
        rw [Walk.run_cons path w t ts, if_neg hmark.1, if_neg hmark.2, Walk.declare_eq,
          declareFrom_start (hgs bracket List.mem_cons_self) ht]

/-- Sections with nothing behind them are no declaration. -/
theorem run_globalSections_end {path : String} {gs : List Token} (h : GlobalSections path gs)
    (w : Walk) (hne : gs ≠ []) :
    ∃ line, Walk.run path w gs = .error (.malformed .truncatedDeclaration (some line)) := by
  cases h with
  | nil => exact absurd rfl hne
  | @cons bracket target colon body gs items hbracket hkind htarget hcolon hbody hmore =>
      have hbrace : bracket.text ≠ closingBrace := by rw [hbracket]; decide
      have hsemicolon : bracket.text ≠ ";" := by rw [hbracket]; decide
      have hdeclare := declareFrom_globalSections
        (.cons hbracket hkind htarget hcolon hbody hmore) w bracket []
      refine ⟨bracket.line, ?_⟩
      rw [List.append_nil] at hdeclare
      have hsections : readSections path [] = .ok ([], []) := by
        rw [readSections_eq]
        rfl
      have hbody : w.declareFrom path bracket [] = .error (.at .truncatedDeclaration bracket) := by
        rw [Walk.declareFrom, hsections]
        exact Walk.declareBody_nil w path bracket [] []
      rw [Walk.run_cons, if_neg hbrace, if_neg hsemicolon, Walk.declare_eq, hdeclare, hbody]
      rfl

/-! ### Files with sections in between -/

/-- **Tokens with sections in between.**  `ts'` are the tokens `ts` with sections of the whole
program in front of some of the pieces that the walk finds at the top level; the sections `last`
stand behind all pieces.  In front of the sign of an initialiser there are none, since what begins
with it belongs to what is before it. -/
inductive Walk.Strewn (path : String) : Walk → List Token → List Token → List Token → Prop
  | last {w : Walk} {gs : List Token} (hgs : GlobalSections path gs) : Walk.Strewn path w [] gs gs
  | piece {w w' : Walk} {used rest rest' last : List Token}
      (hstep : Walk.Step path w (used ++ rest) w' rest)
      (hmore : Walk.Strewn path w' rest rest' last) :
      Walk.Strewn path w (used ++ rest) (used ++ rest') last
  | sections {w : Walk} {gs ts ts' last : List Token} (houter : w.outer = [])
      (hgs : GlobalSections path gs) (hne : ts ≠ []) (hsign : headIs "=" ts = false)
      (hmore : Walk.Strewn path w ts ts' last) : Walk.Strewn path w ts (gs ++ ts') last

theorem GlobalSections.head {path : String} {gs : List Token} (h : GlobalSections path gs)
    (hne : gs ≠ []) : headIs "[" gs = true := by
  cases h with
  | nil => exact absurd rfl hne
  | cons hbracket => exact beq_iff_eq.2 hbracket

theorem beginsWithout_of_bracket {texts : List String} (htexts : "[" ∉ texts) {ts : List Token}
    (h : headIs "[" ts = true) : BeginsWithout texts ts := by
  cases ts with
  | nil => cases h
  | cons t ts =>
      rw [beginsWithout_cons, beq_iff_eq.1 h]
      exact htexts

/-- At the top level of a file that is read to its end no closing brace stands in front. -/
theorem headIs_closingBrace_of_run {path : String} {w done : Walk} {ts : List Token}
    (houter : w.outer = []) (h : Walk.run path w ts = .ok done) :
    headIs closingBrace ts = false := by
  cases ts with
  | nil => rfl
  | cons t ts =>
      rw [headIs_cons, beq_eq_false_iff_ne]
      intro hbrace
      rw [Walk.run_cons, if_pos hbrace, Walk.close?, houter] at h
      cases h

theorem ne_nil_of_strewn {path : String} {w : Walk} {ts ts' last : List Token}
    (h : Walk.Strewn path w ts ts' last) (hne : ts ≠ []) : ts' ≠ [] := by
  induction h with
  | last => exact absurd rfl hne
  | piece hstep hmore ih =>
      obtain ⟨used, hused, heq, _⟩ := hstep.front
      rw [List.append_cancel_right heq]
      exact List.append_ne_nil_of_left_ne_nil hused _
  | sections houter hgs hne hsign hmore ih => exact List.append_ne_nil_of_right_ne_nil _ (ih hne)

/-- Tokens with sections in between may stand wherever the tokens do. -/
theorem mayFollow_of_strewn {path : String} {w done : Walk} {ts ts' last : List Token}
    (h : Walk.Strewn path w ts ts' last) (hrun : Walk.run path w ts = .ok done) :
    MayFollow declarationMarks ts ts' := by
  induction h with
  | @last w gs hgs =>
      by_cases hne : gs = []
      · subst hne
        exact .refl _ _
      · exact .atEnd _ (beginsWithout_of_bracket (by decide) (hgs.head hne))
  | piece hstep hmore ih =>
      -- the piece is the same, and with it the first token
      obtain ⟨used, hused, heq, _⟩ := hstep.front
      obtain ⟨t, more, rfl⟩ := List.exists_cons_of_ne_nil hused
      rw [List.append_cancel_right heq]
      exact Or.inl rfl
  | @sections w gs ts ts' last houter hgs hne hsign hmore ih =>
      by_cases hgsne : gs = []
      · subst hgsne
        exact ih hrun
      · have hbrace := headIs_closingBrace_of_run houter hrun
        refine Or.inr ⟨?_, beginsWithout_of_bracket (by decide) ?_⟩
        · obtain ⟨t, ts, rfl⟩ := List.exists_cons_of_ne_nil hne
          rw [headIs_cons, beq_eq_false_iff_ne] at hbrace hsign
          simp [beginsWithout_cons, leftTexts, hbrace, hsign]
        · rw [headIs_append hgsne []]
          simpa using hgs.head hgsne

/-- **The walk over a file with sections in between** comes out as it does without them, in front of
the sections that stand behind everything. -/
theorem run_strewn {path : String} {w done : Walk} {ts ts' last : List Token}
    (h : Walk.Strewn path w ts ts' last) (hrun : Walk.run path w ts = .ok done)
    (hts : ∀ t ∈ ts, t.Unplaced) (hts' : ∀ t ∈ ts', t.Unplaced) :
    ∃ w', Walk.run path w' [] = .ok done ∧ Walk.run path w ts' = Walk.run path w' last ∧
      GlobalSections path last := by
  induction h with
  | @last w gs hgs => exact ⟨w, hrun, rfl, hgs⟩
  | @piece w w' used rest rest' last hstep hmore ih =>
      rw [hstep.run] at hrun
      obtain ⟨used', _, heq, hfront⟩ := hstep.front
      cases List.append_cancel_right heq
      have hstep' := hfront rest' (mayFollow_of_strewn hmore hrun)
      rw [hstep'.run]
      exact ih hrun (fun t ht => hts t (List.mem_append_right _ ht))
        fun t ht => hts' t (List.mem_append_right _ ht)
  | @sections w gs ts ts' last houter hgs hne hsign hmore ih =>
      obtain ⟨w', hdone, hsame, hlast⟩ :=
        ih hrun hts fun t ht => hts' t (List.mem_append_right _ ht)
      obtain ⟨t, more, rfl⟩ := List.exists_cons_of_ne_nil (ne_nil_of_strewn hmore hne)
      refine ⟨w', hdone, ?_, hlast⟩
      rw [run_globalSections hgs w (fun u hu => hts' u (List.mem_append_left _ hu))
        (hts' t (List.mem_append_right _ List.mem_cons_self)), hsame]

theorem unplaced_of_mem_bareTokens {cs : List Char} {t : Token} (h : t ∈ bareTokens cs) :
    t.Unplaced := by
  obtain ⟨u, _, rfl⟩ := List.mem_map.1 h
  exact ⟨rfl, rfl⟩

/-- **What a file declares** with sections of the whole program between its declarations: the same
as without them, but for the places.  Only behind the last declaration there may be none, or else
the file is refused. -/
theorem readSource_strewn {path text text' : String} {file : SourceFile} {last : List Token}
    (hread : readSource path text = .ok file)
    (h : Walk.Strewn path .start (bareTokens text.toList) (bareTokens text'.toList) last) :
    (last = [] → ∃ file', readSource path text' = .ok file' ∧ file'.unplaced = file.unplaced) ∧
    (last ≠ [] →
      ∃ line, readSource path text' = .error (.malformed path line .truncatedDeclaration)) := by
  obtain ⟨done, hdone, hfile⟩ := run_of_readSource hread
  obtain ⟨w, hend, hsame, hlast⟩ := run_strewn h hdone (fun _ => unplaced_of_mem_bareTokens)
    fun _ => unplaced_of_mem_bareTokens
  constructor
  · rintro rfl
    rw [hend] at hsame
    obtain ⟨file', hread', hfile'⟩ := readSource_of_run hsame
    exact ⟨file', hread', hfile'.trans hfile.symm⟩
  · intro hne
    obtain ⟨line, hfault⟩ := run_globalSections_end hlast w hne
    rw [hfault] at hsame
    exact readSource_of_fault hsame

/-- The tokens of an import. -/
def importTokens : List Token :=
  [.bare .identifier "using", .bare .identifier "System", .bare .operator ";"]

/-- A section of the assembly. -/
def assemblySection : SectionSyntax where
  target := some ⟨"assembly", by decide⟩
  first := ⟨⟨"A", by decide⟩, [], none, none⟩
  others := []

/-- The import is one piece of a file. -/
theorem step_import (path : String) :
    Walk.Step path .start (importTokens ++ [])
      (Walk.start.update fun s => { s with usings := ["System"] }) [] := by
  refine .declaration (by decide) (by decide) ?_
  rw [Walk.declare, readSections_eq]
  rfl

/-- A section in front of an import changes nothing, and the same section behind it is refused. -/
theorem readSource_strewn_import :
    ∃ file, readSource "File0.cs" "using System;\n" = .ok file ∧
      file.unplaced = ⟨"File0.cs", ["System"], [], [], []⟩ ∧
      (∃ file', readSource "File0.cs" "[assembly: A]\nusing System;\n" = .ok file' ∧
        file'.unplaced = file.unplaced) ∧
      ∃ line, readSource "File0.cs" "using System;\n[assembly: A]\n" =
        .error (.malformed "File0.cs" line .truncatedDeclaration) := by
  have htokens : bareTokens "using System;\n".toList = importTokens ++ [] := by decide +kernel
  have hsection : GlobalSections "File0.cs"
      (tokensOf ([assemblySection].flatMap SectionSyntax.lexemes)) := by
    refine globalSections_tokens _ _ ?_
    intro s hs
    rw [List.mem_singleton.1 hs]
    exact ⟨⟨"assembly", by decide⟩, rfl, by decide⟩
  have hfront : bareTokens "[assembly: A]\nusing System;\n".toList =
      tokensOf ([assemblySection].flatMap SectionSyntax.lexemes) ++ (importTokens ++ []) := by
    decide +kernel
  have hback : bareTokens "using System;\n[assembly: A]\n".toList =
      importTokens ++ tokensOf ([assemblySection].flatMap SectionSyntax.lexemes) := by
    decide +kernel
  have hpiece : ∀ {gs : List Token}, GlobalSections "File0.cs" gs →
      Walk.Strewn "File0.cs" .start (importTokens ++ []) (importTokens ++ gs) gs :=
    fun hgs => .piece (step_import _) (.last hgs)
  have hrun : Walk.run "File0.cs" .start (bareTokens "using System;\n".toList) =
      .ok (Walk.start.update fun s => { s with usings := ["System"] }) := by
    rw [htokens, (step_import _).run, Walk.run]
    rfl
  obtain ⟨file, hread, hfile⟩ := readSource_of_run hrun
  have hbefore : Walk.Strewn "File0.cs" .start (bareTokens "using System;\n".toList)
      (bareTokens "[assembly: A]\nusing System;\n".toList) [] := by
    rw [htokens, hfront]
    exact .sections rfl hsection (by decide) (by decide) (hpiece .nil)
  have hbehind : Walk.Strewn "File0.cs" .start (bareTokens "using System;\n".toList)
      (bareTokens "using System;\n[assembly: A]\n".toList)
      (tokensOf ([assemblySection].flatMap SectionSyntax.lexemes)) := by
    rw [htokens, hback]
    exact hpiece hsection
  exact ⟨file, hread, hfile, (readSource_strewn hread hbefore).1 rfl,
    (readSource_strewn hread hbehind).2 (by decide)⟩

end LocalisedEnum

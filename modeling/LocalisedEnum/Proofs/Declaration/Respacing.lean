import LocalisedEnum.Proofs.Declaration.Unplaced
import LocalisedEnum.Proofs.Token.Edges

/-!
**White space between tokens says nothing.**

Declarations are read from the kinds and the texts of tokens, and blanks that are put in where a
token begins or ends change neither.  So a text with such blanks declares the same things, at other
places, or is refused for the same reason.

Main definitions:

* `SameReading` — two outcomes of reading a text that differ in places only;
* `Respaced` — two texts with the same tokens and the same readings.

Main results:

* `respaced_of_bareTokens` — texts with the same tokens declare the same;
* `respaced_besideToken` — **blanks beside a token**, in front of it or behind it, change nothing
  but places.
-/

set_option autoImplicit false
set_option relaxedAutoImplicit false

namespace LocalisedEnum

/-- The outcomes of reading two texts are the same but for the places. -/
inductive SameReading : Except ParseError SourceFile → Except ParseError SourceFile → Prop
  | read {f f' : SourceFile} (h : f.unplaced = f'.unplaced) : SameReading (.ok f) (.ok f')
  | malformed (path : String) (line line' : Nat) (cause : FaultCause) :
      SameReading (.error (.malformed path line cause)) (.error (.malformed path line' cause))
  | escape (e : EscapeError) : SameReading (.error (.escape e)) (.error (.escape e))

theorem sameReading_of_unplacedFile {x y : Except ParseError SourceFile}
    (h : unplacedFile x = unplacedFile y) : SameReading x y := by
  match x, y with
  | .ok f, .ok f' => exact .read (Except.ok.inj h)
  | .ok f, .error e => cases h
  | .error e, .ok f => cases h
  | .error (.malformed path line cause), .error (.malformed path' line' cause') =>
      cases h
      exact .malformed path line line' cause
  | .error (.escape e), .error (.escape e') =>
      cases h
      exact .escape e
  | .error (.malformed _ _ _), .error (.escape _) => cases h
  | .error (.escape _), .error (.malformed _ _ _) => cases h

/-- Two texts have the same tokens, and what they declare is the same, but for the places. -/
structure Respaced (text text' : String) : Prop where
  tokens : (tokenise text).map (fun t => (t.kind, t.text)) =
    (tokenise text').map fun t => (t.kind, t.text)
  reading : ∀ path, SameReading (readSource path text) (readSource path text')

/-- **Texts with the same tokens** declare the same. -/
theorem respaced_of_bareTokens {text text' : String}
    (h : bareTokens text.toList = bareTokens text'.toList) : Respaced text text' := by
  constructor
  · have hmap := congrArg (List.map fun t => (t.kind, t.text)) h
    rwa [bareTokens, bareTokens, List.map_map, List.map_map] at hmap
  · intro path
    refine sameReading_of_unplacedFile ?_
    rw [readSource, readSource, ← readTokens_unplaced, ← readTokens_unplaced path (tokenise text')]
    exact congrArg (fun ts => unplacedFile (readTokens path ts)) h

theorem noOther_bareTokens {text : String} (h : ∀ t ∈ tokenise text, t.kind ≠ .other) :
    ∀ t ∈ bareTokens text.toList, t.kind ≠ .other := by
  intro t ht
  obtain ⟨s, hs, rfl⟩ := List.mem_map.1 ht
  exact h s hs

/-- Blanks at the edge of a token. -/
theorem respaced_of_tokenEdge {text : String} (hclear : ∀ t ∈ tokenise text, t.kind ≠ .other)
    {a b : List Char} (htext : text.toList = a ++ b) (hedge : TokenEdge a b) (g : Blanks) :
    Respaced text (String.ofList (a ++ (g.chars ++ b))) := by
  have hbare := noOther_bareTokens hclear
  refine respaced_of_bareTokens ?_
  rw [htext] at hbare
  rw [String.toList_ofList, htext, bareTokens_inserted hedge g hbare]

/-- **Blanks beside a token**, in front of it or behind it, change nothing but places. -/
theorem respaced_besideToken {text : String} (hclear : ∀ t ∈ tokenise text, t.kind ≠ .other)
    {t : Token} (ht : t ∈ tokenise text) :
    (∃ front back, t.StandsIn text front back) ∧
    ∀ front back, t.StandsIn text front back →
      ∀ g : Blanks, Respaced text (String.ofList (front ++ (g.chars ++ (t.text.toList ++ back)))) ∧
        Respaced text (String.ofList (front ++ (t.text.toList ++ (g.chars ++ back)))) := by
  refine ⟨exists_standsIn ht, fun front back hstands g => ?_⟩
  obtain ⟨hbegin, hend⟩ := hstands.edges ht
  have hbehind : text.toList = (front ++ t.text.toList) ++ back := by
    rw [hstands.split, List.append_assoc]
  refine ⟨respaced_of_tokenEdge hclear hstands.split hbegin g, ?_⟩
  rw [← List.append_assoc]
  exact respaced_of_tokenEdge hclear hbehind hend g

/-- A comment that is not closed is read as operators, and the attribute behind it still is. -/
def unclosedText : String := "/*[A]enum E\x7bB\x7d"

def starToken : Token := ⟨.operator, "*", 1, 2⟩

def lineFeed : Blanks where
  chars := ['\n']
  blank := fun _ hc => List.mem_singleton.1 hc ▸ rfl

theorem respaced_besideToken_unclosed :
    (∀ t ∈ tokenise unclosedText, t.kind ≠ .other) ∧ starToken ∈ tokenise unclosedText ∧
      starToken.StandsIn unclosedText ['/'] "[A]enum E\x7bB\x7d".toList ∧
      Respaced unclosedText "/\n*[A]enum E\x7bB\x7d" ∧
      Respaced unclosedText "/*\n[A]enum E\x7bB\x7d" := by
  have hclear : ∀ t ∈ tokenise unclosedText, t.kind ≠ .other := by decide +kernel
  have ht : starToken ∈ tokenise unclosedText := by decide +kernel
  have hstands : starToken.StandsIn unclosedText ['/'] "[A]enum E\x7bB\x7d".toList :=
    ⟨by decide, rfl⟩
  obtain ⟨-, hrespaced⟩ := respaced_besideToken hclear ht
  exact ⟨hclear, ht, hstands, hrespaced _ _ hstands lineFeed⟩

end LocalisedEnum

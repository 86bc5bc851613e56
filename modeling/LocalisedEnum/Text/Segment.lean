/-!
**Segments, openings and endings of a text.**

Qualified names are segments joined by points, paths are segments joined by slashes, and many names
carry a fixed opening or ending that has to be told from the rest.

Main definitions:

* `splitOn`, `splitString` — the segments of a text;
* `joinDots` — a qualified name from its segments;
* `dropStart?`, `dropEnd?` — what is left of a text without a given opening or ending.

Main results:

* `splitOn_ne_nil` — there is always a segment;
* `joinSegments_splitOn` — joining the segments gives the text back;
* `splitOn_joinSegments` — segments without separators are found again in the joined text;
* `dropStart?_eq_some_iff` — an opening is dropped exactly when it is there.
-/

set_option autoImplicit false
set_option relaxedAutoImplicit false

namespace LocalisedEnum

/-! ### Segments -/

/-- Puts a character in front of the first segment. -/
def extendSegment (c : Char) : List (List Char) → List (List Char)
  | [] => [[c]]
  | segment :: rest => (c :: segment) :: rest

/-- The segments of a list of characters between the separators. -/
def splitOn (separator : Char) : List Char → List (List Char)
  | [] => [[]]
  | c :: rest =>
    if c = separator then [] :: splitOn separator rest
    else extendSegment c (splitOn separator rest)

theorem extendSegment_ne_nil (c : Char) (ss : List (List Char)) : extendSegment c ss ≠ [] := by
  cases ss <;> simp [extendSegment]

theorem splitOn_ne_nil (separator : Char) (cs : List Char) : splitOn separator cs ≠ [] := by
  cases cs with
  | nil => simp [splitOn]
  | cons c rest =>
    simp only [splitOn]
    split
    · simp
    · exact extendSegment_ne_nil _ _

/-- Joins segments by a separator. -/
def joinSegments (separator : Char) : List (List Char) → List Char
  | [] => []
  | [segment] => segment
  | segment :: next :: rest => segment ++ separator :: joinSegments separator (next :: rest)

theorem joinSegments_extendSegment (separator c : Char) (ss : List (List Char)) :
    joinSegments separator (extendSegment c ss) = c :: joinSegments separator ss := by
  match ss with
  | [] => rfl
  | [_] => rfl
  | _ :: _ :: _ => rfl

theorem joinSegments_nil_cons (separator : Char) {ss : List (List Char)} (h : ss ≠ []) :
    joinSegments separator ([] :: ss) = separator :: joinSegments separator ss := by
  match ss, h with
  | _ :: _, _ => rfl

theorem joinSegments_splitOn (separator : Char) (cs : List Char) :
    joinSegments separator (splitOn separator cs) = cs := by
  induction cs with
  | nil => rfl
  | cons c rest ih =>
    simp only [splitOn]
    split
    · next h => rw [joinSegments_nil_cons separator (splitOn_ne_nil _ _), ih, h]
    · rw [joinSegments_extendSegment, ih]

/-- There is no separator in a segment. -/
theorem not_mem_of_mem_splitOn {separator : Char} {cs segment : List Char}
    (h : segment ∈ splitOn separator cs) : separator ∉ segment := by
  induction cs generalizing segment with
  | nil =>
    rw [splitOn, List.mem_singleton] at h
    simp [h]
  | cons c rest ih =>
    simp only [splitOn] at h
    split at h
    · rcases List.mem_cons.1 h with rfl | h
      · exact List.not_mem_nil
      · exact ih h
    · next hc =>
      -- the character goes to the first segment, which is there
      obtain ⟨first, others, hsplit⟩ := List.exists_cons_of_ne_nil (splitOn_ne_nil separator rest)
      rw [hsplit] at h ih
      rcases List.mem_cons.1 h with rfl | h
      · intro hmem
        rcases List.mem_cons.1 hmem with rfl | hmem
        · exact hc rfl
        · exact ih List.mem_cons_self hmem
      · exact ih (List.mem_cons_of_mem _ h)

theorem splitOn_of_not_mem {separator : Char} {cs : List Char} (h : separator ∉ cs) :
    splitOn separator cs = [cs] := by
  induction cs with
  | nil => rfl
  | cons c rest ih =>
    have hc : c ≠ separator := fun hc => h (hc ▸ List.mem_cons_self)
    rw [splitOn, if_neg hc, ih fun hr => h (List.mem_cons_of_mem _ hr)]
    rfl

theorem splitOn_append {separator : Char} {cs : List Char} (h : separator ∉ cs) (rest : List Char) :
    splitOn separator (cs ++ separator :: rest) = cs :: splitOn separator rest := by
  induction cs with
  | nil => rw [List.nil_append, splitOn, if_pos rfl]
  | cons c cs ih =>
    have hc : c ≠ separator := fun hc => h (hc ▸ List.mem_cons_self)
    rw [List.cons_append, splitOn, if_neg hc, ih fun hr => h (List.mem_cons_of_mem _ hr)]
    rfl

theorem splitOn_joinSegments {separator : Char} {segments : List (List Char)} (hne : segments ≠ [])
    (h : ∀ segment ∈ segments, separator ∉ segment) :
    splitOn separator (joinSegments separator segments) = segments := by
  induction segments with
  | nil => exact absurd rfl hne
  | cons segment rest ih =>
    cases rest with
    | nil => exact splitOn_of_not_mem (h segment List.mem_cons_self)
    | cons next rest =>
      rw [joinSegments, splitOn_append (h segment List.mem_cons_self),
        ih (List.cons_ne_nil _ _) fun s hs => h s (List.mem_cons_of_mem _ hs)]

/-- The segments of a text between the separators; the empty text is one empty segment. -/
def splitString (separator : Char) (s : String) : List String :=
  (splitOn separator s.toList).map String.ofList

/-- The last segment of a text. -/
def lastSegment (separator : Char) (s : String) : String :=
  (splitString separator s).getLastD ""

/-- Texts joined by a text between them. -/
def joinWith (separator : String) (parts : List String) : String :=
  separator.intercalate parts

/-- The qualified name with the given segments. -/
def joinDots (parts : List String) : String :=
  joinWith "." parts

theorem toList_joinDots (parts : List String) :
    (joinDots parts).toList = joinSegments '.' (parts.map String.toList) := by
  induction parts with
  | nil => rfl
  | cons part parts ih =>
    cases parts with
    | nil => rw [joinDots, joinWith, String.intercalate_singleton]; rfl
    | cons next parts =>
      have ih : (String.intercalate "." (next :: parts)).toList =
          joinSegments '.' ((next :: parts).map String.toList) := ih
      rw [joinDots, joinWith, String.intercalate_cons_cons, String.toList_append,
        String.toList_append, ih, List.append_assoc]
      rfl

/-- There is no separator in a segment of a text. -/
theorem not_mem_of_mem_splitString {separator : Char} {s part : String}
    (h : part ∈ splitString separator s) : separator ∉ part.toList := by
  obtain ⟨segment, hsegment, rfl⟩ := List.mem_map.1 h
  rw [String.toList_ofList]
  exact not_mem_of_mem_splitOn hsegment

theorem splitString_ne_nil (separator : Char) (s : String) : splitString separator s ≠ [] := by
  rw [splitString, Ne, List.map_eq_nil_iff]
  exact splitOn_ne_nil separator s.toList

/-- Segments without points are found again in their qualified name. -/
theorem splitString_joinDots {parts : List String} (hne : parts ≠ [])
    (h : ∀ part ∈ parts, '.' ∉ part.toList) : splitString '.' (joinDots parts) = parts := by
  rw [splitString, toList_joinDots, splitOn_joinSegments (by simp [hne]), List.map_map]
  · have hid : String.ofList ∘ String.toList = id := funext fun _ => String.ofList_toList
    rw [hid, List.map_id]
  · intro segment hsegment
    obtain ⟨part, hpart, rfl⟩ := List.mem_map.1 hsegment
    exact h part hpart

/-! ### Openings and endings -/

/-- What follows the opening `opening`, if the characters start with it. -/
def dropStart? : (opening cs : List Char) → Option (List Char)
  | [], cs => some cs
  | _ :: _, [] => none
  | o :: opening, c :: cs => if o = c then dropStart? opening cs else none

theorem dropStart?_eq_some_iff {opening cs rest : List Char} :
    dropStart? opening cs = some rest ↔ cs = opening ++ rest := by
  induction opening generalizing cs with
  | nil => simp [dropStart?]
  | cons o opening ih =>
    cases cs with
    | nil => simp [dropStart?]
    | cons c cs =>
      simp only [dropStart?]
      split
      · next h => simp [ih, h]
      · next h => simp [Ne.symm h]

@[simp] theorem dropStart?_append (opening rest : List Char) :
    dropStart? opening (opening ++ rest) = some rest :=
  dropStart?_eq_some_iff.2 rfl

/-- The characters start with `opening`. -/
def startsWith (opening cs : List Char) : Bool :=
  (dropStart? opening cs).isSome

/-- What precedes the ending `ending`, if the characters end with it. -/
def dropEnd? (ending cs : List Char) : Option (List Char) :=
  (dropStart? ending.reverse cs.reverse).map List.reverse

/-- What follows `opening` in a text that starts with it. -/
def afterStart? (opening s : String) : Option String :=
  (dropStart? opening.toList s.toList).map String.ofList

/-- A text without `opening`, or the whole text where it does not start so. -/
def withoutStart (opening s : String) : String :=
  (afterStart? opening s).getD s

/-- What precedes `ending` in a text that ends with it. -/
def beforeEnd? (ending s : String) : Option String :=
  (dropEnd? ending.toList s.toList).map String.ofList

/-- The characters of a list without those of a class at its end. -/
def dropEndWhile (p : Char → Bool) (cs : List Char) : List Char :=
  (cs.reverse.dropWhile p).reverse

/-- The characters without one line feed at the end. -/
def withoutFinalLineFeed (cs : List Char) : List Char :=
  if cs.getLast? = some '\n' then cs.dropLast else cs

/-- Whether `part` occurs somewhere in `cs`. -/
def occursIn (part : List Char) : (cs : List Char) → Bool
  | [] => part.isEmpty
  | c :: cs => startsWith part (c :: cs) || occursIn part cs

end LocalisedEnum

import LocalisedEnum.Diagnostic
import LocalisedEnum.Proofs.Extension.Lines

/-!
**Messages on one line.**

A message is put together from fixed words, numbers, texts between quotes and texts that are shown
as they are.  The first three stay on one line whatever they are about, because a quoted text shows
the end of a line as an escape.  So a message is on one line exactly if the texts are that it shows
openly.

Main definitions:

* `CodeText.OneLine` — a text that does not end a line;
* `Failure.shown`, `GenerationError.shown` — the texts that a message shows as they are.

Main results:

* `oneLine_quoted` — **quoted texts are on one line**;
* `Failure.oneLine_message_iff`, `GenerationError.oneLine_message_iff` — **a message is on one
  line** exactly if what it shows openly is;
* `GenerationError.oneLine_text_iff` — and so is the diagnostic.
-/

set_option autoImplicit false
set_option relaxedAutoImplicit false

namespace LocalisedEnum

/-! ### Texts on one line -/

instance (s : String) : Decidable (OneLine s) :=
  List.decidableBAll (fun c : Char => isLineEnd c = false) s.toList

theorem oneLine_append_iff {s t : String} : OneLine (s ++ t) ↔ OneLine s ∧ OneLine t := by
  rw [OneLine, String.toList_append, List.forall_mem_append]
  rfl

/-- A code point that ends a line. -/
def CodePoint.isLineEnd (p : CodePoint) : Bool :=
  p.char?.any LocalisedEnum.isLineEnd

namespace CodeText

/-- **A text on one line**: nothing in it ends a line. -/
def OneLine (t : CodeText) : Prop :=
  ∀ p ∈ t, p.isLineEnd = false

instance (t : CodeText) : Decidable (CodeText.OneLine t) :=
  List.decidableBAll (fun p : CodePoint => p.isLineEnd = false) t

theorem oneLine_append_iff {s t : CodeText} : OneLine (s ++ t) ↔ OneLine s ∧ OneLine t :=
  List.forall_mem_append

theorem oneLine_ofString_iff {s : String} : OneLine (ofString s) ↔ LocalisedEnum.OneLine s :=
  List.forall_mem_map

end CodeText

/-! ### Numbers and quoted texts -/

theorem isLineEnd_digitChar (n : Nat) : isLineEnd n.digitChar = false := by
  by_cases hn : n < 16
  · have hall : ∀ n < 16, isLineEnd (Nat.digitChar n) = false := by decide
    exact hall n hn
  · have hstar : n.digitChar = '*' := by
      simp only [Nat.digitChar]
      iterate 16 rw [if_neg (by omega)]
    rw [hstar]
    decide

theorem isLineEnd_toDigits {b : Nat} (hb : 1 < b) (n : Nat) :
    ∀ c ∈ b.toDigits n, isLineEnd c = false := by
  induction n using Nat.strongRecOn with
  | ind n ih =>
    by_cases hn : n < b
    · rw [Nat.toDigits_of_lt_base hn]
      exact List.forall_mem_singleton.2 (isLineEnd_digitChar n)
    · have hle : b ≤ n := Nat.le_of_not_lt hn
      rw [Nat.toDigits_of_base_le hb hle]
      exact List.forall_mem_append.2 ⟨ih (n / b) (Nat.div_lt_self (by omega) hb),
        List.forall_mem_singleton.2 (isLineEnd_digitChar (n % b))⟩

theorem oneLine_toString (n : Nat) : OneLine (toString n) := by
  rw [OneLine, Nat.toString_eq_ofList_toDigits, String.toList_ofList]
  exact isLineEnd_toDigits (by decide) n

theorem isLineEnd_numericEscape (n : Nat) : ∀ c ∈ numericEscape n, isLineEnd c = false := by
  have hdigits : ∀ width, ∀ c ∈ hexDigits width n, isLineEnd c = false := by
    intro width
    refine List.forall_mem_append.2 ⟨fun c hc => ?_, isLineEnd_toDigits (by decide) n⟩
    rw [List.eq_of_mem_replicate hc]
    decide
  rw [numericEscape]
  split
  · exact List.forall_mem_cons.2 ⟨by decide, List.forall_mem_cons.2 ⟨by decide, hdigits 2⟩⟩
  · split
    · exact List.forall_mem_cons.2 ⟨by decide, List.forall_mem_cons.2 ⟨by decide, hdigits 4⟩⟩
    · exact List.forall_mem_cons.2 ⟨by decide, List.forall_mem_cons.2 ⟨by decide, hdigits 8⟩⟩

/-- What ends a line has no printed form. -/
theorem isLineEnd_of_isPrintable {c : Char} (h : isPrintable c = true) : isLineEnd c = false := by
  rw [Bool.eq_false_iff]
  intro hc
  have hnone : isLineEnd c = true → isPrintable c = false :=
    forall_blank (P := fun c => isLineEnd c = true → isPrintable c = false) (by decide +kernel)
      (isBlank_of_isLineEnd hc)
  rw [hnone hc] at h
  cases h

theorem isLineEnd_markedChar {c : Char} (hc : isLineEnd c = false) :
    ∀ d ∈ ['\\', c], isLineEnd d = false :=
  List.forall_mem_cons.2 ⟨by decide, List.forall_mem_singleton.2 hc⟩

theorem isLineEnd_quotedChar {mark : Char} (hmark : isLineEnd mark = false) (c : Char) :
    ∀ d ∈ quotedChar mark c, isLineEnd d = false := by
  rw [quotedChar]
  split
  · next hself =>
    have hc : isLineEnd c = false := by
      rw [Bool.or_eq_true, decide_eq_true_eq, decide_eq_true_eq] at hself
      rcases hself with rfl | rfl
      · exact hmark
      · decide
    exact isLineEnd_markedChar hc
  · repeat' split
    · exact isLineEnd_markedChar (by decide)
    · exact isLineEnd_markedChar (by decide)
    · exact isLineEnd_markedChar (by decide)
    · next hprintable => exact List.forall_mem_singleton.2 (isLineEnd_of_isPrintable hprintable)
    · exact isLineEnd_numericEscape c.toNat

/-- **Quoted texts are on one line.** -/
theorem oneLine_quoted (t : CodeText) : OneLine (quoted t) := by
  have hmark : isLineEnd (quoteMark t) = false := by
    rw [quoteMark]
    split <;> decide
  rw [OneLine, quoted, String.toList_ofList]
  refine List.forall_mem_cons.2
    ⟨hmark, List.forall_mem_append.2 ⟨fun c hc => ?_, List.forall_mem_singleton.2 hmark⟩⟩
  obtain ⟨p, -, hp⟩ := List.mem_flatMap.1 hc
  cases p with
  | scalar d => exact isLineEnd_quotedChar hmark d c hp
  | surrogate n range => exact isLineEnd_numericEscape n c hp

/-! ### Failures -/

/-- The texts that the message of a failure shows as they are.  A value is shown together with the
name that it was given under, unless it is a number that is too long to be shown. -/
def Failure.shown : Failure → List CodeText
  | .repeated _ enumName => [.ofString enumName]
  | .notAType _ value => value.display?.toList
  | .unknownProperties _ names => names.map .ofString
  | .notAText _ key value => value.display?.toList.flatMap fun shown => [.ofString key, shown]
  | .emptyEnum methodName enumName => [methodName, .ofString enumName]
  | .missingResource _ | .tooManyArguments _ _ | .notAName _ | .template _ _ => []

theorem oneLine_joinWith_iff {separator : String} (hseparator : OneLine separator)
    {names : List String} : OneLine (joinWith separator names) ↔ ∀ name ∈ names, OneLine name := by
  rw [OneLine, joinWith, String.toList_intercalate]
  induction names with
  | nil => simp
  | cons name names ih =>
      cases names with
      | nil =>
          rw [List.forall_mem_singleton]
          simp [OneLine]
      | cons next names =>
          rw [List.map_cons, List.map_cons, List.intercalate_cons_cons, List.forall_mem_append,
            List.forall_mem_append, ← List.map_cons, ih, List.forall_mem_cons (a := name)]
          exact ⟨fun h => ⟨h.1.1, h.2⟩, fun h => ⟨⟨h.1, hseparator⟩, h.2⟩⟩

theorem oneLine_attributeName (variant : Variant) : OneLine variant.attributeName := by
  cases variant <;> decide

theorem oneLine_digitLimitText : OneLine digitLimitText := by
  have hwords : OneLine "Exceeds the limit (" ∧
      OneLine " digits) for integer string conversion" := by
    decide +kernel
  exact (hwords.1.append (oneLine_toString decimalLimit)).append hwords.2

theorem oneLine_digitLimitAdvice : OneLine digitLimitAdvice := by
  decide +kernel

theorem oneLine_inBraces {s : String} (h : OneLine s) : OneLine (inBraces s) := by
  have hbraces : OneLine "\x7b" ∧ OneLine "\x7d" := by
    decide
  exact (hbraces.1.append h).append hbraces.2

/-- **The message about a faulty template** quotes the template. -/
theorem oneLine_templateMessage (format : CodeText) (fault : TemplateFault) :
    OneLine (fault.message format) := by
  have hlead : OneLine ("Resource name format " ++ quoted format) :=
    oneLine_append_iff.2 ⟨by decide, oneLine_quoted format⟩
  cases fault with
  | strayBrace => exact hlead.append (by decide +kernel)
  | unknownArgument index =>
      have hindex := oneLine_inBraces (oneLine_toString index)
      have hwords : OneLine " refers to argument " ∧ OneLine "; only " ∧ OneLine (inBraces "0") ∧
          OneLine " (enum type) and " ∧ OneLine (inBraces "1") ∧
          OneLine " (value name) are available" := by
        decide +kernel
      obtain ⟨hrefers, honly, hzero, henum, hone, hvalue⟩ := hwords
      have hfirst :=
        ((((hlead.append hrefers).append hindex).append honly).append hzero).append henum
      exact (hfirst.append hone).append hvalue
  | numberTooLong digits =>
      have hwords : OneLine ": value has " ∧ OneLine " digits" := by
        decide +kernel
      have hlimit := (oneLine_digitLimitText.append hwords.1).append (oneLine_toString digits)
      exact (hlimit.append hwords.2).append oneLine_digitLimitAdvice
  | widthPastMachineInteger =>
      have hmessage : OneLine "Python int too large to convert to C ssize_t" := by
        decide +kernel
      exact hmessage
  | widthPastMemory =>
      have hmessage : OneLine "" := by
        decide
      exact hmessage

theorem oneLine_messageShowing_iff {lead : String} {value : ArgumentValue} :
    CodeText.OneLine (messageShowing lead value) ↔
      ∀ shown ∈ value.display?, OneLine lead ∧ CodeText.OneLine shown := by
  rw [messageShowing]
  cases value.display? with
  | none =>
      have hlimit : CodeText.OneLine (.ofString (digitLimitText ++ digitLimitAdvice)) :=
        CodeText.oneLine_ofString_iff.2 (oneLine_digitLimitText.append oneLine_digitLimitAdvice)
      simp [hlimit]
  | some shown => simp [CodeText.oneLine_append_iff, CodeText.oneLine_ofString_iff]

/-- **The message of a failure is on one line** exactly if what it shows openly is. -/
theorem Failure.oneLine_message_iff (f : Failure) :
    CodeText.OneLine f.message ↔ ∀ t ∈ f.shown, CodeText.OneLine t := by
  have hnone : ∀ {message : String}, OneLine message →
      (CodeText.OneLine (.ofString message) ↔ ∀ t ∈ ([] : List CodeText), CodeText.OneLine t) :=
    fun h => iff_of_true (CodeText.oneLine_ofString_iff.2 h) (List.forall_mem_nil _)
  cases f with
  | repeated variant enumName =>
      have hlead : OneLine (variant.attributeName ++ " is applied more than once to ") :=
        (oneLine_attributeName variant).append (by decide +kernel)
      rw [message, shown, List.forall_mem_singleton, CodeText.oneLine_ofString_iff,
        CodeText.oneLine_ofString_iff, oneLine_append_iff]
      exact and_iff_right hlead
  | missingResource variant =>
      exact hnone ((oneLine_attributeName variant).append (by decide +kernel))
  | notAType variant value =>
      have hwords : OneLine " expects typeof(ResourceType) as its first argument, got " := by
        decide +kernel
      have hlead := (oneLine_attributeName variant).append hwords
      rw [message, shown, oneLine_messageShowing_iff]
      simp only [hlead, true_and, Option.mem_toList, Option.mem_def]
  | tooManyArguments variant count =>
      exact hnone
        (((oneLine_attributeName variant).append (by decide +kernel)).append
          (oneLine_toString count))
  | unknownProperties variant names =>
      have hending : OneLine (if names.length = 1 then "y" else "ies") := by
        split <;> decide
      have hwords : OneLine " has no settable propert" ∧ OneLine " " := by decide
      have hlead :=
        (((oneLine_attributeName variant).append hwords.1).append hending).append hwords.2
      rw [message, shown, CodeText.oneLine_ofString_iff, oneLine_append_iff, List.forall_mem_map,
        oneLine_joinWith_iff (by decide)]
      simp only [hlead, true_and, CodeText.oneLine_ofString_iff]
  | notAText variant key value =>
      have hlead : OneLine
            (variant.attributeName ++ "." ++ key ++ " must be a constant string, got ") ↔
          OneLine key := by
        have hwords : OneLine "." ∧ OneLine " must be a constant string, got " := by decide +kernel
        simp only [oneLine_append_iff, oneLine_attributeName, hwords, true_and, and_true]
      rw [message, shown, oneLine_messageShowing_iff, hlead]
      cases value.display? with
      | none => simp
      | some shown => simp [CodeText.oneLine_ofString_iff]
  | notAName methodName =>
      rw [message, shown]
      exact hnone
        ((OneLine.append (by decide) (oneLine_quoted methodName)).append (by decide +kernel))
  | template format fault => exact hnone (oneLine_templateMessage format fault)
  | emptyEnum methodName enumName =>
      have hwords : OneLine "Cannot generate " ∧ OneLine " for empty enum " := by decide
      rw [message, shown, List.forall_mem_cons, List.forall_mem_singleton]
      simp only [CodeText.oneLine_append_iff, CodeText.oneLine_ofString_iff, oneLine_append_iff,
        hwords, true_and]

/-- What is said of a failure is on one line exactly if what its message shows openly is. -/
theorem Failure.oneLine_description_iff (f : Failure) :
    CodeText.OneLine f.description ↔ ∀ t ∈ f.shown, CodeText.OneLine t := by
  have hcategory : OneLine f.category.name := by
    cases f.category <;> decide
  have hlead : CodeText.OneLine (.ofString (f.category.name ++ ": ")) :=
    CodeText.oneLine_ofString_iff.2 (hcategory.append (by decide))
  rw [description, CodeText.oneLine_append_iff, and_iff_right hlead, f.oneLine_message_iff]

/-! ### Errors -/

/-- The texts that the message of an error shows as they are. -/
def GenerationError.shown (e : GenerationError) : List CodeText :=
  match e.code with
  | .internal => [e.detail descriptionKey ""]
  | .missingDefault => [.ofString e.enumName, e.method]
  | .invalidDefault => [.ofString e.enumName, e.detail requestedPropertyKey "", e.method]
  | .unrecognised _ => []

/-- The method that a message speaks of: the one that is named, or the usual one if the name is
empty. -/
theorem GenerationError.detail_methodDetail (methodName : CodeText) :
    (valueOf? methodKey (methodDetail methodName)).getD (.ofString "GetDescription") =
      if methodName = [] then .ofString "GetDescription" else methodName := by
  rw [methodDetail]
  split <;> rfl

/-- An error about a value without a string shows the enum and the method. -/
theorem GenerationError.shown_missingDefault (enumName : String) (methodName : CodeText) :
    (missingDefault enumName methodName).shown =
      [.ofString enumName, if methodName = [] then .ofString "GetDescription" else methodName] := by
  rw [← detail_methodDetail]
  rfl

/-- An error about a default that is not there shows the enum, the name of the property and the
method. -/
theorem GenerationError.shown_invalidDefault (enumName : String) (property methodName : CodeText) :
    (invalidDefault enumName property methodName).shown = [.ofString enumName, property,
      if methodName = [] then .ofString "GetDescription" else methodName] := by
  rw [← detail_methodDetail]
  rfl

/-- **The message of an error is on one line** exactly if what it shows openly is. -/
theorem GenerationError.oneLine_message_iff {e : GenerationError} {message : CodeText}
    (h : e.message = .ok message) :
    CodeText.OneLine message ↔ ∀ t ∈ e.shown, CodeText.OneLine t := by
  have henum : OneLine "Enum type " := by decide
  rw [GenerationError.message] at h
  rw [shown]
  cases hcode : e.code with
  | internal =>
      rw [hcode] at h
      cases h
      have hlead : OneLine "Unexpected error generating extension helpers; error is " := by
        decide +kernel
      simp only [CodeText.oneLine_append_iff, CodeText.oneLine_ofString_iff, hlead, true_and,
        List.forall_mem_singleton]
  | missingDefault =>
      rw [hcode] at h
      cases h
      have hwords : OneLine " requires a default string for " ∧
          OneLine " and none is available; a method has been generated anyway but will likely " ∧
          OneLine "result in runtime errors" := by decide +kernel
      rw [List.forall_mem_cons, List.forall_mem_singleton]
      simp only [CodeText.oneLine_append_iff, CodeText.oneLine_ofString_iff, oneLine_append_iff,
        henum, hwords, true_and, and_true]
  | invalidDefault =>
      rw [hcode] at h
      cases h
      have hwords : OneLine " was given a default property of " ∧ OneLine " for " ∧
          OneLine ", but that property wasn't found" := by decide +kernel
      rw [List.forall_mem_cons, List.forall_mem_cons, List.forall_mem_singleton]
      simp only [CodeText.oneLine_append_iff, CodeText.oneLine_ofString_iff, oneLine_append_iff,
        henum, hwords, true_and, and_true, and_assoc]
  | unrecognised number =>
      rw [hcode] at h
      cases h

theorem oneLine_locationText {l : SourceLocation} (h : OneLine l.path) : OneLine l.text := by
  have hmarks : OneLine "(" ∧ OneLine "," ∧ OneLine ")" := by decide
  exact ((((h.append hmarks.1).append (oneLine_toString l.line)).append hmarks.2.1).append
    (oneLine_toString l.column)).append hmarks.2.2

/-- **A diagnostic is on one line** exactly if what its message shows openly is, at a place whose
path is on one line. -/
theorem GenerationError.oneLine_text_iff {e : GenerationError} {location : Option SourceLocation}
    {d : Diagnostic} (h : e.diagnose location = .ok d) (hpath : ∀ l ∈ location, OneLine l.path) :
    CodeText.OneLine d.text ↔ ∀ t ∈ e.shown, CodeText.OneLine t := by
  obtain ⟨message, hmessage, h⟩ := bind_eq_ok.1 h
  obtain ⟨id, hid, h⟩ := bind_eq_ok.1 h
  cases h
  rw [← oneLine_message_iff hmessage, Diagnostic.text, CodeText.oneLine_append_iff,
    CodeText.oneLine_ofString_iff]
  have hid : OneLine id := by
    cases hcode : e.code <;> rw [hcode] at hid <;> cases hid <;> decide
  have horigin : OneLine
      (((if e.code = .internal then none else location).map SourceLocation.text).getD
        toolName) := by
    split
    · decide
    · cases location with
      | none => decide
      | some l => exact oneLine_locationText (hpath l rfl)
  have hmarks : OneLine ": " ∧ OneLine Severity.error.name ∧ OneLine " " := by decide
  exact and_iff_right
    (((((horigin.append hmarks.1).append hmarks.2.1).append hmarks.2.2).append hid).append hmarks.1)

end LocalisedEnum

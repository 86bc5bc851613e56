import LocalisedEnum.Encoding.Piece

/-!
**UTF-8.**

The first octet of a character says how many octets follow it and what the second of them may be;
every other one lies between 80 and BF.  Octets that start a character and are not continued as they
should be are one stretch that denotes nothing, up to the octet that does not fit.

Main definitions:

* `utf8Shape?` — what a first octet announces;
* `utf8Pieces` — the pieces of octets;
* `utf8Octets` — the octets of a character.

Main results:

* `flatMap_utf8Pieces` — the pieces make up the octets: nothing is lost.
-/

set_option autoImplicit false
set_option relaxedAutoImplicit false

namespace LocalisedEnum

/-! ### Shapes -/

/-- The octets from `low` to `high`. -/
structure OctetRange where
  low : Nat
  high : Nat
  deriving DecidableEq, Repr

/-- Whether an octet lies in a range. -/
def OctetRange.contains (r : OctetRange) (b : UInt8) : Bool :=
  r.low ≤ b.toNat && b.toNat ≤ r.high

/-- The octets that continue a character. -/
def continuation : OctetRange := ⟨0x80, 0xBF⟩

/-- What a first octet announces: its share of the number of the character, and the octets that
follow. -/
structure Utf8Shape where
  share : Nat
  following : List OctetRange
  deriving DecidableEq, Repr

/-- What a first octet announces, if a character may begin with it. -/
def utf8Shape? (first : UInt8) : Option Utf8Shape :=
  let n := first.toNat
  if n < 0x80 then some ⟨n, []⟩
  else if n < 0xC2 then none
  else if n < 0xE0 then some ⟨n - 0xC0, [continuation]⟩
  else if n < 0xF0 then
    let second : OctetRange := ⟨if n = 0xE0 then 0xA0 else 0x80, if n = 0xED then 0x9F else 0xBF⟩
    some ⟨n - 0xE0, [second, continuation]⟩
  else if n < 0xF5 then
    let second : OctetRange := ⟨if n = 0xF0 then 0x90 else 0x80, if n = 0xF4 then 0x8F else 0xBF⟩
    some ⟨n - 0xF0, [second, continuation, continuation]⟩
  else none

/-! ### Decoding -/

/-- The octets that lie in the ranges, one in each, up to the first that does not fit; and what is
wrong with that one. -/
def takeFollowing : List OctetRange → Octets → Octets × Option DecodeCause
  | [], _ => ([], none)
  | _ :: _, [] => ([], some .unexpectedEnd)
  | r :: ranges, b :: rest =>
    if r.contains b then
      let (taken, cause) := takeFollowing ranges rest
      (b :: taken, cause)
    else ([], some .invalidContinuation)

/-- The number of a character from the share of its first octet and the octets that follow. -/
def utf8Number (share : Nat) (following : Octets) : Nat :=
  following.foldl (fun n b => n * 0x40 + (b.toNat - 0x80)) share

/-- The piece that begins with an octet. -/
def utf8Piece (first : UInt8) (rest : Octets) : Piece :=
  match utf8Shape? first with
  | none => ⟨[first], .error .invalidStart⟩
  | some shape =>
    match takeFollowing shape.following rest with
    | (taken, some cause) => ⟨first :: taken, .error cause⟩
    | (taken, none) => ⟨first :: taken, .ok (Char.ofNat (utf8Number shape.share taken))⟩

/-- The pieces of octets. -/
def utf8Pieces : Octets → List Piece
  | [] => []
  | first :: rest =>
    let piece := utf8Piece first rest
    piece :: utf8Pieces (rest.drop (piece.octets.length - 1))
  termination_by octets => octets.length
  decreasing_by simp only [List.length_drop, List.length_cons]; omega

theorem takeFollowing_isPrefix (ranges : List OctetRange) (rest : Octets) :
    (takeFollowing ranges rest).1 <+: rest := by
  induction ranges generalizing rest with
  | nil => exact List.nil_prefix
  | cons r ranges ih =>
    cases rest with
    | nil => exact List.nil_prefix
    | cons b rest =>
      simp only [takeFollowing]
      split
      · exact List.prefix_cons_inj b |>.2 (ih rest)
      · exact List.nil_prefix

theorem utf8Piece_octets (first : UInt8) (rest : Octets) :
    ∃ taken, (utf8Piece first rest).octets = first :: taken ∧ taken <+: rest := by
  simp only [utf8Piece]
  split
  · exact ⟨[], rfl, List.nil_prefix⟩
  · next shape _ =>
    have h := takeFollowing_isPrefix shape.following rest
    split
    · next taken _ heq => rw [heq] at h; exact ⟨taken, rfl, h⟩
    · next taken heq => rw [heq] at h; exact ⟨taken, rfl, h⟩

theorem flatMap_utf8Pieces (octets : Octets) : (utf8Pieces octets).flatMap (·.octets) = octets := by
  fun_induction utf8Pieces octets with
  | case1 => rfl
  | case2 first rest piece ih =>
    obtain ⟨taken, htaken, tail, htail⟩ := utf8Piece_octets first rest
    have hpiece : piece.octets = first :: taken := htaken
    rw [List.flatMap_cons, ih, hpiece, List.length_cons, Nat.add_sub_cancel, ← htail,
      List.drop_left]
    rfl

/-! ### Encoding -/

/-- An octet that continues a character and holds six bits of its number. -/
def continuationOctet (bits : Nat) : UInt8 :=
  UInt8.ofNat (0x80 + bits % 0x40)

/-- The octets of a character. -/
def utf8Octets (c : Char) : Octets :=
  let n := c.toNat
  if n < 0x80 then [.ofNat n]
  else if n < 0x800 then [.ofNat (0xC0 + n / 0x40), continuationOctet n]
  else if n < 0x10000 then
    [.ofNat (0xE0 + n / 0x1000), continuationOctet (n / 0x40), continuationOctet n]
  else
    [.ofNat (0xF0 + n / 0x40000), continuationOctet (n / 0x1000), continuationOctet (n / 0x40),
      continuationOctet n]

end LocalisedEnum

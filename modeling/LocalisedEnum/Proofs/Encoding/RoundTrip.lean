import LocalisedEnum.Encoding.Codec
import Mathlib.Data.List.Forall2

/-!
**Text in UTF-8, written and read.**

The octets of a character are a first octet and those that it announces, so a reader cuts them off
as one piece that denotes the character.  What is written in UTF-8 is therefore read back as it was,
whether the reader is strict or lenient.

Main definitions:

* `Utf8Form` — what makes octets the octets of a character;
* `utf8Text` — the octets of a text.

Main results:

* `utf8Form_octets` — the octets of a character have its form;
* `utf8Pieces_utf8Text` — **a text is cut into the pieces of its characters**;
* `decode_utf8Text`, `decodeLeniently_utf8Text` — and read back.
-/

set_option autoImplicit false
set_option relaxedAutoImplicit false

namespace LocalisedEnum

/-! ### Characters -/

/-- What makes a first octet and others the octets of the character with a number. -/
structure Utf8Form (first : UInt8) (following : Octets) (shape : Utf8Shape) (number : Nat) :
    Prop where
  shape_eq : utf8Shape? first = some shape
  fits : List.Forall₂ (fun (r : OctetRange) b => r.contains b = true) shape.following following
  number_eq : utf8Number shape.share following = number

theorem takeFollowing_of_fits {ranges : List OctetRange} {following : Octets}
    (h : List.Forall₂ (fun (r : OctetRange) b => r.contains b = true) ranges following)
    (rest : Octets) : takeFollowing ranges (following ++ rest) = (following, none) := by
  induction h with
  | nil => rfl
  | cons hfits _ ih => rw [List.cons_append, takeFollowing, if_pos hfits, ih]

theorem Utf8Form.piece {first : UInt8} {following : Octets} {shape : Utf8Shape} {number : Nat}
    (h : Utf8Form first following shape number) (rest : Octets) :
    utf8Piece first (following ++ rest) = ⟨first :: following, .ok (Char.ofNat number)⟩ := by
  rw [utf8Piece, h.shape_eq]
  simp only [takeFollowing_of_fits h.fits, h.number_eq]

theorem toNat_ofNat_of_lt {n : Nat} (h : n < 0x100) : (UInt8.ofNat n).toNat = n := by
  rw [UInt8.toNat_ofNat']
  exact Nat.mod_eq_of_lt h

theorem toNat_continuationOctet (bits : Nat) :
    (continuationOctet bits).toNat = 0x80 + bits % 0x40 :=
  toNat_ofNat_of_lt (by omega)

theorem contains_continuationOctet (bits : Nat) :
    continuation.contains (continuationOctet bits) = true := by
  simp only [OctetRange.contains, continuation, toNat_continuationOctet, Bool.and_eq_true,
    decide_eq_true_eq]
  omega

/-- The octets of a character have its form. -/
theorem utf8Form_octets (c : Char) : ∃ first following shape, utf8Octets c = first :: following ∧
    Utf8Form first following shape c.toNat := by
  have hlimit : c.toNat < 0xD800 ∨ 0xDFFF < c.toNat ∧ c.toNat < 0x110000 := c.valid
  generalize hn : c.toNat = n at hlimit
  rw [utf8Octets, hn]
  by_cases h₁ : n < 0x80
  · have hfirst := toNat_ofNat_of_lt (n := n) (by omega)
    simp only [h₁, if_true]
    exact ⟨_, _, ⟨n, []⟩, rfl, by simp [utf8Shape?, hfirst, h₁], .nil, rfl⟩
  by_cases h₂ : n < 0x800
  · have hfirst := toNat_ofNat_of_lt (n := 0xC0 + n / 0x40) (by omega)
    simp only [h₁, h₂, if_true, if_false]
    refine ⟨_, _, ⟨n / 0x40, [continuation]⟩, rfl, ?_,
      .cons (contains_continuationOctet _) .nil, ?_⟩
    · simp only [utf8Shape?, hfirst]
      rw [if_neg (by omega), if_neg (by omega), if_pos (by omega), Nat.add_sub_cancel_left]
    · simp only [utf8Number, List.foldl_cons, List.foldl_nil, toNat_continuationOctet]
      omega
  by_cases h₃ : n < 0x10000
  · have hfirst := toNat_ofNat_of_lt (n := 0xE0 + n / 0x1000) (by omega)
    simp only [h₁, h₂, h₃, if_true, if_false]
    let first := 0xE0 + n / 0x1000
    refine ⟨_, _,
      ⟨n / 0x1000,
        [⟨if first = 0xE0 then 0xA0 else 0x80, if first = 0xED then 0x9F else 0xBF⟩, continuation]⟩,
      rfl, ?_, .cons ?_ (.cons (contains_continuationOctet _) .nil), ?_⟩
    · simp only [utf8Shape?, hfirst]
      rw [if_neg (by omega), if_neg (by omega), if_neg (by omega), if_pos (by omega),
        Nat.add_sub_cancel_left]
    · simp only [OctetRange.contains, toNat_continuationOctet, Bool.and_eq_true, decide_eq_true_eq]
      split <;> split <;> omega
    · simp only [utf8Number, List.foldl_cons, List.foldl_nil, toNat_continuationOctet]
      omega
  · have hfirst := toNat_ofNat_of_lt (n := 0xF0 + n / 0x40000) (by omega)
    simp only [h₁, h₂, h₃, if_false]
    let first := 0xF0 + n / 0x40000
    refine ⟨_, _,
      ⟨n / 0x40000,
        [⟨if first = 0xF0 then 0x90 else 0x80, if first = 0xF4 then 0x8F else 0xBF⟩, continuation,
          continuation]⟩, rfl, ?_,
      .cons ?_ (.cons (contains_continuationOctet _) (.cons (contains_continuationOctet _) .nil)),
      ?_⟩
    · simp only [utf8Shape?, hfirst]
      rw [if_neg (by omega), if_neg (by omega), if_neg (by omega), if_neg (by omega),
        if_pos (by omega), Nat.add_sub_cancel_left]
    · simp only [OctetRange.contains, toNat_continuationOctet, Bool.and_eq_true, decide_eq_true_eq]
      split <;> split <;> omega
    · simp only [utf8Number, List.foldl_cons, List.foldl_nil, toNat_continuationOctet]
      omega

/-- A reader cuts off the octets of a character as one piece. -/
theorem utf8Pieces_octets (c : Char) (rest : Octets) :
    utf8Pieces (utf8Octets c ++ rest) = ⟨utf8Octets c, .ok c⟩ :: utf8Pieces rest := by
  obtain ⟨first, following, shape, hoctets, hform⟩ := utf8Form_octets c
  rw [hoctets, List.cons_append, utf8Pieces, hform.piece rest, Char.ofNat_toNat, List.length_cons,
    Nat.add_sub_cancel, List.drop_left]

/-! ### Texts -/

/-- The octets of a text in UTF-8. -/
def utf8Text (s : String) : Octets :=
  s.toList.flatMap utf8Octets

/-- **A text is cut into the pieces of its characters.** -/
theorem utf8Pieces_flatMap (cs : List Char) :
    utf8Pieces (cs.flatMap utf8Octets) = cs.map fun c => ⟨utf8Octets c, .ok c⟩ := by
  induction cs with
  | nil => rw [List.flatMap_nil, utf8Pieces, List.map_nil]
  | cons c cs ih => rw [List.flatMap_cons, utf8Pieces_octets, ih, List.map_cons]

theorem lenientText_pieces (cs : List Char) :
    lenientText (cs.map fun c => ⟨utf8Octets c, .ok c⟩) = cs := by
  rw [lenientText, List.map_map]
  exact List.map_id cs

theorem firstFault?_pieces (cs : List Char) (position : Nat) :
    firstFault? position (cs.map fun c => ⟨utf8Octets c, .ok c⟩) = none := by
  induction cs generalizing position with
  | nil => rfl
  | cons c cs ih => exact ih _

/-- **What is written in UTF-8 is read back.** -/
theorem decode_utf8Text (s : String) : Encoding.utf8.decode (utf8Text s) = .ok s.toList := by
  simp only [Encoding.decode, Encoding.read, utf8Text, utf8Pieces_flatMap, strictText,
    firstFault?_pieces, lenientText_pieces]
  rfl

theorem decodeLeniently_utf8Text (s : String) :
    Encoding.utf8.decodeLeniently (utf8Text s) = .ok s.toList :=
  Encoding.decodeLeniently_eq_of_decode (decode_utf8Text s)

theorem encode_utf8 (s : String) : Encoding.utf8.encode s.toList = .ok (utf8Text s) := rfl

theorem decode_codec_utf8Text (s : String) :
    Encoding.utf8.codec.decode (utf8Text s) = .ok (.ofString s) := by
  rw [Encoding.decode_codec, decode_utf8Text]
  rfl

theorem decodeLeniently_codec_utf8Text (s : String) :
    Encoding.utf8.codec.decodeLeniently (utf8Text s) = .ok (.ofString s) := by
  rw [Encoding.decodeLeniently_codec, decodeLeniently_utf8Text]
  rfl

end LocalisedEnum

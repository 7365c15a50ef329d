import CommandConsole.Proofs.Text.Utf8
/-!
# Case — texts that differ in the case of ASCII letters

Two texts that are the same up to the case of `A`-`Z` are the same byte for byte up to the case of these letters
(`sameAscii_iff`): such a letter is one byte, and no other character has a byte that looks like one.  So a text starts with
another, up to case, where the bytes of its first characters are the other's (`startsWithAscii_iff_beginsWith`).
-/
namespace CommandConsole

namespace Utf8

/-- A byte, in lowercase if it is one of the letters `A`-`Z`. -/
def lowerByte (b : UInt8) : UInt8 := if 0x41 ≤ b.toNat ∧ b.toNat ≤ 0x5A then (b.toNat + 0x20).toUInt8 else b

variable {n : Nat}

theorem lowerByte_upper (hlo : 0x41 ≤ n) (hhi : n ≤ 0x5A) : lowerByte n.toUInt8 = (n + 0x20).toUInt8 := by
  have hn : n.toUInt8.toNat = n := toNat_toUInt8 (by omega)
  rw [lowerByte, hn, if_pos ⟨hlo, hhi⟩]

theorem lowerByte_other (hn : n < 256) (hother : ¬ (0x41 ≤ n ∧ n ≤ 0x5A)) : lowerByte n.toUInt8 = n.toUInt8 := by
  rw [lowerByte, toNat_toUInt8 hn, if_neg hother]

theorem toNat_toLower (c : Char) :
    c.toLower.toNat = if 0x41 ≤ c.toNat ∧ c.toNat ≤ 0x5A then c.toNat + 0x20 else c.toNat := by
  by_cases hupper : 0x41 ≤ c.toNat ∧ c.toNat ≤ 0x5A
  · have hval : c.val ≥ 'A'.val ∧ c.val ≤ 'Z'.val :=
      ⟨UInt32.le_iff_toNat_le.2 hupper.1, UInt32.le_iff_toNat_le.2 hupper.2⟩
    have hsum : (c.val + 32).toNat = c.val.toNat + 32 := by
      have hle : c.val.toNat ≤ 0x5A := hupper.2
      have h32 : (32 : UInt32).toNat = 32 := rfl
      rw [UInt32.toNat_add, h32]
      exact Nat.mod_eq_of_lt (by omega)
    have hchar : c.toLower.toNat = (c.val + 32).toNat := congrArg Char.toNat (dif_pos hval)
    rw [if_pos hupper, hchar, hsum]
    rfl
  · have hval : ¬ (c.val ≥ 'A'.val ∧ c.val ≤ 'Z'.val) := fun h =>
      hupper ⟨UInt32.le_iff_toNat_le.1 h.1, UInt32.le_iff_toNat_le.1 h.2⟩
    have hchar : c.toLower = c := dif_neg hval
    rw [if_neg hupper, hchar]

theorem encodeChar_toLower (c : Char) : encodeChar c.toLower = (encodeChar c).map lowerByte := by
  have hnat := toNat_toLower c
  by_cases hupper : 0x41 ≤ c.toNat ∧ c.toNat ≤ 0x5A
  · rw [if_pos hupper] at hnat
    have hsmall : c.toNat < 0x80 := by omega
    have hlower : c.toLower.toNat < 0x80 := by omega
    simp only [encodeChar, if_pos hsmall, if_pos hlower, List.map_cons, List.map_nil]
    rw [hnat, lowerByte_upper hupper.1 hupper.2]
  · rw [if_neg hupper] at hnat
    have hsame : c.toLower = c := Char.toNat_inj.1 hnat
    have hmax : c.toNat < 0x110000 := by
      have hvalid : c.toNat < 0xD800 ∨ 0xDFFF < c.toNat ∧ c.toNat < 0x110000 := c.valid
      omega
    rw [hsame]
    unfold encodeChar
    dsimp only
    split
    · rw [List.map_cons, List.map_nil, lowerByte_other (by omega) hupper]
    · -- the bytes of a character outside ASCII are no letters
      split
      · rw [List.map_cons, List.map_cons, List.map_nil, lowerByte_other (by omega) (by omega),
          lowerByte_other (by omega) (by omega)]
      · split
        · rw [List.map_cons, List.map_cons, List.map_cons, List.map_nil, lowerByte_other (by omega) (by omega),
            lowerByte_other (by omega) (by omega), lowerByte_other (by omega) (by omega)]
        · rw [List.map_cons, List.map_cons, List.map_cons, List.map_cons, List.map_nil,
            lowerByte_other (by omega) (by omega), lowerByte_other (by omega) (by omega),
            lowerByte_other (by omega) (by omega), lowerByte_other (by omega) (by omega)]

theorem encode_asciiLower (t : Text) : encode (Text.asciiLower t) = (encode t).map lowerByte := by
  rw [encode, encode, Text.asciiLower, List.flatMap_map, List.map_flatMap]
  exact congrArg (t.flatMap ·) (funext encodeChar_toLower)

theorem encode_injective {s t : Text} (h : encode s = encode t) : s = t := by
  have hs := decode?_encode s
  rw [h, decode?_encode t] at hs
  exact (Option.some.inj hs).symm

end Utf8

namespace Text

variable {s t p : Text}

/-- A letter takes as many bytes in lowercase. -/
theorem utf8Size_toLower (c : Char) : c.toLower.utf8Size = c.utf8Size := by
  have hnat := Utf8.toNat_toLower c
  have hone {d : Char} (hd : d.toNat ≤ 0x7F) : d.utf8Size = 1 :=
    Char.utf8Size_eq_one_iff.2 (UInt32.le_iff_toNat_le.2 hd)
  by_cases hupper : 0x41 ≤ c.toNat ∧ c.toNat ≤ 0x5A
  · rw [if_pos hupper] at hnat
    rw [hone (by omega), hone (by omega)]
  · rw [if_neg hupper] at hnat
    rw [Char.toNat_inj.1 hnat]

theorem utf8Length_asciiLower (t : Text) : utf8Length (asciiLower t) = utf8Length t := by
  induction t with
  | nil          => rfl
  | cons c t ih =>
    have hcons : asciiLower (c :: t) = c.toLower :: asciiLower t := rfl
    rw [hcons, utf8Length_cons, utf8Length_cons, utf8Size_toLower, ih]

/-- The same bytes up to the case of ASCII letters. -/
def SameBytes (s t : Text) : Prop := (Utf8.encode s).map Utf8.lowerByte = (Utf8.encode t).map Utf8.lowerByte

theorem sameBytes_iff : SameBytes s t ↔ asciiLower s = asciiLower t := by
  rw [SameBytes, ← Utf8.encode_asciiLower, ← Utf8.encode_asciiLower]
  exact ⟨Utf8.encode_injective, congrArg Utf8.encode⟩

theorem sameAscii_iff : sameAscii s t = true ↔ SameBytes s t := by rw [sameAscii, beq_iff_eq, sameBytes_iff]

/-- The first characters of `t` have the bytes of `p`, up to the case of ASCII letters. -/
def BeginsWith (t p : Text) : Prop := ∃ s r, t = s ++ r ∧ SameBytes s p

/-- **A text starts with another, up to case, where that one's bytes end between two characters of it.** -/
theorem startsWithAscii_iff_beginsWith : startsWithAscii p t = true ↔ t.BeginsWith p := by
  rw [startsWithAscii, List.isPrefixOf_iff_prefix]
  constructor
  · rintro ⟨u, hu⟩
    obtain ⟨s, r, ht, hs, -⟩ := List.map_eq_append_iff.1 hu.symm
    exact ⟨s, r, ht, sameBytes_iff.2 hs⟩
  · rintro ⟨s, r, rfl, hs⟩
    rw [← sameBytes_iff.1 hs]
    exact ⟨asciiLower r, (List.map_append ..).symm⟩

end Text
end CommandConsole

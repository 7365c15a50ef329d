import CommandConsole.Proofs.Text.Utf8
import CommandConsole.Terminal.Key
/-!
# KeyStream — keys that are sent are the keys that arrive

A stream has no marks between its keys: how many bytes a key takes shows in the bytes alone.  Whatever comes after a key that
was sent, the decoder takes just the bytes of that key (`decode_encode_append`); so it takes a whole sequence of keys off a
stream and leaves what comes after them (`decode_inverts_encode`).
-/
namespace CommandConsole

namespace Key

/-! ## Single keys -/

/-- The control characters that are keys of their own or begin one; no key is sent as one of them. -/
def controls : List Char := ['\x1B', '\x15', '\x0B', '\x04', '\r', '\n', '\t', '\x7F', '\x08']

/-- Every named key can be sent, and every character but those. -/
def Sendable (k : Key) : Prop := ∀ c ∈ controls, k ≠ .char c

instance (k : Key) : Decidable k.Sendable := List.decidableBAll (fun c => k ≠ .char c) controls

variable {b : UInt8} {r rest : List UInt8} {k : Key} {c : Char}

theorem decode_cons_of_decodeAt (h : decodeAt b r = (some k, rest)) : decode (b :: r) = some (k, rest) := by
  rw [decode]
  split
  · rename_i k' rest' heq
    cases heq.symm.trans h
    rfl
  · rename_i rest' heq
    cases heq.symm.trans h

theorem decodeAt_of_ascii {n : Nat} (hn : n < 0x80) (hplain : n ∉ controls.map Char.toNat) (r : List UInt8) :
    decodeAt n.toUInt8 r = (some (.char (Char.ofNat n)), r) := by
  unfold decodeAt
  rw [Utf8.toNat_toUInt8 (by omega)]
  -- every number with a meaning of its own is one of the controls
  split <;> first | exact absurd (by decide) hplain | rw [if_pos hn]

theorem decodeAt_of_lead (hb : 0x80 ≤ b.toNat) (r : List UInt8) : decodeAt b r = multibyte b r := by
  unfold decodeAt
  split <;> first | omega | rw [if_neg (by omega)]

theorem multibyte_append {tail : List UInt8} (hannounced : announced b = tail.length)
    (hchar : Utf8.char? (b :: tail) = some c) (r : List UInt8) : multibyte b (tail ++ r) = (some (.char c), r) := by
  simp [multibyte, hannounced, hchar]

/-- The first byte of a character outside ASCII announces the others. -/
theorem encodeChar_eq_lead (hc : 0x80 ≤ c.toNat) :
    ∃ b tail, Utf8.encodeChar c = b :: tail ∧ 0x80 ≤ b.toNat ∧ announced b = tail.length := by
  have hvalid : c.toNat < 0xD800 ∨ 0xDFFF < c.toNat ∧ c.toNat < 0x110000 := c.valid
  unfold Utf8.encodeChar
  generalize c.toNat = n at hc hvalid
  dsimp only
  rw [if_neg (by omega)]
  split
  · have hlead : (0xC0 + n / 0x40).toUInt8.toNat = 0xC0 + n / 0x40 := Utf8.toNat_toUInt8 (by omega)
    refine ⟨_, _, rfl, by omega, ?_⟩
    rw [announced, hlead, if_pos (by omega)]
    rfl
  split
  · have hlead : (0xE0 + n / 0x1000).toUInt8.toNat = 0xE0 + n / 0x1000 := Utf8.toNat_toUInt8 (by omega)
    refine ⟨_, _, rfl, by omega, ?_⟩
    rw [announced, hlead, if_neg (by omega), if_pos (by omega)]
    rfl
  · have hlead : (0xF0 + n / 0x40000).toUInt8.toNat = 0xF0 + n / 0x40000 := Utf8.toNat_toUInt8 (by omega)
    refine ⟨_, _, rfl, by omega, ?_⟩
    rw [announced, hlead, if_neg (by omega), if_neg (by omega), if_pos (by omega)]
    rfl

/-- **A character is taken off a stream as it was written**, unless it is one of the controls. -/
theorem decode_encodeChar_append (hc : c ∉ controls) (r : List UInt8) :
    decode (Utf8.encodeChar c ++ r) = some (.char c, r) := by
  by_cases hascii : c.toNat < 0x80
  · have hplain : c.toNat ∉ controls.map Char.toNat := by
      intro hmem
      obtain ⟨d, hd, heq⟩ := List.mem_map.1 hmem
      rw [Char.toNat_inj] at heq
      rw [heq] at hd
      exact hc hd
    have hbytes : Utf8.encodeChar c = [c.toNat.toUInt8] := by
      unfold Utf8.encodeChar
      dsimp only
      rw [if_pos hascii]
    rw [hbytes, List.singleton_append, decode_cons_of_decodeAt (decodeAt_of_ascii hascii hplain r), Char.ofNat_toNat]
  · obtain ⟨b, tail, hbytes, hlead, hannounced⟩ := encodeChar_eq_lead (c := c) (by omega)
    have hchar := Utf8.char?_encodeChar c
    rw [hbytes] at hchar
    rw [hbytes, List.cons_append]
    apply decode_cons_of_decodeAt
    rw [decodeAt_of_lead hlead, multibyte_append hannounced hchar]

/-- **A key that was sent is the key that arrives**, and no byte after it is touched. -/
theorem decode_encode_append (hk : k.Sendable) (r : List UInt8) : decode (encode k ++ r) = some (k, r) := by
  cases k with
  | char c => exact decode_encodeChar_append (fun hmem => hk c hmem rfl) r
  | _      => exact decode_cons_of_decodeAt rfl

/-! ## Sequences of keys -/

/-- Takes the next `n` keys off a stream: the keys and the bytes after them, if there are as many. -/
def decodeMany : Nat → List UInt8 → Option (List Key × List UInt8)
  | 0,     bytes => some ([], bytes)
  | n + 1, bytes => do
    let (k, bytes) ← decode bytes
    let (ks, bytes) ← decodeMany n bytes
    return (k :: ks, bytes)

theorem decodeMany_flatMap_encode {ks : List Key} (hks : ∀ k ∈ ks, k.Sendable) (r : List UInt8) :
    decodeMany ks.length (ks.flatMap encode ++ r) = some (ks, r) := by
  induction ks with
  | nil => rfl
  | cons k ks ih =>
    have hrest := ih (fun k hk => hks k (List.mem_cons_of_mem _ hk))
    rw [List.flatMap_cons, List.append_assoc, List.length_cons, decodeMany,
      decode_encode_append (hks k List.mem_cons_self)]
    show (decodeMany ks.length (ks.flatMap encode ++ r)).bind _ = _
    rw [hrest]
    rfl

theorem decodeAll_nil : decodeAll [] = [] := by
  have hnone : decode [] = none := by unfold decode; rfl
  rw [decodeAll]
  split
  · rename_i hsome
    rw [hnone] at hsome
    cases hsome
  · rfl

theorem decodeAll_of_decode {bytes : List UInt8} (h : decode bytes = some (k, rest)) :
    decodeAll bytes = k :: decodeAll rest := by
  rw [decodeAll]
  split
  · rename_i k' rest' heq
    cases heq.symm.trans h
    rfl
  · rename_i heq
    cases heq.symm.trans h

theorem decodeAll_flatMap_encode {ks : List Key} (hks : ∀ k ∈ ks, k.Sendable) (r : List UInt8) :
    decodeAll (ks.flatMap encode ++ r) = ks ++ decodeAll r := by
  induction ks with
  | nil => rfl
  | cons k ks ih =>
    have hrest := ih (fun k hk => hks k (List.mem_cons_of_mem _ hk))
    rw [List.flatMap_cons, List.append_assoc, decodeAll_of_decode (decode_encode_append (hks k List.mem_cons_self) _),
      hrest, List.cons_append]

/-- **Decoding undoes encoding over whole streams.**  From the bytes of any keys that can be sent, with any bytes after them,
as many keys are taken: those that were sent, in order; and just the bytes after them are left.  All keys of such a stream
are those that were sent and those of the bytes after them. -/
theorem decode_inverts_encode {ks : List Key} (hks : ∀ k ∈ ks, k.Sendable) (r : List UInt8) :
    decodeMany ks.length (ks.flatMap encode ++ r) = some (ks, r) ∧
      decodeAll (ks.flatMap encode ++ r) = ks ++ decodeAll r :=
  ⟨decodeMany_flatMap_encode hks r, decodeAll_flatMap_encode hks r⟩

/-- Keys of one to four bytes, and after them a sequence that breaks off. -/
theorem decode_inverts_encode_mixed :
    let ks : List Key := [.char '\x00', .delete, .char 'é', .arrowUp, .char '€', .enter, .char '😀', .shiftTab]
    (∀ k ∈ ks, k.Sendable) ∧ ks.flatMap encode = [0x00, 0x1B, 0x5B, 0x33, 0x7E, 0xC3, 0xA9, 0x1B, 0x5B, 0x41, 0xE2, 0x82,
      0xAC, 0x0D, 0xF0, 0x9F, 0x98, 0x80, 0x1B, 0x5B, 0x5A] ∧
      decodeMany 8 (ks.flatMap encode ++ [0x1B, 0x5B]) = some (ks, [0x1B, 0x5B]) := by
  intro ks
  have hks : ∀ k ∈ ks, k.Sendable := by decide
  exact ⟨hks, by decide, (decode_inverts_encode hks [0x1B, 0x5B]).1⟩

end Key
end CommandConsole

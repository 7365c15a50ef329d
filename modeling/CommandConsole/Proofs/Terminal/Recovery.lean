import CommandConsole.Proofs.Terminal.Sequences
/-!
# Recovery — what a broken character takes with it

A byte outside ASCII announces how many bytes make up a character with it, and as many are taken, whatever they are
(`decodeAt_lead`).  So a key that comes before all of them have come is taken with them, and so are the bytes that are still
missing then; it is delivered just where the continuation bytes before it are as many as were announced (`key_survives_iff`).
-/
namespace CommandConsole

open Utf8 (char? isTail)

/-! ## The bytes of one character -/

namespace Utf8

theorem isTail_of_finish {c : Char} : ∀ {k bits : Nat} {r : List UInt8}, finish bits k r = (some c, []) →
    ∀ s ∈ r, isTail s = true
  | 0,     bits, r,      h => by
    cases h
    exact nofun
  | k + 1, bits, [],     h => nofun
  | k + 1, bits, s :: r, h => by
    unfold finish at h
    split at h
    · rename_i hs
      exact List.forall_mem_cons.2 ⟨hs, isTail_of_finish h⟩
    · cases h

theorem char?_eq_some_iff {lead : UInt8} {t : List UInt8} {c : Char} :
    char? (lead :: t) = some c ↔ next lead t = (some c, []) := by
  unfold char?
  dsimp only
  split
  · rename_i d heq
    rw [heq]
    simp
  · rename_i hother
    exact iff_of_false nofun (hother c)

/-- **A character is its first byte and continuation bytes.** -/
theorem isTail_of_char? {lead : UInt8} {t : List UInt8} {c : Char} (h : char? (lead :: t) = some c) :
    ∀ s ∈ t, isTail s = true := by
  have hnext := char?_eq_some_iff.1 h
  unfold next at hnext
  split at hnext
  · cases hnext
  · split at hnext
    · exact fun _ hs => absurd hs List.not_mem_nil
    · split at hnext
      · cases hnext
      · exact isTail_of_finish hnext

end Utf8

namespace Key

variable {lead b : UInt8} {tail : List UInt8}

theorem announced_le (lead : UInt8) : announced lead ≤ 3 := by
  unfold announced
  dsimp only
  split
  · omega
  · split
    · omega
    · split <;> omega

/-- **As many bytes are taken as a byte outside ASCII announces**, or all there are, and if they make no character with it,
they are passed over. -/
theorem decodeAt_lead (hlead : 0x80 ≤ lead.toNat) (t : List UInt8) :
    decodeAt lead t = (if t.length < announced lead then none else (char? (lead :: t.take (announced lead))).map .char,
      t.drop (announced lead)) := by
  rw [decodeAt_of_lead hlead, multibyte]
  by_cases hshort : t.length < announced lead
  · rw [if_pos hshort, if_pos hshort, List.drop_eq_nil_of_le (Nat.le_of_lt hshort)]
  · rw [if_neg hshort, if_neg hshort]

theorem decodeAll_of_skipped {r rest : List UInt8} (h : decodeAt b r = (none, rest)) : decodeAll (b :: r) = decodeAll rest :=
  decodeAll_congr (decode_cons_of_skipped h)

/-! ## Continuation bytes without a lead -/

theorem le_of_isTail (h : isTail b = true) : 0x80 ≤ b.toNat := of_decide_eq_true (Bool.and_eq_true_iff.1 h).1

theorem announced_of_isTail (h : isTail b = true) : announced b = 0 := by
  have hlo := le_of_isTail h
  have hhi : b.toNat < 0xC0 := of_decide_eq_true (Bool.and_eq_true_iff.1 h).2
  unfold announced
  dsimp only
  rw [if_neg (by omega), if_neg (by omega), if_neg (by omega)]

/-- A byte that announces nothing is no character. -/
theorem char?_of_announced_eq_zero (hlead : 0x80 ≤ lead.toNat) (h : announced lead = 0) : char? [lead] = none := by
  have hnone : Utf8.lead? lead = none := by
    unfold announced at h
    unfold Utf8.lead?
    dsimp only at h ⊢
    split at h
    · cases h
    · split at h
      · cases h
      · split at h
        · cases h
        · rw [if_neg (by omega)]
          split
          · rfl
          · rw [if_neg (by omega), if_neg (by omega), if_neg (by omega)]
  have hnext : Utf8.next lead [] = (none, []) := by rw [Utf8.next, hnone]
  rw [char?, hnext]

/-- **Continuation bytes that nothing announces are passed over**, one by one. -/
theorem decodeAll_tails (htail : ∀ s ∈ tail, isTail s = true) (r : List UInt8) : decodeAll (tail ++ r) = decodeAll r := by
  induction tail with
  | nil            => rfl
  | cons s tail ih =>
    obtain ⟨hs, hrest⟩ := List.forall_mem_cons.1 htail
    have hzero := announced_of_isTail hs
    have hnone := char?_of_announced_eq_zero (le_of_isTail hs) hzero
    have hat : decodeAt s (tail ++ r) = (none, tail ++ r) := by
      rw [decodeAt_lead (le_of_isTail hs), hzero, List.take_zero, hnone]
      simp
    rw [List.cons_append, decodeAll_of_skipped hat, ih hrest]

/-! ## The key after them -/

/-- The key that a byte of ASCII is, unless it is `ESC`. -/
def ofAscii (b : UInt8) : Key :=
  match b.toNat with
  | 0x15        => .ctrlU
  | 0x0B        => .ctrlK
  | 0x04        => .ctrlD
  | 0x0D | 0x0A => .enter
  | 0x09        => .tab
  | 0x7F | 0x08 => .backspace
  | n           => .char (Char.ofNat n)

theorem decodeAt_ascii (hascii : b.toNat < 0x80) (hescape : b ≠ 0x1B) (r : List UInt8) :
    decodeAt b r = (some (ofAscii b), r) := by
  have hother : b.toNat ≠ 0x1B := fun h => hescape (UInt8.toNat_inj.1 h)
  unfold decodeAt ofAscii
  split
  · exact absurd (by assumption) hother
  -- the bytes with a meaning of their own, and then the others
  all_goals first | (rename_i heq; rw [heq]; rfl) | (rw [if_pos hascii]; split <;> first | contradiction | rfl)

theorem isTail_of_ascii (hascii : b.toNat < 0x80) : isTail b = false := by
  have hlow : ¬ 0x80 ≤ b.toNat := by omega
  simp [isTail, hlow]

theorem decodeAll_ascii (hascii : b.toNat < 0x80) (hescape : b ≠ 0x1B) (r : List UInt8) :
    decodeAll (b :: r) = ofAscii b :: decodeAll r :=
  decodeAll_of_decode (decode_cons_of_decodeAt (decodeAt_ascii hascii hescape r))

/-- **Where all continuation bytes have come, what follows them is decoded on its own.** -/
theorem decodeAll_of_announced (hlead : 0x80 ≤ lead.toNat) (htail : ∀ s ∈ tail, isTail s = true)
    (hall : announced lead ≤ tail.length) (r : List UInt8) : decodeAll (lead :: (tail ++ r)) =
      (char? (lead :: tail.take (announced lead))).toList.map .char ++ decodeAll r := by
  have hat := decodeAt_lead hlead (tail ++ r)
  have henough : ¬ (tail ++ r).length < announced lead := by
    rw [List.length_append]
    omega
  rw [if_neg henough, List.take_append_of_le_length hall, List.drop_append_of_le_length hall] at hat
  -- continuation bytes beyond those that were announced are passed over
  have hrest : decodeAll (tail.drop (announced lead) ++ r) = decodeAll r :=
    decodeAll_tails (fun s hs => htail s (List.mem_of_mem_drop hs)) r
  cases hchar : char? (lead :: tail.take (announced lead)) with
  | none   =>
    rw [hchar] at hat
    exact (decodeAll_of_skipped hat).trans hrest
  | some c =>
    rw [hchar] at hat
    rw [decodeAll_of_decode (decode_cons_of_decodeAt hat), hrest]
    rfl

/-- **A byte that comes too early is taken for one of those that were announced**, and the character is broken: as many bytes
are passed over as were announced. -/
theorem decode_of_broken (hlead : 0x80 ≤ lead.toNat) (hb : isTail b = false) (hfew : tail.length < announced lead)
    (r : List UInt8) :
    decode (lead :: (tail ++ b :: r)) = decode (r.drop (announced lead - (tail.length + 1))) := by
  have hbroken : char? (lead :: (tail ++ b :: r).take (announced lead)) = none := by
    rw [Option.eq_none_iff_forall_ne_some]
    intro c hc
    have hmem : b ∈ (tail ++ b :: r).take (announced lead) := by
      rw [List.take_append, List.take_of_length_le (Nat.le_of_lt hfew)]
      refine List.mem_append_right _ ?_
      obtain ⟨n, hn⟩ := Nat.exists_eq_succ_of_ne_zero (Nat.sub_ne_zero_of_lt hfew)
      rw [hn, List.take_succ_cons]
      exact List.mem_cons_self
    have htail := Utf8.isTail_of_char? hc b hmem
    rw [hb] at htail
    cases htail
  have hdrop : (tail ++ b :: r).drop (announced lead) = r.drop (announced lead - (tail.length + 1)) := by
    rw [List.append_cons, List.drop_append, List.length_append, List.length_singleton,
      List.drop_eq_nil_of_le (by rw [List.length_append, List.length_singleton]; exact hfew), List.nil_append]
  have hat := decodeAt_lead hlead (tail ++ b :: r)
  rw [hbroken, hdrop] at hat
  refine decode_cons_of_skipped (hat.trans ?_)
  split <;> rfl

/-- **A key is delivered after continuation bytes just where they are as many as were announced.**  After any byte outside ASCII
and any continuation bytes, let a byte of ASCII come that is not `ESC`.  Where the continuation bytes are as many as the first
byte announced, or more, they make a character with it or are passed over, and the key comes next, and then whatever follows
it.  Where they are fewer, the key is lost: as many bytes are passed over as were announced, so that the next two after the key
can be lost with it, and only then does decoding go on. -/
theorem key_survives_iff (hlead : 0x80 ≤ lead.toNat) (htail : ∀ s ∈ tail, isTail s = true) (hascii : b.toNat < 0x80)
    (hescape : b ≠ 0x1B) :
    ((∃ typed : Option Char, ∀ r, decodeAll (lead :: (tail ++ b :: r)) =
        typed.toList.map .char ++ ofAscii b :: decodeAll r) ↔ announced lead ≤ tail.length) ∧
    (announced lead ≤ tail.length → ∀ r, decodeAll (lead :: (tail ++ b :: r)) =
      (char? (lead :: tail.take (announced lead))).toList.map .char ++ ofAscii b :: decodeAll r) ∧
    (tail.length < announced lead → ∀ r,
      let lost := announced lead - (tail.length + 1)
      lost ≤ 2 ∧ decode (lead :: (tail ++ b :: r)) = decode (r.drop lost) ∧
        decodeAll (lead :: (tail ++ b :: r)) = decodeAll (r.drop lost)) := by
  have hdelivered (hall : announced lead ≤ tail.length) (r : List UInt8) : decodeAll (lead :: (tail ++ b :: r)) =
      (char? (lead :: tail.take (announced lead))).toList.map .char ++ ofAscii b :: decodeAll r := by
    rw [decodeAll_of_announced hlead htail hall, decodeAll_ascii hascii hescape]
  have hlost (hfew : tail.length < announced lead) (r : List UInt8) :
      decode (lead :: (tail ++ b :: r)) = decode (r.drop (announced lead - (tail.length + 1))) :=
    decode_of_broken hlead (isTail_of_ascii hascii) hfew r
  refine ⟨⟨fun ⟨typed, hkey⟩ => ?_, fun hall => ⟨_, hdelivered hall⟩⟩, hdelivered, fun hfew r => ⟨?_, hlost hfew r, ?_⟩⟩
  · -- with nothing after it the key would be all that is left
    refine Nat.le_of_not_lt fun hfew => ?_
    have hnone := decodeAll_congr (hlost hfew [])
    rw [List.drop_nil, decodeAll_nil, hkey] at hnone
    exact List.append_ne_nil_of_right_ne_nil _ (List.cons_ne_nil _ _) hnone
  · have := announced_le lead
    omega
  · exact decodeAll_congr (hlost hfew r)

/-- Of a character of three bytes the last is missing, and `Enter` is lost in its place; the letter after it is not.  A byte of
text in another encoding that announces nothing costs no key. -/
theorem key_survives_iff_truncated :
    decode [0xE2, 0x82, 0x0D, 0x78] = decode [0x78] ∧ decodeAll [0xA9, 0x0D, 0x78] = .enter :: decodeAll [0x78] := by
  obtain ⟨-, -, hlost⟩ := @key_survives_iff 0xE2 0x0D [0x82] (by decide) (by decide +kernel) (by decide) (by decide)
  obtain ⟨-, hdelivered, -⟩ := @key_survives_iff 0xA9 0x0D [] (by decide) (by decide +kernel) (by decide) (by decide)
  exact ⟨(hlost (by decide) [0x78]).2.1, hdelivered (by decide) [0x78]⟩

/-- **A broken character can swallow `Enter`.**  The first of two bytes is followed by `Enter` and a letter; only the letter
arrives. -/
theorem broken_character_swallows_enter : announced 0xC3 = 1 ∧ ofAscii 0x0D = .enter ∧
    decodeAll [0xC3, 0x0D, 0x78] = [.char 'x'] ∧ decodeAll [0x78] = [.char 'x'] ∧
    ∀ typed : Option Char, decodeAll [0xC3, 0x0D, 0x78] ≠ typed.toList.map .char ++ .enter :: decodeAll [0x78] := by
  have hletter : decodeAll [0x78] = [.char 'x'] := by
    rw [decodeAll_ascii (by decide) (by decide), decodeAll_nil]
    rfl
  have hbroken : decodeAll [0xC3, 0x0D, 0x78] = [.char 'x'] :=
    (decodeAll_congr (@decode_of_broken 0xC3 0x0D [] (by decide) (by decide) (by decide) [0x78])).trans hletter
  refine ⟨rfl, rfl, hbroken, hletter, fun typed heq => ?_⟩
  rw [hbroken, hletter] at heq
  have hlength := congrArg List.length heq
  simp at hlength

end Key
end CommandConsole

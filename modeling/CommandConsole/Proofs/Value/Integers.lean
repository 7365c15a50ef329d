import CommandConsole.Proofs.Command.Words
import CommandConsole.Proofs.Value.Typing
import Mathlib.Data.List.Forall2
import Mathlib.Data.Nat.Digits.Defs
/-!
# Integers — the texts that stand for integers

`Sign.Numeral` says which texts are integer numerals: an optional sign, the mark of a radix, and one or more digits of that
radix.  The reader accepts exactly these (`readInteger?_eq_some_iff`), so an integer type takes exactly the numerals of the
numbers in its range, and refuses every other text by naming it; an integer that is written in any radix is read back
(`integers_follow_grammar`).
-/
namespace CommandConsole

/-! ## The grammar -/

/-- The radices in which integers are entered. -/
inductive Radix where
  | decimal | hexadecimal | octal | binary
deriving DecidableEq, Repr

namespace Radix

def base : Radix → Nat
  | .decimal     => 10
  | .hexadecimal => 16
  | .octal       => 8
  | .binary      => 2

/-- What stands before the digits. -/
def mark : Radix → Text
  | .decimal     => []
  | .hexadecimal => ['0', 'x']
  | .octal       => ['0', 'o']
  | .binary      => ['0', 'b']

/-- The character stands for the digit `d` of the radix; letters may be small or capital. -/
def Digit (r : Radix) (d : Nat) (c : Char) : Prop := d < r.base ∧ (c = d.digitChar ∨ c = d.digitChar.toUpper)

/-- The digits, the highest first, stand for the number. -/
def Denotes (r : Radix) (digits : Text) (n : Nat) : Prop :=
  ∃ ds : List Nat, List.Forall₂ r.Digit ds digits ∧ Nat.ofDigits r.base ds.reverse = n

end Radix

/-- What may stand first in an integer numeral. -/
inductive Sign where
  | bare | plus | minus
deriving DecidableEq, Repr

namespace Sign

def text : Sign → Text
  | .bare  => []
  | .plus  => ['+']
  | .minus => ['-']

/-- The number `n` with the sign. -/
def value : Sign → Nat → Int
  | .minus, n => -n
  | _,      n => n

/-- The text is the sign, the mark of a radix and digits of it that stand for `n`. -/
def Numeral (s : Sign) (t : Text) (n : Nat) : Prop :=
  ∃ (r : Radix) (digits : Text), digits ≠ [] ∧ t = s.text ++ (r.mark ++ digits) ∧ r.Denotes digits n

end Sign

/-- The text stands for the integer. -/
def SignedNumeral (t : Text) (i : Int) : Prop := ∃ (s : Sign) (n : Nat), s.Numeral t n ∧ s.value n = i

/-- The text stands for the number and has no minus sign. -/
def UnsignedNumeral (t : Text) (n : Nat) : Prop := ∃ s : Sign, s ≠ .minus ∧ s.Numeral t n

/-! ## Digits -/

namespace Radix

variable {r : Radix} {digits : Text} {c : Char} {d n : Nat}

theorem base_le (r : Radix) : r.base ≤ 16 := by cases r <;> decide

theorem one_lt_base (r : Radix) : 1 < r.base := by cases r <;> decide

theorem digitValue?_digitChar (radix : Nat) (hd : d < radix) (hradix : radix ≤ 16) :
    digitValue? radix d.digitChar = some d ∧ digitValue? radix d.digitChar.toUpper = some d := by
  have hsixteen : ∀ d < 16, digitValue? 16 d.digitChar = some d ∧ digitValue? 16 d.digitChar.toUpper = some d := by
    decide
  obtain ⟨hsmall, hcapital⟩ := hsixteen d (by omega)
  unfold digitValue? at hsmall hcapital ⊢
  simp only [Option.filter_eq_some_iff] at hsmall hcapital ⊢
  exact ⟨⟨hsmall.1, by simpa using hd⟩, ⟨hcapital.1, by simpa using hd⟩⟩

theorem digit_of_digitValue? (h : digitValue? r.base c = some d) : r.Digit d c := by
  have hsmall : ∀ k ≤ 5, (k + 10).digitChar.toNat = 97 + k := by decide
  have hcapital : ∀ k ≤ 5, (k + 10).digitChar.toUpper.toNat = 65 + k := by decide
  obtain ⟨hvalue, hbase⟩ := Option.filter_eq_some_iff.1 h
  refine ⟨by simpa using hbase, ?_⟩
  split at hvalue
  · rename_i hdigit
    obtain ⟨hlow, hhigh⟩ : 48 ≤ c.toNat ∧ c.toNat ≤ 57 := Char.isDigit_iff_toNat.1 hdigit
    obtain rfl : c.toNat - 48 = d := Option.some.inj hvalue
    exact .inl (Char.toNat_inj.1 (by rw [Nat.toNat_digitChar_of_lt_ten (by omega)]; omega))
  · split at hvalue
    · rename_i hletter
      obtain ⟨hlow, hhigh⟩ : 97 ≤ c.toNat ∧ c.toNat ≤ 102 := hletter
      obtain rfl : c.toNat - 97 + 10 = d := Option.some.inj hvalue
      exact .inl (Char.toNat_inj.1 (by rw [hsmall _ (by omega)]; omega))
    · split at hvalue
      · rename_i hletter
        obtain ⟨hlow, hhigh⟩ : 65 ≤ c.toNat ∧ c.toNat ≤ 70 := hletter
        obtain rfl : c.toNat - 65 + 10 = d := Option.some.inj hvalue
        exact .inr (Char.toNat_inj.1 (by rw [hcapital _ (by omega)]; omega))
      · cases hvalue

/-- **A character is read as a digit just where it stands for one.** -/
theorem digitValue?_eq_some_iff : digitValue? r.base c = some d ↔ r.Digit d c := by
  refine ⟨digit_of_digitValue?, fun ⟨hd, hc⟩ => ?_⟩
  obtain ⟨hsmall, hcapital⟩ := digitValue?_digitChar r.base hd r.base_le
  rcases hc with rfl | rfl
  · exact hsmall
  · exact hcapital

theorem not_digit (hc : digitValue? r.base c = none) : ¬ r.Digit d c := by
  rw [← digitValue?_eq_some_iff, hc]
  exact nofun

theorem natOfRadix?_eq_some_iff : ∀ {digits : Text} {acc : Nat}, natOfRadix? r.base acc digits = some n ↔
    ∃ ds : List Nat, List.Forall₂ r.Digit ds digits ∧ Nat.ofDigits r.base (ds.reverse ++ [acc]) = n
  | [],          acc => by
    rw [natOfRadix?, Option.some.injEq]
    constructor
    · rintro rfl
      exact ⟨[], .nil, Nat.ofDigits_singleton⟩
    · rintro ⟨_, hds, hn⟩
      cases hds
      exact Nat.ofDigits_singleton.symm.trans hn
  | c :: digits, acc => by
    -- the digits that made `acc` stand above the others, and move up by one place with each that is read
    have hstep (d : Nat) (ds : List Nat) : Nat.ofDigits r.base (ds.reverse ++ [acc * r.base + d]) =
        Nat.ofDigits r.base ((d :: ds).reverse ++ [acc]) := by
      have hpair : Nat.ofDigits r.base [d, acc] = acc * r.base + d := by
        rw [Nat.ofDigits_cons, Nat.ofDigits_singleton, Nat.mul_comm, Nat.add_comm]
      rw [List.reverse_cons, List.append_assoc, Nat.ofDigits_append, Nat.ofDigits_append, List.singleton_append,
        Nat.ofDigits_singleton, hpair]
    rw [natOfRadix?, Option.bind_eq_some_iff]
    constructor
    · rintro ⟨d, hd, hrest⟩
      obtain ⟨ds, hds, hn⟩ := natOfRadix?_eq_some_iff.1 hrest
      exact ⟨d :: ds, .cons (digitValue?_eq_some_iff.1 hd) hds, (hstep d ds).symm.trans hn⟩
    · rintro ⟨_, hds, hn⟩
      cases hds with
      | cons hd hrest =>
        exact ⟨_, digitValue?_eq_some_iff.2 hd, natOfRadix?_eq_some_iff.2 ⟨_, hrest, (hstep _ _).trans hn⟩⟩

/-- **Digits are read as the number that they denote.** -/
theorem natOfRadix?_zero_eq_some_iff : natOfRadix? r.base 0 digits = some n ↔ r.Denotes digits n := by
  simp only [natOfRadix?_eq_some_iff, Nat.ofDigits_append_zero, Denotes]

theorem Denotes.isDigit (h : r.Denotes digits n) (hc : c ∈ digits) : ∃ d, r.Digit d c := by
  obtain ⟨ds, hds, -⟩ := h
  induction hds with
  | nil              => cases hc
  | cons hd _ ih =>
    rcases List.mem_cons.1 hc with rfl | hc
    · exact ⟨_, hd⟩
    · exact ih hc

theorem Denotes.concat (h : r.Denotes digits n) (hd : r.Digit d c) : r.Denotes (digits ++ [c]) (r.base * n + d) := by
  obtain ⟨ds, hds, rfl⟩ := h
  refine ⟨ds ++ [d], List.rel_append hds (.cons hd .nil), ?_⟩
  rw [List.reverse_append, List.reverse_singleton, List.singleton_append, Nat.ofDigits_cons, Nat.add_comm]

/-! ## Marks -/

theorem exists_takeRadix (t : Text) : ∃ (r : Radix) (digits : Text), t = r.mark ++ digits ∧ takeRadix t = (r.base, digits) := by
  unfold takeRadix
  split
  · exact ⟨.hexadecimal, _, rfl, rfl⟩
  · exact ⟨.octal, _, rfl, rfl⟩
  · exact ⟨.binary, _, rfl, rfl⟩
  · exact ⟨.decimal, _, rfl, rfl⟩

/-- A mark before digits is taken off; digits without one are decimal, since no letter is a decimal digit. -/
theorem takeRadix_mark (h : r.Denotes digits n) : takeRadix (r.mark ++ digits) = (r.base, digits) := by
  cases r with
  | decimal =>
    have hletter {x : Char} {t : Text} (hx : digitValue? decimal.base x = none) : digits ≠ '0' :: x :: t := by
      rintro rfl
      obtain ⟨d, hd⟩ := h.isDigit (List.mem_cons_of_mem _ List.mem_cons_self)
      exact not_digit hx hd
    rw [mark, List.nil_append, takeRadix]
    · rfl
    · exact fun _ => hletter (by decide)
    · exact fun _ => hletter (by decide)
    · exact fun _ => hletter (by decide)
  | _ => rfl

end Radix

/-! ## Signs -/

namespace Sign

theorem exists_takeSign (t : Text) :
    ∃ (s : Sign) (body : Text), t = s.text ++ body ∧ takeSign t = (decide (s = .minus), body) := by
  unfold takeSign
  split
  · exact ⟨.minus, _, rfl, rfl⟩
  · exact ⟨.plus, _, rfl, rfl⟩
  · exact ⟨.bare, _, rfl, rfl⟩

/-- One sign is all that is taken off: neither a mark nor a digit is one. -/
theorem takeSign_text {r : Radix} {digits : Text} {n : Nat} (h : r.Denotes digits n) (s : Sign) :
    takeSign (s.text ++ (r.mark ++ digits)) = (decide (s = .minus), r.mark ++ digits) := by
  have hstart {x : Char} {t : Text} (hx : ∀ r : Radix, digitValue? r.base x = none) : r.mark ++ digits ≠ x :: t := by
    intro heq
    have hmem : x ∈ r.mark ++ digits := heq ▸ List.mem_cons_self
    rcases List.mem_append.1 hmem with hmark | hdigit
    · have hzero : x = '0' := by
        cases r with
        | decimal => cases hmark
        | _ => exact (List.cons.inj heq).1.symm
      subst hzero
      cases hx .decimal
    · obtain ⟨d, hd⟩ := h.isDigit hdigit
      exact Radix.not_digit (hx r) hd
  cases s with
  | bare  =>
    rw [text, List.nil_append, takeSign]
    · rfl
    · exact fun _ => hstart fun r => by cases r <;> rfl
    · exact fun _ => hstart fun r => by cases r <;> rfl
  | plus  => rfl
  | minus => rfl

end Sign

/-! ## Reading -/

/-- **The reader accepts the integer numerals and nothing else.** -/
theorem readInteger?_eq_some_iff {t : Text} {negative : Bool} {n : Nat} :
    readInteger? t = some (negative, n) ↔ ∃ s : Sign, decide (s = .minus) = negative ∧ s.Numeral t n := by
  constructor
  · intro h
    obtain ⟨s, body, rfl, hsign⟩ := Sign.exists_takeSign t
    obtain ⟨r, digits, rfl, hradix⟩ := Radix.exists_takeRadix body
    simp only [readInteger?, hsign, hradix] at h
    split at h
    · cases h
    · rename_i hne
      obtain ⟨m, hm, heq⟩ := Option.map_eq_some_iff.1 h
      obtain ⟨rfl, rfl⟩ := Prod.mk.inj heq
      exact ⟨s, rfl, r, digits, hne, rfl, Radix.natOfRadix?_zero_eq_some_iff.1 hm⟩
  · rintro ⟨s, rfl, r, digits, hne, rfl, hdigits⟩
    simp only [readInteger?, Sign.takeSign_text hdigits, Radix.takeRadix_mark hdigits, if_neg hne,
      Radix.natOfRadix?_zero_eq_some_iff.2 hdigits, Option.map_some]

theorem signed?_eq_some_iff {w : Width} {t : Text} {i : Int64} :
    Entry.signed? w t = some i ↔ w.Signed i.toInt ∧ SignedNumeral (Text.trim t) i.toInt := by
  unfold Entry.signed?
  constructor
  · intro h
    split at h
    · rename_i negative n hread
      obtain ⟨s, rfl, hnumeral⟩ := readInteger?_eq_some_iff.1 hread
      have hvalue : (if decide (s = .minus) = true then -(n : Int) else n) = s.value n := by cases s <;> rfl
      dsimp only at h
      rw [hvalue] at h
      split at h
      · rename_i hrange
        cases h
        rw [hrange.toInt_ofInt]
        exact ⟨hrange, s, n, hnumeral, rfl⟩
      · cases h
    · cases h
  · rintro ⟨hrange, s, n, hnumeral, hvalue⟩
    have hread := readInteger?_eq_some_iff.2 ⟨s, rfl, hnumeral⟩
    have hsigned : (if decide (s = .minus) = true then -(n : Int) else n) = i.toInt := by
      rw [← hvalue]
      cases s <;> rfl
    rw [hread]
    dsimp only
    rw [hsigned, if_pos hrange, Int64.ofInt_toInt]

theorem unsigned?_eq_some_iff {w : Width} {t : Text} {n : UInt64} :
    Entry.unsigned? w t = some n ↔ w.Unsigned n.toNat ∧ UnsignedNumeral (Text.trim t) n.toNat := by
  unfold Entry.unsigned?
  constructor
  · intro h
    split at h
    · rename_i m hread
      obtain ⟨s, hs, hnumeral⟩ := readInteger?_eq_some_iff.1 hread
      split at h
      · rename_i hrange
        cases h
        rw [hrange.toNat_ofNat]
        exact ⟨hrange, s, of_decide_eq_false hs, hnumeral⟩
      · cases h
    · cases h
  · rintro ⟨hrange, s, hs, hnumeral⟩
    have hread := readInteger?_eq_some_iff.2 ⟨s, decide_eq_false hs, hnumeral⟩
    rw [hread]
    dsimp only
    rw [if_pos hrange, UInt64.ofNat_toNat]

/-! ## Writing -/

/-- The integer in a radix: a minus sign if it is negative, the mark, and the digits in small or capital letters. -/
def Radix.write (r : Radix) (capitals : Bool) (i : Int) : Text :=
  (if i < 0 then ['-'] else []) ++
    (r.mark ++ (Nat.toDigits r.base i.natAbs).map (if capitals then Char.toUpper else id))

theorem Radix.denotes_toDigits (r : Radix) (capitals : Bool) (n : Nat) :
    r.Denotes ((Nat.toDigits r.base n).map (if capitals then Char.toUpper else id)) n := by
  have hletter (d : Nat) (hd : d < r.base) : r.Digit d ((if capitals then Char.toUpper else id) d.digitChar) := by
    cases capitals with
    | false => exact ⟨hd, .inl rfl⟩
    | true  => exact ⟨hd, .inr rfl⟩
  induction n using Nat.strongRecOn with
  | ind n ih =>
    by_cases hn : n < r.base
    · rw [Nat.toDigits_of_lt_base hn]
      exact ⟨[n], .cons (hletter n hn) .nil, Nat.ofDigits_singleton⟩
    · have hbase := r.one_lt_base
      have hlast : n % r.base < r.base := Nat.mod_lt n (by omega)
      have hfewer : n / r.base < n := Nat.div_lt_self (by omega) hbase
      have hdigits := (ih _ hfewer).concat (hletter _ hlast)
      rw [Nat.div_add_mod] at hdigits
      rw [Nat.toDigits_of_base_le hbase (by omega), List.map_append]
      exact hdigits

/-- **What is written is a numeral.** -/
theorem Radix.numeral_write (r : Radix) (capitals : Bool) (i : Int) :
    (if i < 0 then Sign.minus else Sign.bare).Numeral (r.write capitals i) i.natAbs := by
  have hdigits := r.denotes_toDigits capitals i.natAbs
  have hne : (Nat.toDigits r.base i.natAbs).map (if capitals then Char.toUpper else id) ≠ [] :=
    mt List.map_eq_nil_iff.1 Nat.toDigits_ne_nil
  refine ⟨r, _, hne, ?_, hdigits⟩
  rw [write]
  split <;> rfl

theorem Radix.signedNumeral_write (r : Radix) (capitals : Bool) (i : Int) : SignedNumeral (r.write capitals i) i := by
  refine ⟨_, _, r.numeral_write capitals i, ?_⟩
  split
  · show -(i.natAbs : Int) = i
    omega
  · show (i.natAbs : Int) = i
    omega

theorem Radix.unsignedNumeral_write (r : Radix) (capitals : Bool) (n : Nat) : UnsignedNumeral (r.write capitals n) n := by
  have hsign : ¬ (n : Int) < 0 := by omega
  have hnumeral := r.numeral_write capitals n
  rw [if_neg hsign] at hnumeral
  exact ⟨.bare, by decide, hnumeral⟩

/-! ## Numerals as they are entered -/

theorem Radix.Digit.isBlank {r : Radix} {d : Nat} {c : Char} (h : r.Digit d c) : isBlank c = false := by
  have hblank : ∀ d < 16, CommandConsole.isBlank d.digitChar = false ∧ CommandConsole.isBlank d.digitChar.toUpper = false := by
    decide
  obtain ⟨hd, rfl | rfl⟩ := h
  · exact (hblank d (by have := r.base_le; omega)).1
  · exact (hblank d (by have := r.base_le; omega)).2

theorem Sign.Numeral.trim {s : Sign} {t : Text} {n : Nat} (h : s.Numeral t n) : Text.trim t = t := by
  obtain ⟨r, digits, -, rfl, hdigits⟩ := h
  have hsign : NoBlank s.text := by cases s <;> decide
  have hmark : NoBlank r.mark := by cases r <;> decide
  have hblank : NoBlank digits := fun c hc => (hdigits.isDigit hc).elim fun _ hd => hd.isBlank
  exact Text.trim_of_noBlank (noBlank_append.2 ⟨hsign, noBlank_append.2 ⟨hmark, hblank⟩⟩)

theorem Radix.trim_write (r : Radix) (capitals : Bool) (i : Int) : Text.trim (r.write capitals i) = r.write capitals i :=
  (r.numeral_write capitals i).trim

/-! ## The integer types -/

theorem read_signed_eq_ok_iff (find : ObjectLookup) {w : Width} {t : Text} {i : Int64} :
    (TypeTag.signed w).read find t = .ok (.int i) ↔ w.Signed i.toInt ∧ SignedNumeral (Text.trim t) i.toInt := by
  rw [TypeTag.read, orInvalid_eq_ok, Option.map_eq_some_iff, ← signed?_eq_some_iff]
  constructor
  · rintro ⟨_, hread, heq⟩
    cases heq
    exact hread
  · intro hread
    exact ⟨i, hread, rfl⟩

theorem read_unsigned_eq_ok_iff (find : ObjectLookup) {w : Width} {t : Text} {n : UInt64} :
    (TypeTag.unsigned w).read find t = .ok (.uint n) ↔ w.Unsigned n.toNat ∧ UnsignedNumeral (Text.trim t) n.toNat := by
  rw [TypeTag.read, orInvalid_eq_ok, Option.map_eq_some_iff, ← unsigned?_eq_some_iff]
  constructor
  · rintro ⟨_, hread, heq⟩
    cases heq
    exact hread
  · intro hread
    exact ⟨n, hread, rfl⟩

theorem read_signed_of_no_numeral (find : ObjectLookup) {w : Width} {t : Text}
    (h : ¬ ∃ i : Int, w.Signed i ∧ SignedNumeral (Text.trim t) i) :
    (TypeTag.signed w).read find t = .error (.invalid t (.signed w)) := by
  rw [TypeTag.read]
  cases hread : Entry.signed? w t with
  | none   => rfl
  | some i => exact absurd ⟨i.toInt, signed?_eq_some_iff.1 hread⟩ h

theorem read_unsigned_of_no_numeral (find : ObjectLookup) {w : Width} {t : Text}
    (h : ¬ ∃ n : Nat, w.Unsigned n ∧ UnsignedNumeral (Text.trim t) n) :
    (TypeTag.unsigned w).read find t = .error (.invalid t (.unsigned w)) := by
  rw [TypeTag.read]
  cases hread : Entry.unsigned? w t with
  | none   => rfl
  | some n => exact absurd ⟨n.toNat, unsigned?_eq_some_iff.1 hread⟩ h

/-- **An integer type takes exactly the numerals of the integers in its range.**  Blanks around the numeral do not matter, and an
unsigned type takes no minus sign; every other text is refused, and the refusal names the text as it was entered and the
type.  So an integer in the range that is written in any radix, with its mark and its sign, is read back. -/
theorem integers_follow_grammar (find : ObjectLookup) (w : Width) :
    (∀ (t : Text) (i : Int64), (TypeTag.signed w).read find t = .ok (.int i) ↔
      w.Signed i.toInt ∧ SignedNumeral (Text.trim t) i.toInt) ∧
    (∀ (t : Text) (n : UInt64), (TypeTag.unsigned w).read find t = .ok (.uint n) ↔
      w.Unsigned n.toNat ∧ UnsignedNumeral (Text.trim t) n.toNat) ∧
    (∀ t : Text, (¬ ∃ i : Int, w.Signed i ∧ SignedNumeral (Text.trim t) i) →
      (TypeTag.signed w).read find t = .error (.invalid t (.signed w))) ∧
    (∀ t : Text, (¬ ∃ n : Nat, w.Unsigned n ∧ UnsignedNumeral (Text.trim t) n) →
      (TypeTag.unsigned w).read find t = .error (.invalid t (.unsigned w))) ∧
    (∀ (r : Radix) (capitals : Bool) (i : Int), w.Signed i →
      (TypeTag.signed w).read find (r.write capitals i) = .ok (.int (Int64.ofInt i))) ∧
    (∀ (r : Radix) (capitals : Bool) (n : Nat), w.Unsigned n →
      (TypeTag.unsigned w).read find (r.write capitals n) = .ok (.uint (UInt64.ofNat n))) := by
  refine ⟨fun t i => read_signed_eq_ok_iff find, fun t n => read_unsigned_eq_ok_iff find,
    fun t => read_signed_of_no_numeral find, fun t => read_unsigned_of_no_numeral find,
    fun r capitals i hi => ?_, fun r capitals n hn => ?_⟩
  · rw [read_signed_eq_ok_iff, r.trim_write, hi.toInt_ofInt]
    exact ⟨hi, r.signedNumeral_write capitals i⟩
  · rw [read_unsigned_eq_ok_iff, r.trim_write, hn.toNat_ofNat]
    exact ⟨hn, r.unsignedNumeral_write capitals n⟩

/-- The least integer of sixty-four bits between blanks, two signs, and the greatest byte as it is written in capitals. -/
theorem integers_follow_grammar_limits :
    (TypeTag.signed .bits64).read (fun _ => none) " -0x8000000000000000\t".toList =
      .ok (.int (Int64.ofInt (-9223372036854775808))) ∧
    (TypeTag.signed .bits8).read (fun _ => none) "+-1".toList = .error (.invalid "+-1".toList (.signed .bits8)) ∧
    (TypeTag.unsigned .bits8).read (fun _ => none) "0xFF".toList = .ok (.uint 255) := by
  obtain ⟨hsigned, -, -, -, -, -⟩ := integers_follow_grammar (fun _ => none) .bits64
  obtain ⟨-, -, hrefused, -, -, hwritten⟩ := integers_follow_grammar (fun _ => none) .bits8
  refine ⟨?_, ?_, hwritten .hexadecimal true 255 (by decide)⟩
  · have hwritten : (Nat.toDigits 16 (2 ^ 63)).map id = "8000000000000000".toList := by decide
    have hdigits : Radix.hexadecimal.Denotes "8000000000000000".toList (2 ^ 63) :=
      hwritten ▸ Radix.denotes_toDigits .hexadecimal false (2 ^ 63)
    exact (hsigned _ _).2 ⟨by decide, .minus, 2 ^ 63, ⟨.hexadecimal, _, by decide, by decide, hdigits⟩, by decide⟩
  · refine hrefused _ fun ⟨_, _, s, n, hnumeral, _⟩ => ?_
    have hread := readInteger?_eq_some_iff.2 ⟨s, rfl, hnumeral⟩
    have hnone : readInteger? (Text.trim "+-1".toList) = none := by decide
    rw [hnone] at hread
    cases hread

end CommandConsole

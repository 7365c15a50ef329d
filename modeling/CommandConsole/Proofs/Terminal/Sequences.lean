import CommandConsole.Proofs.Terminal.KeyStream
import Mathlib.Data.List.TakeWhile
/-!
# Sequences — what is left of a control sequence

A control sequence is `ESC [`, parameter bytes, intermediate bytes and a final byte.  The decoder knows those without
intermediate bytes whose parameters are numbers with `;` between them, beginning with a digit (`ControlSequence.Plain`).  It takes
such a sequence whole, whether it has a use for it or not; it leaves any other at the first byte that it does not know, and
all that follow are typed (`sequences_skipped_iff`).
-/
namespace CommandConsole

open Key

/-- The bytes that numbered sequences consist of: digits and `;`. -/
def isNumberByte (b : UInt8) : Bool := isDigitByte b || b == 0x3B

/-- The number that parameters begin with. -/
def leadingCode (parameters : List UInt8) : Nat :=
  (parameters.takeWhile isDigitByte).foldl (fun code b => code * 10 + (b.toNat - 0x30)) 0

/-- A control sequence, after `ESC [`. -/
structure ControlSequence where
  parameters    : List UInt8
  intermediates : List UInt8
  final         : UInt8
  parameter_range    : ∀ b ∈ parameters, 0x30 ≤ b.toNat ∧ b.toNat ≤ 0x3F
  intermediate_range : ∀ b ∈ intermediates, 0x20 ≤ b.toNat ∧ b.toNat ≤ 0x2F
  final_range        : 0x40 ≤ final.toNat ∧ final.toNat ≤ 0x7E
  code_fits          : leadingCode parameters < UInt32.size

namespace Key

variable {b : UInt8} {r rest : List UInt8}

/-- The key is no character. -/
def Named (k : Key) : Prop := ∀ c, k ≠ .char c

/-! ## Bytes that are passed over and bytes that are typed -/

theorem decode_cons_of_skipped (h : decodeAt b r = (none, rest)) : decode (b :: r) = decode rest := by
  rw [decode]
  split
  · rename_i k' rest' heq
    cases heq.symm.trans h
  · rename_i rest' heq
    cases heq.symm.trans h
    rfl

theorem decodeAll_of_decode_eq_none {bytes : List UInt8} (h : decode bytes = none) : decodeAll bytes = [] := by
  rw [decodeAll]
  split
  · rename_i hsome
    rw [h] at hsome
    cases hsome
  · rfl

theorem decodeAll_congr {bytes : List UInt8} (h : decode bytes = decode rest) : decodeAll bytes = decodeAll rest := by
  cases hrest : decode rest with
  | none   => rw [decodeAll_of_decode_eq_none hrest, decodeAll_of_decode_eq_none (h.trans hrest)]
  | some p => rw [decodeAll_of_decode hrest, decodeAll_of_decode (h.trans hrest)]

/-- The character that a byte of ASCII is typed as. -/
def typedChar (b : UInt8) : Char := Char.ofNat b.toNat

theorem decode_printable (hlo : 0x20 ≤ b.toNat) (hhi : b.toNat ≤ 0x7E) (r : List UInt8) :
    decode (b :: r) = some (.char (typedChar b), r) := by
  have hplain : b.toNat ∉ controls.map Char.toNat := by
    intro hmem
    simp [controls] at hmem
    omega
  have hat := decodeAt_of_ascii (n := b.toNat) (by omega) hplain r
  rw [Nat.toUInt8, UInt8.ofNat_toNat] at hat
  exact decode_cons_of_decodeAt hat

/-- **Printable bytes are typed**, whatever comes after them. -/
theorem decodeAll_printable {typed : List UInt8} (h : ∀ b ∈ typed, 0x20 ≤ b.toNat ∧ b.toNat ≤ 0x7E) (r : List UInt8) :
    decodeAll (typed ++ r) = typed.map (fun b => .char (typedChar b)) ++ decodeAll r := by
  induction typed with
  | nil            => rfl
  | cons b typed ih =>
    obtain ⟨hb, hrest⟩ := List.forall_mem_cons.1 h
    rw [List.cons_append, decodeAll_of_decode (decode_printable hb.1 hb.2 _), ih hrest]
    rfl

/-! ## Numbers -/

/-- The number read of bytes after `code`, where digits count only until the first `;`. -/
def codeAfter (code : UInt32) (modified : Bool) (numbers : List UInt8) : UInt32 :=
  if modified then code else (numbers.takeWhile isDigitByte).foldl (fun code b => code * 10 + digit b) code

/-- The bytes of numbers are taken one after the other. -/
theorem numbered_append {numbers : List UInt8} (h : ∀ b ∈ numbers, isNumberByte b = true) (r : List UInt8) :
    ∀ (code : UInt32) (modified : Bool), ∃ modified', numbered code modified (numbers ++ r) =
      numbered (codeAfter code modified numbers) modified' r := by
  induction numbers with
  | nil              => exact fun code modified => ⟨modified, by cases modified <;> rfl⟩
  | cons b numbers ih =>
    intro code modified
    obtain ⟨hb, hrest⟩ := List.forall_mem_cons.1 h
    rw [List.cons_append, numbered]
    by_cases hdigit : isDigitByte b = true
    · obtain ⟨modified', heq⟩ := ih hrest (if modified then code else code * 10 + digit b) modified
      refine ⟨modified', ?_⟩
      rw [if_pos hdigit, heq]
      cases modified <;> simp [codeAfter, hdigit]
    · have hsemicolon : (b == 0x3B) = true := by simpa [isNumberByte, hdigit] using hb
      obtain ⟨modified', heq⟩ := ih hrest code true
      refine ⟨modified', ?_⟩
      rw [if_neg hdigit, if_pos hsemicolon, heq]
      cases modified <;> simp [codeAfter, hdigit]

/-- Any other byte ends a numbered sequence. -/
theorem numbered_cons (h : isNumberByte b = false) (code : UInt32) (modified : Bool) (r : List UInt8) :
    numbered code modified (b :: r) = (if b = 0x7E then ofNumber? code.toNat else none, r) := by
  obtain ⟨hdigit, hsemicolon⟩ := Bool.or_eq_false_iff.1 h
  rw [numbered, if_neg (by simp [hdigit]), if_neg (by simp [hsemicolon])]
  by_cases htilde : b = 0x7E <;> simp [htilde]

theorem bracketed_cons_of_digit (h : isDigitByte b = true) (r : List UInt8) :
    bracketed (b :: r) = numbered (digit b) false r := if_pos h

/-- A byte that is neither a digit nor the final byte of a key that is known ends the sequence. -/
theorem bracketed_cons_of_unknown (hdigit : isDigitByte b = false) (hlow : b.toNat < 0x40) (r : List UInt8) :
    bracketed (b :: r) = (none, r) := by
  rw [bracketed, if_neg (by simp [hdigit])]
  split <;> first | rfl | omega

end Key

namespace ControlSequence

variable (s : ControlSequence)

def bytes : List UInt8 := 0x1B :: 0x5B :: (s.parameters ++ s.intermediates ++ [s.final])

/-- There are no intermediate bytes, and the parameters are none or numbers with `;` between them. -/
def Plain : Prop :=
  s.intermediates = [] ∧ s.parameters.head?.all isDigitByte = true ∧ s.parameters.all isNumberByte = true

instance : Decidable s.Plain := inferInstanceAs (Decidable (_ ∧ _ ∧ _))

/-! ## The code in 32 bits -/

theorem le_foldl_digits : ∀ (digits : List UInt8) (code : Nat),
    code ≤ digits.foldl (fun code b => code * 10 + (b.toNat - 0x30)) code
  | [],          _    => Nat.le_refl _
  | b :: digits, code => by
    have ih := le_foldl_digits digits (code * 10 + (b.toNat - 0x30))
    rw [List.foldl_cons]
    omega

/-- A number that fits in 32 bits is computed in 32 bits: no number on the way to it is larger. -/
theorem toNat_foldl_digits : ∀ (digits : List UInt8) (code : UInt32),
    digits.foldl (fun code b => code * 10 + (b.toNat - 0x30)) code.toNat < UInt32.size →
    (digits.foldl (fun code b => code * 10 + digit b) code).toNat =
      digits.foldl (fun code b => code * 10 + (b.toNat - 0x30)) code.toNat
  | [],          _,    _ => rfl
  | b :: digits, code, h => by
    rw [List.foldl_cons] at h
    have hle := le_foldl_digits digits (code.toNat * 10 + (b.toNat - 0x30))
    have hsize : UInt32.size = 0x100000000 := rfl
    have hnext : (code * 10 + digit b).toNat = code.toNat * 10 + (b.toNat - 0x30) := by
      have hten : (10 : UInt32).toNat = 10 := rfl
      rw [digit, UInt32.toNat_add, UInt32.toNat_mul, UInt32.toNat_ofNat', hten]
      omega
    rw [← hnext] at h
    rw [List.foldl_cons, List.foldl_cons, toNat_foldl_digits digits _ h, hnext]

/-- **The code that is read is the number that the parameters begin with**, as it fits in 32 bits. -/
theorem toNat_codeAfter {s : ControlSequence} {b : UInt8} {numbers : List UInt8} (hparameters : s.parameters = b :: numbers)
    (hdigit : isDigitByte b = true) : (codeAfter (digit b) false numbers).toNat = leadingCode s.parameters := by
  have hfits := s.code_fits
  rw [hparameters, leadingCode, List.takeWhile_cons_of_pos hdigit] at hfits ⊢
  have hcode := toNat_foldl_digits (b :: numbers.takeWhile isDigitByte) 0 hfits
  rw [List.foldl_cons, UInt32.zero_mul, UInt32.zero_add] at hcode
  exact hcode

/-! ## Taking a sequence -/

/-- The key that a sequence stands for, if it is plain and there is a use for it. -/
def key? : Option Key :=
  match s.parameters with
  | []     => (bracketed [s.final]).1
  | _ :: _ => if s.final = 0x7E then ofNumber? (leadingCode s.parameters) else none

/-- The bytes before the final one, from the first that is not known. -/
def pending : List UInt8 :=
  match s.parameters ++ s.intermediates with
  | []     => []
  | b :: u => if isDigitByte b then u.dropWhile isNumberByte else b :: u

variable {s}

theorem isNumberByte_of_high {b : UInt8} (h : 0x40 ≤ b.toNat) : isNumberByte b = false := by
  have hsemicolon : b ≠ 0x3B := fun heq => by
    rw [heq] at h
    exact absurd h (by decide)
  have hdigit : ¬ b.toNat ≤ 0x39 := by omega
  simp [isNumberByte, isDigitByte, hsemicolon, hdigit]

theorem isNumberByte_of_low {b : UInt8} (h : b.toNat ≤ 0x2F) : isNumberByte b = false := by
  have hsemicolon : b ≠ 0x3B := fun heq => by
    rw [heq] at h
    exact absurd h (by decide)
  have hdigit : ¬ 0x30 ≤ b.toNat := by omega
  simp [isNumberByte, isDigitByte, hsemicolon, hdigit]

theorem isDigitByte_of_not_number {b : UInt8} (h : isNumberByte b = false) : isDigitByte b = false :=
  (Bool.or_eq_false_iff.1 h).1

theorem isNumberByte_intermediate {b : UInt8} (h : b ∈ s.intermediates) : isNumberByte b = false :=
  isNumberByte_of_low (s.intermediate_range b h).2

/-- Every byte before the final one is printable and below the final ones. -/
theorem range_of_mem {b : UInt8} (h : b ∈ s.parameters ++ s.intermediates) : 0x20 ≤ b.toNat ∧ b.toNat < 0x40 := by
  rcases List.mem_append.1 h with h | h
  · have := s.parameter_range b h
    omega
  · have := s.intermediate_range b h
    omega

/-- **A sequence is known to its end just where it is plain.** -/
theorem pending_eq_nil_iff : s.pending = [] ↔ s.Plain := by
  unfold pending Plain
  cases hparameters : s.parameters with
  | nil =>
    cases hintermediates : s.intermediates with
    | nil      => simp
    | cons b u =>
      have hdigit := isDigitByte_of_not_number (isNumberByte_intermediate (hintermediates ▸ List.mem_cons_self))
      simp [hdigit]
  | cons b p =>
    by_cases hdigit : isDigitByte b = true
    · have hb : isNumberByte b = true := by simp [isNumberByte, hdigit]
      have hnone : (∀ x ∈ s.intermediates, isNumberByte x = true) ↔ s.intermediates = [] := by
        rw [List.eq_nil_iff_forall_not_mem]
        refine forall_congr' fun x => ⟨fun h hx => ?_, fun h hx => absurd hx h⟩
        rw [isNumberByte_intermediate hx] at h
        exact Bool.false_ne_true (h hx)
      rw [← hnone]
      simp [hdigit, hb, List.dropWhile_eq_nil_iff, or_imp, forall_and, and_comm]
    · simp [hdigit]

theorem bracketed_cons_of_high {b : UInt8} (h : 0x40 ≤ b.toNat) (r : List UInt8) :
    bracketed (b :: r) = ((bracketed [b]).1, r) := by
  have hdigit := isDigitByte_of_not_number (isNumberByte_of_high h)
  rw [bracketed, bracketed, if_neg (by simp [hdigit]), if_neg (by simp [hdigit])]
  split <;> rfl

/-- Numbers are taken up to their end, or up to a byte that is no part of them. -/
theorem numbered_append_final {u : List UInt8} (hlow : ∀ b ∈ u, b.toNat < 0x40) {final : UInt8} (hfinal : 0x40 ≤ final.toNat)
    (code : UInt32) (r : List UInt8) : numbered code false (u ++ final :: r) =
      match u.dropWhile isNumberByte with
      | []     => (if final = 0x7E then ofNumber? (codeAfter code false u).toNat else none, r)
      | _ :: v => (none, v ++ final :: r) := by
  cases hrest : u.dropWhile isNumberByte with
  | nil =>
    obtain ⟨modified, hnumbers⟩ := numbered_append (List.dropWhile_eq_nil_iff.1 hrest) (final :: r) code false
    rw [hnumbers, numbered_cons (isNumberByte_of_high hfinal)]
  | cons b v =>
    have hsplit : u = u.takeWhile isNumberByte ++ b :: v := by rw [← hrest, List.takeWhile_append_dropWhile]
    have hb : isNumberByte b = false := by
      have hhead := List.head?_dropWhile_not isNumberByte u
      rw [hrest] at hhead
      simpa using hhead
    have hother : b ≠ 0x7E := fun heq => by
      have hbound := hlow b (hsplit ▸ List.mem_append_right _ List.mem_cons_self)
      rw [heq] at hbound
      exact absurd hbound (by decide)
    obtain ⟨modified, hnumbers⟩ :=
      numbered_append (fun _ h => List.mem_takeWhile_imp h) (b :: v ++ final :: r) code false
    have hwhole : u ++ final :: r = u.takeWhile isNumberByte ++ (b :: v ++ final :: r) := by
      rw [← List.append_assoc, ← hsplit]
    rw [hwhole, hnumbers, List.cons_append, numbered_cons hb, if_neg hother]

/-- **How far a sequence is taken**: whole, with its key if there is one, or up to the first byte that is not known. -/
theorem bracketed_append (s : ControlSequence) (r : List UInt8) :
    bracketed (s.parameters ++ s.intermediates ++ s.final :: r) =
      match s.pending with
      | []     => (s.key?, r)
      | _ :: u => (none, u ++ s.final :: r) := by
  cases hbody : s.parameters ++ s.intermediates with
  | nil =>
    have hpending : s.pending = [] := by rw [pending, hbody]
    have hkey : s.key? = (bracketed [s.final]).1 := by rw [key?, (List.append_eq_nil_iff.1 hbody).1]
    rw [hpending, hkey]
    exact bracketed_cons_of_high s.final_range.1 r
  | cons b u =>
    have hlow {x : UInt8} (hx : x ∈ b :: u) : x.toNat < 0x40 := (range_of_mem (hbody ▸ hx)).2
    rw [List.cons_append]
    by_cases hdigit : isDigitByte b = true
    · have hpending : s.pending = u.dropWhile isNumberByte := by
        rw [pending, hbody]
        exact if_pos hdigit
      rw [bracketed_cons_of_digit hdigit, hpending,
        numbered_append_final (fun x hx => hlow (List.mem_cons_of_mem b hx)) s.final_range.1]
      cases hrest : u.dropWhile isNumberByte with
      | cons x v => rfl
      | nil =>
        -- a plain sequence, whose parameters are all of it but the final byte
        have hplain := pending_eq_nil_iff.1 (hpending.trans hrest)
        rw [hplain.1, List.append_nil] at hbody
        have hkey : s.key? = if s.final = 0x7E then ofNumber? (leadingCode s.parameters) else none := by
          rw [key?, hbody]
        rw [hkey, toNat_codeAfter hbody hdigit]
    · have hpending : s.pending = b :: u := by
        rw [pending, hbody]
        exact if_neg hdigit
      rw [hpending]
      exact bracketed_cons_of_unknown (by simpa using hdigit) (hlow List.mem_cons_self) _

theorem decodeAt_bytes (s : ControlSequence) (r : List UInt8) :
    ∃ after, s.bytes ++ r = 0x1B :: after ∧
      decodeAt 0x1B after = bracketed (s.parameters ++ s.intermediates ++ s.final :: r) := by
  refine ⟨0x5B :: (s.parameters ++ s.intermediates ++ s.final :: r), ?_, rfl⟩
  simp only [bytes, List.cons_append, List.append_assoc, List.nil_append]

theorem decode_of_plain (h : s.Plain) (r : List UInt8) :
    decode (s.bytes ++ r) = match s.key? with
      | some k => some (k, r)
      | none   => decode r := by
  obtain ⟨after, hbytes, hat⟩ := s.decodeAt_bytes r
  rw [bracketed_append, pending_eq_nil_iff.2 h] at hat
  rw [hbytes]
  cases hkey : s.key? with
  | some k => exact decode_cons_of_decodeAt (hat.trans (by rw [hkey]))
  | none   => exact decode_cons_of_skipped (hat.trans (by rw [hkey]))

theorem decode_of_not_plain (h : ¬ s.Plain) (r : List UInt8) :
    decode (s.bytes ++ r) = decode (s.pending.tail ++ s.final :: r) := by
  obtain ⟨after, hbytes, hat⟩ := s.decodeAt_bytes r
  obtain ⟨b, u, hpending⟩ := List.exists_cons_of_ne_nil (mt pending_eq_nil_iff.1 h)
  rw [bracketed_append, hpending] at hat
  rw [hbytes, hpending]
  exact decode_cons_of_skipped hat

theorem named_of_key? {k : Key} (h : s.key? = some k) : k.Named := by
  intro c hc
  subst hc
  unfold key? at h
  split at h
  · rw [bracketed, if_neg (by simp [isDigitByte_of_not_number (isNumberByte_of_high s.final_range.1)])] at h
    split at h <;> cases h
  · split at h
    · unfold ofNumber? at h
      split at h <;> cases h
    · cases h

/-- Whatever is left of a sequence is typed. -/
theorem printable_of_mem_leftover {b : UInt8} (h : b ∈ s.pending.tail ++ [s.final]) : 0x20 ≤ b.toNat ∧ b.toNat ≤ 0x7E := by
  rcases List.mem_append.1 h with h | h
  · have hmem : b ∈ s.parameters ++ s.intermediates := by
      have hpending : b ∈ s.pending := List.mem_of_mem_tail h
      unfold pending at hpending
      split at hpending
      · cases hpending
      · rename_i heq
        rw [heq]
        split at hpending
        · exact List.mem_cons_of_mem _ ((List.dropWhile_sublist _).subset hpending)
        · exact hpending
    have := range_of_mem hmem
    omega
  · have := s.final_range
    rw [List.mem_singleton.1 h]
    omega

theorem decodeAll_of_not_plain (h : ¬ s.Plain) (r : List UInt8) : decodeAll (s.bytes ++ r) =
    (s.pending.tail ++ [s.final]).map (fun b => .char (typedChar b)) ++ decodeAll r := by
  rw [decodeAll_congr (decode_of_not_plain h r), ← decodeAll_printable (fun b => printable_of_mem_leftover) r,
    List.append_assoc, List.singleton_append]

theorem decodeAll_of_plain (h : s.Plain) (r : List UInt8) : decodeAll (s.bytes ++ r) = s.key?.toList ++ decodeAll r := by
  have hdecode := decode_of_plain h r
  cases hkey : s.key? with
  | some k =>
    rw [hkey] at hdecode
    exact decodeAll_of_decode hdecode
  | none   =>
    rw [hkey] at hdecode
    exact decodeAll_congr hdecode

/-- **A control sequence is skipped whole just where it is plain.**  Of a plain sequence nothing is left, whatever comes after
it: it stands for one key, which is no character, or for nothing.  Of any other sequence the bytes after the first that is not
known are left, the final one at least, and each of them is typed as a character. -/
theorem sequences_skipped_iff (s : ControlSequence) (r : List UInt8) :
    (((∃ k : Key, k.Named ∧ decodeAll (s.bytes ++ r) = k :: decodeAll r) ∨ decodeAll (s.bytes ++ r) = decodeAll r) ↔
      s.Plain) ∧
    (s.Plain → decodeAll (s.bytes ++ r) = s.key?.toList ++ decodeAll r ∧
      decode (s.bytes ++ r) = match s.key? with
        | some k => some (k, r)
        | none   => decode r) ∧
    (¬ s.Plain → decodeAll (s.bytes ++ r) =
      (s.pending.tail ++ [s.final]).map (fun b => .char (typedChar b)) ++ decodeAll r) := by
  refine ⟨⟨fun hskipped => ?_, fun h => ?_⟩, fun h => ⟨decodeAll_of_plain h r, decode_of_plain h r⟩,
    fun h => decodeAll_of_not_plain h r⟩
  · by_contra hplain
    have htyped := decodeAll_of_not_plain hplain r
    have hsome : s.pending.tail ++ [s.final] ≠ [] := List.append_ne_nil_of_right_ne_nil _ (List.cons_ne_nil _ _)
    obtain ⟨b, bs, hleft⟩ := List.exists_cons_of_ne_nil hsome
    rw [hleft, List.map_cons, List.cons_append] at htyped
    rcases hskipped with ⟨k, hnamed, hskipped⟩ | hskipped
    · rw [hskipped, List.cons.injEq] at htyped
      exact hnamed _ htyped.1
    · have hlength := congrArg List.length (hskipped.symm.trans htyped)
      rw [List.length_cons, List.length_append] at hlength
      omega
  · have hall := decodeAll_of_plain h r
    cases hkey : s.key? with
    | some k =>
      rw [hkey] at hall
      exact .inl ⟨k, named_of_key? hkey, hall⟩
    | none   =>
      rw [hkey] at hall
      exact .inr hall

/-- Delete with a modifier: a plain sequence with a key. -/
def modifiedDelete : ControlSequence :=
  ⟨[0x33, 0x3B, 0x32], [], 0x7E, by simp, by simp, by decide, by decide⟩

/-- Shows the cursor: a sequence with a private mark, which no key sends. -/
def showCursor : ControlSequence :=
  ⟨[0x3F, 0x32, 0x35], [], 0x68, by simp, by simp, by decide, by decide⟩

/-- The modifier is passed over, and the character after the sequence comes next. -/
theorem sequences_skipped_iff_modified :
    modifiedDelete.bytes = [0x1B, 0x5B, 0x33, 0x3B, 0x32, 0x7E] ∧ modifiedDelete.Plain ∧
      decode (modifiedDelete.bytes ++ [0x7A]) = some (.delete, [0x7A]) := by
  have hplain : modifiedDelete.Plain := by decide
  exact ⟨rfl, hplain, ((sequences_skipped_iff modifiedDelete [0x7A]).2.1 hplain).2⟩

/-- **A sequence that is not known is not skipped whole.**  Of `ESC [ ? 2 5 h` the mark is taken and the rest is typed. -/
theorem unknown_sequence_is_typed : showCursor.bytes = [0x1B, 0x5B, 0x3F, 0x32, 0x35, 0x68] ∧
    decodeAll (showCursor.bytes ++ []) = [.char '2', .char '5', .char 'h'] ∧ decodeAll [] = [] ∧
    ¬ ((∃ k : Key, k.Named ∧ decodeAll (showCursor.bytes ++ []) = k :: decodeAll []) ∨
      decodeAll (showCursor.bytes ++ []) = decodeAll []) := by
  have htyped : decodeAll (showCursor.bytes ++ []) = [.char '2', .char '5', .char 'h'] := by
    rw [decodeAll_of_not_plain (by decide), decodeAll_nil]
    rfl
  refine ⟨rfl, htyped, decodeAll_nil, ?_⟩
  rw [htyped, decodeAll_nil]
  rintro (⟨k, hnamed, hk⟩ | hnone)
  · cases hk
  · cases hnone

end ControlSequence
end CommandConsole

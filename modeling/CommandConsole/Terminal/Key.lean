import CommandConsole.Text.Utf8
/-!
# Keys

The keys that the line editor knows, and the bytes by which a terminal sends them: control characters, escape sequences,
and the UTF-8 of everything else.  `Key.decode` takes the next key off a stream of bytes and passes over what it has no
use for; `Key.encode` is one way to send a key.
-/
namespace CommandConsole

inductive Key where
  | arrowUp | arrowDown | arrowLeft | arrowRight
  | home | «end» | insert | delete | pageUp | pageDown
  | enter | backspace | tab | shiftTab
  | ctrlU | ctrlK | ctrlD
  | char (c : Char)
deriving DecidableEq, Repr

namespace Key

/-! ## Escape sequences -/

def isDigitByte (b : UInt8) : Bool := decide (0x30 ≤ b.toNat) && decide (b.toNat ≤ 0x39)

/-- What the byte of a digit counts. -/
def digit (b : UInt8) : UInt32 := UInt32.ofNat (b.toNat - 0x30)

/-- The key that a numbered sequence `ESC [ n ~` stands for. -/
def ofNumber? : Nat → Option Key
  | 1 | 7 => some .home
  | 2     => some .insert
  | 3     => some .delete
  | 4 | 8 => some .end
  | 5     => some .pageUp
  | 6     => some .pageDown
  | _     => none

/-- The rest of a numbered sequence, after the digits that made `code`, which is counted in 32 bits and goes round at their
end.  Numbers after the first are modifiers and are passed over; any byte but a digit, `;` and `~` ends the sequence without
a key. -/
def numbered (code : UInt32) (modified : Bool) : List UInt8 → Option Key × List UInt8
  | []     => (none, [])
  | b :: r =>
    if isDigitByte b then numbered (if modified then code else code * 10 + digit b) modified r
    else if b == 0x3B then numbered code true r
    else if b == 0x7E then (ofNumber? code.toNat, r)
    else (none, r)

/-- The rest of a sequence after `ESC [`. -/
def bracketed : List UInt8 → Option Key × List UInt8
  | []     => (none, [])
  | b :: r =>
    if isDigitByte b then numbered (digit b) false r
    else
      match b.toNat with
      | 0x41 => (some .arrowUp, r)
      | 0x42 => (some .arrowDown, r)
      | 0x43 => (some .arrowRight, r)
      | 0x44 => (some .arrowLeft, r)
      | 0x48 => (some .home, r)
      | 0x46 => (some .end, r)
      | 0x5A => (some .shiftTab, r)
      | _    => (none, r)

/-- The rest of a sequence after `ESC`: `[ …`, `O H`, `O F`, or one byte that is passed over. -/
def escaped : List UInt8 → Option Key × List UInt8
  | []     => (none, [])
  | b :: r =>
    if b == 0x5B then bracketed r
    else if b == 0x4F then
      match r with
      | []     => (none, [])
      | c :: r => (if c == 0x48 then some .home else if c == 0x46 then some .end else none, r)
    else (none, r)

/-! ## Characters -/

/-- How many bytes a lead byte announces after itself. -/
def announced (lead : UInt8) : Nat :=
  let n := lead.toNat
  if 0xC0 ≤ n ∧ n < 0xE0 then 1 else if 0xE0 ≤ n ∧ n < 0xF0 then 2 else if 0xF0 ≤ n ∧ n < 0xF8 then 3 else 0

/-- The character that begins with a lead byte.  As many bytes are taken as the lead announces, whatever they are. -/
def multibyte (lead : UInt8) (r : List UInt8) : Option Key × List UInt8 :=
  let n := announced lead
  if r.length < n then (none, [])
  else ((Utf8.char? (lead :: r.take n)).map .char, r.drop n)

/-! ## Streams -/

/-- What begins with the byte `b`: a key, or nothing if it is passed over, and the bytes after it. -/
def decodeAt (b : UInt8) (r : List UInt8) : Option Key × List UInt8 :=
  match b.toNat with
  | 0x1B        => escaped r
  | 0x15        => (some .ctrlU, r)
  | 0x0B        => (some .ctrlK, r)
  | 0x04        => (some .ctrlD, r)
  | 0x0D | 0x0A => (some .enter, r)
  | 0x09        => (some .tab, r)
  | 0x7F | 0x08 => (some .backspace, r)
  | n           => if n < 0x80 then (some (.char (Char.ofNat n)), r) else multibyte b r

theorem length_numbered_le (code : UInt32) (m : Bool) (r : List UInt8) : (numbered code m r).2.length ≤ r.length := by
  induction r generalizing code m with
  | nil => simp [numbered]
  | cons b r ih =>
    unfold numbered
    split
    · exact Nat.le_succ_of_le (ih ..)
    · split
      · exact Nat.le_succ_of_le (ih ..)
      · split <;> simp

theorem length_bracketed_le (r : List UInt8) : (bracketed r).2.length ≤ r.length := by
  cases r with
  | nil => simp [bracketed]
  | cons b r =>
    simp only [bracketed]
    split
    · exact Nat.le_succ_of_le (length_numbered_le ..)
    · split <;> simp

theorem length_escaped_le (r : List UInt8) : (escaped r).2.length ≤ r.length := by
  cases r with
  | nil => simp [escaped]
  | cons b r =>
    simp only [escaped]
    split
    · exact Nat.le_succ_of_le (length_bracketed_le r)
    · split
      · cases r with
        | nil => simp
        | cons c r => simp only [List.length_cons]; omega
      · simp

theorem length_multibyte_le (b : UInt8) (r : List UInt8) : (multibyte b r).2.length ≤ r.length := by
  simp only [multibyte]
  split <;> simp

theorem length_decodeAt_le (b : UInt8) (r : List UInt8) : (decodeAt b r).2.length ≤ r.length := by
  unfold decodeAt
  split
  · exact length_escaped_le r
  all_goals first | exact Nat.le_refl _ | skip
  split
  · exact Nat.le_refl _
  · exact length_multibyte_le b r

/-- The next key of a stream and the bytes after it; nothing once the stream has ended. -/
def decode : List UInt8 → Option (Key × List UInt8)
  | []     => none
  | b :: r =>
    match _h : decodeAt b r with
    | (some k, rest) => some (k, rest)
    | (none, rest)   => decode rest
termination_by l => l.length
decreasing_by
  have := length_decodeAt_le b r
  rw [_h] at this
  exact Nat.lt_succ_of_le this

/-- What is left of a stream after its first key is shorter than the stream. -/
theorem length_lt_of_decode {l rest : List UInt8} {k : Key} (h : decode l = some (k, rest)) : rest.length < l.length := by
  fun_induction decode l with
  | case1 => cases h
  | case2 b r k' rest' hd =>
    cases h
    have := length_decodeAt_le b r
    rw [hd] at this
    exact Nat.lt_succ_of_le this
  | case3 b r rest' hd ih =>
    have := length_decodeAt_le b r
    rw [hd] at this
    have := ih h
    simp only [List.length_cons] at *
    omega

/-- All keys of a stream. -/
def decodeAll (bytes : List UInt8) : List Key :=
  match _h : decode bytes with
  | some (k, rest) => k :: decodeAll rest
  | none           => []
termination_by bytes.length
decreasing_by exact length_lt_of_decode _h

/-! ## Sending keys -/

/-- The bytes by which a key is sent. -/
def encode : Key → List UInt8
  | .arrowUp    => [0x1B, 0x5B, 0x41]
  | .arrowDown  => [0x1B, 0x5B, 0x42]
  | .arrowRight => [0x1B, 0x5B, 0x43]
  | .arrowLeft  => [0x1B, 0x5B, 0x44]
  | .home       => [0x1B, 0x5B, 0x48]
  | .end        => [0x1B, 0x5B, 0x46]
  | .shiftTab   => [0x1B, 0x5B, 0x5A]
  | .insert     => [0x1B, 0x5B, 0x32, 0x7E]
  | .delete     => [0x1B, 0x5B, 0x33, 0x7E]
  | .pageUp     => [0x1B, 0x5B, 0x35, 0x7E]
  | .pageDown   => [0x1B, 0x5B, 0x36, 0x7E]
  | .enter      => [0x0D]
  | .tab        => [0x09]
  | .backspace  => [0x7F]
  | .ctrlU      => [0x15]
  | .ctrlK      => [0x0B]
  | .ctrlD      => [0x04]
  | .char c     => Utf8.encodeChar c

end Key
end CommandConsole

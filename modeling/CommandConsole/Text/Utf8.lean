import CommandConsole.Text.Basic
/-!
# UTF-8

Characters as bytes.  `Utf8.encode` writes a text; `Utf8.next` takes one step through bytes that may be malformed, and
both readings are built from it: `Utf8.decode?`, which accepts well-formed bytes only, and `Utf8.decodeLossy`, which puts
U+FFFD for every part that belongs to no character.
-/
namespace CommandConsole.Utf8

/-- The bytes of one character. -/
def encodeChar (c : Char) : List UInt8 :=
  let n := c.toNat
  if n < 0x80 then [n.toUInt8]
  else if n < 0x800 then [(0xC0 + n / 0x40).toUInt8, (0x80 + n % 0x40).toUInt8]
  else if n < 0x10000 then
    [(0xE0 + n / 0x1000).toUInt8, (0x80 + n / 0x40 % 0x40).toUInt8, (0x80 + n % 0x40).toUInt8]
  else
    [(0xF0 + n / 0x40000).toUInt8, (0x80 + n / 0x1000 % 0x40).toUInt8, (0x80 + n / 0x40 % 0x40).toUInt8,
      (0x80 + n % 0x40).toUInt8]

/-- The bytes of a text. -/
def encode (t : Text) : List UInt8 := t.flatMap encodeChar

/-- Is `b` in the range of continuation bytes? -/
def isTail (b : UInt8) : Bool := decide (0x80 ≤ b.toNat) && decide (b.toNat < 0xC0)

/-- The second bytes that may follow the lead `b`: overlong forms, surrogates and code points past U+10FFFF are out. -/
def secondOk (b s : UInt8) : Bool :=
  isTail s &&
    (b != 0xE0 || decide (0xA0 ≤ s.toNat)) && (b != 0xED || decide (s.toNat < 0xA0)) &&
    (b != 0xF0 || decide (0x90 ≤ s.toNat)) && (b != 0xF4 || decide (s.toNat < 0x90))

/-- The low six bits of a continuation byte. -/
def payload (b : UInt8) : Nat := b.toNat % 0x40

/-- What a lead byte announces: its own bits of the code point, and how many continuation bytes follow. -/
def lead? (b : UInt8) : Option (Nat × Nat) :=
  let n := b.toNat
  if n < 0x80 then some (n, 0)
  else if n < 0xC2 then none
  else if n < 0xE0 then some (n % 0x20, 1)
  else if n < 0xF0 then some (n % 0x10, 2)
  else if n < 0xF5 then some (n % 8, 3)
  else none

/-- The character made of the bits so far and of `k` continuation bytes; short of them, what is there is dropped. -/
def finish (bits : Nat) : Nat → List UInt8 → Option Char × List UInt8
  | 0,     r      => (some (Char.ofNat bits), r)
  | _ + 1, []     => (none, [])
  | k + 1, s :: r => if isTail s then finish (bits * 0x40 + payload s) k r else (none, s :: r)

/-- One step.  The character that starts at the byte `b`, or nothing if none does, and the bytes after it; a part that
is no character is as long as some character could have begun, and at least `b` itself. -/
def next (b : UInt8) (rest : List UInt8) : Option Char × List UInt8 :=
  match lead? b with
  | none           => (none, rest)
  | some (bits, k) =>
    match rest with
    | []     => finish bits k []
    | s :: _ => if k != 0 && !secondOk b s then (none, rest) else finish bits k rest

theorem length_finish_le (bits k : Nat) (r : List UInt8) : (finish bits k r).2.length ≤ r.length := by
  induction k generalizing bits r with
  | zero => simp [finish]
  | succ k ih =>
    cases r with
    | nil => simp [finish]
    | cons s r =>
      unfold finish
      split
      · exact Nat.le_succ_of_le (ih _ r)
      · simp

theorem length_next_le (b : UInt8) (rest : List UInt8) : (next b rest).2.length ≤ rest.length := by
  unfold next
  cases lead? b with
  | none => simp
  | some p =>
    cases rest with
    | nil => exact length_finish_le _ _ _
    | cons s r =>
      simp only
      split
      · simp
      · exact length_finish_le _ _ _

/-- Each character of the bytes in turn, and nothing for each part that is none. -/
def scan : List UInt8 → List (Option Char)
  | []     => []
  | b :: r => (next b r).1 :: scan (next b r).2
termination_by l => l.length
decreasing_by exact Nat.lt_succ_of_le (length_next_le b r)

/-- The text with these bytes, if they are well formed. -/
def decode? (bytes : List UInt8) : Option Text := (scan bytes).mapM id

/-- The text of these bytes, with U+FFFD for each part that is no character. -/
def decodeLossy (bytes : List UInt8) : Text := (scan bytes).map (·.getD '\uFFFD')

/-- The one character that these bytes are, if they are one. -/
def char? : List UInt8 → Option Char
  | []     => none
  | b :: r =>
    match next b r with
    | (some c, []) => some c
    | _            => none

end CommandConsole.Utf8

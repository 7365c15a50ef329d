import CommandConsole.Text.Blank
/-!
# Tokens of a line

A line is a sequence of words with blanks between them; there is no quoting.  A token is a word and the place where it
starts, counted in UTF-8 bytes from the start of the line.
-/
namespace CommandConsole

structure Token where
  text  : Text
  start : Nat
deriving DecidableEq, Repr

/-- The place just after the token. -/
def Token.stop (t : Token) : Nat := t.start + Text.utf8Length t.text

/-- The part of `t` before its first blank. -/
def Text.firstWord (t : Text) : Text := t.takeWhile (fun c => !isBlank c)

/-- The part of `t` from its first blank on. -/
def Text.afterWord (t : Text) : Text := t.dropWhile (fun c => !isBlank c)

theorem Text.firstWord_append_afterWord (t : Text) : Text.firstWord t ++ Text.afterWord t = t :=
  List.takeWhile_append_dropWhile

theorem Text.length_afterWord_le (t : Text) : (Text.afterWord t).length ≤ t.length :=
  (List.dropWhile_sublist _).length_le

/-- The tokens of the rest of a line, `offset` bytes into it. -/
def tokensFrom (offset : Nat) : Text → List Token
  | []     => []
  | c :: t =>
    if isBlank c then tokensFrom (offset + c.utf8Size) t
    else
      let word := c :: Text.firstWord t
      ⟨word, offset⟩ :: tokensFrom (offset + Text.utf8Length word) (Text.afterWord t)
termination_by t => t.length
decreasing_by
  · simp
  · exact Nat.lt_succ_of_le (Text.length_afterWord_le t)

/-- The tokens of a line, first to last. -/
def tokens (line : Text) : List Token := tokensFrom 0 line

/-- The words of a line, first to last. -/
def words (line : Text) : List Text := (tokens line).map Token.text

/-- The words of a line that is still being typed: after a blank, an empty word has begun. -/
def typedWords (line : Text) : List Text :=
  let ws := words line
  if ws ≠ [] ∧ Text.endsBlank line then ws ++ [[]] else ws

end CommandConsole

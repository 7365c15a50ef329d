import CommandConsole.Text.Blank
import CommandConsole.Number.Numeral
/-!
# Meta commands

A few short lines that start with `#` are for the shell itself; any other line is for the console, also one that starts
with a tag selector.
-/
namespace CommandConsole

/-- What the shell is asked to do. -/
inductive Meta where
  | quit | listCommands | history | clearHistory | help
  /-- Runs an entry of the history again. -/
  | rerun (index : Nat)
deriving DecidableEq, Repr

/-- The greatest number that an entry may be called by. -/
def Meta.maxIndex : Nat := pow2 64 - 1

/-- Reads a meta command; blanks around it do not count. -/
def Meta.ofLine? (line : Text) : Option Meta :=
  match Text.trim line with
  | ['#', 'q']   => some .quit
  | ['#', '#']   => some .listCommands
  | ['#', 'h']   => some .history
  | ['#', 'c']   => some .clearHistory
  | ['#', '?']   => some .help
  | '#' :: ds    =>
    if ds ≠ [] ∧ ds.all Char.isDigit ∧ natOfDigits 0 ds ≤ maxIndex then some (.rerun (natOfDigits 0 ds)) else none
  | _            => none

end CommandConsole

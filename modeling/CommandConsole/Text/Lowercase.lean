import CommandConsole.Text.Basic
import CommandConsole.Text.CaseTable
/-!
# Lowercase text

The full lowercase mapping of Unicode, which makes the names of commands independent of case.  Each character is mapped
on its own, with two exceptions: `İ` becomes two characters, and a capital sigma at the end of a word becomes the final
form `ς`.  The end of a word is found by looking past the characters that case ignores (accents, apostrophes, …).
-/
namespace CommandConsole

/-- Does the character have an upper, lower or title case form? -/
def isCased (c : Char) : Bool := CaseTable.inRanges CaseTable.casedRanges c.toNat

/-- Is the character passed over when the ends of a word are looked for? -/
def isCaseIgnorable (c : Char) : Bool := CaseTable.inRanges CaseTable.caseIgnorableRanges c.toNat

/-- The lowercase form of a character, where it is one character. -/
def lowerChar (c : Char) : Char :=
  match CaseTable.lowercaseRuns.find? (·.contains c.toNat) with
  | some r => Char.ofNat (r.lower + (c.toNat - r.first))
  | none   => c

/-- The lowercase form of a character, seen on its own. -/
def lowerOne (c : Char) : List Char :=
  if c = 'İ' then ['i', '\u0307'] else [lowerChar c]

namespace Text

/-- Is the first character that case does not ignore a cased one? -/
def reachesCased (t : Text) : Bool :=
  match t.dropWhile isCaseIgnorable with
  | []     => false
  | c :: _ => isCased c

/-- Lowercases `t`, which comes after the characters `before` (nearest first). -/
def lowerAfter : Text → Text → Text
  | _,      []     => []
  | before, c :: t =>
    (if c = 'Σ' then [if reachesCased before && !reachesCased t then 'ς' else 'σ'] else lowerOne c) ++
      lowerAfter (c :: before) t

/-- The text in lowercase. -/
def lower (t : Text) : Text := lowerAfter [] t

end Text
end CommandConsole

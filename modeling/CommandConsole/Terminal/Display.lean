import CommandConsole.Text.Basic
/-!
# What the editor draws

The line editor redraws its line after every key that changed something, and answers a refused key with a bell or, on a full
line, with a marker that vanishes at once.
-/
namespace CommandConsole.Display

/-- Erases the line and draws the prompt, the content and a dimmed hint, and puts the cursor `cursor` characters into the
content, at most at its end. -/
def line (prompt content : Text) (cursor : Nat) (hint : Option Text) : Text :=
  let shown : Text := match hint with
    | some h => "  \x1B[2m<" ++ h ++ ">\x1B[0m"
    | none   => ""
  "\r\x1B[K" ++ prompt ++ content ++ shown ++ "\x1B[" ++
    Text.ofNat (prompt.length + min cursor content.length + 1) ++ "G"

def bell : Text := "\x07"

/-- A red bar, taken back at once. -/
def boundary : Text := "\x1B[31m|\x1B[0m\x1B[1D \x1B[1D"

end CommandConsole.Display

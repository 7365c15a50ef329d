import CommandConsole.Text.Basic
/-!
# Settings

What the shell of the demo program is set to.
-/
namespace CommandConsole.Settings

/-- What stands before each line. -/
def prompt : Text := "console> "

/-- The greatest length of a line and of an entry of the history, in bytes. -/
def lineLimit : Nat := 256

/-- How many lines the history keeps. -/
def historyLimit : Nat := 64

end CommandConsole.Settings

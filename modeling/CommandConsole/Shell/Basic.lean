import CommandConsole.Line.Editor
import CommandConsole.Shell.Meta
/-!
# The shell

The shell is a console with a line editor before it.  Each submitted line is a meta command, which the shell carries out
itself, or a command line, which goes into the history and to the console.
-/
namespace CommandConsole

structure Shell (κ : Type) [ComponentKind κ] (lineLimit historyLimit : Nat) where
  console : Console κ
  editor  : Editor lineLimit historyLimit

/-- Does the shell go on after a line? -/
inductive Flow where
  | goOn | quit
deriving DecidableEq, Repr

namespace Shell

variable {κ : Type} [ComponentKind κ] {lineLimit historyLimit : Nat}

def new (c : Console κ) (h : History historyLimit lineLimit) : Shell κ lineLimit historyLimit := ⟨c, .new h⟩

def history (s : Shell κ lineLimit historyLimit) : History historyLimit lineLimit := s.editor.history

def withHistory (s : Shell κ lineLimit historyLimit) (h : History historyLimit lineLimit) :
    Shell κ lineLimit historyLimit :=
  { s with editor := { s.editor with history := h } }

/-! ## Listings -/

def helpLines : List String :=
  [ "Commands:",
    "  [@name|@@name|#tag|##tag|select] get|set|call <command> [args...]",
    "  @name   first object named name      @@name  every object named name",
    "  #tag    first object tagged tag      ##tag   every object tagged tag",
    "  select  current selection",
    "",
    "Shell:",
    "  ##  list commands    #h  list history    #c  clear history",
    "  #N  run history N    #?  this help       #q  quit",
    "",
    "Keys:",
    "  Tab / Shift+Tab  complete, cycle      Up / Down      history",
    "  PgUp / PgDn      first / last entry   Home / End     line start / end",
    "  Ctrl+U / Ctrl+K  delete to start/end  Ctrl+D         clear line" ]

/-- Lines of output. -/
def printed (lines : List Text) : Text := lines.flatMap (fun l => l ++ ['\n'])

def help : Text := printed (helpLines.map String.toList)

/-- Every command with its signature, the names aligned at their ends.  The width is that of the longest name in bytes. -/
def commandLines (c : Catalog κ) : List Text :=
  let names := c.names
  let width := (names.map Text.utf8Length).foldl max 0
  names.map (fun n => Text.padLeft width n ++ " : " ++ (c.signature? n).getD [])

/-- The listing of a catalog. -/
def commandList (c : Catalog κ) : Text := if c.isEmpty then "No commands registered\n" else printed (commandLines c)

/-- The listing of a history: every entry with its number. -/
def historyList (h : History historyLimit lineLimit) : Text :=
  if h.entries.isEmpty then "History is empty\n"
  else
    printed (h.entries.zipIdx.map (fun e => Text.padLeft 3 (Text.ofNat e.2) ++ " : " ++ e.1)) ++
      printed ["Free entries: " ++ Text.ofNat h.free]

/-! ## One line -/

variable [DecidableEq κ]

/-- Has the console run a line, and prints the answer. -/
def execute (s : Shell κ lineLimit historyLimit) (line : Text) : Text × Shell κ lineLimit historyLimit :=
  let (answer, console) := s.console.execute line
  (answer ++ "\n", { s with console := console })

/-- Carries out a meta command. -/
def runMeta (s : Shell κ lineLimit historyLimit) : Meta → Flow × Text × Shell κ lineLimit historyLimit
  | .quit         => (.quit, [], s)
  | .listCommands => (.goOn, commandList s.console.catalog, s)
  | .history      => (.goOn, historyList s.history, s)
  | .clearHistory => (.goOn, "History cleared\n", s.withHistory s.history.clear)
  | .help         => (.goOn, help, s)
  | .rerun i      =>
    match s.history.get? i with
    | some entry => let (out, s) := s.execute entry; (.goOn, entry ++ "\n" ++ out, s)
    | none       => (.goOn, "No history entry at index " ++ Text.ofNat i ++ "\n", s)

/-- Handles one submitted line: what is printed, and whether the shell goes on. -/
def processLine (s : Shell κ lineLimit historyLimit) (line : Text) : Flow × Text × Shell κ lineLimit historyLimit :=
  let line := Text.trim line
  if line.isEmpty then (.goOn, [], s)
  else
    match Meta.ofLine? line with
    | some m => s.runMeta m
    | none   =>
      let (out, s) := (s.withHistory (s.history.push line).2).execute line
      (.goOn, out, s)

/-! ## A whole session -/

/-- Draws the line as it is. -/
def draw (prompt : Text) (s : Shell κ lineLimit historyLimit) : Text := s.editor.draw s.console prompt

/-- Presses one key: what is printed, and whether the shell goes on.  After a line the next one is drawn. -/
def press (prompt : Text) (k : Key) (s : Shell κ lineLimit historyLimit) : Flow × Text × Shell κ lineLimit historyLimit :=
  let p := s.editor.press s.console prompt k
  let s := { s with editor := p.editor }
  match p.line? with
  | none      => (.goOn, p.drawn, s)
  | some line =>
    match s.processLine line with
    | (.quit, out, s) => (.quit, p.drawn ++ out, s)
    | (.goOn, out, s) => (.goOn, p.drawn ++ out ++ s.draw prompt, s)

/-- Presses keys until a line quits or they run out. -/
def pressAll (prompt : Text) : Shell κ lineLimit historyLimit → List Key → Text × Shell κ lineLimit historyLimit
  | s, []      => ("\n", s)
  | s, k :: ks =>
    match s.press prompt k with
    | (.quit, out, s) => (out, s)
    | (.goOn, out, s) =>
      let (later, s) := s.pressAll prompt ks
      (out ++ later, s)

/-- Runs the shell on a stream of keys: all that is printed, and the shell as it is left. -/
def run (prompt : Text) (s : Shell κ lineLimit historyLimit) (ks : List Key) : Text × Shell κ lineLimit historyLimit :=
  let (out, after) := s.pressAll prompt ks
  (s.draw prompt ++ out, after)

end Shell
end CommandConsole

import CommandConsole.Samples.Demo
import CommandConsole.Shell.Basic
import CommandConsole.Shell.Settings
/-!
# The demo program

The command line of the demo program.  Without a batch option an interactive shell starts; `--list`, `--predict` and
`--exec` answer at once, in this order, and exit.
-/
namespace CommandConsole.Program

open Samples (Kind)

/-! ## Arguments -/

/-- What the program is asked to do. -/
structure Request where
  lines          : List Text := []
  predict        : Option Text := none
  includePrivate : Bool := false
  runtime        : Bool := false
  list           : Bool := false

/-- Why the arguments start nothing. -/
inductive Stop where
  | usage | help | version
deriving DecidableEq, Repr

inductive Flag where
  | exec | predict | includePrivate | runtime | list | help | version
deriving DecidableEq, Repr

def Flag.ofLong? (name : Text) : Option Flag :=
  [("exec", Flag.exec), ("predict", .predict), ("include-private", .includePrivate), ("runtime", .runtime),
    ("list", .list), ("help", .help), ("version", .version)].lookup (String.ofList name)

def Flag.ofShort? : Char → Option Flag
  | 'e' => some .exec
  | 'p' => some .predict
  | 'l' => some .list
  | 'h' => some .help
  | 'V' => some .version
  | _   => none

def Flag.takesValue : Flag → Bool
  | .exec | .predict => true
  | _                => false

/-- Sets an option that takes a value; only `--exec` may come again. -/
def Request.setValue (r : Request) (f : Flag) (value : Text) : Except Stop Request :=
  match f with
  | .exec => .ok { r with lines := r.lines ++ [value] }
  | _     => if r.predict.isSome then .error .usage else .ok { r with predict := some value }

/-- Sets an option without a value, once. -/
def Request.setFlag (r : Request) : Flag → Except Stop Request
  | .includePrivate => if r.includePrivate then .error .usage else .ok { r with includePrivate := true }
  | .runtime        => if r.runtime then .error .usage else .ok { r with runtime := true }
  | .list           => if r.list then .error .usage else .ok { r with list := true }
  | .help           => .error .help
  | .version        => .error .version
  | _               => .error .usage

/-- May the argument be the value of the option before it?  One that starts with a dash is an option itself. -/
def isValue : Text → Bool
  | '-' :: _ :: _ => false
  | _             => true

/-- What a cluster of short options asks for: the request so far, and the option that waits for its value. -/
def shortFlags (r : Request) : Text → Except Stop (Request × Option Flag)
  | []     => .ok (r, none)
  | c :: t =>
    match Flag.ofShort? c with
    | none   => .error .usage
    | some f =>
      if f.takesValue then
        match t with
        | []       => .ok (r, some f)
        | '=' :: v => (r.setValue f v).map (·, none)
        | v        => (r.setValue f v).map (·, none)
      else do shortFlags (← r.setFlag f) t

/-- What one long option asks for, its name and value being separated by the first `=`. -/
def longFlag (r : Request) (t : Text) : Except Stop (Request × Option Flag) :=
  match Flag.ofLong? (t.takeWhile (· != '=')), t.dropWhile (· != '=') with
  | none,   _      => .error .usage
  | some f, []     => if f.takesValue then .ok (r, some f) else (r.setFlag f).map (·, none)
  | some f, _ :: v => if f.takesValue then (r.setValue f v).map (·, none) else .error .usage

/-- Reads the arguments after those that made `r`; `waiting` is an option whose value comes next. -/
def readArguments (r : Request) (waiting : Option Flag) : List Text → Except Stop Request
  | []      => if waiting.isSome then .error .usage else .ok r
  | a :: as =>
    match waiting with
    | some f => if isValue a then do readArguments (← r.setValue f a) none as else .error .usage
    | none   =>
      match a with
      | ['-', '-']        => if as = [] then .ok r else .error .usage
      | '-' :: '-' :: t   => do let (r, w) ← longFlag r t; readArguments r w as
      | '-' :: c :: t     => do let (r, w) ← shortFlags r (c :: t); readArguments r w as
      | _                 => .error .usage

/-- Reads the arguments of the program. -/
def Request.ofArguments (args : List Text) : Except Stop Request := CommandConsole.Program.readArguments {} none args

/-! ## Answers -/

def Request.options (r : Request) : Options :=
  { includePrivate := r.includePrivate, context := if r.runtime then .runtime else .interactive }

/-- Is there anything to answer at once? -/
def Request.isBatch (r : Request) : Bool := !r.lines.isEmpty || r.predict.isSome || r.list

/-- The console of the demo, with its commands. -/
def console (o : Options) : Console Kind := (Console.new Samples.Demo.world o).rebuild Samples.Demo.sources

/-- Completions, one a line, and the hint after them. -/
def predictionLines (c : Console Kind) (line : Text) : List Text :=
  let hint : List Text := match c.hint line with
    | some h => ["<" ++ h ++ ">"]
    | none   => []
  c.predict line ++ hint

/-- Runs lines one after the other and prints the answers. -/
def runLines (c : Console Kind) : List Text → Text
  | []      => []
  | l :: ls => let (out, c) := c.execute l; out ++ "\n" ++ runLines c ls

/-- Everything that a batch prints. -/
def Request.batch (r : Request) : Text :=
  let c := console r.options
  let listing : Text := if r.list then Shell.printed (Shell.commandLines c.catalog) else ""
  let completions : Text := match r.predict with
    | some p => Shell.printed (predictionLines c p)
    | none   => ""
  listing ++ completions ++ runLines c r.lines

def greeting : Text := "Type #? for help, #q to quit.\n"

/-- The shell that an interactive program starts. -/
def shell (o : Options) (h : History Settings.historyLimit Settings.lineLimit) :
    Shell Kind Settings.lineLimit Settings.historyLimit :=
  .new (console o) h

def versionLine : Text := "console_demo " ++ Samples.Demo.version ++ "\n"

def helpLines : List String :=
  [ "Embeddable command console demo",
    "",
    "Usage: console_demo [OPTIONS]",
    "",
    "Options:",
    "  -e, --exec <LINE>        Execute a command line (repeatable)",
    "  -p, --predict <PARTIAL>  Print completions and the argument hint for a partial line",
    "      --include-private    Register non-public members as commands too",
    "      --runtime            Run without a selection (`select` is rejected)",
    "  -l, --list               List every command with its type information",
    "  -h, --help               Print help",
    "  -V, --version            Print version",
    "",
    "EXAMPLES:",
    "    console_demo                                   Interactive shell",
    "    console_demo -e 'call add 2 3'                 Run one line and exit",
    "    console_demo -e '##Enemy call damage 5' -e '@@Grunt get points'",
    "    console_demo -p '@Play'                        Show completions",
    "    console_demo --list                            Show every command" ]

/-- What the program prints, and the code it exits with, where no terminal is at hand. -/
def run (args : List Text) : Nat × Text :=
  match Request.ofArguments args with
  | .error .usage   => (2, "")
  | .error .help    => (0, Shell.printed (helpLines.map String.toList))
  | .error .version => (0, versionLine)
  | .ok r           => if r.isBatch then (0, r.batch) else (1, greeting)

end CommandConsole.Program

import CommandConsole.Program
/-!
# The executable

Batches print and exit.  On a terminal, which is taken to send every key as it is pressed, the shell runs until a line quits
or the input ends; its history is kept on a file in the current directory.
-/
namespace CommandConsole.Program

def historyFile : String := ".console_history"

/-- The history file as it is. -/
def readDisk : IO Disk := do
  try return .regular (← IO.FS.readBinFile historyFile).toList
  catch _ => return .absent

/-- Leaves the history file as the shell keeps it. -/
def writeDisk : Option Disk → IO Unit
  | some (.regular bytes) => IO.FS.writeBinFile historyFile ⟨bytes.toArray⟩
  | _                     => pure ()

partial def interact (input output : IO.FS.Stream) (s : Shell Samples.Kind Settings.lineLimit Settings.historyLimit)
    (keys : List Key) : IO Unit := do
  match keys with
  | []      =>
    output.flush
    let bytes ← input.read 4096
    if bytes.isEmpty then output.putStrLn "" else interact input output s (Key.decodeAll bytes.toList)
  | k :: ks =>
    let (flow, out, after) := s.press Settings.prompt k
    output.putStr (String.ofList out)
    if after.history.entries ≠ s.history.entries then writeDisk after.history.file
    match flow with
    | .goOn => interact input output after ks
    | .quit => output.flush

end CommandConsole.Program

open CommandConsole Program

def main (args : List String) : IO UInt32 := do
  let input ← IO.getStdin
  let output ← IO.getStdout
  let (code, out) := run (args.map String.toList)
  output.putStr (String.ofList out)
  match Request.ofArguments (args.map String.toList) with
  | .ok r =>
    if !r.isBatch then
      if ← input.isTty then
        let s := shell r.options (.open (← readDisk))
        output.putStr (String.ofList (s.draw Settings.prompt))
        interact input output s []
        return 0
      (← IO.getStderr).putStrLn "terminal error: not a terminal"
  | .error .usage => (← IO.getStderr).putStrLn "bad usage, try --help"
  | .error _ => pure ()
  output.flush
  return code.toUInt32

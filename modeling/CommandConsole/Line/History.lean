import CommandConsole.Text.Blank
import CommandConsole.Text.Utf8
/-!
# The history of lines

A history keeps the latest distinct lines, oldest first, and a place in them from which older and newer ones are reached.
Lines are trimmed; a line that is empty, too long or already there is not recorded, and when the history is full the oldest
entry goes.

A history may be kept on a file.  Opening it loads the file, where a line that comes again moves to the end; each recorded
line is appended to the file, which is never shortened.
-/
namespace CommandConsole

/-- What stands under the path of a history file. -/
inductive Disk where
  | absent
  | regular (bytes : List UInt8)
  /-- Something that can be neither read nor appended to. -/
  | unusable
deriving DecidableEq, Repr

/-- The file after a line has been appended to it. -/
def Disk.append (line : Text) : Disk → Disk
  | .absent        => .regular (Utf8.encode line ++ [0x0A])
  | .regular bytes => .regular (bytes ++ Utf8.encode line ++ [0x0A])
  | .unusable      => .unusable

/-- The text of the file, if it can be read. -/
def Disk.text? : Disk → Option Text
  | .regular bytes => Utf8.decode? bytes
  | _              => none

/-- At most `maxEntries` lines of at most `maxBytes` bytes each. -/
structure History (maxEntries maxBytes : Nat) where
  entries  : List Text
  /-- The place of the entry last reached; nothing when past the newest. -/
  position : Option Nat
  file     : Option Disk
deriving DecidableEq, Repr

namespace History

variable {maxEntries maxBytes : Nat}

def empty : History maxEntries maxBytes := ⟨[], none, none⟩

/-! ## Recording -/

/-- May the trimmed line be recorded beside these entries? -/
def acceptable (maxEntries maxBytes : Nat) (entries : List Text) (line : Text) : Bool :=
  maxEntries != 0 && !line.isEmpty && !entries.contains line && decide (Text.utf8Length line ≤ maxBytes)

/-- Adds a line as the newest; the oldest goes if there is no room. -/
def addNewest (maxEntries : Nat) (entries : List Text) (line : Text) : List Text :=
  (if maxEntries ≤ entries.length then entries.drop 1 else entries) ++ [line]

/-- Records a line.  Navigation starts afresh, whether the line is recorded or not. -/
def push (h : History maxEntries maxBytes) (line : Text) : Bool × History maxEntries maxBytes :=
  let t := Text.trim line
  if acceptable maxEntries maxBytes h.entries t then
    (true, ⟨addNewest maxEntries h.entries t, none, h.file.map (Disk.append t)⟩)
  else (false, { h with position := none })

/-- Forgets all entries; a file keeps them. -/
def clear (h : History maxEntries maxBytes) : History maxEntries maxBytes := { h with entries := [], position := none }

/-! ## Loading -/

/-- The entries after one more line of a file. -/
def loadLine (maxEntries maxBytes : Nat) (entries : List Text) (line : Text) : List Text :=
  let t := Text.trim line
  let others := entries.erase t
  if acceptable maxEntries maxBytes others t then addNewest maxEntries others t else others

/-- The entries that a text leaves. -/
def load (maxEntries maxBytes : Nat) (text : Text) : List Text :=
  (Text.splitOn '\n' text).foldl (loadLine maxEntries maxBytes) []

/-- The history kept on a file; one that cannot be read leaves it without entries. -/
def «open» (disk : Disk) : History maxEntries maxBytes :=
  ⟨((disk.text?).map (load maxEntries maxBytes)).getD [], none, some disk⟩

/-- The history opened anew, from its file if it has one. -/
def reopen (h : History maxEntries maxBytes) : History maxEntries maxBytes :=
  match h.file with
  | some disk => .open disk
  | none      => empty

/-! ## Navigating -/

def get? (h : History maxEntries maxBytes) (i : Nat) : Option Text := h.entries[i]?

/-- Goes to the entry at a place. -/
def goTo (h : History maxEntries maxBytes) (i : Nat) : Option Text × History maxEntries maxBytes :=
  (h.get? i, { h with position := some i })

/-- Goes one entry back, at most to the oldest. -/
def older (h : History maxEntries maxBytes) : Option Text × History maxEntries maxBytes :=
  match h.position with
  | some i => h.goTo (i - 1)
  | none   => if h.entries.isEmpty then (none, h) else h.goTo (h.entries.length - 1)

/-- Goes one entry forward, past the newest to none. -/
def newer (h : History maxEntries maxBytes) : Option Text × History maxEntries maxBytes :=
  match h.position with
  | some i => if i + 1 < h.entries.length then h.goTo (i + 1) else (none, { h with position := none })
  | none   => (none, h)

def first (h : History maxEntries maxBytes) : Option Text × History maxEntries maxBytes :=
  if h.entries.isEmpty then (none, h) else h.goTo 0

def last (h : History maxEntries maxBytes) : Option Text × History maxEntries maxBytes :=
  if h.entries.isEmpty then (none, h) else h.goTo (h.entries.length - 1)

/-- How many more entries there is room for. -/
def free (h : History maxEntries maxBytes) : Nat := maxEntries - h.entries.length

end History
end CommandConsole

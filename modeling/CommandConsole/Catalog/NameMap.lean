import CommandConsole.Text.Basic
/-!
# Maps by name

A map from names, kept as a list that ascends by name.  A later entry under a name takes the place of an earlier one.
-/
namespace CommandConsole

structure NameMap (α : Type) where
  entries : List (Text × α)

namespace NameMap

variable {α : Type}

def empty : NameMap α := ⟨[]⟩

def insertEntry (name : Text) (a : α) : List (Text × α) → List (Text × α)
  | []     => [(name, a)]
  | e :: l =>
    if e.1 = name then (name, a) :: l
    else if Text.le name e.1 then (name, a) :: e :: l
    else e :: insertEntry name a l

def findEntry (name : Text) : List (Text × α) → Option α
  | []     => none
  | e :: l => if e.1 = name then some e.2 else findEntry name l

def insert (name : Text) (a : α) (m : NameMap α) : NameMap α := ⟨insertEntry name a m.entries⟩

def find? (m : NameMap α) (name : Text) : Option α := findEntry name m.entries

def names (m : NameMap α) : List Text := m.entries.map Prod.fst

def values (m : NameMap α) : List α := m.entries.map Prod.snd

def size (m : NameMap α) : Nat := m.entries.length

theorem findEntry_insertEntry (name n : Text) (a : α) (l : List (Text × α)) :
    findEntry n (insertEntry name a l) = if name = n then some a else findEntry n l := by
  induction l with
  | nil => simp [insertEntry, findEntry]
  | cons e l ih =>
    unfold insertEntry
    split
    · rename_i h
      by_cases hn : name = n
      · simp [findEntry, hn]
      · simp [findEntry, hn, h]
    · rename_i h
      split
      · simp [findEntry]
      · by_cases hn : name = n
        · subst hn; simp [findEntry, h, ih]
        · simp [findEntry, ih, hn]

/-- What an insertion does to a look-up: the new entry answers for its name and for no other. -/
@[simp] theorem find?_insert (m : NameMap α) (name n : Text) (a : α) :
    (m.insert name a).find? n = if name = n then some a else m.find? n :=
  findEntry_insertEntry name n a m.entries

end NameMap
end CommandConsole

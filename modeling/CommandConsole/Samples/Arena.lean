import CommandConsole.Catalog.Member
import CommandConsole.Host.World
import CommandConsole.Samples.Kind
/-!
# The arena

A host of five objects in two camps, with commands that succeed, fail and panic: a small world to try a console on.
-/
namespace CommandConsole.Samples.Arena

def levels : EnumInfo := ⟨"Difficulty", ["Easy", "Normal", "Hard"]⟩

/-! ## Objects -/

def vitals (points : Float32) (c : ComponentSet Kind) : ComponentSet Kind := c.insert .vitals (Vitals.mk points)

def contestant (c : ComponentSet Kind) : ComponentSet Kind := c.insert .contestant (Contestant.mk 0 0)

def world : World Kind := World.ofEntities
  [ ⟨"Player1", "Player", contestant (vitals 100 .empty)⟩,
    ⟨"Player2", "Player", contestant (vitals 80 .empty)⟩,
    ⟨"Grunt", "Enemy", vitals 30 .empty⟩,
    ⟨"Crate", "Enemy", .empty⟩,
    ⟨"Grunt", "Enemy", vitals 40 .empty⟩ ]
  []

/-! ## Commands -/

def int32 (v : Value) : Access Kind Int32 := do
  let i : (TypeTag.signed .bits32).Carrier ← Access.ofExcept ((TypeTag.signed .bits32).fromValue v)
  return Int32.ofInt i.val

def ofInt32 (i : Int32) : Value := .int i.toInt64

def points : Field Kind .vitals where
  name := "points"
  type := .single
  get := Vitals.points
  set := fun p _ => ⟨p⟩

def vitalsCommands : List (Descriptor Kind) :=
  [ .callable "AddHealth" .vitals [⟨"amount", .single⟩] .single (fun vs => do
      let amount : Float32 ← argument .single vs 0
      let p ← Access.modify .vitals (fun h : Vitals => (h.points + amount, ⟨h.points + amount⟩))
      return TypeTag.intoValue .single p),
    points.getter,
    points.setter,
    .callable "explode" .vitals [] .void (fun _ =>
      .withRef .vitals (fun h : Vitals => if 0 ≤ h.points then .panic (some "boom") else pure .unit)),
    .callable "drain" .vitals [] .void (fun _ => .fail (.failed "health is locked")) ]

def dump (c : Contestant) : Text :=
  "Player \x7b score: " ++ Text.ofInt c.score.toInt ++ ", difficulty: " ++ Text.ofNat c.difficulty ++ " \x7d"

def contestantCommands : List (Descriptor Kind) :=
  [ .getter "score" .contestant (.signed .bits32) (.read .contestant (fun c : Contestant => ofInt32 c.score)),
    .setter "score" .contestant (.signed .bits32) (fun v => do
      let score ← int32 v
      Access.modify .contestant (fun c : Contestant => ((), { c with score := score }))),
    .callable "setdifficulty" .contestant [⟨"level", .enum levels⟩] .void (fun vs => do
      match ← valueAt vs 0 with
      | .enum _ i => Access.modify .contestant (fun c : Contestant => (.unit, { c with difficulty := i }))
      | v         => .fail (.mismatch levels.name v.kindName)),
    .hidden (.callable "cheat" .contestant [] .void (fun _ =>
      .modify .contestant (fun c : Contestant => (.unit, { c with score := c.score + 1000 })))),
    .force (.hidden (.callable "debugdump" .contestant [] .string (fun _ =>
      .read .contestant (fun c : Contestant => .string (dump c))))) ]

def arenaCommands : List (Descriptor Kind) :=
  [ .static (.callable "echo" .arena [⟨"text", .string⟩] .string (fun vs => valueAt vs 0)),
    .static (.callable "add" .arena [⟨"a", .signed .bits32⟩, ⟨"b", .signed .bits32⟩] (.signed .bits32) (fun vs => do
      let a ← int32 (← valueAt vs 0)
      let b ← int32 (← valueAt vs 1)
      return ofInt32 (a + b))),
    .static (.callable "restart" .arena [] .void (fun _ => pure .unit)),
    .static (.getter "version" .arena .string (pure (.string "1.0"))) ]

/-- The commands of the arena, one list for each kind of component that declares some. -/
def sources : List (List (Descriptor Kind)) := [vitalsCommands, contestantCommands, arenaCommands]

end CommandConsole.Samples.Arena

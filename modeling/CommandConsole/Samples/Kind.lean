import CommandConsole.Catalog.NameMap
import CommandConsole.Host.Component
/-!
# The components of the sample hosts

Three sample hosts share one index of component kinds: records, whose fields hold any value; the components of the arena;
and those of the demo.  The arena and the demo both have components called `Health` and `Player`; they are kinds of their
own all the same.
-/
namespace CommandConsole.Samples

/-- Named values. -/
abbrev Record := NameMap Value

/-- Hit points in the arena. -/
structure Vitals where
  points : Float32

/-- A contestant in the arena. -/
structure Contestant where
  score      : Int32
  difficulty : Nat

/-- The levels of difficulty in the demo. -/
def difficulty : EnumInfo := ⟨"Difficulty", ["Easy", "Normal", "Hard", "Nightmare"]⟩

/-- Hit points in the demo: what they cannot exceed, and whether damage is ignored. -/
structure Health where
  points : Float32
  max    : Float32
  god    : Bool

structure Transform where
  position : (TypeTag.tuple .vector3).Carrier
  rotation : (TypeTag.tuple .quaternion).Carrier

structure Player where
  score      : Int32
  difficulty : (TypeTag.enum difficulty).Carrier
  nickname   : Text
  title      : Option Text

/-- The kinds of component in the sample hosts.  Those of kind `arena` and `game` belong to no object. -/
inductive Kind where
  | record (name : Text)
  | vitals | contestant | arena
  | health | transform | player | game
deriving DecidableEq

instance : ComponentKind Kind where
  State
    | .record _   => Record
    | .vitals     => Vitals
    | .contestant => Contestant
    | .health     => Health
    | .transform  => Transform
    | .player     => Player
    | .arena      => Unit
    | .game       => Unit
  name
    | .record n   => n
    | .vitals     => "Health"
    | .contestant => "Player"
    | .health     => "Health"
    | .transform  => "Transform"
    | .player     => "Player"
    | .arena      => "Scene"
    | .game       => "Game"

end CommandConsole.Samples

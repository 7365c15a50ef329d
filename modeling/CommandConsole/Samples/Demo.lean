import CommandConsole.Catalog.Member
import CommandConsole.Host.World
import CommandConsole.Samples.Kind
/-!
# The demo

The scene that the demo program drives: players, enemies and a crate with health, a place in space and, for players, a
score and a title.  Its commands take and give every sort of value.
-/
namespace CommandConsole.Samples.Demo

/-- The version of the demo program. -/
def version : Text := "0.1.0"

/-! ## Objects -/

def vector3 (x y z : Float32) : Vector Float32 3 := #v[x, y, z]

def health (points : Float32) (c : ComponentSet Kind) : ComponentSet Kind := c.insert .health (Health.mk points 100 false)

def player (nickname : Text) (c : ComponentSet Kind) : ComponentSet Kind :=
  c.insert .player (Player.mk 0 (1 : Fin 4) nickname none)

/-- Stands at a place, without rotation. -/
def standing (x y z : Float32) (c : ComponentSet Kind) : ComponentSet Kind :=
  c.insert .transform (Transform.mk (vector3 x y z) (#v[0, 0, 0, 1] : Vector Float32 4))

def world : World Kind := World.ofEntities
  [ ⟨"Player1", "Player", standing 0 0 0 (player "Ada" (health 100 .empty))⟩,
    ⟨"Player2", "Player", standing 4 0 0 (player "Bo" (health 80 .empty))⟩,
    ⟨"Grunt", "Enemy", standing 10 0 2 (health 30 .empty)⟩,
    ⟨"Grunt", "Enemy", standing 12 0 (-2) (health 40 .empty)⟩,
    ⟨"Crate", "Prop", standing 3 0 3 .empty⟩ ]
  [0]

/-! ## Health -/

/-- The smaller of two floats, of equals the first; a number is preferred to none. -/
def least (a b : Float32) : Float32 := if a.isNaN then b else if b < a then b else a

/-- The greater of two floats, of equals the second; a number is preferred to none. -/
def greatest (a b : Float32) : Float32 := if b.isNaN then a else if b < a then a else b

def points : Field Kind .health where
  name := "points"
  type := .single
  get := Health.points
  set := fun p h => { h with points := p }

def maximum : Field Kind .health where
  name := "max"
  type := .single
  get := Health.max
  set := fun m h => { h with max := m }

def god : Field Kind .health where
  name := "god"
  type := .bool
  get := Health.god
  set := fun g h => { h with god := g }

def healthFields : List (Descriptor Kind) :=
  [ points.getter, points.setter, maximum.getter, god.getter, god.setter,
    .as (.callable "OnHit" .health [⟨"arg0", .single⟩] .string (fun vs => do
      let damage : Float32 ← argument .single vs 0
      Access.read .health (fun _ => .string ("ouch, " ++ Float32.text damage ++ " damage")))) .callback ]

def healthMethods : List (Descriptor Kind) :=
  [ .callable "AddHealth" .health [⟨"amount", .single⟩] .single (fun vs => do
      let amount : Float32 ← argument .single vs 0
      let p ← Access.modify .health (fun h : Health =>
        let p := least (h.points + amount) h.max
        (p, { h with points := p }))
      return TypeTag.intoValue .single p),
    .callable "damage" .health [⟨"amount", .single⟩] .single (fun vs => do
      let amount : Float32 ← argument .single vs 0
      Access.withMut .health (fun h : Health => do
        if amount < 0 then .fail (.failed ("damage must not be negative, got " ++ Float32.text amount))
        else
          let p := if h.god then h.points else greatest (h.points - amount) 0
          Access.write .health (show Health from { h with points := p })
          return TypeTag.intoValue .single p)),
    .callable "ResetHealth" .health [] .void (fun _ =>
      .modify .health (fun h : Health => (.unit, { h with points := h.max }))),
    .force (.hidden (.callable "dump" .health [] .string (fun _ =>
      .read .health (fun h : Health =>
        .string (Float32.text h.points ++ "/" ++ Float32.text h.max ++ " god=" ++ Value.boolText h.god))))) ]

/-! ## Places -/

def position : Field Kind .transform where
  name := "position"
  type := .tuple .vector3
  get := Transform.position
  set := fun p t => { t with position := p }

def rotation : Field Kind .transform where
  name := "rotation"
  type := .tuple .quaternion
  get := Transform.rotation
  set := fun r t => { t with rotation := r }

def transformFields : List (Descriptor Kind) := [position.getter, position.setter, rotation.getter, rotation.setter]

def transformMethods : List (Descriptor Kind) :=
  [ .callable "teleport" .transform [⟨"to", .tuple .vector3⟩] (.tuple .vector3) (fun vs => do
      let place ← argument (.tuple .vector3) vs 0
      Access.modify .transform (fun t : Transform =>
        (TypeTag.intoValue (.tuple .vector3) t.position, { t with position := place }))),
    .callable "nudge" .transform [⟨"dx", .single⟩, ⟨"dy", .single⟩, ⟨"dz", .single⟩] (.tuple .vector3) (fun vs => do
      let dx : Float32 ← argument .single vs 0
      let dy : Float32 ← argument .single vs 1
      let dz : Float32 ← argument .single vs 2
      Access.modify .transform (fun t : Transform =>
        let p : Vector Float32 3 := t.position
        let p := vector3 (p[0] + dx) (p[1] + dy) (p[2] + dz)
        (TypeTag.intoValue (.tuple .vector3) p, { t with position := p }))) ]

/-! ## Players -/

def ofInt32 (i : Int32) : Value := .int i.toInt64

/-- The title, if there is one, before the nickname. -/
def Player.address (p : Player) : Text :=
  match p.title with
  | some t => t ++ " " ++ p.nickname
  | none   => p.nickname

def playerMethods : List (Descriptor Kind) :=
  [ .getter "score" .player (.signed .bits32) (.read .player (fun p : Player => ofInt32 p.score)),
    .setter "score" .player (.signed .bits32) (fun v => do
      let i : (TypeTag.signed .bits32).Carrier ← Access.ofExcept ((TypeTag.signed .bits32).fromValue v)
      Access.modify .player (fun p : Player => ((), { p with score := Int32.ofInt i.val }))),
    .getter "difficulty" .player (.enum difficulty)
      (.read .player (fun p : Player => TypeTag.intoValue (.enum difficulty) p.difficulty)),
    .callable "SetDifficulty" .player [⟨"level", .enum difficulty⟩] .void (fun vs => do
      let level ← argument (.enum difficulty) vs 0
      Access.modify .player (fun p : Player => (.unit, { p with difficulty := level }))),
    .callable "rename" .player [⟨"nickname", .string⟩] .string (fun vs => do
      let nickname : Text ← argument .string vs 0
      Access.modify .player (fun p : Player => (.string p.nickname, { p with nickname := nickname }))),
    .callable "SetTitle" .player [⟨"title", .nullable .string⟩] .string (fun vs => do
      let title : Option Text ← argument (.nullable .string) vs 0
      Access.modify .player (fun p : Player =>
        let p := { p with title := title }
        (.string (Player.address p), p))),
    .callable "inspect" .player [⟨"other", .object⟩] .string (fun vs => do
      let other : ObjectRef ← argument .object vs 0
      Access.read .player (fun p : Player => .string (p.nickname ++ " is looking at " ++ other.name))),
    .hidden (.callable "cheat" .player [] (.signed .bits32) (fun _ =>
      .modify .player (fun p : Player =>
        let p := { p with score := p.score + 1000 }
        (ofInt32 p.score, p)))) ]

/-! ## The game itself -/

def gameMethods : List (Descriptor Kind) :=
  [ .static (.callable "echo" .game [⟨"text", .string⟩] .string (fun vs => do
      let text : Text ← argument .string vs 0
      return .string text)),
    .static (.callable "add" .game [⟨"a", .signed .bits32⟩, ⟨"b", .signed .bits32⟩] (.signed .bits32) (fun vs => do
      let a : (TypeTag.signed .bits32).Carrier ← argument (.signed .bits32) vs 0
      let b : (TypeTag.signed .bits32).Carrier ← argument (.signed .bits32) vs 1
      return ofInt32 (Int32.ofInt (a.val + b.val)))),
    .static (.callable "restart" .game [] .void (fun _ => pure .unit)),
    .static (.getter "version" .game .string (pure (.string version))) ]

/-- The commands of the demo, one list for each declaration. -/
def sources : List (List (Descriptor Kind)) :=
  [healthFields, healthMethods, transformFields, transformMethods, playerMethods, gameMethods]

end CommandConsole.Samples.Demo

import CommandConsole.Session.Plan
/-!
# Prediction

While a line is typed, the console offers the words that may stand at its end.  The words so far tell where in the grammar
the line has come to (`Position`), the position tells which words are possible there, and those that begin with what has
been typed are offered in rank order: the word that is typed in full first, then by lowercase, then as written.

Nothing here fails; a place that the grammar does not know has no candidates.
-/
namespace CommandConsole

/-! ## Places in the grammar -/

/-- Where the word at the end of a line stands; `typed` is that word so far. -/
inductive Position where
  /-- The first word: a selector or a verb. -/
  | leading (typed : Text)
  /-- The verb after a selector. -/
  | verb (typed : Text)
  | commandName (verb : Verb) (targeted : Bool) (typed : Text)
  | argument (verb : Verb) (name : Text) (index : Nat) (typed : Text)
deriving DecidableEq, Repr

/-- The place of the last of the words after an optional selector. -/
def Position.afterSelector (targeted : Bool) : List Text → Option Position
  | []             => none
  | [w]            => some (.verb w)
  | v :: n :: rest =>
    (Verb.ofText? v).map (fun v =>
      match rest.getLast? with
      | none   => .commandName v targeted n
      | some t => .argument v n (rest.length - 1) t)

/-- The place of the last word. -/
def Position.ofWords : List Text → Option Position
  | []        => none
  | [w]       => some (.leading w)
  | w :: rest =>
    if (Selector.ofText? w).isSome then afterSelector true rest else afterSelector false (w :: rest)

/-- Where a line that is being typed has come to. -/
def Position.of (line : Text) : Option Position := ofWords (typedWords line)

/-- The part of the last word that candidates are compared with: a first word counts without its sigil. -/
def Position.typed : Position → Text
  | .leading w          => ((Sigil.split? w).map Prod.snd).getD w
  | .verb w             => w
  | .commandName _ _ w  => w
  | .argument _ _ _ w   => w

/-! ## Options -/

/-- The declared parameter at an argument's place, with its type. -/
inductive Slotted where
  | parameter (p : Parameter)
  | value (type : TypeTag)
deriving DecidableEq

def Slotted.type : Slotted → TypeTag
  | .parameter p => p.type
  | .value t     => t

def Slotted.text : Slotted → Text
  | .parameter p => p.text
  | .value t     => t.text

variable {κ : Type} [ComponentKind κ]

/-- What a command declares for its argument number `index`. -/
def Invoker.slotted? (index : Nat) : Invoker κ → Option Slotted
  | .call ps _ _ => (ps[index]?).map .parameter
  | .get _ _     => none
  | .set t _     => if index = 0 then some (.value t) else none

/-- What the catalog declares for an argument. -/
def Catalog.slotted? (c : Catalog κ) (v : Verb) (name : Text) (index : Nat) : Option Slotted :=
  (c.lookup name v).bind (fun d => d.invoker.slotted? index)

def verbWords : List Text := Verb.all.map Verb.text

/-- The words that may start a line: after a sigil the names or tags that the host knows, else `select` and the verbs.  The
word `select` itself, once complete, offers the verbs that may follow it. -/
def leadingOptions (w : World κ) (typed : Text) : List Text :=
  if Text.sameAscii typed selectWord then verbWords
  else
    match Sigil.split? typed with
    | some (.name, _) | some (.allNames, _) => w.knownNames
    | some (.tag, _)  | some (.allTags, _)  => w.knownTags
    | none                                  => selectWord :: verbWords

/-- The words that may stand at a place, whatever has been typed. -/
def Position.options (c : Catalog κ) (w : World κ) : Position → List Text
  | .leading t           => leadingOptions w t
  | .verb _              => verbWords
  | .commandName v tgt _ => ((c.forVerb v).values.filter (fun d => d.isStatic != tgt)).map Descriptor.name
  | .argument v n i _    => (((c.slotted? v n i).map Slotted.type).bind TypeTag.literals?).getD []

/-- Does an option go with what has been typed?  After a complete `select` every verb does. -/
def Position.accepts (p : Position) (option : Text) : Bool :=
  match p with
  | .leading t => Text.sameAscii t selectWord || Text.startsWithAscii p.typed option
  | _          => Text.startsWithAscii p.typed option

/-- The options of a place that go with what has been typed. -/
def Position.matching (c : Catalog κ) (w : World κ) (p : Position) : List Text := (p.options c w).filter p.accepts

/-! ## Rank -/

/-- Does `a` rank at or before `b`, when `typed` has been typed? -/
def rankLe (typed a b : Text) : Bool :=
  let xa := Text.sameAscii a typed
  let xb := Text.sameAscii b typed
  if xa != xb then xa
  else if Text.lower a = Text.lower b then Text.le a b
  else Text.le (Text.lower a) (Text.lower b)

/-- The candidates in rank order, each once. -/
def ranked (typed : Text) (candidates : List Text) : List Text := Text.mergeEqual (candidates.mergeSort (rankLe typed))

/-- The first `limit` candidates for the word at the end of a line. -/
def predict (c : Catalog κ) (w : World κ) (limit : Nat) (line : Text) : List Text :=
  match Position.of line with
  | none   => []
  | some p => (ranked p.typed (p.matching c w)).take limit

/-- What the command expects of the argument at the end of a line. -/
def hint (c : Catalog κ) (line : Text) : Option Text :=
  match Position.of line with
  | some (.argument v n i _) => (c.slotted? v n i).map Slotted.text
  | _                        => none

end CommandConsole

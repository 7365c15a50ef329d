import CommandConsole.Proofs.Host.Frame
import CommandConsole.Proofs.Session.Aggregation
import CommandConsole.Session.Console
/-!
# Effect — what a run reads and what it writes

A line is planned first and carried out then (`Session.run_eq_carryOut`).  Planning reads the catalog and the world without
its components (`planned_congr`).  Carrying out a plan on one object reads the object's name, the component of the owner and
the number of commands, and nothing else; it writes that component and the slot (`runOn_eq`).
-/
namespace CommandConsole

variable {κ : Type} [ComponentKind κ]

attribute [ext] Session

/-! ## Planning -/

theorem targets_bare (d : Descriptor κ) (w : World κ) (context : Context) (o : Option Selector) :
    d.targets w.bare context o = d.targets w context o := by
  cases o <;> simp only [Descriptor.targets, World.resolve_bare]

/-- **A command is planned without a look at any component.** -/
theorem plan_bare (c : Command) (catalog : Catalog κ) (w : World κ) (context : Context) :
    c.plan catalog w.bare context = c.plan catalog w context := by
  simp only [Command.plan, targets_bare, World.lookup_bare]

namespace Session

/-- The plan of a line, or its refusal. -/
def planned (context : Context) (line : Text) (s : Session κ) : Except CommandError (Plan κ) :=
  match Command.parse line with
  | .error e => .error (.line e)
  | .ok c    => c.plan s.slot.catalog s.world context

theorem planned_eq_ok_iff {context : Context} {line : Text} {s : Session κ} {p : Plan κ} :
    s.planned context line = .ok p ↔ ∃ c, Command.parse line = .ok c ∧ c.plan s.slot.catalog s.world context = .ok p := by
  unfold planned
  cases Command.parse line with
  | error e => simp
  | ok c    => simp

/-- A plan is made for the command that the catalog has under the name of the line. -/
theorem lookup_of_planned {context : Context} {line : Text} {s : Session κ} {p : Plan κ} {c : Command}
    (hparse : Command.parse line = .ok c) (hp : s.planned context line = .ok p) :
    s.slot.catalog.lookup c.name c.verb = some p.descriptor := by
  obtain ⟨c', hparse', hp⟩ := planned_eq_ok_iff.1 hp
  cases hparse.symm.trans hparse'
  exact (plan_eq_ok_iff.1 hp).1

theorem planned_congr {s t : Session κ} (hworld : t.world.bare = s.world.bare) (hslot : t.slot = s.slot) (context : Context)
    (line : Text) : t.planned context line = s.planned context line := by
  unfold planned
  cases Command.parse line with
  | error e => rfl
  | ok c    =>
    dsimp only
    rw [← plan_bare, hworld, plan_bare, hslot]

variable [DecidableEq κ]

/-- Runs what was planned; a refusal leaves the session alone. -/
def carryOut : Except CommandError (Plan κ) → Session κ → Except CommandError (List Text) × Session κ
  | .error e, s => (.error e, s)
  | .ok p,    s => (.ok (p.run s).1, (p.run s).2)

/-- **A line is planned, and the plan is carried out.** -/
theorem run_eq_carryOut (context : Context) (line : Text) (s : Session κ) :
    s.run context line = carryOut (s.planned context line) s := by
  unfold Session.run planned
  cases Command.parse line with
  | error e => rfl
  | ok c    =>
    dsimp only
    unfold Command.run
    cases c.plan s.slot.catalog s.world context <;> rfl

end Session

/-! ## One object -/

/-- The slot with a catalog put in place, if there is one to put. -/
def Slot.take (slot : Slot κ) : Option (Catalog κ) → Slot κ
  | none         => slot
  | some catalog => slot.replace catalog

namespace Plan

variable (p : Plan κ)

/-- What the code makes of an object with this name and component: the line about it, and the cell that is put back. -/
def effect (object : Text) (commandCount : Nat) : Target p.descriptor.owner → Text × Target p.descriptor.owner
  | none      => (errorLine (Failure.missingComponent object p.descriptor.ownerName).message, none)
  | some cell =>
    let label := object ++ "." ++ p.descriptor.name
    let run := p.prepared.answer label commandCount p.descriptor.owner (some cell)
    (run.1.line label, run.2)

/-- The catalog that the code puts in place of the current one. -/
def installed (commandCount : Nat) (target : Target p.descriptor.owner) : Option (Catalog κ) :=
  (p.descriptor.installs p.prepared.values commandCount p.descriptor.owner target).map (.ofDescriptors true)

theorem slotAfter_eq (slot : Slot κ) (target : Target p.descriptor.owner) :
    p.slotAfter slot target = slot.take (p.installed slot.catalog.size target) := by
  unfold slotAfter installed
  cases p.descriptor.installs p.prepared.values slot.catalog.size p.descriptor.owner target <;> rfl

variable [DecidableEq κ]

/-- **On one object, code reads a name, a component and a number, and writes the component and the slot.** -/
theorem runOn_eq (s : Session κ) (i : Nat) :
    let found := s.world.component? i p.descriptor.owner
    let effect := p.effect (s.world.nameAt i) s.slot.catalog.size found
    p.runOn s i = (effect.1, ⟨s.world.restore i p.descriptor.owner effect.2,
      s.slot.take (found.bind fun cell => p.installed s.slot.catalog.size (some cell))⟩) := by
  dsimp only
  cases hfound : s.world.component? i p.descriptor.owner with
  | none      =>
    rw [runOn_of_absent hfound]
    rfl
  | some cell =>
    rw [runOn_of_present hfound, slotAfter_eq]
    dsimp only [effect, answerOn, Option.bind_some]
    cases (p.prepared.answer (s.world.nameAt i ++ "." ++ p.descriptor.name) s.slot.catalog.size p.descriptor.owner
      (some cell)).2 <;> rfl

end Plan
end CommandConsole

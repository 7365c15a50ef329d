import CommandConsole.Proofs.Session.Effect
import CommandConsole.Proofs.Session.TypeSafety
import CommandConsole.Samples.Script
/-!
# Snapshot — a running command keeps the catalog it was planned from

A plan is made from the catalog that is current when a line is entered, and the line is carried out by that plan to its end.
Code that runs meanwhile may put other catalogs in the slot (`Plan.catalogs`).  Of these the rest of the run notices how many
commands they have and no more (`run_installing`); the next line is planned from the last of them (`slot_runEach`).  So code
that takes all commands away and counts them finds them once (`runEach_of_wipes`).
-/
namespace CommandConsole

variable {κ : Type} [ComponentKind κ]

/-- What is said of a command that gave a value. -/
def Prepared.told (label : Text) (v : Value) : Prepared κ → Text
  | .get _            => label ++ " = " ++ v.text
  | .set w _          => label ++ " set to " ++ w.text
  | .call _ returns _ => if returns.isVoid then "Called " ++ label else label ++ " returned " ++ v.text

/-- The code that gives the value which is told. -/
def Prepared.code? : Prepared κ → Option (Access κ Value)
  | .get run       => some run
  | .set _ _       => none
  | .call vs _ run => some (run vs)

theorem answer_of_value {r : Prepared κ} {code : Access κ Value} (hcode : r.code? = some code) {n : Nat} {k : κ}
    {t t' : Target k} {v : Value} (h : code n k t = (.value v, t')) (label : Text) :
    r.answer label n k t = (.value (r.told label v), t') := by
  cases r with
  | get run =>
    cases hcode
    show Access.bind code _ n k t = _
    rw [Access.bind, h]
    rfl
  | set w run => cases hcode
  | call vs returns run =>
    cases hcode
    show Access.bind (run vs) _ n k t = _
    rw [Access.bind, h]
    rfl

theorem Catalog.lookup_empty (name : Text) (v : Verb) : (empty : Catalog κ).lookup name v = none := by
  cases v <;> rfl

namespace Plan

/-- The plan of code that does the same but may put other commands in place. -/
def installing (p : Plan κ) (installs : List Value → Nat → (k : κ) → Target k → Option (List (Descriptor κ))) : Plan κ :=
  { p with descriptor := { p.descriptor with installs } }

/-- How many commands there are once code has run. -/
def countAfter (p : Plan κ) (commandCount : Nat) (target : Target p.descriptor.owner) : Nat :=
  ((p.installed commandCount target).map Catalog.size).getD commandCount

theorem size_slotAfter (p : Plan κ) (slot : Slot κ) (target : Target p.descriptor.owner) :
    (p.slotAfter slot target).catalog.size = p.countAfter slot.catalog.size target := by
  rw [slotAfter_eq, countAfter]
  cases p.installed slot.catalog.size target <;> rfl

/-! ## What the rest of a run notices -/

section
variable {p : Plan κ} {installs : List Value → Nat → (k : κ) → Target k → Option (List (Descriptor κ))}
  (h : ∀ commandCount (target : Target p.descriptor.owner),
    (p.installing installs).countAfter commandCount target = p.countAfter commandCount target)
include h

theorem size_slotAfter_installing {slot slot' : Slot κ} (hsize : slot'.catalog.size = slot.catalog.size)
    (target : Target p.descriptor.owner) :
    ((p.installing installs).slotAfter slot' target).catalog.size = (p.slotAfter slot target).catalog.size := calc
  ((p.installing installs).slotAfter slot' target).catalog.size
    = (p.installing installs).countAfter slot'.catalog.size target := size_slotAfter ..
  _ = p.countAfter slot'.catalog.size target                       := h ..
  _ = p.countAfter slot.catalog.size target                        := by rw [hsize]
  _ = (p.slotAfter slot target).catalog.size                       := (size_slotAfter ..).symm

variable [DecidableEq κ]

theorem runOn_installing {s t : Session κ} (hst : s.Agrees t) (i : Nat) :
    ((p.installing installs).runOn t i).1 = (p.runOn s i).1 ∧
      (p.runOn s i).2.Agrees ((p.installing installs).runOn t i).2 := by
  obtain ⟨w, slot⟩ := s
  obtain ⟨w', slot'⟩ := t
  obtain ⟨hworld, hsize⟩ := hst
  dsimp only at hworld hsize
  subst hworld
  unfold runOn
  dsimp only [installing, Descriptor.ownerName]
  cases w'.component? i p.descriptor.owner with
  | none      => exact ⟨rfl, rfl, hsize⟩
  | some cell =>
    have hafter := size_slotAfter_installing h hsize (some cell)
    dsimp only
    rw [hsize]
    exact ⟨rfl, rfl, hafter⟩

theorem runEach_installing : ∀ (is : List Nat) {s t : Session κ}, s.Agrees t →
    ((p.installing installs).runEach t is).1 = (p.runEach s is).1 ∧
      (p.runEach s is).2.Agrees ((p.installing installs).runEach t is).2
  | [], _, _, hst => ⟨rfl, hst⟩
  | i :: is, s, t, hst => by
    obtain ⟨hline, hst⟩ := runOn_installing h hst i
    obtain ⟨hlines, hst⟩ := runEach_installing is hst
    rw [runEach_cons, runEach_cons, hline, hlines]
    exact ⟨rfl, hst⟩

/-- **Which commands are put in place during a run shows in no line of it**, only how many they are. -/
theorem run_installing (s : Session κ) :
    ((p.installing installs).run s).1 = (p.run s).1 ∧ ((p.installing installs).run s).2.world = (p.run s).2.world := by
  have htargets : (p.installing installs).targets = p.targets := rfl
  unfold run
  rw [htargets]
  cases p.targets with
  | none    => exact ⟨rfl, rfl⟩
  | some is =>
    obtain ⟨hlines, hst⟩ := runEach_installing h is ⟨rfl, rfl⟩
    exact ⟨hlines, hst.world⟩

end

variable [DecidableEq κ]

/-- The catalogs that code puts in the slot, one after the other, as it runs on several objects. -/
def catalogsEach (p : Plan κ) : Session κ → List Nat → List (Catalog κ)
  | _, []      => []
  | s, i :: is =>
    let installed := (s.world.component? i p.descriptor.owner).bind fun cell => p.installed s.slot.catalog.size (some cell)
    installed.toList ++ p.catalogsEach (p.runOn s i).2 is

/-- The catalogs that the code of a plan puts in the slot, one after the other. -/
def catalogs (p : Plan κ) (s : Session κ) : List (Catalog κ) :=
  match p.targets with
  | none    => (p.installed s.slot.catalog.size none).toList
  | some is => p.catalogsEach s is

theorem slot_runEach (p : Plan κ) : ∀ (s : Session κ) (is : List Nat),
    (p.runEach s is).2.slot = (p.catalogsEach s is).foldl Slot.replace s.slot
  | s, []      => rfl
  | s, i :: is => by
    rw [runEach_cons, slot_runEach p (p.runOn s i).2 is, catalogsEach, List.foldl_append, runOn_eq]
    dsimp only
    generalize (s.world.component? i p.descriptor.owner).bind _ = installed
    cases installed <;> rfl

/-- **The slot holds the last of the catalogs that were put there.** -/
theorem slot_run (p : Plan κ) (s : Session κ) : (p.run s).2.slot = (p.catalogs s).foldl Slot.replace s.slot := by
  unfold run catalogs
  cases p.targets with
  | none =>
    show p.slotAfter s.slot none = _
    rw [slotAfter_eq]
    cases p.installed s.slot.catalog.size none <;> rfl
  | some is => exact p.slot_runEach s is

/-! ## Code that takes all commands away -/

/-- The code takes all commands away and gives their number, on a component that is ready for it and stays so. -/
structure Wipes (p : Plan κ) (code : Access κ Value) (ready : Cell (State p.descriptor.owner) → Prop) : Prop where
  runs     : p.prepared.code? = some code
  installs : ∀ commandCount cell, ready cell →
    p.descriptor.installs p.prepared.values commandCount p.descriptor.owner (some cell) = some []
  counts   : ∀ commandCount cell, ready cell → ∃ after, ready after ∧
    code commandCount p.descriptor.owner (some cell) = (.value (.uint commandCount.toUInt64), some after)

/-- What is said of the object at place `i` when the code has given a number. -/
def toldCount (p : Plan κ) (w : World κ) (count : Nat) (i : Nat) : Text :=
  p.prepared.told (w.nameAt i ++ "." ++ p.descriptor.name) (.uint count.toUInt64)

/-- The object at place `i` has the component, and that is ready. -/
def Carries (w : World κ) (k : κ) (ready : Cell (State k) → Prop) (i : Nat) : Prop :=
  ∃ cell, w.component? i k = some cell ∧ ready cell

variable {p : Plan κ} {code : Access κ Value} {ready : Cell (State p.descriptor.owner) → Prop} {s : Session κ} {i : Nat}

theorem runOn_of_wipes (h : p.Wipes code ready) (hi : Carries s.world p.descriptor.owner ready i) :
    (p.runOn s i).1 = p.toldCount s.world s.slot.catalog.size i ∧ (p.runOn s i).2.slot.catalog = .empty ∧
      (p.runOn s i).2.world.bare = s.world.bare ∧
      ∀ j, Carries s.world p.descriptor.owner ready j → Carries (p.runOn s i).2.world p.descriptor.owner ready j := by
  obtain ⟨cell, hfound, hready⟩ := hi
  obtain ⟨after, hafter, hcode⟩ := h.counts s.slot.catalog.size cell hready
  have hanswer := answer_of_value h.runs hcode (s.world.nameAt i ++ "." ++ p.descriptor.name)
  have hinstalled : p.installed s.slot.catalog.size (some cell) = some .empty := by
    rw [installed, h.installs _ cell hready]
    rfl
  rw [runOn_eq, hfound]
  dsimp only [effect, Option.bind_some]
  rw [hanswer, hinstalled]
  refine ⟨rfl, rfl, World.bare_restore .., fun j hj => ?_⟩
  by_cases hij : i = j
  · -- an object may come again: its component was put back, ready
    subst hij
    exact ⟨after, World.component?_putComponent (by rw [hfound]; simp) after, hafter⟩
  · obtain ⟨cell', hfound', hready'⟩ := hj
    refine ⟨cell', ?_, hready'⟩
    rw [← hfound']
    exact World.component?_restore_of_ne (fun h => absurd h hij) (some after)

/-- **All commands are found once**: by the code on the first object. -/
theorem runEach_of_wipes (h : p.Wipes code ready) {is : List Nat} : ∀ {i : Nat} {s : Session κ},
    (∀ j ∈ i :: is, Carries s.world p.descriptor.owner ready j) →
      (p.runEach s (i :: is)).1 = p.toldCount s.world s.slot.catalog.size i :: is.map (p.toldCount s.world 0) ∧
        (p.runEach s (i :: is)).2.slot.catalog = .empty := by
  induction is with
  | nil =>
    intro i s hcarries
    obtain ⟨hline, hcatalog, -, -⟩ := runOn_of_wipes h (hcarries i List.mem_cons_self)
    rw [runEach_cons, hline]
    exact ⟨rfl, hcatalog⟩
  | cons j is ih =>
    intro i s hcarries
    obtain ⟨hline, hcatalog, hbare, hkeep⟩ := runOn_of_wipes h (hcarries i List.mem_cons_self)
    obtain ⟨hlines, hend⟩ := ih fun n hn => hkeep n (hcarries n (List.mem_cons_of_mem i hn))
    -- the others find no command, in a world of the same names
    have htold (count : Nat) : p.toldCount (p.runOn s i).2.world count = p.toldCount s.world count := by
      funext n
      rw [toldCount, toldCount, ← World.nameAt_bare, hbare, World.nameAt_bare]
    rw [runEach_cons, hline, hlines, hcatalog, htold, htold]
    exact ⟨rfl, hend⟩

end Plan

/-! ## Lines -/

variable [DecidableEq κ]

theorem execute_of_planned {c : Console κ} {line : Text} {p : Plan κ}
    (h : c.session.planned c.options.context line = .ok p) :
    c.execute line = (Text.join "\n" (p.run c.session).1, { c with session := (p.run c.session).2 }) := by
  rw [Console.execute, Session.run_eq_carryOut, h]
  rfl

theorem execute_of_not_found {c : Console κ} {line : Text} {cmd : Command} (hparse : Command.parse line = .ok cmd)
    (h : c.catalog.lookup cmd.name cmd.verb = none) :
    c.execute line = (errorLine (CommandError.notFound cmd.verb cmd.name).message, c) := by
  have hplanned : c.session.planned c.options.context line = .error (.notFound cmd.verb cmd.name) := by
    rw [Session.planned, hparse]
    exact plan_eq_error_iff.2 (.inl ⟨h, rfl⟩)
  rw [Console.execute, Session.run_eq_carryOut, hplanned]
  rfl

/-- **A running command keeps the catalog it was planned from.**  Its descriptor, the types of its values and its code are
those of the catalog that was current when the line was entered, on every object; code that replaces the catalog meanwhile
shows in the lines by the number of commands alone, and the next line is planned from the last catalog put in place.  So
code that takes all commands away and counts them counts them all on the first of its objects and none on the others, and
after it no command is found. -/
theorem execute_snapshot {c : Console κ} {line : Text} {cmd : Command} {p : Plan κ} (hparse : Command.parse line = .ok cmd)
    (hplan : cmd.plan c.catalog c.session.world c.options.context = .ok p) :
    let s := c.session
    let after := (c.execute line).2
    (c.catalog.lookup cmd.name cmd.verb = some p.descriptor ∧ p.descriptor.invoker.Admits p.prepared) ∧
      c.execute line = (Text.join "\n" (p.run s).1, { c with session := (p.run s).2 }) ∧
      (∀ is i js, p.targets = some (is ++ i :: js) →
        let before := (p.runEach s is).2
        (p.run s).1[is.length]? = some (p.effect (before.world.nameAt i) before.slot.catalog.size
          (before.world.component? i p.descriptor.owner)).1) ∧
      (∀ installs, (∀ commandCount (target : Target p.descriptor.owner),
          (p.installing installs).countAfter commandCount target = p.countAfter commandCount target) →
        ((p.installing installs).run s).1 = (p.run s).1 ∧ ((p.installing installs).run s).2.world = (p.run s).2.world) ∧
      after.session.slot = (p.catalogs s).foldl Slot.replace s.slot ∧
      (∀ next cmd' q, Command.parse next = .ok cmd' →
        cmd'.plan after.catalog after.session.world after.options.context = .ok q →
          (after.execute next).1 = Text.join "\n" (q.run after.session).1) ∧
      ∀ code ready i is, p.Wipes code ready → p.targets = some (i :: is) →
        (∀ j ∈ i :: is, Plan.Carries s.world p.descriptor.owner ready j) →
          (p.run s).1 = p.toldCount s.world c.catalog.size i :: is.map (p.toldCount s.world 0) ∧
            (∀ name v, after.catalog.lookup name v = none) ∧
            ∀ next cmd', Command.parse next = .ok cmd' →
              after.execute next = (errorLine (CommandError.notFound cmd'.verb cmd'.name).message, after) := by
  intro s after
  have hexecute := execute_of_planned (Session.planned_eq_ok_iff.2 ⟨cmd, hparse, hplan⟩)
  have hafter : after.session = (p.run s).2 := congrArg (fun r => r.2.session) hexecute
  refine ⟨⟨(plan_eq_ok_iff.1 hplan).1, admits_of_plan hplan⟩, hexecute, ?_, ?_, ?_, ?_, ?_⟩
  · intro is i js htargets before
    rw [Plan.run_of_targets htargets, Plan.runEach_around]
    dsimp only
    rw [← Plan.length_runEach p s is, List.getElem?_append_right (Nat.le_refl _), Nat.sub_self, List.getElem?_cons_zero,
      Plan.runOn_eq]
  · exact fun installs h => Plan.run_installing h s
  · rw [hafter, Plan.slot_run]
  · intro next cmd' q hnext hq
    rw [execute_of_planned (Session.planned_eq_ok_iff.2 ⟨cmd', hnext, hq⟩)]
  · intro code ready i is hwipes htargets hcarries
    have hrun := Plan.run_of_targets htargets s
    obtain ⟨hlines, hempty⟩ := Plan.runEach_of_wipes hwipes hcarries
    rw [← hrun, ← hafter] at hempty
    have hlookup (name : Text) (v : Verb) : after.catalog.lookup name v = none := by
      rw [Console.catalog, hempty, Catalog.lookup_empty]
    refine ⟨?_, hlookup, fun next cmd' hnext => ?_⟩
    · rw [hrun, hlines]
      rfl
    · exact execute_of_not_found hnext (hlookup _ _)

/-- Two objects share a tag; the only command takes all commands away. -/
theorem execute_snapshot_wiped :
    ∃ c : Console Samples.Kind,
      (c.execute ("##T call w" : String)).1 = "A.w returned 1\nB.w returned 0" ∧
        ((c.execute ("##T call w" : String)).2.execute ("##T call w" : String)).1 =
          "Error: no command 'w' accepts 'call'" := by
  let m : Samples.ScriptedMember :=
    ⟨['w'], ['R'], .call, [], .unsigned .bits64, none, false, false, false, .wipe⟩
  let object (name : Char) : Entity Samples.Kind :=
    ⟨[name], ['T'], ComponentSet.empty.insert (.record ['R'] : Samples.Kind) (NameMap.empty : Samples.Record)⟩
  let c : Console Samples.Kind :=
    ⟨⟨.ofEntities [object 'A', object 'B'] [], ⟨⟨⟨[(['w'], m.descriptor)]⟩, .empty, .empty, .empty, .empty⟩, 0⟩⟩, {}⟩
  let cmd : Command := ⟨some (.marked .allTags ['T']), .call, ['w'], []⟩
  have hwords : words ("##T call w" : String) = [['#', '#', 'T'], ['c', 'a', 'l', 'l'], ['w']] := by decide +kernel
  have hlower : Text.lower ['w'] = ['w'] := by decide +kernel
  have hparse : Command.parse ("##T call w" : String) = .ok cmd := by
    rw [Command.parse, hwords]
    show Except.ok (Command.mk _ _ (Text.lower ['w']) _) = _
    rw [hlower]
    rfl
  let code : Access Samples.Kind Value := Samples.Action.run ['R'] [] .wipe
  let p : Plan Samples.Kind :=
    ⟨m.descriptor, some [0, 1], .call [] (.unsigned .bits64) fun vs => Samples.Action.run ['R'] vs .wipe⟩
  have hplan : cmd.plan c.catalog c.session.world c.options.context = .ok p := rfl
  obtain ⟨-, hexecute, -, -, -, -, hwipe⟩ := execute_snapshot hparse hplan
  have hwipes : p.Wipes code fun _ => True := ⟨rfl, fun _ _ _ => rfl, fun _ cell _ => ⟨cell, trivial, rfl⟩⟩
  obtain ⟨hlines, -, hnext⟩ := hwipe code (fun _ => True) 0 [1] hwipes rfl (by
    intro j hj
    rcases List.mem_cons.1 hj with rfl | hj
    · exact ⟨_, rfl, trivial⟩
    · cases List.mem_singleton.1 hj
      exact ⟨_, rfl, trivial⟩)
  refine ⟨c, ?_, ?_⟩
  · have hsize : c.catalog.size = 1 := rfl
    rw [hexecute, hlines, hsize]
    rfl
  · rw [hnext _ _ hparse]
    rfl

end CommandConsole

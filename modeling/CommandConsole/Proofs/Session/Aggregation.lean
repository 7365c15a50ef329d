import CommandConsole.Proofs.Session.Preparation
import CommandConsole.Samples.Kind
/-!
# Aggregation — one line for each object

A command runs on its objects one after the other, each in the session that those before it left (`runEach_append`).  An
object on which it fails answers with an error line and the rest still run; if the code wrote nothing there, the run is
the run on the other objects with that line put in (`runEach_of_silent`).
-/
namespace CommandConsole

variable {κ : Type} [ComponentKind κ] [DecidableEq κ]

/-! ## Cells put back as they were -/

theorem putSlot_of_findSlot {k : κ} {cell : Cell (State k)} : ∀ {l : List ((k : κ) × Cell (State k))},
    ComponentSet.findSlot k l = some cell → ComponentSet.putSlot k cell l = l
  | [], h => by cases h
  | ⟨j, c⟩ :: l, h => by
    unfold ComponentSet.findSlot at h
    unfold ComponentSet.putSlot
    split at h
    · rename_i hj
      dsimp only at hj
      subst hj
      cases h
      exact if_pos rfl
    · rename_i hj
      rw [if_neg hj, putSlot_of_findSlot h]

/-- Putting back the component that is there changes nothing. -/
theorem putComponent_of_component? {w : World κ} {i : Nat} {k : κ} {cell : Cell (State k)}
    (h : w.component? i k = some cell) : w.putComponent i k cell = w := by
  obtain ⟨e, he, hfind⟩ := Option.bind_eq_some_iff.1 h
  obtain ⟨hi, rfl⟩ := List.getElem?_eq_some_iff.1 he
  have hput : w.entities[i].components.put k cell = w.entities[i].components := by
    rw [ComponentSet.put, putSlot_of_findSlot hfind]
  have hentities : w.entities.modify i (fun e => { e with components := e.components.put k cell }) = w.entities := by
    rw [List.modify_eq_take_cons_drop hi, hput, List.getElem_cons_drop, List.take_append_drop]
  rw [World.putComponent, hentities]

namespace Plan

/-! ## One object -/

/-- What the code does on the component of the object at place `i`. -/
def answerOn (p : Plan κ) (s : Session κ) (i : Nat) (cell : Cell (State p.descriptor.owner)) :
    Reply Text × Target p.descriptor.owner :=
  p.prepared.answer (s.world.nameAt i ++ "." ++ p.descriptor.name) s.slot.catalog.size p.descriptor.owner (some cell)

/-- The failure on the object at place `i`: it has no component of the owner, or the code returns an error or panics. -/
def failure? (p : Plan κ) (s : Session κ) (i : Nat) : Option Failure :=
  let object := s.world.nameAt i
  match s.world.component? i p.descriptor.owner with
  | none      => some (.missingComponent object p.descriptor.ownerName)
  | some cell =>
    let label := object ++ "." ++ p.descriptor.name
    match (p.answerOn s i cell).1 with
    | .value _ => none
    | .error e => some (.invocation label e)
    | .panic m => some (.panicked label m)

/-- The code writes nothing on the object at place `i`: a component stays as it is, and so does the catalog. -/
def Silent (p : Plan κ) (s : Session κ) (i : Nat) : Prop :=
  ∀ cell, s.world.component? i p.descriptor.owner = some cell →
    (∀ after, (p.answerOn s i cell).2 = some after → after = cell) ∧
      p.descriptor.installs p.prepared.values s.slot.catalog.size p.descriptor.owner (some cell) = none

theorem runOn_of_absent {p : Plan κ} {s : Session κ} {i : Nat} (h : s.world.component? i p.descriptor.owner = none) :
    p.runOn s i = (errorLine (Failure.missingComponent (s.world.nameAt i) p.descriptor.ownerName).message, s) := by
  simp only [runOn, h]

theorem runOn_of_present {p : Plan κ} {s : Session κ} {i : Nat} {cell : Cell (State p.descriptor.owner)}
    (h : s.world.component? i p.descriptor.owner = some cell) :
    p.runOn s i = ((p.answerOn s i cell).1.line (s.world.nameAt i ++ "." ++ p.descriptor.name),
      ⟨match (p.answerOn s i cell).2 with
        | some after => s.world.putComponent i p.descriptor.owner after
        | none       => s.world, p.slotAfter s.slot (some cell)⟩) := by
  simp only [runOn, h, answerOn]
  cases (p.prepared.answer (s.world.nameAt i ++ "." ++ p.descriptor.name) s.slot.catalog.size p.descriptor.owner
    (some cell)).2 <;> rfl

/-- **An object on which the command fails answers with the line of the failure.** -/
theorem line_of_failure? {p : Plan κ} {s : Session κ} {i : Nat} {f : Failure} (h : p.failure? s i = some f) :
    (p.runOn s i).1 = errorLine f.message := by
  unfold failure? at h
  cases hc : s.world.component? i p.descriptor.owner with
  | none =>
    rw [hc] at h
    cases h
    rw [runOn_of_absent hc]
  | some cell =>
    rw [hc] at h
    rw [runOn_of_present hc]
    dsimp only at h ⊢
    split at h
    · cases h
    · rename_i e he
      cases h
      rw [he]
      rfl
    · rename_i m hm
      cases h
      rw [hm]
      rfl

/-- An object on which the code writes nothing leaves the session as it was. -/
theorem session_of_silent {p : Plan κ} {s : Session κ} {i : Nat} (h : p.Silent s i) : (p.runOn s i).2 = s := by
  cases hc : s.world.component? i p.descriptor.owner with
  | none      => rw [runOn_of_absent hc]
  | some cell =>
    obtain ⟨hcell, hinstalls⟩ := h cell hc
    have hslot : p.slotAfter s.slot (some cell) = s.slot := by rw [slotAfter, hinstalls]
    rw [runOn_of_present hc, hslot]
    dsimp only
    split
    · rename_i after hafter
      cases hcell after hafter
      rw [putComponent_of_component? hc]
    · rfl

/-! ## Several objects -/

theorem run_of_targets {p : Plan κ} {is : List Nat} (h : p.targets = some is) (s : Session κ) :
    p.run s = p.runEach s is := by
  rw [run, h]

theorem runEach_cons (p : Plan κ) (s : Session κ) (i : Nat) (is : List Nat) : p.runEach s (i :: is) =
    ((p.runOn s i).1 :: (p.runEach (p.runOn s i).2 is).1, (p.runEach (p.runOn s i).2 is).2) := rfl

/-- **Running is sequential**: the objects of a second list run in the session that those of the first left. -/
theorem runEach_append (p : Plan κ) : ∀ (s : Session κ) (is js : List Nat), p.runEach s (is ++ js) =
    ((p.runEach s is).1 ++ (p.runEach (p.runEach s is).2 js).1, (p.runEach (p.runEach s is).2 js).2)
  | s, [],      js => rfl
  | s, i :: is, js => by
    rw [List.cons_append, runEach_cons, runEach_append p (p.runOn s i).2 is js]
    rfl

theorem length_runEach (p : Plan κ) : ∀ (s : Session κ) (is : List Nat), (p.runEach s is).1.length = is.length
  | s, []      => rfl
  | s, i :: is => by rw [runEach_cons, List.length_cons, length_runEach, List.length_cons]

/-- The run around one object, wherever it stands. -/
theorem runEach_around (p : Plan κ) (s : Session κ) (is : List Nat) (i : Nat) (js : List Nat) :
    let before := (p.runEach s is).2
    let rest := p.runEach (p.runOn before i).2 js
    p.runEach s (is ++ i :: js) = ((p.runEach s is).1 ++ (p.runOn before i).1 :: rest.1, rest.2) := by
  rw [runEach_append, runEach_cons]

/-- **An object on which nothing is written adds its line and nothing else.** -/
theorem runEach_of_silent {p : Plan κ} {s : Session κ} {is : List Nat} {i : Nat} (h : p.Silent (p.runEach s is).2 i)
    (js : List Nat) :
    p.runEach s (is ++ js) =
      ((p.runEach s (is ++ i :: js)).1.eraseIdx is.length, (p.runEach s (is ++ i :: js)).2) := by
  rw [runEach_around, runEach_append, session_of_silent h, ← length_runEach p s is, List.eraseIdx_append_of_length_le]
  · simp
  · exact Nat.le_refl _

end Plan

/-! ## Commands -/

/-- **A command of an instance runs on its objects one by one.**  It answers with one line for each, in order, and each
runs in the session that those before it left.  An object on which it fails answers with its error line, and those after
it run all the same; if nothing was written there, the object can be left out. -/
theorem run_aggregates {c : Command} {context : Context} {s s' : Session κ} {lines : List Text} {d : Descriptor κ}
    (hd : s.slot.catalog.lookup c.name c.verb = some d) (hinstance : d.isStatic = false)
    (hrun : c.run context s = (.ok lines, s')) :
    ∃ p selector places, c.plan s.slot.catalog s.world context = .ok p ∧ p.descriptor = d ∧
      c.target = some selector ∧ selector.resolve s.world context = .ok places ∧
      p.runEach s places = (lines, s') ∧ lines.length = places.length ∧
      (∀ t is js, p.runEach t (is ++ js) =
        ((p.runEach t is).1 ++ (p.runEach (p.runEach t is).2 js).1, (p.runEach (p.runEach t is).2 js).2)) ∧
      ∀ t is i js,
        let before := (p.runEach t is).2
        let rest := p.runEach (p.runOn before i).2 js
        let whole := p.runEach t (is ++ i :: js)
        whole = ((p.runEach t is).1 ++ (p.runOn before i).1 :: rest.1, rest.2) ∧
          (∀ f, p.failure? before i = some f → (p.runOn before i).1 = ("Error: " : Text) ++ f.message) ∧
          (p.Silent before i → p.runEach t (is ++ js) = (whole.1.eraseIdx is.length, whole.2)) := by
  obtain ⟨p, hplan, hp⟩ := run_eq_ok_iff.1 hrun
  obtain ⟨hlookup, htargets, -⟩ := plan_eq_ok_iff.1 hplan
  cases hd.symm.trans hlookup
  obtain ⟨selector, places, htarget, hresolve, hplaces⟩ := targets_eq_ok hinstance htargets
  rw [Plan.run_of_targets hplaces] at hp
  have hlength : lines.length = places.length := by
    have := p.length_runEach s places
    rwa [hp] at this
  refine ⟨p, selector, places, hplan, rfl, htarget, hresolve, hp, hlength, p.runEach_append, ?_⟩
  intro t is i js before rest whole
  refine ⟨?_, fun f hf => ?_, fun hsilent => ?_⟩
  · exact Plan.runEach_around p t is i js
  · exact Plan.line_of_failure? hf
  · exact Plan.runEach_of_silent hsilent js

/-- Four runs on three objects: one is selected twice, one has no component and one makes the code panic. -/
theorem run_aggregates_selection :
    ∃ (s : Session Samples.Kind) (p : Plan Samples.Kind),
      let c : Command := ⟨some .selection, .call, ['f'], []⟩
      c.plan s.slot.catalog s.world .interactive = .ok p ∧
      c.run .interactive s = (.ok [("Called A.f" : Text), ("Error: B has no R component" : Text),
        ("Error: C.f panicked: empty" : Text), ("Called A.f" : Text)], s) ∧
      p.runEach s [0, 1, 0] =
        ([("Called A.f" : Text), ("Error: B has no R component" : Text), ("Called A.f" : Text)], s) := by
  let kind : Samples.Kind := .record ['R']
  let code (_ : List Value) : Access Samples.Kind Value :=
    Access.withRef kind (fun r => if r.entries.isEmpty then Access.panic (some ("empty" : Text)) else Access.pure .unit)
  let d : Descriptor Samples.Kind := .callable ['f'] kind [] .void code
  let object (name : Char) (components : ComponentSet Samples.Kind) : Entity Samples.Kind := ⟨[name], [], components⟩
  let record (entries : List (Text × Value)) : ComponentSet Samples.Kind :=
    ComponentSet.empty.insert kind (⟨entries⟩ : Samples.Record)
  let w : World Samples.Kind :=
    .ofEntities [object 'A' (record [(['x'], .unit)]), object 'B' .empty, object 'C' (record [])] [0, 1, 2, 0]
  let s : Session Samples.Kind := ⟨w, ⟨⟨⟨[(['f'], d)]⟩, .empty, .empty, .empty, .empty⟩, 0⟩⟩
  let c : Command := ⟨some .selection, .call, ['f'], []⟩
  have hrun : c.run .interactive s = (.ok [("Called A.f" : Text), ("Error: B has no R component" : Text),
      ("Error: C.f panicked: empty" : Text), ("Called A.f" : Text)], s) := by rfl
  have hd : s.slot.catalog.lookup c.name c.verb = some d := rfl
  have hplan : c.plan s.slot.catalog s.world .interactive = .ok ⟨d, some [0, 1, 2, 0], .call [] .void code⟩ := rfl
  obtain ⟨p, _, _, hp, -, htarget, hresolve, heach, -, -, hlaws⟩ := run_aggregates hd rfl hrun
  cases htarget
  cases hresolve
  cases hplan.symm.trans hp
  have hsilent : Plan.Silent ⟨d, some [0, 1, 2, 0], .call [] .void code⟩ s 2 := by
    intro cell hcell
    cases hcell
    exact ⟨fun after h => by cases h; rfl, rfl⟩
  have hleft := (hlaws s [0, 1] 2 [0]).2.2 hsilent
  have heach : Plan.runEach _ s ([0, 1] ++ 2 :: [0]) = _ := heach
  rw [heach] at hleft
  exact ⟨s, _, hplan, hrun, hleft⟩

end CommandConsole

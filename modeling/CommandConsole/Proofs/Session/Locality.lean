import CommandConsole.Proofs.Session.Effect
import CommandConsole.Samples.Script
/-!
# Locality — lines that do not meet run in either order

A line reaches the components of one kind on the objects that its selector resolves to (`Session.Reaches`).  Whatever its
code does, no other component changes (`Session.run_beyond`).  Code that leaves the catalog alone (`Plan.Confined`) writes
the components it reaches and reads nothing else that such code writes, so two lines of it that reach nothing in common give
the same answers and the same console in either order (`Session.run_comm`).

Commuting is proved on one object (`runOn_commutes`), lifted along the lists of objects (`Commutes.runEach`) and from there
to lines, whose plans stay the same (`planned_congr`).
-/
namespace CommandConsole

/-! ## Steps that commute -/

/-- Two steps answer the same and end the same, whichever goes first. -/
structure Commutes {σ α β : Type} (f : σ → α × σ) (g : σ → β × σ) : Prop where
  first  : ∀ s, (f (g s).2).1 = (f s).1
  second : ∀ s, (g (f s).2).1 = (g s).1
  state  : ∀ s, (g (f s).2).2 = (f (g s).2).2

theorem Commutes.symm {σ α β : Type} {f : σ → α × σ} {g : σ → β × σ} (h : Commutes f g) : Commutes g f :=
  ⟨h.second, h.first, fun s => (h.state s).symm⟩

/-- A step that changes nothing commutes with any that does not change its answer. -/
theorem commutes_of_idle {σ α β : Type} {f : σ → α × σ} {g : σ → β × σ} (hidle : ∀ s, (f s).2 = s)
    (hanswer : ∀ s, (f (g s).2).1 = (f s).1) : Commutes f g := by
  refine ⟨hanswer, fun s => ?_, fun s => ?_⟩
  · rw [hidle]
  · rw [hidle, hidle]

variable {κ : Type} [ComponentKind κ]

/-! ## What is reached -/

namespace Plan

/-- The components that a plan runs on: those of its descriptor's owner, on its objects. -/
def Reaches (p : Plan κ) (i : Nat) (k : κ) : Prop := ∃ is, p.targets = some is ∧ i ∈ is ∧ k = p.descriptor.owner

/-- The code leaves the catalog alone. -/
def Confined (p : Plan κ) : Prop :=
  ∀ commandCount target, p.descriptor.installs p.prepared.values commandCount p.descriptor.owner target = none

variable {p q : Plan κ}

theorem Confined.installed (h : p.Confined) (commandCount : Nat) (target : Target p.descriptor.owner) :
    p.installed commandCount target = none := by
  rw [Plan.installed, h]
  rfl

theorem Confined.runStatic (h : p.Confined) (s : Session κ) : (p.runStatic s).2 = s := by
  have hslot : p.slotAfter s.slot none = s.slot := by rw [slotAfter_eq, h.installed]; rfl
  rw [Plan.runStatic, hslot]

end Plan

namespace Session

/-- The components that a line runs on, in this session. -/
def Reaches (context : Context) (line : Text) (s : Session κ) (i : Nat) (k : κ) : Prop :=
  ∃ p, s.planned context line = .ok p ∧ p.Reaches i k

/-- The code that a line runs, in this session, leaves the catalog alone. -/
def Confines (context : Context) (line : Text) (s : Session κ) : Prop :=
  ∀ p, s.planned context line = .ok p → p.Confined

/-- What a line reaches is on the objects that its selector resolves to, and of its command's owner. -/
theorem Reaches.resolved {context : Context} {line : Text} {s : Session κ} {i : Nat} {k : κ}
    (h : s.Reaches context line i k) :
    ∃ c d selector is, Command.parse line = .ok c ∧ s.slot.catalog.lookup c.name c.verb = some d ∧
      c.target = some selector ∧ selector.resolve s.world context = .ok is ∧ i ∈ is ∧ k = d.owner := by
  obtain ⟨p, hp, is, htargets, hi, hk⟩ := h
  obtain ⟨c, hparse, hplan⟩ := planned_eq_ok_iff.1 hp
  obtain ⟨hlookup, hreached, -⟩ := plan_eq_ok_iff.1 hplan
  have hinstance : p.descriptor.isStatic = false := by
    cases hstatic : p.descriptor.isStatic with
    | false => rfl
    | true  =>
      unfold Descriptor.targets at hreached
      rw [if_pos hstatic, htargets] at hreached
      cases hreached
  obtain ⟨selector, places, hselector, hresolve, hplaces⟩ := targets_eq_ok hinstance hreached
  cases htargets.symm.trans hplaces
  exact ⟨c, p.descriptor, selector, is, hparse, hlookup, hselector, hresolve, hi, hk⟩

end Session

/-! ## What stays -/

/-- Nothing has changed but components among those that may have been reached. -/
structure Session.AlikeBeyond [DecidableEq κ] (reached : Nat → κ → Prop) (s t : Session κ) : Prop where
  bare      : t.world.bare = s.world.bare
  component : ∀ i k, ¬ reached i k → t.world.component? i k = s.world.component? i k

variable [DecidableEq κ] {p q : Plan κ} {i j : Nat} {s t u : Session κ} {reached : Nat → κ → Prop}

theorem Session.AlikeBeyond.refl (s : Session κ) : s.AlikeBeyond reached s := ⟨rfl, fun _ _ _ => rfl⟩

theorem Session.AlikeBeyond.trans (h : s.AlikeBeyond reached t) (h' : t.AlikeBeyond reached u) : s.AlikeBeyond reached u :=
  ⟨h'.bare.trans h.bare, fun i k hik => (h'.component i k hik).trans (h.component i k hik)⟩

namespace Plan

/-- **On one object, code changes no component but the one it is handed.** -/
theorem runOn_beyond (hi : reached i p.descriptor.owner) (s : Session κ) : s.AlikeBeyond reached (p.runOn s i).2 := by
  rw [runOn_eq]
  refine ⟨World.bare_restore .., fun j k hjk => ?_⟩
  refine World.component?_restore_of_ne (fun hij hk => hjk ?_) _
  rw [← hij, ← hk]
  exact hi

theorem runEach_beyond : ∀ (is : List Nat), (∀ i ∈ is, reached i p.descriptor.owner) → ∀ s : Session κ,
    s.AlikeBeyond reached (p.runEach s is).2
  | [],      _,   s => .refl s
  | i :: is, his, s => by
    rw [runEach_cons]
    obtain ⟨hi, his⟩ := List.forall_mem_cons.1 his
    exact (runOn_beyond hi s).trans (runEach_beyond is his _)

theorem run_beyond (p : Plan κ) (s : Session κ) : s.AlikeBeyond p.Reaches (p.run s).2 := by
  cases htargets : p.targets with
  | none =>
    rw [run, htargets]
    exact ⟨rfl, fun _ _ _ => rfl⟩
  | some is =>
    rw [run_of_targets htargets]
    exact runEach_beyond is (fun i hi => ⟨is, htargets, hi, rfl⟩) s

theorem Confined.slot_runOn (h : p.Confined) (s : Session κ) (i : Nat) : (p.runOn s i).2.slot = s.slot := by
  rw [runOn_eq]
  cases s.world.component? i p.descriptor.owner with
  | none      => rfl
  | some cell =>
    rw [Option.bind_some, h.installed]
    rfl

theorem Confined.slot_runEach (h : p.Confined) : ∀ (s : Session κ) (is : List Nat), (p.runEach s is).2.slot = s.slot
  | s, []      => rfl
  | s, i :: is => by rw [runEach_cons, h.slot_runEach, h.slot_runOn]

theorem Confined.slot_run (h : p.Confined) (s : Session κ) : (p.run s).2.slot = s.slot := by
  unfold run
  cases p.targets with
  | none    => exact congrArg Session.slot (h.runStatic s)
  | some is => exact h.slot_runEach s is

/-! ## Commuting -/

/-- Code finds the same after code that ran on another object, or on another kind of component. -/
theorem found_after_runOn (hq : q.Confined) (hne : i = j → p.descriptor.owner ≠ q.descriptor.owner) (s : Session κ) :
    let t := (q.runOn s j).2
    t.world.component? i p.descriptor.owner = s.world.component? i p.descriptor.owner ∧
      t.world.nameAt i = s.world.nameAt i ∧ t.slot = s.slot := by
  have hbeyond : s.AlikeBeyond (fun n k => n = j ∧ k = q.descriptor.owner) (q.runOn s j).2 := runOn_beyond ⟨rfl, rfl⟩ s
  refine ⟨hbeyond.component _ _ fun h => hne h.1 h.2, ?_, hq.slot_runOn s j⟩
  rw [← World.nameAt_bare, hbeyond.bare, World.nameAt_bare]

theorem line_after_runOn (hq : q.Confined) (hne : i = j → p.descriptor.owner ≠ q.descriptor.owner) (s : Session κ) :
    (p.runOn (q.runOn s j).2 i).1 = (p.runOn s i).1 := by
  obtain ⟨hcomponent, hname, hslot⟩ := found_after_runOn hq hne s
  rw [runOn_eq, runOn_eq p, hcomponent, hname, hslot]

/-- **Two confined codes commute on different components.** -/
theorem runOn_commutes (hp : p.Confined) (hq : q.Confined) (hne : i = j → p.descriptor.owner ≠ q.descriptor.owner) :
    Commutes (p.runOn · i) (q.runOn · j) := by
  have hne' : j = i → q.descriptor.owner ≠ p.descriptor.owner := fun h => (hne h.symm).symm
  refine ⟨line_after_runOn hq hne, line_after_runOn hp hne', fun s => ?_⟩
  obtain ⟨hcomponent, hname, hslot⟩ := found_after_runOn hq hne s
  obtain ⟨hcomponent', hname', hslot'⟩ := found_after_runOn hp hne' s
  -- in either order the same two cells are put back, each where one was found
  have hworld : (q.runOn (p.runOn s i).2 j).2.world = (p.runOn (q.runOn s j).2 i).2.world := by
    rw [runOn_eq q (p.runOn s i).2, runOn_eq p (q.runOn s j).2, hcomponent, hname, hslot, hcomponent', hname', hslot',
      runOn_eq p s, runOn_eq q s]
    refine World.restore_comm hne (fun hnone => ?_) _
    rw [hnone]
    rfl
  have hslots : (q.runOn (p.runOn s i).2 j).2.slot = (p.runOn (q.runOn s j).2 i).2.slot := by
    rw [hq.slot_runOn, hp.slot_runOn, hp.slot_runOn, hq.slot_runOn]
  exact Session.ext hworld hslots

end Plan

/-- **A step that commutes with code on each object commutes with the run on all of them.** -/
theorem Commutes.runEach {α : Type} {f : Session κ → α × Session κ} : ∀ {js : List Nat},
    (∀ j ∈ js, Commutes f (q.runOn · j)) → Commutes f (q.runEach · js)
  | [], _ => ⟨fun _ => rfl, fun _ => rfl, fun _ => rfl⟩
  | j :: js, h => by
    obtain ⟨hj, hjs⟩ := List.forall_mem_cons.1 h
    have ih := Commutes.runEach hjs
    -- the step is moved past the first object and then past the others
    refine ⟨fun s => ?_, fun s => ?_, fun s => ?_⟩
    · rw [Plan.runEach_cons, ih.first, hj.first]
    · rw [Plan.runEach_cons, Plan.runEach_cons, hj.second, hj.state, ih.second]
    · rw [Plan.runEach_cons, Plan.runEach_cons, hj.state, ih.state]

namespace Plan

/-- Code without an instance commutes with all that leaves the slot alone. -/
theorem run_commutes_of_static {α : Type} (htargets : p.targets = none) (hp : p.Confined) {g : Session κ → α × Session κ}
    (hg : ∀ s, (g s).2.slot = s.slot) : Commutes p.run g := by
  refine commutes_of_idle (fun s => ?_) fun s => ?_
  · rw [run, htargets]
    exact hp.runStatic s
  · simp only [run, htargets, runStatic, hg]

/-- **Confined plans that reach nothing in common commute.** -/
theorem run_commutes (hp : p.Confined) (hq : q.Confined) (hdisjoint : ∀ i k, p.Reaches i k → ¬ q.Reaches i k) :
    Commutes p.run q.run := by
  cases hps : p.targets with
  | none    => exact run_commutes_of_static hps hp hq.slot_run
  | some is =>
    cases hqs : q.targets with
    | none    => exact (run_commutes_of_static hqs hq hp.slot_run).symm
    | some js =>
      have hprun : p.run = (p.runEach · is) := funext (run_of_targets hps)
      have hqrun : q.run = (q.runEach · js) := funext (run_of_targets hqs)
      rw [hprun, hqrun]
      refine .runEach fun j hj => .symm (.runEach fun i hi => .symm (runOn_commutes hp hq fun hij hk => ?_))
      exact hdisjoint i p.descriptor.owner ⟨is, hps, hi, rfl⟩ ⟨js, hqs, hij ▸ hj, hk⟩

end Plan

/-! ## Lines -/

namespace Session

theorem run_beyond (context : Context) (line : Text) (s : Session κ) :
    s.AlikeBeyond (s.Reaches context line) (s.run context line).2 := by
  rw [run_eq_carryOut]
  cases hp : s.planned context line with
  | error e => exact .refl s
  | ok p    =>
    have h := p.run_beyond s
    exact ⟨h.bare, fun i k hik => h.component i k fun hreach => hik ⟨p, hp, hreach⟩⟩

variable {context : Context} {a b : Text}

theorem Confines.slot_run (h : s.Confines context a) : (s.run context a).2.slot = s.slot := by
  rw [run_eq_carryOut]
  cases hp : s.planned context a with
  | error e => rfl
  | ok p    => exact (h p hp).slot_run s

/-- **A line is planned alike before and after a confined one.** -/
theorem Confines.planned_run (h : s.Confines context a) (line : Text) :
    (s.run context a).2.planned context line = s.planned context line :=
  planned_congr (s.run_beyond context a).bare h.slot_run context line

theorem carryOut_commutes {x y : Except CommandError (Plan κ)} (hx : ∀ p, x = .ok p → p.Confined)
    (hy : ∀ q, y = .ok q → q.Confined) (hdisjoint : ∀ p q, x = .ok p → y = .ok q → ∀ i k, p.Reaches i k → ¬ q.Reaches i k) :
    Commutes (carryOut x) (carryOut y) := by
  cases x with
  | error e => exact commutes_of_idle (fun _ => rfl) fun _ => rfl
  | ok p    =>
    cases y with
    | error e => exact (commutes_of_idle (fun _ => rfl) fun _ => rfl : Commutes (carryOut (.error e)) _).symm
    | ok q    =>
      have h := Plan.run_commutes (hx p rfl) (hy q rfl) (hdisjoint p q rfl rfl)
      exact ⟨fun s => congrArg Except.ok (h.first s), fun s => congrArg Except.ok (h.second s), h.state⟩

/-- **Confined lines that reach nothing in common run in either order.** -/
theorem run_comm (ha : s.Confines context a) (hb : s.Confines context b)
    (hdisjoint : ∀ i k, s.Reaches context a i k → ¬ s.Reaches context b i k) :
    ((s.run context b).2.run context a).1 = (s.run context a).1 ∧
      ((s.run context a).2.run context b).1 = (s.run context b).1 ∧
      ((s.run context a).2.run context b).2 = ((s.run context b).2.run context a).2 := by
  have h := carryOut_commutes ha hb fun p q hp hq i k hpk hqk => hdisjoint i k ⟨p, hp, hpk⟩ ⟨q, hq, hqk⟩
  rw [run_eq_carryOut context b (s.run context a).2, run_eq_carryOut context a (s.run context b).2, ha.planned_run,
    hb.planned_run, run_eq_carryOut context a s, run_eq_carryOut context b s]
  exact ⟨h.first s, h.second s, h.state s⟩

end Session

/-- **Lines are local, and those that do not meet commute.**  A line changes nothing but components of its command's owner on
the objects that its selector resolves to.  If the code of two lines leaves the catalog alone and they reach no component in
common, each answers the same before and after the other, and both orders end in the same console. -/
theorem execute_local (c : Console κ) (a b : Text) :
    let s := c.session
    let context := c.options.context
    (∀ i k, s.Reaches context a i k → ∃ cmd d selector is, Command.parse a = .ok cmd ∧
        c.catalog.lookup cmd.name cmd.verb = some d ∧ cmd.target = some selector ∧
        selector.resolve s.world context = .ok is ∧ i ∈ is ∧ k = d.owner) ∧
      (∀ i k, ¬ s.Reaches context a i k → (c.execute a).2.session.world.component? i k = s.world.component? i k) ∧
      (c.execute a).2.session.world.bare = s.world.bare ∧
      (s.Confines context a → s.Confines context b → (∀ i k, s.Reaches context a i k → ¬ s.Reaches context b i k) →
        ((c.execute b).2.execute a).1 = (c.execute a).1 ∧ ((c.execute a).2.execute b).1 = (c.execute b).1 ∧
          ((c.execute a).2.execute b).2 = ((c.execute b).2.execute a).2) := by
  intro s context
  have hbeyond : s.AlikeBeyond (s.Reaches context a) (c.execute a).2.session := s.run_beyond context a
  refine ⟨fun i k h => h.resolved, hbeyond.component, hbeyond.bare, fun ha hb hdisjoint => ?_⟩
  obtain ⟨hfirst, hsecond, hstate⟩ := Session.run_comm ha hb hdisjoint
  refine ⟨congrArg Console.answer hfirst, congrArg Console.answer hsecond, ?_⟩
  exact congrArg (Console.mk · c.options) hstate

/-- Scripted code leaves the catalog alone unless it takes it away. -/
theorem Samples.ScriptedMember.confined {m : ScriptedMember} {p : Plan Kind} (hp : p.descriptor = m.descriptor)
    (h : m.action ≠ .wipe) : p.Confined := by
  intro commandCount target
  obtain ⟨d, is, prepared⟩ := p
  cases hp
  show m.action.installs = none
  unfold Action.installs
  split
  · exact absurd ‹_› h
  · rfl

/-- Two lines that count in different components of one object. -/
theorem execute_local_kinds :
    ∃ c : Console Samples.Kind,
      (c.execute ("@A call f" : String)).1 = "A.f returned 1" ∧
        ((c.execute ("@A call g" : String)).2.execute ("@A call f" : String)).1 = "A.f returned 1" ∧
        ((c.execute ("@A call f" : String)).2.execute ("@A call g" : String)).2 =
          ((c.execute ("@A call g" : String)).2.execute ("@A call f" : String)).2 := by
  let counter (name owner : Char) : Samples.ScriptedMember :=
    ⟨[name], [owner], .call, [], .signed .bits32, none, false, false, false, .count ['n']⟩
  let kind (owner : Char) : Samples.Kind := .record [owner]
  let components : ComponentSet Samples.Kind :=
    (ComponentSet.empty.insert (kind 'R') (NameMap.empty : Samples.Record)).insert (kind 'S')
      (NameMap.empty : Samples.Record)
  let calls : NameMap (Descriptor Samples.Kind) :=
    ⟨[(['f'], (counter 'f' 'R').descriptor), (['g'], (counter 'g' 'S').descriptor)]⟩
  let c : Console Samples.Kind :=
    ⟨⟨.ofEntities [⟨['A'], [], components⟩] [], ⟨⟨calls, .empty, .empty, .empty, .empty⟩, 0⟩⟩, {}⟩
  have parse (line : Text) (name : Char) (hwords : words line = [['@', 'A'], ['c', 'a', 'l', 'l'], [name]])
      (hlower : Text.lower [name] = [name]) :
      Command.parse line = .ok ⟨some (.marked .name ['A']), .call, [name], []⟩ := by
    rw [Command.parse, hwords]
    show Except.ok (Command.mk _ _ (Text.lower [name]) _) = _
    rw [hlower]
    rfl
  have hf := parse ("@A call f" : String) 'f' (by decide +kernel) (by decide +kernel)
  have hg := parse ("@A call g" : String) 'g' (by decide +kernel) (by decide +kernel)
  have hfplan {p : Plan Samples.Kind} (hp : c.session.planned c.options.context ("@A call f" : String) = .ok p) :
      p.descriptor = (counter 'f' 'R').descriptor := Option.some.inj (Session.lookup_of_planned hf hp).symm
  have hgplan {p : Plan Samples.Kind} (hp : c.session.planned c.options.context ("@A call g" : String) = .ok p) :
      p.descriptor = (counter 'g' 'S').descriptor := Option.some.inj (Session.lookup_of_planned hg hp).symm
  obtain ⟨-, -, -, hcommute⟩ := execute_local c ("@A call f" : String) ("@A call g" : String)
  obtain ⟨hfirst, -, hstate⟩ := hcommute (fun p hp => Samples.ScriptedMember.confined (hfplan hp) nofun)
    (fun p hp => Samples.ScriptedMember.confined (hgplan hp) nofun) (by
      rintro i k ⟨p, hp, _, -, -, hk⟩ ⟨q, hq, _, -, -, hk'⟩
      rw [hfplan hp] at hk
      rw [hgplan hq] at hk'
      cases hk.symm.trans hk')
  have hanswer : (c.execute ("@A call f" : String)).1 = "A.f returned 1" := by
    rw [Console.execute, Session.run, hf]
    rfl
  exact ⟨c, hanswer, hfirst.trans hanswer, hstate⟩

end CommandConsole

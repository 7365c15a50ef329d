import CommandConsole.Proofs.Catalog.View
import CommandConsole.Proofs.Host.Lending
import CommandConsole.Proofs.Session.Snapshot
/-!
# Containment — a command that fails leaves no trace

A command that fails on every object, before its code has written anything, can be left out of a script: the other commands
answer the same and the console ends the same (`failures_leave_no_trace`).  What could remain of it is a component that is
marked as in use.  None is: whatever a script does, every component is as free after it as before (`executeAll_kept`), as
long as member code comes to components as it should (`Access.Written`).
-/
namespace CommandConsole

variable {κ : Type} [ComponentKind κ]

attribute [ext] Cell

/-! ## Scripts -/

namespace Console

variable [DecidableEq κ]

/-- Runs the lines of a script one after the other: their answers, and the console after them. -/
def executeAll (c : Console κ) : List Text → List Text × Console κ
  | []            => ([], c)
  | line :: lines =>
    let (answer, c) := c.execute line
    let (answers, c) := c.executeAll lines
    (answer :: answers, c)

theorem executeAll_cons (c : Console κ) (line : Text) (lines : List Text) : c.executeAll (line :: lines) =
    ((c.execute line).1 :: ((c.execute line).2.executeAll lines).1, ((c.execute line).2.executeAll lines).2) := rfl

theorem executeAll_append : ∀ (c : Console κ) (before after : List Text), c.executeAll (before ++ after) =
    ((c.executeAll before).1 ++ ((c.executeAll before).2.executeAll after).1, ((c.executeAll before).2.executeAll after).2)
  | _, [],             _     => rfl
  | c, line :: before, after => by
    rw [List.cons_append, executeAll_cons, executeAll_append (c.execute line).2 before after]
    rfl

theorem length_executeAll : ∀ (c : Console κ) (lines : List Text), (c.executeAll lines).1.length = lines.length
  | _, []            => rfl
  | c, line :: lines => by rw [executeAll_cons, List.length_cons, length_executeAll, List.length_cons]

/-- **A line that changes nothing can be left out**, and only its own answer goes with it. -/
theorem executeAll_without {c : Console κ} {before : List Text} {line : Text}
    (h : ((c.executeAll before).2.execute line).2 = (c.executeAll before).2) (after : List Text) :
    let whole := c.executeAll (before ++ line :: after)
    whole.1[before.length]? = some ((c.executeAll before).2.execute line).1 ∧
      c.executeAll (before ++ after) = (whole.1.eraseIdx before.length, whole.2) := by
  intro whole
  have hwhole : whole = ((c.executeAll before).1 ++ ((c.executeAll before).2.execute line).1 ::
      ((c.executeAll before).2.executeAll after).1, ((c.executeAll before).2.executeAll after).2) := by
    show c.executeAll (before ++ line :: after) = _
    rw [executeAll_append, executeAll_cons, h]
  rw [hwhole, executeAll_append, ← length_executeAll c before]
  dsimp only
  refine ⟨by simp, ?_⟩
  rw [List.eraseIdx_append_of_length_le (Nat.le_refl _), Nat.sub_self, List.eraseIdx_cons_zero]

end Console

/-! ## Components in use -/

section
variable [DecidableEq κ]

/-- Who uses a component, if there is one. -/
def World.borrow? (w : World κ) (i : Nat) (k : κ) : Option Borrow := (w.component? i k).map Cell.borrow

theorem World.borrow?_restore {w : World κ} {i : Nat} {k : κ} {t : Target k}
    (h : t.map Cell.borrow = w.borrow? i k) (j : Nat) (l : κ) : (w.restore i k t).borrow? j l = w.borrow? j l := by
  by_cases hsame : i = j ∧ k = l
  · obtain ⟨rfl, rfl⟩ := hsame
    cases t with
    | none      => rfl
    | some cell =>
      have hfound : w.component? i k ≠ none := by
        rintro hnone
        rw [borrow?, hnone] at h
        cases h
      rw [restore, ← h, borrow?, component?_putComponent hfound]
  · rw [borrow?, component?_restore_of_ne fun hij hk => hsame ⟨hij, hk⟩]
    rfl

end

/-! ## Code of a catalog -/

/-- All code that can be reached through a catalog comes to components as it should. -/
def Catalog.Written [DecidableEq κ] (c : Catalog κ) : Prop := ∀ name v d, c.lookup name v = some d → d.Written

theorem Catalog.mem_of_lookup {includePrivate : Bool} {ds : List (Descriptor κ)} {name : Text} {v : Verb} {d : Descriptor κ}
    (h : (ofDescriptors includePrivate ds).lookup name v = some d) : d ∈ ds := by
  have listed {n : Text} (hn : ((ofDescriptors includePrivate ds).forVerb v).find? n = some d) : d ∈ ds := by
    rw [find?_forVerb] at hn
    exact (List.mem_filter.1 (List.mem_filter.1 (List.mem_of_getLast? hn)).1).1
  unfold lookup at h
  split at h
  · rename_i hfound
    cases h
    exact listed hfound
  · exact listed h

section
variable [DecidableEq κ]

theorem Catalog.written_ofDescriptors {ds : List (Descriptor κ)} (h : ∀ d ∈ ds, d.Written) (includePrivate : Bool) :
    (ofDescriptors includePrivate ds).Written := fun _ _ d hd => h d (mem_of_lookup hd)

theorem written_answer {nesting : Bool} {i : Invoker κ} {r : Prepared κ} (hi : i.Written nesting) (h : i.Admits r)
    (label : Text) : (r.answer label).Written nesting false := by
  cases i <;> cases r <;> try exact h.elim
  case call.call =>
    obtain ⟨-, rfl, -⟩ := h
    exact .bind (hi _) fun _ => .pure _
  case get.get =>
    cases h
    exact .bind hi fun _ => .pure _
  case set.set =>
    obtain ⟨rfl, -⟩ := h
    exact .bind (hi _) fun _ => .pure _

/-- A plan of written code. -/
structure Plan.Written (p : Plan κ) : Prop where
  descriptor : p.descriptor.Written
  admits     : p.descriptor.invoker.Admits p.prepared

theorem Catalog.Written.planned {context : Context} {line : Text} {s : Session κ} {p : Plan κ}
    (h : s.slot.catalog.Written) (hp : s.planned context line = .ok p) : p.Written := by
  obtain ⟨c, -, hplan⟩ := Session.planned_eq_ok_iff.1 hp
  exact ⟨h _ _ _ (plan_eq_ok_iff.1 hplan).1, admits_of_plan hplan⟩

/-! ## What a run keeps -/

/-- Every component is as free as it was, and all code is still written as it should be. -/
structure Session.Kept (s t : Session κ) : Prop where
  borrow  : ∀ i k, t.world.borrow? i k = s.world.borrow? i k
  catalog : t.slot.catalog.Written

theorem Session.Kept.trans {s t u : Session κ} (h : s.Kept t) (h' : t.Kept u) : s.Kept u :=
  ⟨fun i k => (h'.borrow i k).trans (h.borrow i k), h'.catalog⟩

namespace Plan

variable {p : Plan κ} {s : Session κ}

theorem Written.slotAfter (h : p.Written) {slot : Slot κ} (hslot : slot.catalog.Written)
    (target : Target p.descriptor.owner) : (p.slotAfter slot target).catalog.Written := by
  unfold Plan.slotAfter
  split
  · rename_i ds hds
    obtain ⟨-, hinstalls⟩ := h.descriptor
    exact Catalog.written_ofDescriptors (hinstalls _ _ _ _ _ hds) true
  · exact hslot

/-- **On one object, code gives back the component that it was handed.** -/
theorem Written.runOn (h : p.Written) (hs : s.slot.catalog.Written) (i : Nat) : s.Kept (p.runOn s i).2 := by
  cases hfound : s.world.component? i p.descriptor.owner with
  | none      =>
    rw [runOn_of_absent hfound]
    exact ⟨fun _ _ => rfl, hs⟩
  | some cell =>
    refine ⟨fun j l => ?_, ?_⟩
    · rw [runOn_eq]
      refine World.borrow?_restore ?_ j l
      rw [hfound, World.borrow?, hfound]
      exact (written_answer h.descriptor.invoker h.admits _).gives_back ..
    · rw [runOn_of_present hfound]
      exact h.slotAfter hs (some cell)

theorem Written.runEach (h : p.Written) : ∀ (is : List Nat) {s : Session κ}, s.slot.catalog.Written →
    s.Kept (p.runEach s is).2
  | [],      _, hs => ⟨fun _ _ => rfl, hs⟩
  | i :: is, s, hs => by
    have hone := h.runOn hs i
    rw [runEach_cons]
    exact hone.trans (h.runEach is hone.catalog)

theorem Written.run (h : p.Written) (hs : s.slot.catalog.Written) : s.Kept (p.run s).2 := by
  unfold Plan.run
  split
  · exact ⟨fun _ _ => rfl, h.slotAfter hs none⟩
  · exact h.runEach _ hs

end Plan

theorem Console.execute_kept {c : Console κ} (hc : c.catalog.Written) (line : Text) :
    c.session.Kept (c.execute line).2.session := by
  show c.session.Kept (c.session.run c.options.context line).2
  rw [Session.run_eq_carryOut]
  cases hp : c.session.planned c.options.context line with
  | error e => exact ⟨fun _ _ => rfl, hc⟩
  | ok p    => exact (hc.planned hp).run hc

/-- **Whatever a script does, every component is as free after it as before.** -/
theorem Console.executeAll_kept : ∀ (lines : List Text) {c : Console κ}, c.catalog.Written →
    c.session.Kept (c.executeAll lines).2.session
  | [],            _, hc => ⟨fun _ _ => rfl, hc⟩
  | line :: lines, c, hc => by
    have hone := execute_kept hc line
    rw [executeAll_cons]
    exact hone.trans (executeAll_kept lines hone.catalog)

/-! ## Failures that wrote nothing -/

/-- The line of a reply that is no value is that of a failure. -/
theorem line_of_ne_value (label : Text) {r : Reply Text} (h : ∀ a, r ≠ .value a) :
    ∃ f : Failure, r.line label = errorLine f.message := by
  cases r with
  | value a => exact absurd rfl (h a)
  | error e => exact ⟨.invocation label e, rfl⟩
  | panic m => exact ⟨.panicked label m, rfl⟩

namespace Plan

variable {p : Plan κ} {s : Session κ} {i : Nat}

/-- On this cell, or on none, the code ends in an error or a panic, and by then it has written nothing: what the cell holds
is the same, and no other commands are put in place. -/
structure FailsOn (p : Plan κ) (s : Session κ) (label : Text) (t : Target p.descriptor.owner) : Prop where
  failed   : ∀ a, (p.prepared.answer label s.slot.catalog.size p.descriptor.owner t).1 ≠ .value a
  content  : (p.prepared.answer label s.slot.catalog.size p.descriptor.owner t).2.map Cell.content = t.map Cell.content
  commands : p.descriptor.installs p.prepared.values s.slot.catalog.size p.descriptor.owner t = none

/-- A command fails throughout if its code fails wherever it runs; where its component is missing it does not run. -/
def FailsThroughout (p : Plan κ) (s : Session κ) : Prop :=
  match p.targets with
  | none    => p.FailsOn s p.descriptor.name none
  | some is => ∀ i ∈ is, ∀ cell, s.world.component? i p.descriptor.owner = some cell →
      p.FailsOn s (s.world.nameAt i ++ "." ++ p.descriptor.name) (some cell)

/-- Code that gives its component back and has not changed what it holds has left it as it was. -/
theorem silent_of_fails (h : p.Written) (hfails : ∀ cell, s.world.component? i p.descriptor.owner = some cell →
    p.FailsOn s (s.world.nameAt i ++ "." ++ p.descriptor.name) (some cell)) : p.Silent s i := by
  intro cell hcell
  have hon := hfails cell hcell
  refine ⟨fun after hafter => ?_, hon.commands⟩
  have hback := (written_answer h.descriptor.invoker h.admits (s.world.nameAt i ++ "." ++ p.descriptor.name)).gives_back
    s.slot.catalog.size p.descriptor.owner (some cell)
  have hcontent := hon.content
  rw [answerOn] at hafter
  rw [hafter] at hback hcontent
  exact Cell.ext (Option.some.inj hcontent) (Option.some.inj hback)

theorem line_of_fails (hfails : ∀ cell, s.world.component? i p.descriptor.owner = some cell →
    p.FailsOn s (s.world.nameAt i ++ "." ++ p.descriptor.name) (some cell)) :
    ∃ f : Failure, (p.runOn s i).1 = errorLine f.message := by
  cases hfound : s.world.component? i p.descriptor.owner with
  | none      => exact ⟨_, congrArg Prod.fst (runOn_of_absent hfound)⟩
  | some cell =>
    rw [runOn_of_present hfound]
    exact line_of_ne_value _ (hfails cell hfound).failed

theorem runEach_of_fails (h : p.Written) : ∀ (is : List Nat),
    (∀ i ∈ is, ∀ cell, s.world.component? i p.descriptor.owner = some cell →
      p.FailsOn s (s.world.nameAt i ++ "." ++ p.descriptor.name) (some cell)) →
    (p.runEach s is).2 = s ∧ ∃ fs : List Failure, (p.runEach s is).1 = fs.map fun f => errorLine f.message
  | [],      _   => ⟨rfl, [], rfl⟩
  | i :: is, his => by
    obtain ⟨hi, his⟩ := List.forall_mem_cons.1 his
    have hsame := session_of_silent (silent_of_fails h hi)
    obtain ⟨f, hline⟩ := line_of_fails hi
    obtain ⟨hrest, fs, hlines⟩ := runEach_of_fails h is his
    rw [runEach_cons, hsame, hline, hlines]
    exact ⟨hrest, f :: fs, rfl⟩

/-- **A command that fails throughout leaves the session alone**, and answers with the lines of its failures. -/
theorem run_of_fails (h : p.Written) (hfails : p.FailsThroughout s) :
    (p.run s).2 = s ∧ ∃ fs : List Failure, (p.run s).1 = fs.map fun f => errorLine f.message := by
  unfold FailsThroughout at hfails
  unfold Plan.run
  cases htargets : p.targets with
  | none    =>
    rw [htargets] at hfails
    dsimp only [runStatic] at hfails ⊢
    rw [slotAfter, hfails.commands]
    obtain ⟨f, hline⟩ := line_of_ne_value p.descriptor.name hfails.failed
    exact ⟨rfl, [f], congrArg (· :: []) hline⟩
  | some is =>
    rw [htargets] at hfails
    exact runEach_of_fails h is hfails

/-- **Code that asks for one component at a time does not fail for a component that is in use**, if it is in use by no one
to begin with. -/
theorem failure?_ne_busy (h : p.descriptor.invoker.Written false) (hadmits : p.descriptor.invoker.Admits p.prepared)
    (hfree : s.world.borrow? i p.descriptor.owner = some .free) (label name : Text) :
    p.failure? s i ≠ some (.invocation label (.busy name)) := by
  obtain ⟨cell, hfound, hcell⟩ := Option.map_eq_some_iff.1 hfree
  have hbusy := (written_answer h hadmits (s.world.nameAt i ++ "." ++ p.descriptor.name)).not_busy name
    s.slot.catalog.size p.descriptor.owner (some cell) fun _ c hc => by cases hc; exact hcell
  unfold failure?
  rw [hfound]
  dsimp only [answerOn]
  split
  · exact nofun
  · rename_i e he
    rintro heq
    cases heq
    exact hbusy he
  · exact nofun

end Plan

/-- **Failures leave no trace.**  In a console whose code comes to components through `withRef` and `withMut`, a command that
fails throughout, its code having written nothing before it failed, answers with the lines of its failures.  Without it the
script has the same answers, but for that one, and ends in the same console.  No script leaves a component more in use, or
less, than it was; so code that asks for one component at a time is never told, after any script, that a component is busy
which was free to begin with. -/
theorem failures_leave_no_trace {c : Console κ} (hcode : c.catalog.Written) (before after : List Text) {line : Text}
    {p : Plan κ} (hplan : (c.executeAll before).2.session.planned (c.executeAll before).2.options.context line = .ok p)
    (hfails : p.FailsThroughout (c.executeAll before).2.session) :
    let whole := c.executeAll (before ++ line :: after)
    (∃ fs : List Failure, whole.1[before.length]? = some (Text.join "\n" (fs.map fun f => errorLine f.message))) ∧
      c.executeAll (before ++ after) = (whole.1.eraseIdx before.length, whole.2) ∧
      (∀ script i k, (c.executeAll script).2.session.world.borrow? i k = c.session.world.borrow? i k) ∧
      ∀ script next q is i js,
        let s := (c.executeAll script).2.session
        s.planned (c.executeAll script).2.options.context next = .ok q → q.descriptor.invoker.Written false →
          q.targets = some (is ++ i :: js) → c.session.world.borrow? i q.descriptor.owner = some .free →
            ∀ label name, q.failure? (q.runEach s is).2 i ≠ some (.invocation label (.busy name)) := by
  intro whole
  have hcatalog := (Console.executeAll_kept before hcode).catalog
  obtain ⟨hsame, fs, hlines⟩ := Plan.run_of_fails (hcatalog.planned hplan) hfails
  have hexecute := execute_of_planned hplan
  have hidle : ((c.executeAll before).2.execute line).2 = (c.executeAll before).2 := by rw [hexecute, hsame]
  obtain ⟨hanswer, hwithout⟩ := Console.executeAll_without hidle after
  refine ⟨⟨fs, ?_⟩, hwithout, fun script => (Console.executeAll_kept script hcode).borrow, ?_⟩
  · rw [hanswer, hexecute, hlines]
  · intro script next q is i js s hq hone _ hfree label name
    have hkept := Console.executeAll_kept script hcode
    have hwritten := hkept.catalog.planned hq
    refine Plan.failure?_ne_busy hone hwritten.admits ?_ label name
    rw [(hwritten.runEach is hkept.catalog).borrow, hkept.borrow, hfree]

/-- One of two objects has the component, and the code on it panics while it writes.  The command that counts in that
component goes on counting. -/
theorem failures_leave_no_trace_panic :
    ∃ (c : Console Samples.Kind) (q : Plan Samples.Kind),
      let whole := c.executeAll ["@A call g", "##T call f", "@A call g"]
      (∃ fs : List Failure, whole.1[1]? = some (Text.join "\n" (fs.map fun f => errorLine f.message))) ∧
        whole.1.eraseIdx 1 = (["A.g returned 1", "A.g returned 2"] : List Text) ∧
        whole.2.session.world.borrow? 0 (.record ['R']) = some .free ∧
        whole.2.session.planned whole.2.options.context "@A call g" = .ok q ∧
        ∀ label name, q.failure? whole.2.session 0 ≠ some (.invocation label (.busy name)) := by
  let member (name : Char) (action : Samples.Action) : Samples.ScriptedMember :=
    ⟨[name], ['R'], .call, [], .signed .bits32, none, false, false, false, action⟩
  let f := member 'f' (.panicWriting (some "boom"))
  let g := member 'g' (.count ['n'])
  let holding (r : Samples.Record) : Console Samples.Kind :=
    let entities := [⟨['A'], ['T'], ComponentSet.empty.insert (.record ['R'] : Samples.Kind) r⟩, ⟨['B'], ['T'], .empty⟩]
    ⟨⟨.ofEntities entities [], ⟨.ofDescriptors true [f.descriptor, g.descriptor], 0⟩⟩, {}⟩
  let c := holding NameMap.empty
  let counted (n : Int64) := holding (NameMap.empty.insert ['n'] (.int n))
  have hg : Command.parse "@A call g" = .ok ⟨some (.marked .name ['A']), .call, ['g'], []⟩ := by decide +kernel
  have hf : Command.parse "##T call f" = .ok ⟨some (.marked .allTags ['T']), .call, ['f'], []⟩ := by decide +kernel
  have hfirst : c.execute "@A call g" = ⟨"A.g returned 1", counted 1⟩ := by
    rw [Console.execute, Session.run, hg]
    rfl
  have hsecond : (counted 1).execute "@A call g" = ⟨"A.g returned 2", counted 2⟩ := by
    rw [Console.execute, Session.run, hg]
    rfl
  have hcode : c.catalog.Written := Catalog.written_ofDescriptors (by
    intro d hd
    rcases List.mem_pair.1 hd with rfl | rfl
    · exact f.written
    · exact g.written) true
  let p : Plan Samples.Kind :=
    ⟨f.descriptor, some [0, 1], .call [] (.signed .bits32) fun vs => f.action.run ['R'] vs⟩
  let q : Plan Samples.Kind :=
    ⟨g.descriptor, some [0], .call [] (.signed .bits32) fun vs => g.action.run ['R'] vs⟩
  have hbefore : (c.executeAll ["@A call g"]).2 = counted 1 := by
    rw [Console.executeAll_cons, hfirst]
    rfl
  have hfails : p.FailsThroughout (counted 1).session := by
    intro i hi cell hcell
    rcases List.mem_pair.1 hi with rfl | rfl
    · cases hcell
      refine ⟨?_, rfl, rfl⟩
      rintro a h
      cases h
    · cases hcell
  have hplan : (counted 1).session.planned (counted 1).options.context "##T call f" = .ok p :=
    Session.planned_eq_ok_iff.2 ⟨_, hf, rfl⟩
  rw [← hbefore] at hplan hfails
  obtain ⟨hanswer, hwithout, hborrow, hbusy⟩ := failures_leave_no_trace hcode ["@A call g"] ["@A call g"] hplan hfails
  have hshort : c.executeAll ["@A call g", "@A call g"] =
      ⟨["A.g returned 1", "A.g returned 2"], counted 2⟩ := by
    rw [Console.executeAll_cons, hfirst, Console.executeAll_cons, hsecond]
    rfl
  have hrest := congrArg Prod.fst (hwithout.symm.trans hshort)
  have hafter : (c.executeAll ["@A call g", "##T call f", "@A call g"]).2 = counted 2 :=
    congrArg Prod.snd (hwithout.symm.trans hshort)
  have hnext : (counted 2).session.planned (counted 2).options.context "@A call g" = .ok q :=
    Session.planned_eq_ok_iff.2 ⟨_, hg, rfl⟩
  rw [← hafter] at hnext
  refine ⟨c, q, hanswer, hrest, hborrow _ _ _, hnext, hbusy _ _ q [] 0 [] hnext ?_ rfl rfl⟩
  exact fun _ => Access.written_modify ..

end
end CommandConsole

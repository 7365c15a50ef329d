import CommandConsole.Proofs.Command.Grammar
import CommandConsole.Proofs.Session.Preparation
import CommandConsole.Samples.Kind
import CommandConsole.Session.Console
/-!
# Refusal — when a line is refused as a whole

`Refused` says when a line is refused and why, each cause under the condition that none before it holds.  It reads the
catalog through the headings of its commands (`Catalog.heading?`), which hold no code, so a refusal cannot depend on what
member code does.  A line is refused exactly then (`sessionRun_eq_error_iff`); the session is left as it was, and the
answer is one line.
-/
namespace CommandConsole

variable {κ : Type} [ComponentKind κ]

/-! ## Headings -/

/-- What is declared of a command besides its code. -/
structure Heading where
  name     : Text
  isStatic : Bool
  verb     : Verb
  params   : List Parameter
  type     : TypeTag

def Descriptor.heading (d : Descriptor κ) : Heading :=
  ⟨d.name, d.isStatic, d.invoker.verb, d.invoker.params, d.invoker.type⟩

/-- The heading that the map of a verb has under a name in lowercase. -/
def Catalog.heading? (c : Catalog κ) (v : Verb) (name : Text) : Option Heading :=
  ((c.forVerb v).find? (Text.lower name)).map Descriptor.heading

/-! ## Causes -/

/-- The objects of a world that a selector would reach are none. -/
inductive Unresolved (w : World κ) : Context → Selector → TargetError → Prop
  | name {context n} (none : ∀ e ∈ w.entities, e.name ≠ n) : Unresolved w context (.marked .name n) (.noObjectNamed n)
  | allNames {context n} (none : ∀ e ∈ w.entities, e.name ≠ n) :
      Unresolved w context (.marked .allNames n) (.noObjectNamed n)
  | tag {context t} (none : ∀ e ∈ w.entities, e.tag ≠ t) : Unresolved w context (.marked .tag t) (.noObjectTagged t)
  | allTags {context t} (none : ∀ e ∈ w.entities, e.tag ≠ t) :
      Unresolved w context (.marked .allTags t) (.noObjectTagged t)
  | running : Unresolved w .runtime .selection .selectionUnavailable
  | nothingSelected (none : ∀ i ∈ w.selected, w.entities.length ≤ i) :
      Unresolved w .interactive .selection .emptySelection

/-- A command of an instance has no selector, or one that reaches no object. -/
inductive Heading.Unreached (h : Heading) (w : World κ) (context : Context) : Option Selector → CommandError → Prop
  | noSelector (onInstance : h.isStatic = false) : Unreached h w context none (.targetRequired h.name)
  | noObject {s e} (onInstance : h.isStatic = false) (unresolved : Unresolved w context s e) :
      Unreached h w context (some s) (.target e)

/-- The arguments of a command are too many or too few, or cannot be read. -/
inductive Heading.Misfed (h : Heading) (find : ObjectLookup) : List Text → CommandError → Prop
  | noValue (set : h.verb = .set) : Misfed h find [] (.arity h.name 1 0)
  | value {t ts e} (set : h.verb = .set) (misread : h.type.read find t = .error e) : Misfed h find (t :: ts) (.entry e)
  | count {ts} (call : h.verb = .call) (differ : h.params.length ≠ ts.length) :
      Misfed h find ts (.arity h.name h.params.length ts.length)
  | argument {ts p e} (call : h.verb = .call) (agree : h.params.length = ts.length)
      (misread : LeftmostMisread find h.params ts p e) : Misfed h find ts (.argument p.name e)

/-- **What refuses a line as a whole**, in the order in which the causes take precedence. -/
inductive Refused (heading? : Verb → Text → Option Heading) (w : World κ) (context : Context) (line : Text) :
    CommandError → Prop
  | line {e} (unread : Command.parse line = .error e) : Refused heading? w context line (.line e)
  | notFound {c} (read : Command.parse line = .ok c) (absent : heading? c.verb c.name = none) :
      Refused heading? w context line (.notFound c.verb c.name)
  | target {c h e} (read : Command.parse line = .ok c) (found : heading? c.verb c.name = some h)
      (unreached : h.Unreached w context c.target e) : Refused heading? w context line e
  | arguments {c h e} (read : Command.parse line = .ok c) (found : heading? c.verb c.name = some h)
      (reached : ∀ e, ¬ h.Unreached w context c.target e) (misfed : h.Misfed w.lookup c.args e) :
      Refused heading? w context line e

/-! ## Selectors -/

theorem places_eq_nil_iff (w : World κ) (p : Entity κ → Bool) : w.places p = [] ↔ ∀ e ∈ w.entities, p e = false := by
  rw [World.places, List.map_eq_nil_iff, List.filter_eq_nil_iff]
  constructor
  · intro h e he
    obtain ⟨i, hi, rfl⟩ := List.getElem_of_mem he
    have hmem : (w.entities[i], i) ∈ w.entities.zipIdx := by
      rw [List.mem_zipIdx_iff_getElem?]
      exact List.getElem?_eq_getElem hi
    simpa using h _ hmem
  · intro h e he
    have hmem : e.1 ∈ w.entities := List.fst_mem_of_mem_zipIdx he
    simp [h e.1 hmem]

theorem named_eq_nil_iff (w : World κ) (n : Text) : w.named n = [] ↔ ∀ e ∈ w.entities, e.name ≠ n := by
  simp [World.named, places_eq_nil_iff]

theorem tagged_eq_nil_iff (w : World κ) (t : Text) : w.tagged t = [] ↔ ∀ e ∈ w.entities, e.tag ≠ t := by
  simp [World.tagged, places_eq_nil_iff]

theorem selection_eq_nil_iff (w : World κ) : w.selection = [] ↔ ∀ i ∈ w.selected, w.entities.length ≤ i := by
  simp [World.selection, List.filter_eq_nil_iff]

theorem orRefuse_eq_error_iff {is : List Nat} {e e' : TargetError} : orRefuse is e = .error e' ↔ is = [] ∧ e' = e := by
  unfold orRefuse
  split <;> simp_all [eq_comm]

/-- **A selector is refused exactly when it reaches no object.** -/
theorem resolve_eq_error_iff {w : World κ} {context : Context} {s : Selector} {e : TargetError} :
    s.resolve w context = .error e ↔ Unresolved w context s e := by
  constructor
  · intro h
    match s, context with
    | .marked .name n, _ =>
      obtain ⟨hnone, rfl⟩ := orRefuse_eq_error_iff.1 h
      exact .name ((named_eq_nil_iff w n).1 ((List.take_eq_nil_iff.1 hnone).resolve_left Nat.one_ne_zero))
    | .marked .allNames n, _ =>
      obtain ⟨hnone, rfl⟩ := orRefuse_eq_error_iff.1 h
      exact .allNames ((named_eq_nil_iff w n).1 hnone)
    | .marked .tag t, _ =>
      obtain ⟨hnone, rfl⟩ := orRefuse_eq_error_iff.1 h
      exact .tag ((tagged_eq_nil_iff w t).1 ((List.take_eq_nil_iff.1 hnone).resolve_left Nat.one_ne_zero))
    | .marked .allTags t, _ =>
      obtain ⟨hnone, rfl⟩ := orRefuse_eq_error_iff.1 h
      exact .allTags ((tagged_eq_nil_iff w t).1 hnone)
    | .selection, .runtime =>
      cases h
      exact .running
    | .selection, .interactive =>
      obtain ⟨hnone, rfl⟩ := orRefuse_eq_error_iff.1 h
      exact .nothingSelected ((selection_eq_nil_iff w).1 hnone)
  · intro h
    cases h with
    | name hnone            =>
      have := (named_eq_nil_iff w _).2 hnone
      exact orRefuse_eq_error_iff.2 ⟨List.take_eq_nil_iff.2 (.inr this), rfl⟩
    | allNames hnone        => exact orRefuse_eq_error_iff.2 ⟨(named_eq_nil_iff w _).2 hnone, rfl⟩
    | tag hnone             =>
      have := (tagged_eq_nil_iff w _).2 hnone
      exact orRefuse_eq_error_iff.2 ⟨List.take_eq_nil_iff.2 (.inr this), rfl⟩
    | allTags hnone         => exact orRefuse_eq_error_iff.2 ⟨(tagged_eq_nil_iff w _).2 hnone, rfl⟩
    | running               => rfl
    | nothingSelected hnone => exact orRefuse_eq_error_iff.2 ⟨(selection_eq_nil_iff w).2 hnone, rfl⟩

/-! ## Commands -/

theorem targets_eq_error_iff {d : Descriptor κ} {w : World κ} {context : Context} {s : Option Selector}
    {e : CommandError} : d.targets w context s = .error e ↔ d.heading.Unreached w context s e := by
  unfold Descriptor.targets
  cases hd : d.isStatic with
  | true =>
    simp only [if_true, reduceCtorEq, false_iff]
    intro h
    cases h with
    | noSelector hno => cases hd.symm.trans hno
    | noObject hno _ => cases hd.symm.trans hno
  | false =>
    simp only [Bool.false_eq_true, if_false]
    cases s with
    | none =>
      constructor
      · intro h
        cases h
        exact .noSelector hd
      · intro h
        cases h
        rfl
    | some s =>
      dsimp only
      cases hr : s.resolve w context with
      | ok is =>
        simp only [reduceCtorEq, false_iff]
        intro h
        cases h with
        | noObject _ hun => cases hr.symm.trans (resolve_eq_error_iff.2 hun)
      | error x =>
        constructor
        · intro h
          cases h
          exact .noObject hd (resolve_eq_error_iff.1 hr)
        · intro h
          cases h with
          | noObject _ hun =>
            cases hr.symm.trans (resolve_eq_error_iff.2 hun)
            rfl

theorem prepare_eq_error_iff {d : Descriptor κ} {find : ObjectLookup} {ts : List Text} {e : CommandError} :
    d.invoker.prepare find d.name ts = .error e ↔ d.heading.Misfed find ts e := by
  obtain ⟨name, _, _, _, _, _, invoker, _⟩ := d
  cases invoker with
  | get type run =>
    constructor
    · intro h
      cases h
    · intro h
      cases h with
      | noValue hverb      => cases hverb
      | value hverb        => cases hverb
      | count hverb        => cases hverb
      | argument hverb     => cases hverb
  | set type run =>
    constructor
    · intro h
      cases ts with
      | nil       =>
        cases h
        exact .noValue rfl
      | cons t ts =>
        simp only [Invoker.prepare] at h
        split at h
        · cases h
        · rename_i x hx
          cases h
          exact .value rfl hx
    · intro h
      cases h with
      | noValue            => rfl
      | value _ hx         =>
        have hx : type.read find _ = .error _ := hx
        simp only [Invoker.prepare, hx]
      | count hverb        => cases hverb
      | argument hverb     => cases hverb
  | call ps returns run =>
    constructor
    · intro h
      rw [Invoker.prepare] at h
      split at h
      · rename_i hlen
        obtain ⟨p, x, hleft, rfl⟩ := readArguments_eq_error_iff.1 (except_map_eq_error.1 h)
        exact .argument rfl hlen hleft
      · rename_i hlen
        cases h
        exact .count rfl hlen
    · intro h
      rw [Invoker.prepare]
      cases h with
      | noValue hverb      => cases hverb
      | value hverb        => cases hverb
      | count _ hlen       => exact if_neg hlen
      | argument _ hlen hleft =>
        have hlen : ps.length = ts.length := hlen
        rw [if_pos hlen, except_map_eq_error]
        exact readArguments_eq_error_iff.2 ⟨_, _, hleft, rfl⟩

/-! ## Lines -/

/-- A name in lowercase is looked up once. -/
theorem heading?_eq_lookup (catalog : Catalog κ) {c : Command} (h : Text.lower c.name = c.name) :
    catalog.heading? c.verb c.name = (catalog.lookup c.name c.verb).map Descriptor.heading := by
  rw [Catalog.heading?, Catalog.lookup, h]
  split
  · rename_i d hd
    rw [hd]
  · rfl

variable [DecidableEq κ]

/-- **A line is refused exactly for the first of the causes that holds.** -/
theorem sessionRun_eq_error_iff {s : Session κ} {context : Context} {line : Text} {e : CommandError} :
    (s.run context line).1 = .error e ↔ Refused s.slot.catalog.heading? s.world context line e := by
  unfold Session.run
  cases hparse : Command.parse line with
  | error x =>
    constructor
    · intro h
      cases h
      exact .line hparse
    · intro h
      cases h with
      | line h         => cases hparse.symm.trans h; rfl
      | notFound h     => cases hparse.symm.trans h
      | target h       => cases hparse.symm.trans h
      | arguments h    => cases hparse.symm.trans h
  | ok c =>
    have hname := heading?_eq_lookup s.slot.catalog (wellFormed_of_parse hparse).lowered
    dsimp only
    rw [run_eq_error_iff, plan_eq_error_iff]
    constructor
    · rintro (⟨hnone, rfl⟩ | ⟨d, hd, htarget | ⟨ts, htargets, hprepare⟩⟩)
      · exact .notFound hparse (by rw [hname, hnone]; rfl)
      · exact .target hparse (by rw [hname, hd]; rfl) (targets_eq_error_iff.1 htarget)
      · refine .arguments hparse (by rw [hname, hd]; rfl) (fun x hx => ?_) (prepare_eq_error_iff.1 hprepare)
        cases htargets.symm.trans (targets_eq_error_iff.2 hx)
    · intro h
      cases h with
      | line h => cases hparse.symm.trans h
      | notFound h habsent =>
        cases hparse.symm.trans h
        rw [hname, Option.map_eq_none_iff] at habsent
        exact .inl ⟨habsent, rfl⟩
      | target h hfound hun =>
        cases hparse.symm.trans h
        rw [hname, Option.map_eq_some_iff] at hfound
        obtain ⟨d, hd, rfl⟩ := hfound
        exact .inr ⟨d, hd, .inl (targets_eq_error_iff.2 hun)⟩
      | arguments h hfound hreached hmisfed =>
        cases hparse.symm.trans h
        rw [hname, Option.map_eq_some_iff] at hfound
        obtain ⟨d, hd, rfl⟩ := hfound
        cases ht : d.targets s.world context c.target with
        | error x => exact absurd (targets_eq_error_iff.1 ht) (hreached x)
        | ok ts   => exact .inr ⟨d, hd, .inr ⟨ts, ht, prepare_eq_error_iff.2 hmisfed⟩⟩

/-- A refusal leaves the session as it was. -/
theorem sessionRun_eq_of_error {s : Session κ} {context : Context} {line : Text} {e : CommandError}
    (h : (s.run context line).1 = .error e) : s.run context line = (.error e, s) := by
  unfold Session.run at h ⊢
  cases hparse : Command.parse line with
  | error x =>
    rw [hparse] at h
    cases h
    rfl
  | ok c =>
    rw [hparse] at h
    dsimp only at h ⊢
    rw [run_eq_error_iff] at h
    rw [Command.run, h]

/-- The outcome of a static command is the same under every selector and in every context. -/
theorem run_congr_of_isStatic {c : Command} {s : Session κ} {d : Descriptor κ}
    (hd : s.slot.catalog.lookup c.name c.verb = some d) (hstatic : d.isStatic = true) (target : Option Selector)
    (context context' : Context) : Command.run context' { c with target } s = c.run context s := by
  have htargets (o : Option Selector) (x : Context) : d.targets s.world x o = .ok none := if_pos hstatic
  have hplan : Command.plan s.slot.catalog s.world context' { c with target } =
      c.plan s.slot.catalog s.world context := by
    simp only [Command.plan, hd, htargets]
  rw [Command.run, Command.run, hplan]

/-- **A line is refused as a whole exactly when one of the causes holds, and then nothing happens.**  The first cause is
the answer, and the console stays as it was.  Causes are read off headings, so that the code of the commands has no part
in a refusal.  Any other line is run. -/
theorem execute_refused_iff (c : Console κ) (line : Text) :
    let refused := Refused c.catalog.heading? c.session.world c.options.context line
    (∀ e, (c.session.run c.options.context line).1 = .error e ↔ refused e) ∧
      (∀ e, refused e → c.execute line = (("Error: " : Text) ++ e.message, c)) ∧
      ((∀ e, ¬ refused e) → ∃ lines, (c.session.run c.options.context line).1 = .ok lines ∧
        (c.execute line).1 = Text.join "\n" lines) ∧
      (∀ catalog e, catalog.heading? = c.catalog.heading? → refused e →
        (c.install catalog).execute line = (("Error: " : Text) ++ e.message, c.install catalog)) ∧
      (∀ (cmd : Command) d target context, c.catalog.lookup cmd.name cmd.verb = some d → d.isStatic = true →
        Command.run context { cmd with target } c.session = cmd.run c.options.context c.session) := by
  have answer (c : Console κ) {e : CommandError}
      (h : Refused c.catalog.heading? c.session.world c.options.context line e) :
      c.execute line = (("Error: " : Text) ++ e.message, c) := by
    rw [Console.execute, sessionRun_eq_of_error (sessionRun_eq_error_iff.2 h)]
    rfl
  refine ⟨fun e => sessionRun_eq_error_iff, fun e h => answer c h, fun h => ?_, fun catalog e hheading h => ?_,
    fun cmd d target context hd hstatic => run_congr_of_isStatic hd hstatic target _ context⟩
  · cases hrun : (c.session.run c.options.context line).1 with
    | error e  => exact absurd (sessionRun_eq_error_iff.1 hrun) (h e)
    | ok lines =>
      have hanswer : (c.execute line).1 = Console.answer (c.session.run c.options.context line).1 := rfl
      exact ⟨lines, rfl, by rw [hanswer, hrun]; rfl⟩
  · refine answer (c.install catalog) ?_
    rw [← hheading] at h
    exact h

/-- A setter of an instance is refused for an unknown tag before the value that is missing too. -/
theorem execute_refused_iff_untargeted :
    ∃ c : Console Samples.Kind,
      c.execute (" #Ghost SET  Hp" : String) = (("Error: no object tagged 'Ghost'" : Text), c) ∧
        c.execute ("set HP" : String) =
          (("Error: 'hp' needs a target (@name, @@name, #tag, ##tag or select)" : Text), c) := by
  let d : Descriptor Samples.Kind := .setter ['h', 'p'] .game (.signed .bits8) (fun _ => pure ())
  let c : Console Samples.Kind := ⟨⟨.empty, ⟨⟨.empty, .empty, ⟨[(['h', 'p'], d)]⟩, .empty, .empty⟩, 0⟩⟩, {}⟩
  have hname : Text.lower ['H', 'p'] = ['h', 'p'] ∧ Text.lower ['H', 'P'] = ['h', 'p'] := by decide +kernel
  have hghost : words (" #Ghost SET  Hp" : String) = [['#', 'G', 'h', 'o', 's', 't'], ['S', 'E', 'T'], ['H', 'p']] := by
    decide +kernel
  have hbare : words ("set HP" : String) = [['s', 'e', 't'], ['H', 'P']] := by decide +kernel
  have hghost : Command.parse (" #Ghost SET  Hp" : String) =
      .ok ⟨some (.marked .tag ("Ghost" : String)), .set, Text.lower ['H', 'p'], []⟩ := by
    rw [Command.parse, hghost]
    rfl
  have hbare : Command.parse ("set HP" : String) = .ok ⟨none, .set, Text.lower ['H', 'P'], []⟩ := by
    rw [Command.parse, hbare]
    rfl
  rw [hname.1] at hghost
  rw [hname.2] at hbare
  have hfound : c.catalog.heading? .set ['h', 'p'] = some d.heading := by
    have hlower : Text.lower ['h', 'p'] = ['h', 'p'] := by decide +kernel
    rw [Catalog.heading?, hlower]
    rfl
  have hnobody : ∀ e ∈ c.session.world.entities, e.tag ≠ ("Ghost" : String) := fun e he => by cases he
  refine ⟨c, ?_, ?_⟩
  · exact (execute_refused_iff c _).2.1 _ (.target hghost hfound (.noObject rfl (.tag hnobody)))
  · exact (execute_refused_iff c _).2.1 _ (.target hbare hfound (.noSelector rfl))

end CommandConsole

import CommandConsole.Catalog.Member
import CommandConsole.Proofs.Session.Preparation
import CommandConsole.Samples.Kind
/-!
# TypeSafety — member code sees values of its declared types alone

Running a command is the only way to member code, and it hands the code what it was declared to take.  Two statements say
so.  The values of every plan fit the signature of its descriptor (`admits_of_plan`).  And what code would do on any other
values shows nowhere: commands whose code differs there alone run alike (`run_agrees`).  So the conversions that typed
member code starts with always succeed (`argument_of_fits`, `fromValue_of_hasType`).
-/
namespace CommandConsole

variable {κ : Type} [ComponentKind κ]

/-! ## Conversions of member code -/

/-- **An argument that was read is there, and is taken into its type.** -/
theorem argument_of_fits {ps : List Parameter} {vs : List Value} (h : Fits ps vs) {i : Nat} {p : Parameter}
    (hp : ps[i]? = some p) : ∃ x, (argument p.type vs i : Access κ p.type.Carrier) = pure x := by
  have hi : i < vs.length := by
    rw [h.length]
    exact (List.getElem?_eq_some_iff.1 hp).1
  have hv : vs[i]? = some vs[i] := List.getElem?_eq_getElem hi
  obtain ⟨x, hx⟩ := fromValue_of_hasType (h.typed hp hv)
  refine ⟨x, ?_⟩
  simp only [argument, valueAt, hv]
  show Access.bind (Access.pure vs[i]) _ = _
  funext n k t
  simp only [Access.bind, Access.pure, hx]
  rfl

theorem argument_of_admits {i : Invoker κ} {r : Prepared κ} (h : i.Admits r) {j : Nat} {p : Parameter}
    (hp : i.params[j]? = some p) : ∃ x, (argument p.type r.values j : Access κ p.type.Carrier) = pure x := by
  cases i <;> cases r <;> try exact h.elim
  case call.call => exact argument_of_fits h.2.2 hp
  case get.get   => cases hp
  case set.set   => cases hp

theorem fromValue_of_admits {i : Invoker κ} {r : Prepared κ} (h : i.Admits r) {v : Value} {run : Value → Access κ Unit}
    (hr : r = .set v run) : ∃ x, i.type.fromValue v = .ok x := by
  subst hr
  cases i <;> try exact h.elim
  exact fromValue_of_hasType h.2

/-! ## Code that differs on other values alone -/

/-- One signature, and the same code on values that fit it. -/
def Invoker.Agrees : Invoker κ → Invoker κ → Prop
  | .call ps t run, .call ps' t' run' => ps' = ps ∧ t' = t ∧ ∀ vs, Fits ps vs → run' vs = run vs
  | .get t run,     .get t' run'      => t' = t ∧ run' = run
  | .set t run,     .set t' run'      => t' = t ∧ ∀ v, v.HasType t → run' v = run v
  | _,              _                 => False

def Descriptor.Agrees (d d' : Descriptor κ) : Prop := ∃ i, d' = { d with invoker := i } ∧ d.invoker.Agrees i

/-- Catalogs of as many commands, found under the same names. -/
structure Catalog.Agrees (c c' : Catalog κ) : Prop where
  size    : c'.size = c.size
  absent  : ∀ {name v}, c.lookup name v = none → c'.lookup name v = none
  present : ∀ {name v d}, c.lookup name v = some d → ∃ d', c'.lookup name v = some d' ∧ d.Agrees d'

/-- Code made ready that does the same. -/
structure Prepared.Agrees (r r' : Prepared κ) : Prop where
  values : r'.values = r.values
  answer : ∀ label, r'.answer label = r.answer label

/-- Plans of one command whose code was made ready to do the same. -/
def Plan.Agrees (p p' : Plan κ) : Prop :=
  ∃ i r, p' = ⟨{ p.descriptor with invoker := i }, p.targets, r⟩ ∧ p.prepared.Agrees r

/-- Sessions that no code tells apart. -/
structure Session.Agrees (s s' : Session κ) : Prop where
  world : s'.world = s.world
  size  : s'.slot.catalog.size = s.slot.catalog.size

theorem prepare_error_agrees {find : ObjectLookup} {name : Text} {args : List Text} {i i' : Invoker κ} (h : i.Agrees i')
    {e : CommandError} (he : i.prepare find name args = .error e) : i'.prepare find name args = .error e := by
  cases i <;> cases i' <;> try exact h.elim
  case call.call ps t run ps' t' run' =>
    obtain ⟨rfl, rfl, -⟩ := h
    simp only [Invoker.prepare] at he ⊢
    split at he
    · rw [except_map_eq_error] at he
      rw [if_pos ‹_›, he]
      rfl
    · rw [if_neg ‹_›]
      exact he
  case get.get => cases he
  case set.set t run t' run' =>
    obtain ⟨rfl, -⟩ := h
    cases args with
    | nil => exact he
    | cons a args =>
      simp only [Invoker.prepare] at he ⊢
      split at he
      · cases he
      · exact he

theorem prepare_agrees {find : ObjectLookup} {name : Text} {args : List Text} {i i' : Invoker κ} (h : i.Agrees i')
    {r : Prepared κ} (hr : i.prepare find name args = .ok r) :
    ∃ r', i'.prepare find name args = .ok r' ∧ r.Agrees r' := by
  cases i <;> cases i' <;> try exact h.elim
  case call.call ps t run ps' t' run' =>
    obtain ⟨rfl, rfl, hrun⟩ := h
    simp only [Invoker.prepare] at hr ⊢
    split at hr
    · rename_i hlen
      obtain ⟨vs, hvs, rfl⟩ := except_map_eq_ok.1 hr
      have hfits := (readsAs_of_readArguments hlen hvs).fits hlen
      refine ⟨.call vs t' run', by rw [if_pos hlen, hvs]; rfl, rfl, fun label => ?_⟩
      simp only [Prepared.answer, hrun vs hfits]
    · cases hr
  case get.get t run t' run' =>
    obtain ⟨rfl, rfl⟩ := h
    exact ⟨r, hr, rfl, fun _ => rfl⟩
  case set.set t run t' run' =>
    obtain ⟨rfl, hrun⟩ := h
    cases args with
    | nil => cases hr
    | cons a args =>
      simp only [Invoker.prepare] at hr ⊢
      split at hr
      · rename_i v hv
        cases hr
        refine ⟨.set v run', rfl, rfl, fun label => ?_⟩
        simp only [Prepared.answer, hrun v (hasType_of_read hv)]
      · cases hr

theorem plan_error_agrees {catalog catalog' : Catalog κ} (h : catalog.Agrees catalog') {w : World κ} {context : Context}
    {c : Command} {e : CommandError} (he : c.plan catalog w context = .error e) :
    c.plan catalog' w context = .error e := by
  rcases plan_eq_error_iff.1 he with ⟨hd, rfl⟩ | ⟨d, hd, hcheck⟩
  · exact plan_eq_error_iff.2 (.inl ⟨h.absent hd, rfl⟩)
  · obtain ⟨_, hd', i, rfl, hi⟩ := h.present hd
    refine plan_eq_error_iff.2 (.inr ⟨_, hd', ?_⟩)
    rcases hcheck with ht | ⟨ts, ht, hprepare⟩
    · exact .inl ht
    · exact .inr ⟨ts, ht, prepare_error_agrees hi hprepare⟩

theorem plan_agrees {catalog catalog' : Catalog κ} (h : catalog.Agrees catalog') {w : World κ} {context : Context}
    {c : Command} {p : Plan κ} (hp : c.plan catalog w context = .ok p) :
    ∃ p', c.plan catalog' w context = .ok p' ∧ p.Agrees p' := by
  obtain ⟨hd, ht, hr⟩ := plan_eq_ok_iff.1 hp
  obtain ⟨_, hd', i, rfl, hi⟩ := h.present hd
  obtain ⟨r, hr', hans⟩ := prepare_agrees hi hr
  exact ⟨⟨{ p.descriptor with invoker := i }, p.targets, r⟩, plan_eq_ok_iff.2 ⟨hd', ht, hr'⟩, i, r, rfl, hans⟩

/-! ## Running -/

theorem size_slotAfter_agrees {p : Plan κ} {i : Invoker κ} {r : Prepared κ} (hr : p.prepared.Agrees r)
    {slot slot' : Slot κ} (hs : slot'.catalog.size = slot.catalog.size) (t : Target p.descriptor.owner) :
    (Plan.slotAfter ⟨{ p.descriptor with invoker := i }, p.targets, r⟩ slot' t).catalog.size =
      (p.slotAfter slot t).catalog.size := by
  simp only [Plan.slotAfter, hr.values, hs]
  split
  · rfl
  · exact hs

theorem runStatic_agrees {p p' : Plan κ} (h : p.Agrees p') {s s' : Session κ} (hs : s.Agrees s') :
    (p'.runStatic s').1 = (p.runStatic s).1 ∧ (p.runStatic s).2.Agrees (p'.runStatic s').2 := by
  obtain ⟨i, r, rfl, hr⟩ := h
  refine ⟨?_, hs.world, size_slotAfter_agrees hr hs.size none⟩
  simp only [Plan.runStatic, hr.answer, hs.size]

variable [DecidableEq κ]

theorem runOn_agrees {p p' : Plan κ} (h : p.Agrees p') {s s' : Session κ} (hs : s.Agrees s') (i : Nat) :
    (p'.runOn s' i).1 = (p.runOn s i).1 ∧ (p.runOn s i).2.Agrees (p'.runOn s' i).2 := by
  obtain ⟨j, r, rfl, hr⟩ := h
  obtain ⟨w, slot⟩ := s
  obtain ⟨w', slot'⟩ := s'
  obtain ⟨hw, hsize⟩ := hs
  dsimp only at hw hsize
  subst hw
  unfold Plan.runOn
  dsimp only [Descriptor.ownerName]
  cases hc : w'.component? i p.descriptor.owner with
  | none      => exact ⟨rfl, rfl, hsize⟩
  | some cell =>
    dsimp only
    rw [hr.answer, hsize]
    exact ⟨rfl, rfl, size_slotAfter_agrees hr hsize (some cell)⟩

theorem runEach_agrees {p p' : Plan κ} (h : p.Agrees p') : ∀ (is : List Nat) {s s' : Session κ}, s.Agrees s' →
    (p'.runEach s' is).1 = (p.runEach s is).1 ∧ (p.runEach s is).2.Agrees (p'.runEach s' is).2
  | [], _, _, hs => ⟨rfl, hs⟩
  | i :: is, s, s', hs => by
    obtain ⟨hline, hs⟩ := runOn_agrees h hs i
    obtain ⟨hlines, hs⟩ := runEach_agrees h is hs
    refine ⟨?_, hs⟩
    simp only [Plan.runEach, hline, hlines]

theorem planRun_agrees {p p' : Plan κ} (h : p.Agrees p') {s s' : Session κ} (hs : s.Agrees s') :
    (p'.run s').1 = (p.run s).1 ∧ (p.run s).2.Agrees (p'.run s').2 := by
  have htargets : p'.targets = p.targets := by
    obtain ⟨i, r, rfl, -⟩ := h
    rfl
  unfold Plan.run
  rw [htargets]
  cases p.targets with
  | none =>
    obtain ⟨hline, hs⟩ := runStatic_agrees h hs
    exact ⟨congrArg (fun t => [t]) hline, hs⟩
  | some is => exact runEach_agrees h is hs

/-- **What code does on values that its declaration rules out shows nowhere.** -/
theorem run_agrees {s s' : Session κ} (hs : s.Agrees s') (h : s.slot.catalog.Agrees s'.slot.catalog) (context : Context)
    (c : Command) :
    (c.run context s').1 = (c.run context s).1 ∧ (c.run context s').2.world = (c.run context s).2.world := by
  unfold Command.run
  rw [hs.world]
  cases hp : c.plan s.slot.catalog s.world context with
  | error e =>
    rw [plan_error_agrees h hp]
    exact ⟨rfl, hs.world⟩
  | ok p =>
    obtain ⟨p', hp', hpp⟩ := plan_agrees h hp
    rw [hp']
    obtain ⟨hlines, hs⟩ := planRun_agrees hpp hs
    exact ⟨congrArg Except.ok hlines, hs.world⟩

/-- **Running a command is type safe.**  Its code is handed one value for each parameter, of the type declared there, so
that taking them into their types cannot fail; what the code does on other values shows nowhere; and whatever text is read
against a type is taken into it. -/
theorem run_type_safe (s : Session κ) (context : Context) (c : Command) :
    (∀ p, c.plan s.slot.catalog s.world context = .ok p →
      p.descriptor.invoker.Admits p.prepared ∧
        (∀ i q, p.descriptor.invoker.params[i]? = some q →
          ∃ x, (argument q.type p.prepared.values i : Access κ q.type.Carrier) = pure x) ∧
        (∀ v run, p.prepared = .set v run → ∃ x, p.descriptor.invoker.type.fromValue v = .ok x)) ∧
      (∀ catalog, s.slot.catalog.Agrees catalog →
        (c.run context { s with slot := { s.slot with catalog } }).1 = (c.run context s).1 ∧
          (c.run context { s with slot := { s.slot with catalog } }).2.world = (c.run context s).2.world) ∧
      (∀ find t text v, TypeTag.read find t text = .ok v → v.HasType t ∧ ∃ x, t.fromValue v = .ok x) := by
  refine ⟨fun p hp => ?_, fun catalog h => ?_, fun find t text v h => ?_⟩
  · have hadmits := admits_of_plan hp
    refine ⟨hadmits, fun i q hq => ?_, fun v run hset => ?_⟩
    · exact argument_of_admits hadmits hq
    · exact fromValue_of_admits hadmits hset
  · have hs : s.Agrees { s with slot := { s.slot with catalog } } := ⟨rfl, h.size⟩
    exact run_agrees hs h context c
  · exact ⟨hasType_of_read h, fromValue_of_hasType (hasType_of_read h)⟩

/-- A catalog of one command, which takes the least number of eight bits and a member under two marks of nullability, and
one whose code panics unless it is given two values. -/
theorem run_type_safe_at_bounds :
    ∃ (s : Session Samples.Kind) (p : Plan Samples.Kind) (catalog : Catalog Samples.Kind),
      let c : Command := ⟨none, .call, ['f'], [("-0x80" : String), ("HARD" : String)]⟩
      c.plan s.slot.catalog s.world .runtime = .ok p ∧
        p.prepared.values = [.int (-128), .enum Samples.difficulty 2] ∧ p.descriptor.invoker.Admits p.prepared ∧
        s.slot.catalog.Agrees catalog ∧
        (c.run .runtime { s with slot := { s.slot with catalog } }).1 = (c.run .runtime s).1 := by
  let ps : List Parameter := [⟨['a'], .signed .bits8⟩, ⟨['b'], .nullable (.nullable (.enum Samples.difficulty))⟩]
  let command (run : List Value → Access Samples.Kind Value) : Descriptor Samples.Kind :=
    Descriptor.static (.callable ['f'] .game ps .void run)
  let only (d : Descriptor Samples.Kind) : Catalog Samples.Kind :=
    ⟨⟨[(['f'], d)]⟩, .empty, .empty, .empty, .empty⟩
  let lenient (vs : List Value) : Access Samples.Kind Value := valueAt vs 1
  let strict (vs : List Value) : Access Samples.Kind Value := if vs.length = 2 then valueAt vs 1 else .panic none
  let s : Session Samples.Kind := ⟨.empty, ⟨only (command lenient), 0⟩⟩
  let p : Plan Samples.Kind := ⟨command lenient, none, .call [.int (-128), .enum Samples.difficulty 2] .void lenient⟩
  let c : Command := ⟨none, .call, ['f'], [("-0x80" : String), ("HARD" : String)]⟩
  have hp : c.plan s.slot.catalog s.world .runtime = .ok p := rfl
  have hcode : (command lenient).Agrees (command strict) := by
    refine ⟨(command strict).invoker, rfl, rfl, rfl, fun vs hvs => ?_⟩
    exact if_pos hvs.length
  have hcatalog : s.slot.catalog.Agrees (only (command strict)) := by
    have hfind (d : Descriptor Samples.Kind) (name : Text) (v : Verb) :
        (only d).lookup name v = if v = .call ∧ (['f'] = name ∨ ['f'] = Text.lower name) then some d else none := by
      cases v
      case call =>
        by_cases hname : ['f'] = name <;>
          simp [only, Catalog.lookup, Catalog.forVerb, NameMap.find?, NameMap.findEntry, hname]
      all_goals simp [only, Catalog.lookup, Catalog.forVerb, NameMap.find?, NameMap.findEntry, NameMap.empty]
    refine ⟨rfl, fun {name v} h => ?_, fun {name v d} h => ?_⟩
    · rw [hfind] at h ⊢
      split at h
      · cases h
      · rw [if_neg ‹_›]
    · rw [hfind] at h
      split at h
      · cases h
        exact ⟨command strict, by rw [hfind, if_pos ‹_›], hcode⟩
      · cases h
  have hsafe := run_type_safe s .runtime c
  exact ⟨s, p, only (command strict), hp, rfl, (hsafe.1 p hp).1, hcatalog, (hsafe.2.1 _ hcatalog).1⟩

end CommandConsole

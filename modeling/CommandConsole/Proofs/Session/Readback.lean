import CommandConsole.Catalog.Member
import CommandConsole.Proofs.Session.Hinting
import CommandConsole.Proofs.Session.Locality
import CommandConsole.Proofs.Value.Converting
/-!
# Readback — a field shows what it was set to

The two commands of a field write and read one stored datum.  On an object whose component no one uses, the setter's code
stores the value and tells of it (`runOn_changing`); the run over the objects stores it on each of them and changes nothing
else (`runEach_changing`).  The value is one of the field's type, so what is stored is given again as that value
(`intoValue_of_fromValue`), and the getter's line shows it where the setter's line told of it (`get_after_set`).  A component
that the host is reading can be read but not written, so there the value may be shown and not have been set
(`read_component_shows_value`).
-/
namespace CommandConsole

/-! ## Error lines about an object -/

/-- A text without dots, put before another text, does not make it one that goes on with a dot. -/
theorem append_ne_append_dot {u : Text} (hu : u ≠ []) (hdot : '.' ∉ u) (r rest : Text) (t : Text) :
    u ++ (t ++ r) ≠ t ++ '.' :: rest := by
  intro h
  rcases List.append_eq_append_iff.1 h with ⟨t', rfl, h'⟩ | ⟨u', rfl, h'⟩
  · -- `u` comes again and again at the start of `t`
    have hshorter : t'.length < (u ++ t').length := by simp [List.length_pos_iff.2 hu]
    rw [List.append_assoc] at h'
    exact append_ne_append_dot hu hdot r rest t' h'
  · cases u' with
    | nil       =>
      cases t with
      | nil      => exact hu rfl
      | cons c t => cases h'; exact hdot (by simp)
    | cons c u' =>
      cases h'
      exact hdot (by simp)
termination_by t.length

variable {κ : Type} [ComponentKind κ]

namespace Field

/-- What is told of an object without the component. -/
def missingLine (k : κ) (object : Text) : Text := errorLine (Failure.missingComponent object (ComponentKind.name k)).message

/-- What is told of an object whose component is in use. -/
def busyLine (k : κ) (label : Text) : Text := errorLine (Failure.invocation label (.busy (ComponentKind.name k))).message

/-- No error line about an object is a line that starts with the object and the name of a command. -/
theorem errorLine_ne (object name r rest : Text) : errorLine (object ++ r) ≠ object ++ "." ++ name ++ rest := by
  have hlabel : object ++ "." ++ name ++ rest = object ++ '.' :: (name ++ rest) := by simp
  rw [hlabel]
  exact append_ne_append_dot (by decide) (by decide) r _ object

theorem missingLine_ne (k : κ) (object name rest : Text) : missingLine k object ≠ object ++ "." ++ name ++ rest := by
  rw [missingLine, Failure.message, List.append_assoc, List.append_assoc]
  exact errorLine_ne _ _ _ _

theorem busyLine_ne (k : κ) (object name rest : Text) :
    busyLine k (object ++ "." ++ name) ≠ object ++ "." ++ name ++ rest := by
  have hbusy : busyLine k (object ++ "." ++ name) =
      errorLine (object ++ ("." ++ name ++ ": " ++ (InvocationError.busy (ComponentKind.name k)).message)) := by
    rw [busyLine, Failure.message, List.append_assoc object, List.append_assoc object, List.append_assoc object]
  rw [hbusy]
  exact errorLine_ne _ _ _ _

/-! ## The commands of a field -/

variable [DecidableEq κ] {k : κ} {f : Field κ k}

/-- What is got of the field is what it was set to. -/
def Keeps (f : Field κ k) : Prop := ∀ x s, f.get (f.set x s) = x

/-- The command changes the field, as its setter does; it may be of any visibility. -/
def Changes (f : Field κ k) (name : Text) (d : Descriptor κ) : Prop :=
  ∃ member isPrivate forced, d = { f.setter with name, member, isPrivate, forced }

/-- The command shows the field, as its getter does; it may be of any visibility. -/
def Shows (f : Field κ k) (name : Text) (d : Descriptor κ) : Prop :=
  ∃ member isPrivate forced, d = { f.getter with name, member, isPrivate, forced }

/-! ## One component -/

variable {v : Value} {x : f.type.Carrier} {is : List Nat}

theorem answer_of_setter {run : Value → Access κ Unit} (hrun : f.setter.invoker = .set f.type run)
    (hx : f.type.fromValue v = .ok x) (label : Text) (n : Nat) (cell : Cell (State k)) :
    (Prepared.set v run).answer label n k (some cell) =
      if cell.borrow = .free then
        (.value (label ++ " set to " ++ v.text), some { cell with content := f.set x cell.content })
      else (.error (.busy (ComponentKind.name k)), some cell) := by
  cases hrun
  obtain ⟨content, use⟩ := cell
  show Access.bind (Access.bind (Access.ofExcept (f.type.fromValue v)) _) _ n k (some ⟨content, use⟩) = _
  rw [hx]
  cases use <;>
    simp [Access.bind, Access.ofExcept, Access.pure, Access.modify, Access.withMut, Access.borrow, Access.write, bind, pure]

theorem answer_of_getter {run : Access κ Value} (hrun : f.getter.invoker = .get f.type run) (label : Text) (n : Nat)
    (cell : Cell (State k)) :
    (Prepared.get run).answer label n k (some cell) =
      (if cell.borrow = .exclusive then .error (.busy (ComponentKind.name k))
        else .value (label ++ " = " ++ (f.type.intoValue (f.get cell.content)).text), some cell) := by
  cases hrun
  obtain ⟨content, use⟩ := cell
  show Access.bind (Access.read k _) _ n k (some ⟨content, use⟩) = _
  cases use <;> simp [Access.bind, Access.pure, Access.read, Access.withRef, Access.borrow, pure]

/-! ## One object -/

/-- What is told of the object at place `i` when the field is set there. -/
def setLine (k : κ) (name : Text) (v : Value) (w : World κ) (i : Nat) : Text :=
  let label := w.nameAt i ++ "." ++ name
  match w.component? i k with
  | none      => missingLine k (w.nameAt i)
  | some cell => if cell.borrow = .free then label ++ " set to " ++ v.text else busyLine k label

/-- What is told of the object at place `i` when the field is shown. -/
def getLine (f : Field κ k) (name : Text) (w : World κ) (i : Nat) : Text :=
  let label := w.nameAt i ++ "." ++ name
  match w.component? i k with
  | none      => missingLine k (w.nameAt i)
  | some cell =>
    if cell.borrow = .exclusive then busyLine k label
    else label ++ " = " ++ (f.type.intoValue (f.get cell.content)).text

/-- The world once the field is set on the object at place `i`, if its component is there and no one uses it. -/
def storeAt (f : Field κ k) (x : f.type.Carrier) (w : World κ) (i : Nat) : World κ :=
  match w.component? i k with
  | none      => w
  | some cell => if cell.borrow = .free then w.putComponent i k { cell with content := f.set x cell.content } else w

section
variable {name : Text} {member : MemberKind} {isPrivate forced : Bool} {targets : Option (List Nat)}

/-- **On one object, the setter's code stores the value and tells of it**, if the component is there and no one uses it. -/
theorem runOn_changing (hx : f.type.fromValue v = .ok x) {run : Value → Access κ Unit}
    (hrun : f.setter.invoker = .set f.type run) (s : Session κ) (i : Nat) :
    Plan.runOn ⟨{ f.setter with name, member, isPrivate, forced }, targets, .set v run⟩ s i =
      (setLine k name v s.world i, ⟨f.storeAt x s.world i, s.slot⟩) := by
  cases hcell : s.world.component? i k with
  | none      =>
    refine (Plan.runOn_of_absent hcell).trans ?_
    rw [setLine, storeAt, hcell]
    rfl
  | some cell =>
    refine (Plan.runOn_of_present hcell).trans ?_
    have hanswer : Plan.answerOn ⟨{ f.setter with name, member, isPrivate, forced }, targets, .set v run⟩ s i cell = _ :=
      answer_of_setter hrun hx (s.world.nameAt i ++ "." ++ name) s.slot.catalog.size cell
    rw [hanswer, setLine, storeAt, hcell]
    by_cases hfree : cell.borrow = .free
    · simp only [if_pos hfree]
      rfl
    · simp only [if_neg hfree]
      exact congrArg (Prod.mk _) (congrArg (Session.mk · s.slot) (putComponent_of_component? hcell))

/-- **On one object, the getter's code tells what the field holds**, unless the component is being written. -/
theorem runOn_showing {run : Access κ Value} (hrun : f.getter.invoker = .get f.type run) (s : Session κ) (i : Nat) :
    Plan.runOn ⟨{ f.getter with name, member, isPrivate, forced }, targets, .get run⟩ s i =
      (f.getLine name s.world i, s) := by
  cases hcell : s.world.component? i k with
  | none      =>
    refine (Plan.runOn_of_absent hcell).trans ?_
    rw [getLine, hcell]
    rfl
  | some cell =>
    refine (Plan.runOn_of_present hcell).trans ?_
    have hanswer : Plan.answerOn ⟨{ f.getter with name, member, isPrivate, forced }, targets, .get run⟩ s i cell = _ :=
      answer_of_getter hrun (s.world.nameAt i ++ "." ++ name) s.slot.catalog.size cell
    rw [hanswer, getLine, hcell]
    have hworld : s.world.putComponent i k cell = s.world := putComponent_of_component? hcell
    refine Prod.ext ?_ (congrArg (Session.mk · s.slot) hworld)
    by_cases hwritten : cell.borrow = .exclusive
    · simp only [if_pos hwritten]
      rfl
    · simp only [if_neg hwritten]
      rfl

end

/-! ## Several objects -/

/-- The field holds `x` on the objects at the given places unless their components are in use, and nothing else differs. -/
structure Stored (f : Field κ k) (x : f.type.Carrier) (places : List Nat) (w w' : World κ) : Prop where
  bare   : w'.bare = w.bare
  use    : ∀ i, (w'.component? i k).map Cell.borrow = (w.component? i k).map Cell.borrow
  holds  : ∀ i ∈ places, ∀ cell, w'.component? i k = some cell → cell.borrow = .free → f.get cell.content = x
  inUse  : ∀ i cell, w.component? i k = some cell → cell.borrow ≠ .free → w'.component? i k = some cell
  beyond : ∀ i l, (i ∈ places → l ≠ k) → w'.component? i l = w.component? i l

theorem Stored.refl (f : Field κ k) (x : f.type.Carrier) (w : World κ) : f.Stored x [] w w where
  bare := rfl
  use := fun _ => rfl
  holds := nofun
  inUse := fun _ _ h _ => h
  beyond := fun _ _ _ => rfl

/-- What is stored once stays where it is stored again. -/
theorem Stored.trans {w u w' : World κ} {is js : List Nat} (h : f.Stored x is w u) (h' : f.Stored x js u w') :
    f.Stored x (is ++ js) w w' where
  bare := h'.bare.trans h.bare
  use := fun i => (h'.use i).trans (h.use i)
  holds := fun i hi cell hcell hfree => by
    by_cases hj : i ∈ js
    · exact h'.holds i hj cell hcell hfree
    · have hsame := h'.beyond i k fun h => absurd h hj
      exact h.holds i ((List.mem_append.1 hi).resolve_right hj) cell (hsame ▸ hcell) hfree
  inUse := fun i cell hcell hused => h'.inUse i cell (h.inUse i cell hcell hused) hused
  beyond := fun i l hil =>
    (h'.beyond i l fun hi => hil (List.mem_append_right is hi)).trans
      (h.beyond i l fun hi => hil (List.mem_append_left js hi))

/-- Objects keep their names. -/
theorem Stored.nameAt {w w' : World κ} (h : f.Stored x is w w') (i : Nat) : w'.nameAt i = w.nameAt i := by
  rw [← World.nameAt_bare, h.bare, World.nameAt_bare]

/-- Components stay where they are, in the same use. -/
theorem Stored.component? {w w' : World κ} (h : f.Stored x is w w') (i : Nat) :
    (w.component? i k = none ∧ w'.component? i k = none) ∨
      ∃ cell cell', w.component? i k = some cell ∧ w'.component? i k = some cell' ∧ cell'.borrow = cell.borrow := by
  have huse := h.use i
  cases hcell : w.component? i k with
  | none      =>
    rw [hcell] at huse
    exact .inl ⟨rfl, Option.map_eq_none_iff.1 huse⟩
  | some cell =>
    rw [hcell] at huse
    obtain ⟨cell', hcell', hborrow⟩ := Option.map_eq_some_iff.1 huse
    exact .inr ⟨cell, cell', rfl, hcell', hborrow⟩

theorem stored_storeAt (hkeeps : f.Keeps) (x : f.type.Carrier) (w : World κ) (i : Nat) :
    f.Stored x [i] w (f.storeAt x w i) := by
  unfold storeAt
  cases hcell : w.component? i k with
  | none      =>
    refine ⟨rfl, fun _ => rfl, fun j hj cell h => ?_, fun _ _ h _ => h, fun _ _ _ => rfl⟩
    cases List.mem_singleton.1 hj
    cases hcell.symm.trans h
  | some cell =>
    dsimp only
    by_cases hfree : cell.borrow = .free
    · rw [if_pos hfree]
      have hput := World.component?_putComponent (w := w) (i := i) (k := k) (by rw [hcell]; exact nofun)
        { cell with content := f.set x cell.content }
      have hother : ∀ j l, (j = i → l ≠ k) →
          (w.putComponent i k { cell with content := f.set x cell.content }).component? j l = w.component? j l :=
        fun j l hjl => World.component?_putComponent_of_ne (fun h hk => hjl h.symm hk.symm) _
      refine ⟨World.bare_putComponent .., fun j => ?_, fun j hj cell' h hfree' => ?_, fun j cell' h hused => ?_,
        fun j l hjl => hother j l fun h => hjl (List.mem_singleton.2 h)⟩
      · by_cases hj : j = i
        · rw [hj, hput, hcell]; rfl
        · rw [hother j k fun h => absurd h hj]
      · cases List.mem_singleton.1 hj
        cases hput.symm.trans h
        exact hkeeps x cell.content
      · by_cases hj : j = i
        · cases hj
          cases hcell.symm.trans h
          exact absurd hfree hused
        · rw [hother j k fun h => absurd h hj, h]
    · rw [if_neg hfree]
      refine ⟨rfl, fun _ => rfl, fun j hj cell' h hfree' => ?_, fun _ _ h _ => h, fun _ _ _ => rfl⟩
      cases List.mem_singleton.1 hj
      cases hcell.symm.trans h
      exact absurd hfree' hfree

/-- What is told of an object on which the field is set depends on its name and on the use of its component. -/
theorem setLine_congr {w w' : World κ} (h : f.Stored x is w w') (name : Text) (i : Nat) :
    setLine k name v w' i = setLine k name v w i := by
  unfold setLine
  rw [h.nameAt i]
  rcases h.component? i with ⟨hw, hw'⟩ | ⟨cell, cell', hw, hw', hborrow⟩
  · rw [hw, hw']
  · rw [hw, hw']
    dsimp only
    rw [hborrow]

section
variable {name : Text} {member : MemberKind} {isPrivate forced : Bool} {targets : Option (List Nat)}

/-- **The setter stores the value on each of its objects**, however often they repeat, and changes nothing else. -/
theorem runEach_changing (hkeeps : f.Keeps) (hx : f.type.fromValue v = .ok x) {run : Value → Access κ Unit}
    (hrun : f.setter.invoker = .set f.type run) : ∀ (is : List Nat) (s : Session κ),
    ∃ w', Plan.runEach ⟨{ f.setter with name, member, isPrivate, forced }, targets, .set v run⟩ s is =
        (is.map (setLine k name v s.world), ⟨w', s.slot⟩) ∧ f.Stored x is s.world w'
  | [],      s => ⟨s.world, rfl, .refl f x s.world⟩
  | i :: is, s => by
    have hstep := stored_storeAt hkeeps x s.world i
    obtain ⟨w', hrest, hstored⟩ := runEach_changing hkeeps hx hrun is ⟨f.storeAt x s.world i, s.slot⟩
    refine ⟨w', ?_, hstep.trans hstored⟩
    rw [Plan.runEach_cons, runOn_changing hx hrun, hrest, List.map_congr_left fun j _ => setLine_congr hstep name j]
    rfl

theorem runEach_showing {run : Access κ Value} (hrun : f.getter.invoker = .get f.type run) :
    ∀ (is : List Nat) (s : Session κ),
    Plan.runEach ⟨{ f.getter with name, member, isPrivate, forced }, targets, .get run⟩ s is =
      (is.map (f.getLine name s.world), s)
  | [],      s => rfl
  | i :: is, s => by
    rw [Plan.runEach_cons, runOn_showing hrun, runEach_showing hrun is s]
    rfl

end

/-! ## What is read back -/

/-- What is told of the object at place `i` when the field is set to `v`, and what is then told when it is shown.  A
component that others are reading stays as it was. -/
inductive ReadsBack (f : Field κ k) (name : Text) (v : Value) (w : World κ) (i : Nat) : Text → Text → Prop
  | absent (hcell : w.component? i k = none) :
    ReadsBack f name v w i (missingLine k (w.nameAt i)) (missingLine k (w.nameAt i))
  | stored {cell : Cell (State k)} (hcell : w.component? i k = some cell) (hfree : cell.borrow = .free) :
    ReadsBack f name v w i (w.nameAt i ++ "." ++ name ++ " set to " ++ v.text) (w.nameAt i ++ "." ++ name ++ " = " ++ v.text)
  | read {cell : Cell (State k)} (hcell : w.component? i k = some cell) (hread : cell.borrow = .shared) :
    ReadsBack f name v w i (busyLine k (w.nameAt i ++ "." ++ name))
      (w.nameAt i ++ "." ++ name ++ " = " ++ (f.type.intoValue (f.get cell.content)).text)
  | written {cell : Cell (State k)} (hcell : w.component? i k = some cell) (hwritten : cell.borrow = .exclusive) :
    ReadsBack f name v w i (busyLine k (w.nameAt i ++ "." ++ name)) (busyLine k (w.nameAt i ++ "." ++ name))

theorem readsBack_of_stored {w w' : World κ} (h : f.Stored x is w w') (hv : f.type.intoValue x = v) (name : Text) {i : Nat}
    (hi : i ∈ is) : f.ReadsBack name v w i (setLine k name v w i) (f.getLine name w' i) := by
  unfold setLine getLine
  rw [h.nameAt i]
  rcases h.component? i with ⟨hcell, hcell'⟩ | ⟨cell, cell', hcell, hcell', hborrow⟩
  · rw [hcell, hcell']
    exact .absent hcell
  · rw [hcell, hcell']
    dsimp only
    cases hused : cell.borrow with
    | free      =>
      have hfree : cell'.borrow = .free := hborrow.trans hused
      rw [hfree, h.holds i hi cell' hcell' hfree, hv]
      exact .stored hcell hused
    | shared    =>
      cases hcell'.symm.trans (h.inUse i cell hcell (by rw [hused]; exact nofun))
      rw [hused]
      exact .read hcell hused
    | exclusive =>
      rw [hborrow, hused]
      exact .written hcell hused

/-- **The value is shown just where it was told to be set**, unless others are reading the component. -/
theorem ReadsBack.exact {w : World κ} {name set get : Text} {i : Nat} (h : f.ReadsBack name v w i set get)
    (hread : ∀ cell, w.component? i k = some cell → cell.borrow ≠ .shared) :
    get = w.nameAt i ++ "." ++ name ++ " = " ++ v.text ↔ set = w.nameAt i ++ "." ++ name ++ " set to " ++ v.text := by
  rw [List.append_assoc _ _ v.text, List.append_assoc _ _ v.text]
  cases h with
  | absent         => exact iff_of_false (missingLine_ne _ _ _ _) (missingLine_ne _ _ _ _)
  | stored         => exact iff_of_true (by simp) (by simp)
  | read hcell h   => exact absurd h (hread _ hcell)
  | written        => exact iff_of_false (busyLine_ne _ _ _ _) (busyLine_ne _ _ _ _)

end Field

/-! ## Lines -/

theorem targets_of_resolve {d : Descriptor κ} {w : World κ} {context : Context} {selector : Selector} {places : List Nat}
    (hd : d.isStatic = false) (hresolve : selector.resolve w context = .ok places) :
    d.targets w context (some selector) = .ok (some places) := by
  rw [Descriptor.targets, hd, if_neg Bool.false_ne_true]
  rw [hresolve]

/-- A value is set by the words that follow the name, and there are some if the line is not refused. -/
theorem exists_value_of_set {line name : Text} {target : Option Selector} {args : List Text}
    (hparse : Command.parse line = .ok ⟨target, .set, name, args⟩) {t : Text} (ht : args.head? = some t) : args = [t] := by
  obtain ⟨us, word, ts, -, -, -, hargs⟩ := exists_words_of_parse hparse
  cases ts with
  | nil       =>
    cases hargs
    cases ht
  | cons w ts =>
    cases hargs
    cases ht
    rfl

variable [DecidableEq κ]

/-- **What a line confirms that it set, the line that gets it shows.**  Let two commands of one name change and show a field
that keeps what is put there.  A line that sets it to a value and is not refused as a whole tells of each of its objects, in
order; then the line that gets it of the same objects tells of each of them in the same order.  Where the value was set it is
shown, and where there is no component both lines tell so alike.  A component in use is not set, and is shown as it was if it
is only being read; so but for those, the value is shown just where it was set.  Nothing else changes. -/
theorem get_after_set {k : κ} {f : Field κ k} (hkeeps : f.Keeps) (hsingle : f.type.unwrapNullable ≠ .single)
    {context : Context} {a b name : Text} {target : Option Selector} {args ignored : List Text}
    (ha : Command.parse a = .ok ⟨target, .set, name, args⟩) (hb : Command.parse b = .ok ⟨target, .get, name, ignored⟩)
    {s s' : Session κ} {d g : Descriptor κ} {listed : Text}
    (hd : s.slot.catalog.lookup name .set = some d) (hg : s.slot.catalog.lookup name .get = some g)
    (hchanges : f.Changes listed d) (hshows : f.Shows listed g) {lines : List Text}
    (hrun : s.run context a = (.ok lines, s')) :
    ∃ (text : Text) (v : Value) (selector : Selector) (places : List Nat) (lines' : List Text),
      args = [text] ∧ f.type.read s.world.lookup text = .ok v ∧
      target = some selector ∧ selector.resolve s.world context = .ok places ∧
      s'.run context b = (.ok lines', s') ∧ lines.length = places.length ∧ lines'.length = places.length ∧
      (∀ (n i : Nat), places[n]? = some i → ∃ confirmed shown, lines[n]? = some confirmed ∧ lines'[n]? = some shown ∧
        f.ReadsBack listed v s.world i confirmed shown ∧
        ((∀ cell, s.world.component? i k = some cell → cell.borrow ≠ .shared) →
          (shown = s.world.nameAt i ++ "." ++ listed ++ " = " ++ v.text ↔
            confirmed = s.world.nameAt i ++ "." ++ listed ++ " set to " ++ v.text))) ∧
      ∀ i l, (i ∈ places → l ≠ k) → s'.world.component? i l = s.world.component? i l := by
  rw [sessionRun_of_parse ha] at hrun
  obtain ⟨⟨d', targets, prepared⟩, hplan, hrun⟩ := run_eq_ok_iff.1 hrun
  obtain ⟨hlookup, htargets, hprepare⟩ := plan_eq_ok_iff.1 hplan
  cases hd.symm.trans hlookup
  obtain ⟨member, isPrivate, forced, rfl⟩ := hchanges
  obtain ⟨member', isPrivate', forced', rfl⟩ := hshows
  obtain ⟨selector, places, rfl, hresolve, htargets⟩ := targets_eq_ok rfl htargets
  cases htargets
  -- the code is the field's own, on a value of its type
  obtain ⟨text, v, htext, hread, hvalues⟩ := read_of_prepare_set hprepare
  have hadmits := admits_of_prepare hprepare
  cases prepared with
  | get run             => exact hadmits.elim
  | call vs returns run => exact hadmits.elim
  | set w run           =>
    cases hvalues
    obtain ⟨rfl, htype⟩ : run = _ ∧ v.HasType f.type := hadmits
    obtain ⟨x, hx⟩ := fromValue_of_hasType htype
    have hgiven := TypeTag.intoValue_of_fromValue htype hsingle hx
    obtain ⟨w', heach, hstored⟩ : ∃ w',
        Plan.runEach ⟨{ f.setter with name := listed, member, isPrivate, forced }, some places, .set v _⟩ s places =
          (places.map (Field.setLine k listed v s.world), ⟨w', s.slot⟩) ∧ f.Stored x places s.world w' :=
      Field.runEach_changing hkeeps hx rfl places s
    rw [Plan.run_of_targets rfl] at hrun
    cases hrun.symm.trans heach
    have hresolve' : selector.resolve w' context = .ok places := by
      rw [← World.resolve_bare, hstored.bare, World.resolve_bare, hresolve]
    have hrun' : Session.run context b ⟨w', s.slot⟩ = (.ok (places.map (f.getLine listed w')), ⟨w', s.slot⟩) := by
      rw [sessionRun_of_parse hb]
      refine run_eq_ok_iff.2 ⟨⟨_, some places, _⟩, plan_eq_ok_iff.2 ⟨hg, targets_of_resolve rfl hresolve', rfl⟩, ?_⟩
      rw [Plan.run_of_targets rfl]
      exact Field.runEach_showing rfl places _
    refine ⟨text, v, selector, places, _, exists_value_of_set ha htext, hread, rfl, hresolve, hrun', by simp, by simp,
      fun n i hi => ?_, fun i l hil => hstored.beyond i l hil⟩
    have hback := Field.readsBack_of_stored hstored hgiven listed (List.mem_of_getElem? hi)
    exact ⟨_, _, by rw [List.getElem?_map, hi]; rfl, by rw [List.getElem?_map, hi]; rfl, hback, hback.exact⟩

namespace Samples

/-- The level of a player, as a field. -/
def playerLevel : Field Kind .player :=
  ⟨"level", .enum difficulty, Player.difficulty, fun d p => { p with difficulty := d }⟩

def getPlayerLevel : Descriptor Kind := { playerLevel.getter with name := "level" }

def setPlayerLevel : Descriptor Kind := { playerLevel.setter with name := "level" }

/-- A session in which levels can be shown and set. -/
def withLevels (w : World Kind) : Session Kind :=
  ⟨w, ⟨⟨.empty, ⟨[("level", getPlayerLevel)]⟩, ⟨[("level", setPlayerLevel)]⟩, .empty, .empty⟩, 0⟩⟩

theorem playerLevel_keeps : playerLevel.Keeps := fun _ _ => rfl

theorem setPlayerLevel_changes : playerLevel.Changes "level" setPlayerLevel := ⟨.field, false, false, rfl⟩

theorem getPlayerLevel_shows : playerLevel.Shows "level" getPlayerLevel := ⟨.field, false, false, rfl⟩

end Samples

/-- A level is set by its name in another case, on a selection that holds one object twice and one without the component. -/
theorem get_after_set_selection :
    ∃ (s s' : Session Samples.Kind) (lines : List Text),
      s.run .interactive "select set level hARD" = (.ok [("A.level set to Hard" : Text),
        ("Error: B has no Player component" : Text), ("A.level set to Hard" : Text)], s') ∧
      s'.run .interactive "select get level" = (.ok lines, s') ∧ lines.length = 3 ∧
      lines[0]? = some ("A.level = Hard" : Text) ∧ lines[1]? = some ("Error: B has no Player component" : Text) := by
  let players : ComponentSet Samples.Kind :=
    ComponentSet.empty.insert .player (Samples.Player.mk 0 ⟨0, by decide⟩ [] none)
  let w : World Samples.Kind := .ofEntities [⟨['A'], [], players⟩, ⟨['B'], [], .empty⟩] [0, 1, 0]
  let s : Session Samples.Kind := Samples.withLevels w
  have ha : Command.parse "select set level hARD" = .ok ⟨some .selection, .set, "level", ["hARD"]⟩ := by decide +kernel
  have hb : Command.parse "select get level" = .ok ⟨some .selection, .get, "level", []⟩ := by decide +kernel
  have hlines : (s.run .interactive "select set level hARD").1 = .ok [("A.level set to Hard" : Text),
      ("Error: B has no Player component" : Text), ("A.level set to Hard" : Text)] := by
    rw [sessionRun_of_parse ha]
    rfl
  have hrun : s.run .interactive "select set level hARD" = (_, (s.run .interactive "select set level hARD").2) :=
    Prod.ext hlines rfl
  obtain ⟨text, v, selector, places, lines, htext, hread, hselector, hresolve, hrun', hlength, hlength', hback, -⟩ :=
    get_after_set Samples.playerLevel_keeps nofun ha hb rfl rfl Samples.setPlayerLevel_changes Samples.getPlayerLevel_shows hrun
  cases htext
  cases hselector
  cases hresolve
  cases hread
  obtain ⟨confirmed, shown, hconfirmed, hshown, hstored, -⟩ := hback 0 0 rfl
  obtain ⟨confirmed', shown', hconfirmed', hshown', habsent, -⟩ := hback 1 1 rfl
  refine ⟨s, _, lines, hrun, hrun', hlength'.trans rfl, ?_, ?_⟩
  · cases hstored with
    | stored => exact hshown
    | absent h => cases h
    | read h h' => cases h; cases h'
    | written h h' => cases h; cases h'
  · cases habsent with
    | absent => exact hshown'
    | stored h => cases h
    | read h => cases h
    | written h => cases h

/-- **What is shown need not have been set.**  A line sets the level of an object whose component the host is reading.  The
line is not refused, and tells that the component is busy; the line that gets the level shows the value all the same, for it
was there before. -/
theorem read_component_shows_value :
    let player : Cell (State Samples.Kind.player) := ⟨Samples.Player.mk 0 ⟨2, by decide⟩ [] none, .shared⟩
    let s := Samples.withLevels (.ofEntities [⟨['A'], [], ⟨[⟨.player, player⟩]⟩⟩] [])
    let confirmed : Text := "Error: A.level: Player component is already borrowed"
    let shown : Text := "A.level = Hard"
    Samples.playerLevel.Keeps ∧ Samples.playerLevel.type.unwrapNullable ≠ .single ∧
      Samples.playerLevel.Changes "level" Samples.setPlayerLevel ∧ Samples.playerLevel.Shows "level" Samples.getPlayerLevel ∧
      s.slot.catalog.lookup "level" .set = some Samples.setPlayerLevel ∧
      s.slot.catalog.lookup "level" .get = some Samples.getPlayerLevel ∧
      s.run .interactive "@A set level Hard" = (.ok [confirmed], s) ∧ s.run .interactive "@A get level" = (.ok [shown], s) ∧
      ¬ (shown = "A.level = Hard" ↔ confirmed = "A.level set to Hard") := by
  intro player s confirmed shown
  have ha : Command.parse "@A set level Hard" = .ok ⟨some (.marked .name ['A']), .set, "level", ["Hard"]⟩ := by
    decide +kernel
  have hb : Command.parse "@A get level" = .ok ⟨some (.marked .name ['A']), .get, "level", []⟩ := by decide +kernel
  refine ⟨Samples.playerLevel_keeps, nofun, Samples.setPlayerLevel_changes, Samples.getPlayerLevel_shows, rfl, rfl, ?_, ?_,
    fun h => absurd (h.1 rfl) (by decide)⟩
  · rw [sessionRun_of_parse ha]
    rfl
  · rw [sessionRun_of_parse hb]
    rfl

end CommandConsole

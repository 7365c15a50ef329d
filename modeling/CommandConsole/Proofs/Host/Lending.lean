import CommandConsole.Catalog.Member
import CommandConsole.Samples.Script
/-!
# Lending — a component comes back as free as it was lent

Member code comes to components through `withRef` and `withMut` alone (`Access.Written`).  However it ends, with a value, with
an error or with a panic while it writes, the cell it was handed is in use by those who used it before, and by no one else
(`Written.gives_back`).  So code that does not ask for a component while it has one is never told that a free one is busy
(`Written.not_busy`).
-/
namespace CommandConsole

variable {κ : Type} [ComponentKind κ] {α β : Type} {nesting lent : Bool}

namespace Access

theorem bind_eq (x : Access κ α) (f : α → Access κ β) (n : Nat) (k : κ) (t : Target k) : Access.bind x f n k t =
    match (x n k t).1 with
    | .value a => f a n k (x n k t).2
    | .error e => (.error e, (x n k t).2)
    | .panic m => (.panic m, (x n k t).2) := by
  unfold Access.bind
  rcases x n k t with ⟨_ | _ | _, _⟩ <;> rfl

variable [DecidableEq κ]

/-- Member code as it is written: it computes, may end in an error or a panic at any point, and comes to components through
`withRef` and `withMut`.  `lent` says whether it runs inside one of these, and `nesting` whether code inside them may ask for
a component again, or say of itself that one is busy. -/
inductive Written (nesting : Bool) : Bool → {α : Type} → Access κ α → Prop
  | pure {lent : Bool} {α : Type} (a : α) : Written nesting lent (Access.pure a)
  | fail {lent : Bool} {α : Type} (e : InvocationError) (h : nesting = false → ∀ name, e ≠ .busy name) :
      Written nesting lent (Access.fail e : Access κ α)
  | panic {lent : Bool} {α : Type} (m : Option Text) : Written nesting lent (Access.panic m : Access κ α)
  | commandCount {lent : Bool} : Written nesting lent Access.commandCount
  | bind {lent : Bool} {α β : Type} {x : Access κ α} {f : α → Access κ β} :
      Written nesting lent x → (∀ a, Written nesting lent (f a)) → Written nesting lent (Access.bind x f)
  | withRef {lent : Bool} {α : Type} {j : κ} {body : State j → Access κ α} (h : nesting = false → lent = false) :
      (∀ s, Written nesting true (body s)) → Written nesting lent (Access.withRef j body)
  | withMut {lent : Bool} {α : Type} {j : κ} {body : State j → Access κ α} (h : nesting = false → lent = false) :
      (∀ s, Written nesting true (body s)) → Written nesting lent (Access.withMut j body)
  | write {j : κ} (s : State j) : Written nesting true (Access.write j s)

/-! ## Giving back -/

theorem borrow_gives_back (use : Borrow) (allowed : Borrow → Bool) (j : κ) {body : State j → Access κ α}
    (hbody : ∀ s n k t, ((body s n k t).2.map Cell.borrow) = t.map Cell.borrow) (n : Nat) (k : κ) (t : Target k) :
    ((borrow use allowed j body n k t).2.map Cell.borrow) = t.map Cell.borrow := by
  cases t with
  | none      => rfl
  | some cell =>
    unfold borrow
    dsimp only
    split
    · split
      · -- the body gives back a cell, and that is marked as the one that was lent
        have hsome := hbody (‹k = j› ▸ cell.content) n k (some { cell with borrow := use })
        dsimp only
        cases hafter : (body (‹k = j› ▸ cell.content) n k (some { cell with borrow := use })).2 with
        | none       =>
          rw [hafter] at hsome
          cases hsome
        | some after => rfl
      · rfl
    · rfl

/-- **Whatever happens in between, a component is given back as free as it was.** -/
theorem Written.gives_back {x : Access κ α} (h : x.Written nesting lent) : ∀ (n : Nat) (k : κ) (t : Target k),
    ((x n k t).2.map Cell.borrow) = t.map Cell.borrow := by
  induction h with
  | pure a | fail e _ | panic m | commandCount => exact fun _ _ _ => rfl
  | @bind _ _ _ x f _ _ ihx ihf =>
    intro n k t
    rw [bind_eq]
    split
    · exact (ihf _ n k _).trans (ihx n k t)
    · exact ihx n k t
    · exact ihx n k t
  | withRef _ _ ih => exact borrow_gives_back .shared _ _ ih
  | withMut _ _ ih => exact borrow_gives_back .exclusive _ _ ih
  | @write j s =>
    intro n k t
    unfold Access.write
    dsimp only
    split
    · cases t <;> rfl
    · rfl

/-! ## Asking for a free component -/

theorem borrow_of_free (use : Borrow) {allowed : Borrow → Bool} (hfree : allowed .free = true) (j : κ)
    {body : State j → Access κ α} {name : Text}
    (hbody : ∀ s n k t, (body s n k t).1 ≠ .error (.busy name)) {n : Nat} {k : κ} {t : Target k}
    (ht : ∀ cell, t = some cell → cell.borrow = .free) : (borrow use allowed j body n k t).1 ≠ .error (.busy name) := by
  cases t with
  | none      => exact nofun
  | some cell =>
    unfold borrow
    dsimp only
    split
    · rw [ht cell rfl, if_pos hfree]
      exact hbody _ n k _
    · exact nofun

/-- **Code that asks for one component at a time is never told that a free one is busy.** -/
theorem Written.not_busy {x : Access κ α} (h : x.Written false lent) (name : Text) : ∀ (n : Nat) (k : κ) (t : Target k),
    (lent = false → ∀ cell, t = some cell → cell.borrow = .free) → (x n k t).1 ≠ .error (.busy name) := by
  induction h with
  | pure a | panic m | commandCount | write s => exact fun _ _ _ _ => nofun
  | fail e he =>
    rintro n k t - heq
    cases heq
    exact he rfl name rfl
  | @bind lent _ _ x f hx _ ihx ihf =>
    intro n k t ht
    rw [bind_eq]
    split
    · refine ihf _ n k _ fun hlent cell hcell => ?_
      -- what the first part gave back is as free as what it was lent
      have hback := hx.gives_back n k t
      rw [hcell] at hback
      obtain ⟨cell', rfl, hborrow⟩ := Option.map_eq_some_iff.1 hback.symm
      exact hborrow.symm.trans (ht hlent cell' rfl)
    · rename_i e he
      rintro heq
      cases heq
      exact ihx n k t ht he
    · exact nofun
  | withRef hlent _ ih =>
    exact fun n k t ht => borrow_of_free .shared rfl _ (fun s n k t => ih s n k t nofun) (ht (hlent rfl))
  | withMut hlent _ ih =>
    exact fun n k t ht => borrow_of_free .exclusive rfl _ (fun s n k t => ih s n k t nofun) (ht (hlent rfl))

/-! ## Code of these forms -/

theorem written_read (j : κ) (f : State j → α) : (read j f).Written nesting false :=
  .withRef (fun _ => rfl) fun s => .pure (f s)

theorem written_modify (j : κ) (f : State j → α × State j) : (modify j f).Written nesting false :=
  .withMut (fun _ => rfl) fun s => .bind (.write (f s).2) fun _ => .pure (f s).1

theorem written_ofExcept {x : Except InvocationError α}
    (hx : nesting = false → ∀ e, x = .error e → ∀ name, e ≠ .busy name) :
    (ofExcept x : Access κ α).Written nesting lent := by
  cases x with
  | ok a    => exact .pure a
  | error e => exact .fail e fun hnesting => hx hnesting e rfl

theorem written_valueAt (values : List Value) (i : Nat) : (valueAt values i : Access κ Value).Written nesting lent := by
  unfold valueAt
  split
  · exact .pure _
  · exact .panic _

end Access

/-! ## Declared code -/

variable [DecidableEq κ]

/-- The code of a command, on whatever values it is given. -/
def Invoker.Written (nesting : Bool) : Invoker κ → Prop
  | .call _ _ run => ∀ values, (run values).Written nesting false
  | .get _ run    => run.Written nesting false
  | .set _ run    => ∀ v, (run v).Written nesting false

/-- The code of the command is written so, and that of all commands it may put in place. -/
inductive Descriptor.Written : Descriptor κ → Prop
  | intro {d : Descriptor κ} (invoker : d.invoker.Written true)
      (installs : ∀ values commandCount k target ds, d.installs values commandCount k target = some ds →
        ∀ d' ∈ ds, Descriptor.Written d') : Descriptor.Written d

theorem Descriptor.Written.invoker {d : Descriptor κ} : d.Written → d.invoker.Written true
  | .intro invoker _ => invoker

/-- A conversion that fails does not say that a component is busy. -/
theorem fromValue_ne_busy {name : Text} : ∀ {t : TypeTag} {v : Value} {e : InvocationError}, t.fromValue v = .error e →
    e ≠ .busy name := by
  intro t
  induction t with
  | nullable t ih =>
    intro v e h
    unfold TypeTag.fromValue at h
    split at h
    · cases h
    · cases hv : t.fromValue v with
      | ok x    => rw [hv] at h; cases h
      | error e' =>
        rw [hv] at h
        cases h
        exact ih hv
  | _ =>
    intro v e h
    unfold TypeTag.fromValue at h
    repeat' split at h
    all_goals cases h
    all_goals exact nofun

namespace Field

variable {k : κ}

/-- **What shows a field and what changes it ask for its component once.** -/
theorem written_getter (f : Field κ k) : f.getter.invoker.Written nesting := Access.written_read ..

theorem written_setter (f : Field κ k) : f.setter.invoker.Written nesting := fun _ =>
  .bind (Access.written_ofExcept fun _ _ he _ => fromValue_ne_busy he) fun _ => Access.written_modify ..

end Field

/-! ## Scripted code -/

namespace Samples

/-- Every action comes to components as member code does. -/
theorem Action.written (owner : Text) (values : List Value) (a : Action) : (a.run owner values).Written true false := by
  have nests {b : Bool} : true = false → b = false := nofun
  cases a with
  | done             => exact .pure _
  | arg i            => exact Access.written_valueAt values i
  | join             => exact .pure _
  | value v          => exact .pure _
  | fail m           => exact .fail _ nofun
  | panic m          => exact .panic _
  | panicWriting m   => exact .withMut nests fun _ => .panic _
  | field f          => exact Access.written_read ..
  | store f          =>
    exact .withMut nests fun _ => .bind (Access.written_valueAt values 0) fun _ => .bind (.write _) fun _ => .pure _
  | count f          => exact Access.written_modify ..
  | readWhileWriting => exact .withMut nests fun _ => .withRef nests fun _ => .pure _
  | writeWhileReading => exact .withRef nests fun _ => .withMut nests fun _ => .bind (.write _) fun _ => .pure _
  | readTwice        => exact .withRef nests fun _ => .withRef nests fun _ => .pure _
  | foreign          => exact Access.written_read ..
  | convert t        =>
    exact .bind (Access.written_valueAt values 0) fun _ => .bind (Access.written_ofExcept nofun) fun _ => .pure _
  | wipe             =>
    show Access.Written true false (Access.bind Access.commandCount fun n => Access.pure (Value.uint n.toUInt64))
    exact .bind .commandCount fun n => .pure _

theorem ScriptedMember.written (m : ScriptedMember) : m.descriptor.Written := by
  refine .intro ?_ fun _ _ _ _ ds hds d hd => ?_
  · show m.invoker.Written true
    unfold ScriptedMember.invoker
    split
    · exact fun vs => m.action.written m.owner vs
    · exact m.action.written m.owner []
    · exact fun v => .bind (m.action.written m.owner [v]) fun _ => .pure _
  · -- no action puts a command in place
    have hds : m.action.installs = some ds := hds
    unfold Action.installs at hds
    split at hds
    · cases hds
      cases hd
    · cases hds

end Samples
end CommandConsole

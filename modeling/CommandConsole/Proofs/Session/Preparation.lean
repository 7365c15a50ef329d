import CommandConsole.Proofs.Value.Typing
import CommandConsole.Session.Plan
/-!
# Preparation — what a plan was checked for

A plan that is made has passed every check: its descriptor is the catalog's, its objects are those the selector reaches,
and its code is the descriptor's on values of the declared types (`plan_eq_ok_iff`, `admits_of_prepare`).  Arguments that
cannot be read are told of by the leftmost of them (`readArguments_eq_error_iff`).
-/
namespace CommandConsole

variable {κ : Type} [ComponentKind κ]

theorem except_map_eq_ok {ε α β : Type} {f : α → β} {x : Except ε α} {b : β} :
    x.map f = .ok b ↔ ∃ a, x = .ok a ∧ f a = b := by
  cases x <;> simp [Except.map]

theorem except_map_eq_error {ε α β : Type} {f : α → β} {x : Except ε α} {e : ε} :
    x.map f = .error e ↔ x = .error e := by
  cases x <;> simp [Except.map]

theorem except_bind_eq_ok {ε α β : Type} {x : Except ε α} {f : α → Except ε β} {b : β} :
    (x >>= f) = .ok b ↔ ∃ a, x = .ok a ∧ f a = .ok b := by
  cases x <;> simp [bind, Except.bind]

/-! ## Arguments -/

/-- The values stand for the texts, each read against the parameter at its place. -/
structure ReadsAs (find : ObjectLookup) (ps : List Parameter) (ts : List Text) (vs : List Value) : Prop where
  length : vs.length = ps.length
  read   : ∀ {i : Nat} {p : Parameter} {t : Text} {v : Value}, ps[i]? = some p → ts[i]? = some t → vs[i]? = some v →
    p.type.read find t = .ok v

/-- The values are one for each parameter, each of the type declared at its place. -/
structure Fits (ps : List Parameter) (vs : List Value) : Prop where
  length : vs.length = ps.length
  typed  : ∀ {i : Nat} {p : Parameter} {v : Value}, ps[i]? = some p → vs[i]? = some v → v.HasType p.type

/-- The leftmost parameter whose text cannot be read is `p`, and this is why. -/
def LeftmostMisread (find : ObjectLookup) (ps : List Parameter) (ts : List Text) (p : Parameter) (e : EntryError) : Prop :=
  ∃ (i : Nat) (t : Text), ps[i]? = some p ∧ ts[i]? = some t ∧ p.type.read find t = .error e ∧
    ∀ j < i, ∀ (q : Parameter) (u : Text), ps[j]? = some q → ts[j]? = some u → ∃ v, q.type.read find u = .ok v

theorem readsAs_of_readArguments {find : ObjectLookup} : ∀ {ps : List Parameter} {ts : List Text} {vs : List Value},
    ps.length = ts.length → readArguments find ps ts = .ok vs → ReadsAs find ps ts vs
  | [], _, _, _, h => by cases h; exact ⟨rfl, fun hp => by simp at hp⟩
  | p :: ps, [], _, hlen, _ => by simp at hlen
  | p :: ps, t :: ts, vs, hlen, h => by
    rw [readArguments] at h
    split at h
    · rename_i v hv
      obtain ⟨ws, hws, rfl⟩ := except_map_eq_ok.1 h
      have ih := readsAs_of_readArguments (by simpa using hlen) hws
      refine ⟨by simp [ih.length], fun {i q u w} hq hu hw => ?_⟩
      cases i with
      | zero =>
        simp only [List.getElem?_cons_zero, Option.some.injEq] at hq hu hw
        subst hq hu hw
        exact hv
      | succ i => exact ih.read (by simpa using hq) (by simpa using hu) (by simpa using hw)
    · cases h

/-- **Arguments are refused for the leftmost that cannot be read.** -/
theorem readArguments_eq_error_iff {find : ObjectLookup} {e : CommandError} : ∀ {ps : List Parameter} {ts : List Text},
    readArguments find ps ts = .error e ↔ ∃ p x, LeftmostMisread find ps ts p x ∧ e = .argument p.name x
  | [], ts => by simp [readArguments, LeftmostMisread]
  | p :: ps, [] => by simp [readArguments, LeftmostMisread]
  | p :: ps, t :: ts => by
    rw [readArguments]
    cases hread : p.type.read find t with
    | error x =>
      constructor
      · rintro h
        cases h
        exact ⟨p, x, ⟨0, t, rfl, rfl, hread, fun j hj => absurd hj (Nat.not_lt_zero j)⟩, rfl⟩
      · rintro ⟨q, y, ⟨i, u, hq, hu, hy, hleft⟩, rfl⟩
        cases i with
        | zero =>
          cases hq; cases hu
          rw [hread] at hy
          cases hy; rfl
        | succ i =>
          obtain ⟨v, hv⟩ := hleft 0 (Nat.succ_pos i) p t rfl rfl
          rw [hread] at hv
          cases hv
    | ok v =>
      simp only [except_map_eq_error]
      rw [readArguments_eq_error_iff]
      constructor
      · rintro ⟨q, y, ⟨i, u, hq, hu, hy, hleft⟩, rfl⟩
        refine ⟨q, y, ⟨i + 1, u, by simpa using hq, by simpa using hu, hy, fun j hj r w hr hw => ?_⟩, rfl⟩
        cases j with
        | zero   => cases hr; cases hw; exact ⟨v, hread⟩
        | succ j => exact hleft j (Nat.lt_of_succ_lt_succ hj) r w (by simpa using hr) (by simpa using hw)
      · rintro ⟨q, y, ⟨i, u, hq, hu, hy, hleft⟩, rfl⟩
        cases i with
        | zero =>
          cases hq; cases hu
          rw [hread] at hy
          cases hy
        | succ i =>
          refine ⟨q, y, ⟨i, u, by simpa using hq, by simpa using hu, hy, fun j hj r w hr hw => ?_⟩, rfl⟩
          exact hleft (j + 1) (Nat.succ_lt_succ hj) r w (by simpa using hr) (by simpa using hw)

theorem ReadsAs.fits {find : ObjectLookup} {ps : List Parameter} {ts : List Text} {vs : List Value}
    (h : ReadsAs find ps ts vs) (hlen : ps.length = ts.length) : Fits ps vs := by
  refine ⟨h.length, fun {i p v} hp hv => ?_⟩
  have hi : i < ts.length := hlen ▸ (List.getElem?_eq_some_iff.1 hp).1
  exact hasType_of_read (h.read hp (List.getElem?_eq_getElem hi) hv)

/-! ## Code -/

/-- The code that may run for an invoker: its own, on values of the declared types. -/
def Invoker.Admits : Invoker κ → Prepared κ → Prop
  | .call ps returns run, .call vs returns' run' => returns' = returns ∧ run' = run ∧ Fits ps vs
  | .get _ run,           .get run'              => run' = run
  | .set type run,        .set v run'            => run' = run ∧ v.HasType type
  | _,                    _                      => False

/-- **Code is made ready on values of the declared types alone.** -/
theorem admits_of_prepare {find : ObjectLookup} {name : Text} {args : List Text} {i : Invoker κ} {r : Prepared κ}
    (h : i.prepare find name args = .ok r) : i.Admits r := by
  cases i with
  | get type run =>
    cases h
    rfl
  | set type run =>
    cases args with
    | nil => cases h
    | cons t args =>
      simp only [Invoker.prepare] at h
      split at h
      · rename_i v hv
        cases h
        exact ⟨rfl, hasType_of_read hv⟩
      · cases h
  | call ps returns run =>
    rw [Invoker.prepare] at h
    split at h
    · rename_i hlen
      obtain ⟨vs, hvs, rfl⟩ := except_map_eq_ok.1 h
      exact ⟨rfl, rfl, (readsAs_of_readArguments hlen hvs).fits hlen⟩
    · cases h

/-! ## Plans -/

/-- A command of an instance that is not refused has a selector, and runs on the objects that it reaches. -/
theorem targets_eq_ok {d : Descriptor κ} (hd : d.isStatic = false) {w : World κ} {context : Context} {o : Option Selector}
    {ts : Option (List Nat)} (h : d.targets w context o = .ok ts) :
    ∃ selector places, o = some selector ∧ selector.resolve w context = .ok places ∧ ts = some places := by
  unfold Descriptor.targets at h
  rw [hd, if_neg Bool.false_ne_true] at h
  split at h
  · cases h
  · rename_i selector
    split at h
    · rename_i places hplaces
      cases h
      exact ⟨selector, places, rfl, hplaces, rfl⟩
    · cases h

/-- **A plan has passed every check.** -/
theorem plan_eq_ok_iff {catalog : Catalog κ} {w : World κ} {context : Context} {c : Command} {p : Plan κ} :
    c.plan catalog w context = .ok p ↔
      catalog.lookup c.name c.verb = some p.descriptor ∧
        p.descriptor.targets w context c.target = .ok p.targets ∧
        p.descriptor.invoker.prepare w.lookup p.descriptor.name c.args = .ok p.prepared := by
  constructor
  · intro h
    unfold Command.plan at h
    split at h
    · cases h
    · rename_i d hd
      split at h
      · cases h
      · rename_i ts hts
        obtain ⟨r, hr, rfl⟩ := except_map_eq_ok.1 h
        exact ⟨hd, hts, hr⟩
  · rintro ⟨hd, hts, hr⟩
    simp only [Command.plan, hd, hts, hr]
    rfl

/-- **A command is refused by the first check that it fails**: its name, then its selector, then its arguments. -/
theorem plan_eq_error_iff {catalog : Catalog κ} {w : World κ} {context : Context} {c : Command} {e : CommandError} :
    c.plan catalog w context = .error e ↔
      (catalog.lookup c.name c.verb = none ∧ e = .notFound c.verb c.name) ∨
        ∃ d, catalog.lookup c.name c.verb = some d ∧
          (d.targets w context c.target = .error e ∨
            ∃ ts, d.targets w context c.target = .ok ts ∧ d.invoker.prepare w.lookup d.name c.args = .error e) := by
  unfold Command.plan
  cases hd : catalog.lookup c.name c.verb with
  | none   => simp [eq_comm]
  | some d =>
    cases ht : d.targets w context c.target with
    | error x => simp [ht]
    | ok ts   => simp [ht, except_map_eq_error]

theorem admits_of_plan {catalog : Catalog κ} {w : World κ} {context : Context} {c : Command} {p : Plan κ}
    (h : c.plan catalog w context = .ok p) : p.descriptor.invoker.Admits p.prepared :=
  admits_of_prepare (plan_eq_ok_iff.1 h).2.2

/-! ## Running -/

variable [DecidableEq κ]

theorem run_eq_ok_iff {c : Command} {context : Context} {s s' : Session κ} {lines : List Text} :
    c.run context s = (.ok lines, s') ↔ ∃ p, c.plan s.slot.catalog s.world context = .ok p ∧ p.run s = (lines, s') := by
  unfold Command.run
  cases c.plan s.slot.catalog s.world context with
  | error e => simp
  | ok p    => simp [Prod.ext_iff]

theorem run_eq_error_iff {c : Command} {context : Context} {s : Session κ} {e : CommandError} :
    (c.run context s).1 = .error e ↔ c.plan s.slot.catalog s.world context = .error e := by
  unfold Command.run
  cases c.plan s.slot.catalog s.world context with
  | error x => simp
  | ok p    => simp

end CommandConsole

import CommandConsole.Proofs.Catalog.View
import CommandConsole.Proofs.Session.Naming
/-!
# Hinting — what is hinted is what is read

Prediction counts the words of a line from its end and looks a command up by its name as it is typed; the parser counts
from the front and looks it up in lowercase.  They agree on what each word after the name stands for (`announces_word`).  So
the hint names the parameter that the word is read against when the line is run, and tells whether there are as many
arguments as there are parameters (`hints_follow_dispatch`).
-/
namespace CommandConsole

open Text

variable {line name t : Text} {us ts : List Text} {target : Option Selector} {v : Verb}

/-! ## The words of a command -/

/-- The last of the words stands at an argument, if a name comes before it. -/
theorem ofWords_argument (h : Opens us target v) (name : Text) (ts : List Text) (t : Text) :
    Position.ofWords (us ++ name :: (ts ++ [t])) = some (.argument v name ts.length t) := by
  cases h with
  | bare hv =>
    simp [Position.ofWords, selector_ofText?_of_verb hv, Position.afterSelector, hv]
  | targeted hs hv =>
    simp [Position.ofWords, hs, Position.afterSelector, hv]

theorem position_of_name (h : Opens us target v) (hend : endsBlank line = false) (hline : words line = us ++ [name]) :
    Position.of line = some (.commandName v target.isSome name) := by
  rw [Position.of, typedWords_of_not_endsBlank hend, hline, ofWords_name h]

theorem position_of_argument (h : Opens us target v) (hend : endsBlank line = false)
    (hline : words line = us ++ name :: (ts ++ [t])) : Position.of line = some (.argument v name ts.length t) := by
  rw [Position.of, typedWords_of_not_endsBlank hend, hline, ofWords_argument h]

/-- After a space the next argument has begun. -/
theorem position_after_space (h : Opens us target v) (hline : words line = us ++ name :: ts) :
    Position.of (line ++ " ") = some (.argument v name ts.length []) := by
  have hne : words line ≠ [] := by simp [hline]
  rw [Position.of, typedWords_append_space hne, hline, List.append_assoc, List.cons_append, ofWords_argument h]

theorem ofVerb_eq_ok {ws : List Text} {c : Command} (h : Command.ofVerb target ws = .ok c) :
    ∃ w name ts, ws = w :: name :: ts ∧ Verb.ofText? w = some c.verb ∧ c.target = target ∧ lower name = c.name ∧
      c.verb.argsOf ts = c.args := by
  unfold Command.ofVerb at h
  split at h
  · cases h
  · rename_i w rest
    cases hv : Verb.ofText? w with
    | none   => simp [hv] at h
    | some v =>
      cases rest with
      | nil          => simp [hv] at h
      | cons name ts =>
        have hc : c = ⟨target, v, lower name, v.argsOf ts⟩ := by simpa [hv] using h.symm
        rw [hc]
        exact ⟨w, name, ts, rfl, hv, rfl, rfl, rfl⟩

/-- **A line that is read as a command has its words**: a selector or none, a verb, a name in some case and the arguments. -/
theorem exists_words_of_parse {c : Command} (h : Command.parse line = .ok c) :
    ∃ us name ts, words line = us ++ name :: ts ∧ Opens us c.target c.verb ∧ lower name = c.name ∧
      c.verb.argsOf ts = c.args := by
  rw [Command.parse] at h
  cases hline : words line with
  | nil       => simp [hline, Command.ofWords] at h
  | cons s ws =>
    rw [hline, Command.ofWords] at h
    cases hs : Selector.ofText? s with
    | none          =>
      rw [hs] at h
      obtain ⟨w, name, ts, hws, hv, htarget, hname, hargs⟩ := ofVerb_eq_ok h
      exact ⟨[w], name, ts, hws, htarget ▸ .bare hv, hname, hargs⟩
    | some selector =>
      rw [hs] at h
      obtain ⟨w, name, ts, rfl, hv, htarget, hname, hargs⟩ := ofVerb_eq_ok h
      exact ⟨[s, w], name, ts, rfl, htarget ▸ .targeted hs hv, hname, hargs⟩

/-! ## What is told of a word -/

variable {κ : Type} [ComponentKind κ] {catalog : Catalog κ} {d : Descriptor κ} {i : Nat}

/-- What the console tells of the last word of a line: the hint shows something declared, and of the literals of a type those
are offered that go with what has been typed. -/
structure Announces (catalog : Catalog κ) (line typed : Text) (shown : Option Text) (type : Option TypeTag) : Prop where
  hint    : hint catalog line = shown
  options : ∀ w, matchingOptions catalog w line =
    ((type.bind TypeTag.literals?).getD []).filter (startsWithAscii typed)

theorem announces_of_position (h : Position.of line = some (.argument v name i t)) :
    Announces catalog line t ((catalog.slotted? v name i).map Slotted.text)
      ((catalog.slotted? v name i).map Slotted.type) := by
  refine ⟨?_, fun w => ?_⟩
  · rw [hint, h]
  · rw [matchingOptions, h]
    rfl

theorem announces_after_space (catalog : Catalog κ) (h : Opens us target v) (hline : words line = us ++ name :: ts) :
    Announces catalog (line ++ " ") [] ((catalog.slotted? v name ts.length).map Slotted.text)
      ((catalog.slotted? v name ts.length).map Slotted.type) := announces_of_position (position_after_space h hline)

/-- **Each word after a name was the last of the line while it was typed**, and was told of then. -/
theorem announces_word (catalog : Catalog κ) (h : Opens us target v) (hline : words line = us ++ name :: ts)
    (hi : ts[i]? = some t) : ∃ head, head <+: line ∧ endsBlank head = false ∧
      Command.parse head = .ok ⟨target, v, lower name, v.argsOf (ts.take (i + 1))⟩ ∧
      Announces catalog head t ((catalog.slotted? v name i).map Slotted.text)
        ((catalog.slotted? v name i).map Slotted.type) := by
  have htake : ts.take (i + 1) = ts.take i ++ [t] := by simp [List.take_add_one, hi]
  have hsplit : words line = (us ++ name :: (ts.take i ++ [t])) ++ ts.drop (i + 1) := by
    rw [hline, ← htake, List.append_assoc, List.cons_append, List.take_append_drop]
  have hlength : (ts.take i).length = i := by
    have hlt : i < ts.length := (List.getElem?_eq_some_iff.1 hi).1
    simp [Nat.le_of_lt hlt]
  obtain ⟨head, hprefix, hwords, hend⟩ := exists_prefix_of_words hsplit
  have hposition := position_of_argument h hend hwords
  rw [hlength] at hposition
  refine ⟨head, hprefix, hend, ?_, announces_of_position hposition⟩
  rw [htake]
  exact parse_of_words hwords h

/-- The hint at the end of a line tells of its last argument. -/
theorem hint_at_end (h : Opens us target v) (hend : endsBlank line = false) (hline : words line = us ++ name :: ts) :
    hint catalog line = if ts = [] then none else (catalog.slotted? v name (ts.length - 1)).map Slotted.text := by
  by_cases hts : ts = []
  · rw [if_pos hts, hint, position_of_name h hend (by rw [hline, hts])]
  · have hlast := List.dropLast_append_getLast hts
    have hposition := position_of_argument h hend (by rw [hline, hlast])
    rw [if_neg hts, hint, hposition, List.length_dropLast]

variable {includePrivate : Bool} {ds : List (Descriptor κ)}

/-- A command that is found under a name in lowercase is found under the name as it is typed. -/
theorem slotted?_of_lookup (hdeclared : ∀ d ∈ ds, d.Declared)
    (hfound : (Catalog.ofDescriptors includePrivate ds).lookup (lower name) v = some d) (i : Nat) :
    (Catalog.ofDescriptors includePrivate ds).slotted? v name i = d.invoker.slotted? i := by
  have hsame : (Catalog.ofDescriptors includePrivate ds).lookup name v = some d := by
    rw [Catalog.lookup_ofDescriptors hdeclared, lower_lower] at hfound
    rw [Catalog.lookup_ofDescriptors hdeclared, hfound]
  rw [Catalog.slotted?, hsame]
  rfl

theorem verb_of_lookup (hdeclared : ∀ d ∈ ds, d.Declared)
    (hfound : (Catalog.ofDescriptors includePrivate ds).lookup name v = some d) : d.verb = v := by
  rw [Catalog.lookup_ofDescriptors hdeclared] at hfound
  obtain ⟨-, hd⟩ := List.mem_filter.1 (List.mem_of_getLast? hfound)
  exact (of_decide_eq_true hd).1

/-! ## How arguments are read -/

variable {heading : Heading} {find : ObjectLookup} {args : List Text} {n : Text} {x g : Nat} {e : EntryError}

theorem misfed_arity_iff (hcall : heading.verb = .call) : heading.Misfed find args (.arity n x g) ↔
    (n = heading.name ∧ x = heading.params.length ∧ g = args.length) ∧ heading.params.length ≠ args.length := by
  constructor
  · intro hmisfed
    cases hmisfed with
    | noValue hset    => simp [hcall] at hset
    | count _ hdiffer => exact ⟨⟨rfl, rfl, rfl⟩, hdiffer⟩
  · rintro ⟨⟨rfl, rfl, rfl⟩, hdiffer⟩
    exact .count hcall hdiffer

theorem misfed_argument_iff (hcall : heading.verb = .call) : heading.Misfed find args (.argument n e) ↔
    heading.params.length = args.length ∧ ∃ p, LeftmostMisread find heading.params args p e ∧ n = p.name := by
  constructor
  · intro hmisfed
    cases hmisfed with
    | argument _ hagree hmisread => exact ⟨hagree, _, hmisread, rfl⟩
  · rintro ⟨hagree, p, hmisread, rfl⟩
    exact .argument hcall hagree hmisread

theorem misfed_entry_iff (hset : heading.verb = .set) : heading.Misfed find args (.entry e) ↔
    ∃ t, args.head? = some t ∧ heading.type.read find t = .error e := by
  constructor
  · intro hmisfed
    cases hmisfed with
    | value _ hmisread => exact ⟨_, rfl, hmisread⟩
  · rintro ⟨t, ht, hmisread⟩
    obtain ⟨rest, rfl⟩ := List.head?_eq_some_iff.1 ht
    exact .value hset hmisread

variable {ps : List Parameter} {returns type : TypeTag} {call : List Value → Access κ Value} {set : Value → Access κ Unit}

theorem readsAs_of_prepare_call {r : Prepared κ} (h : (Invoker.call ps returns call).prepare find name args = .ok r) :
    ReadsAs find ps args r.values := by
  rw [Invoker.prepare] at h
  by_cases hlength : ps.length = args.length
  · rw [if_pos hlength] at h
    obtain ⟨vs, hvs, rfl⟩ := except_map_eq_ok.1 h
    exact readsAs_of_readArguments hlength hvs
  · simp [hlength] at h

theorem read_of_prepare_set {r : Prepared κ} (h : (Invoker.set type set).prepare find name args = .ok r) :
    ∃ t u, args.head? = some t ∧ type.read find t = .ok u ∧ r.values = [u] := by
  cases args with
  | nil       => simp [Invoker.prepare] at h
  | cons t ts =>
    rw [Invoker.prepare] at h
    cases hread : type.read find t with
    | error e => simp [hread] at h
    | ok u    =>
      have hr : r = .set u set := by simpa [hread] using h.symm
      exact ⟨t, u, rfl, hread, by rw [hr]; rfl⟩

variable [DecidableEq κ] {context : Context} {s : Session κ} {c : Command}

/-- **A command that is found is refused for its arguments only after its selector has passed.** -/
theorem run_eq_misfed_iff {e : CommandError} (hfound : s.slot.catalog.lookup c.name c.verb = some d)
    (hother : ∀ n, e ≠ .targetRequired n) (hother' : ∀ x, e ≠ .target x) :
    (c.run context s).1 = .error e ↔ (∃ is, d.targets s.world context c.target = .ok is) ∧
      d.heading.Misfed s.world.lookup c.args e := by
  rw [run_eq_error_iff, plan_eq_error_iff, ← prepare_eq_error_iff]
  constructor
  · rintro (⟨hnone, -⟩ | ⟨d', hd', htarget | ⟨is, his, hprepare⟩⟩)
    · cases hnone.symm.trans hfound
    · have hunreached := targets_eq_error_iff.1 htarget
      generalize c.target = selector at hunreached
      cases hunreached with
      | noSelector => exact absurd rfl (hother _)
      | noObject   => exact absurd rfl (hother' _)
    · cases hd'.symm.trans hfound
      exact ⟨⟨is, his⟩, hprepare⟩
  · rintro ⟨⟨is, his⟩, hprepare⟩
    exact .inr ⟨d, hfound, .inr ⟨is, his, hprepare⟩⟩

theorem sessionRun_of_parse (h : Command.parse line = .ok c) : s.run context line = c.run context s := by
  rw [Session.run, h]

/-! ## What is hinted is what is read -/

/-- What is told while a call of a command with the parameters `ps` is typed, and how its arguments are read when the line is
run: it is refused for the leftmost that its parameter's type does not read, else the code runs on what they are read as. -/
structure CallHints (catalog : Catalog κ) (line : Text) (c : Command) (d : Descriptor κ) (ps : List Parameter) : Prop where
  next : hint catalog (line ++ " ") = (ps[c.args.length]?).map Parameter.text
  last : hint catalog line = if c.args = [] then none else (ps[c.args.length - 1]?).map Parameter.text
  /-- The line is refused for the number of its arguments just where the hints tell that they are too few or too many. -/
  count : ∀ (context : Context) (s : Session κ), s.slot.catalog = catalog → ∀ n x g,
    (s.run context line).1 = .error (.arity n x g) ↔
      (n = d.name ∧ x = ps.length ∧ g = c.args.length) ∧ (∃ is, d.targets s.world context c.target = .ok is) ∧
        ¬ (hint catalog (line ++ " ") = none ∧ (c.args = [] ∨ (hint catalog line).isSome = true))
  /-- Each argument was the last one while it was typed; then its own parameter was told of. -/
  typed : ∀ i t, c.args[i]? = some t → ∃ head, head <+: line ∧ endsBlank head = false ∧
    Command.parse head = .ok { c with args := c.args.take (i + 1) } ∧
    Announces catalog head t ((ps[i]?).map Parameter.text) ((ps[i]?).map Parameter.type)
  misread : ∀ (context : Context) (s : Session κ), s.slot.catalog = catalog → ∀ n e,
    (s.run context line).1 = .error (.argument n e) ↔ (∃ is, d.targets s.world context c.target = .ok is) ∧
      ps.length = c.args.length ∧ ∃ p, LeftmostMisread s.world.lookup ps c.args p e ∧ n = p.name
  read : ∀ (context : Context) (s : Session κ) (plan : Plan κ), s.slot.catalog = catalog →
    c.plan catalog s.world context = .ok plan → ReadsAs s.world.lookup ps c.args plan.prepared.values

/-- What is told before a value is typed for a property of a type and while its first word is, and how the value is read when
the line is run. -/
structure SetHints (catalog : Catalog κ) (line : Text) (c : Command) (d : Descriptor κ) (type : TypeTag) : Prop where
  next : c.args = [] → Announces catalog (line ++ " ") [] (some type.text) (some type)
  typed : ∀ value, c.args = [value] → ∃ head t, head <+: line ∧ endsBlank head = false ∧ (words value).head? = some t ∧
    Command.parse head = .ok { c with args := [t] } ∧ Announces catalog head t (some type.text) (some type)
  misread : ∀ (context : Context) (s : Session κ), s.slot.catalog = catalog → ∀ e,
    (s.run context line).1 = .error (.entry e) ↔ (∃ is, d.targets s.world context c.target = .ok is) ∧
      ∃ value, c.args = [value] ∧ type.read s.world.lookup value = .error e
  read : ∀ (context : Context) (s : Session κ) (plan : Plan κ), s.slot.catalog = catalog →
    c.plan catalog s.world context = .ok plan →
    ∃ value u, c.args = [value] ∧ type.read s.world.lookup value = .ok u ∧ plan.prepared.values = [u]

/-- There are as many arguments as parameters where no parameter is next and the last argument has one. -/
theorem hinted_all_iff {ps : List Parameter} {args : List Text} :
    ((ps[args.length]?).map Parameter.text = none ∧
      (args = [] ∨ (if args = [] then none else (ps[args.length - 1]?).map Parameter.text).isSome = true)) ↔
        ps.length = args.length := by
  by_cases hargs : args = []
  · simp [hargs]
  · have hpos : 0 < args.length := List.length_pos_iff.2 hargs
    simp [hargs]
    omega

variable {catalog : Catalog κ}

theorem callHints_of_parse (hdeclared : ∀ d ∈ ds, d.Declared) (hend : endsBlank line = false)
    (hparse : Command.parse line = .ok c) (hcatalog : catalog = .ofDescriptors includePrivate ds)
    (hfound : catalog.lookup c.name c.verb = some d) (hcall : d.invoker = .call ps returns call) :
    CallHints catalog line c d ps := by
  obtain ⟨us, name, ts, hline, hopens, hname, hargs⟩ := exists_words_of_parse hparse
  have hverb : c.verb = .call := by
    rw [hcatalog] at hfound
    rw [← verb_of_lookup hdeclared hfound, Descriptor.verb, hcall]
    rfl
  have hts : ts = c.args := by
    rw [hverb] at hargs
    exact hargs
  have hslot (i : Nat) : catalog.slotted? c.verb name i = (ps[i]?).map .parameter := by
    rw [← hname, hcatalog] at hfound
    rw [hcatalog, slotted?_of_lookup hdeclared hfound, hcall]
    rfl
  have hshown (i : Nat) : (catalog.slotted? c.verb name i).map Slotted.text = (ps[i]?).map Parameter.text := by
    rw [hslot, Option.map_map]
    rfl
  have htype (i : Nat) : (catalog.slotted? c.verb name i).map Slotted.type = (ps[i]?).map Parameter.type := by
    rw [hslot, Option.map_map]
    rfl
  have hheading : d.heading.verb = .call := by simp [Descriptor.heading, hcall, Invoker.verb]
  have hparams : d.heading.params = ps := by simp [Descriptor.heading, hcall, Invoker.params]
  rw [hts] at hline
  have hnext : hint catalog (line ++ " ") = (ps[c.args.length]?).map Parameter.text := by
    rw [(announces_after_space catalog hopens hline).hint, hshown]
  have hlast : hint catalog line = if c.args = [] then none else (ps[c.args.length - 1]?).map Parameter.text := by
    rw [hint_at_end hopens hend hline, hshown]
  refine ⟨hnext, hlast, fun context s hs n x g => ?_, fun i t hi => ?_, fun context s hs n e => ?_,
    fun context s plan hs hplan => ?_⟩
  · rw [sessionRun_of_parse hparse, run_eq_misfed_iff (e := .arity n x g) (by rw [hs, hfound]) nofun nofun,
      misfed_arity_iff hheading, hparams, hnext, hlast, hinted_all_iff, and_left_comm]
    rfl
  · obtain ⟨head, hprefix, hblank, hread, htold⟩ := announces_word catalog hopens hline hi
    rw [hshown, htype] at htold
    refine ⟨head, hprefix, hblank, ?_, htold⟩
    rw [hread, hname, hverb]
    rfl
  · rw [sessionRun_of_parse hparse, run_eq_misfed_iff (e := .argument n e) (by rw [hs, hfound]) nofun nofun,
      misfed_argument_iff hheading, hparams]
  · obtain ⟨hd, -, hprepare⟩ := plan_eq_ok_iff.1 hplan
    cases hfound.symm.trans hd
    rw [hcall] at hprepare
    exact readsAs_of_prepare_call hprepare

theorem setHints_of_parse (hdeclared : ∀ d ∈ ds, d.Declared) (hparse : Command.parse line = .ok c)
    (hcatalog : catalog = .ofDescriptors includePrivate ds) (hfound : catalog.lookup c.name c.verb = some d)
    (hset : d.invoker = .set type set) : SetHints catalog line c d type := by
  obtain ⟨us, name, ts, hline, hopens, hname, hargs⟩ := exists_words_of_parse hparse
  have hverb : c.verb = .set := by
    rw [hcatalog] at hfound
    rw [← verb_of_lookup hdeclared hfound, Descriptor.verb, hset]
    rfl
  have hslot : catalog.slotted? c.verb name 0 = some (.value type) := by
    rw [← hname, hcatalog] at hfound
    rw [hcatalog, slotted?_of_lookup hdeclared hfound, hset]
    rfl
  rw [hverb] at hargs
  -- all words after the name are one value
  have honly (value : Text) : c.args.head? = some value ↔ c.args = [value] := by
    rw [← hargs]
    cases ts <;> simp [Verb.argsOf]
  refine ⟨fun hnone => ?_, fun value hvalue => ?_, fun context s hs e => ?_, fun context s plan hs hplan => ?_⟩
  · have hts : ts = [] := by
      cases ts with
      | nil      => rfl
      | cons t _ => simp [Verb.argsOf, hnone] at hargs
    have htold := announces_after_space catalog hopens hline
    rw [hts, List.length_nil, hslot] at htold
    exact htold
  · cases ts with
    | nil       => simp [Verb.argsOf, hvalue] at hargs
    | cons t ts =>
      have hjoin : Text.join " " (t :: ts) = value := by simpa [Verb.argsOf, hvalue] using hargs
      have hwords : words value = t :: ts := by
        rw [← hjoin]
        refine words_join_of_isWord fun w hw => isWord_of_mem_words (t := line) ?_
        rw [hline]
        exact List.mem_append_right us (List.mem_cons_of_mem name hw)
      obtain ⟨head, hprefix, hblank, hread, htold⟩ :=
        announces_word (i := 0) catalog hopens hline List.getElem?_cons_zero
      rw [hslot] at htold
      refine ⟨head, t, hprefix, hblank, by rw [hwords, List.head?_cons], ?_, htold⟩
      rw [hread, hname, hverb]
      rfl
  · have hheading : d.heading.verb = .set := by simp [Descriptor.heading, hset, Invoker.verb]
    have htype : d.heading.type = type := by simp [Descriptor.heading, hset, Invoker.type]
    rw [sessionRun_of_parse hparse, run_eq_misfed_iff (e := .entry e) (by rw [hs, hfound]) nofun nofun,
      misfed_entry_iff hheading, htype]
    simp only [honly]
  · obtain ⟨hd, -, hprepare⟩ := plan_eq_ok_iff.1 hplan
    cases hfound.symm.trans hd
    rw [hset] at hprepare
    obtain ⟨value, u, hvalue, hread, hu⟩ := read_of_prepare_set hprepare
    exact ⟨value, u, (honly value).1 hvalue, hread, hu⟩

/-- **What is hinted is what is read.**  Take a line that is read as a command and names one that is found, in whatever case.
If it is a call, the hints name the parameters by their places; so they tell whether the line is refused for the number of
its arguments, and each argument is read against the type that was told of while it was typed.  If it sets a property, the
hint at the first word of the value names the type that the value is read against. -/
theorem hints_follow_dispatch {includePrivate : Bool} {ds : List (Descriptor κ)} {line : Text} {c : Command}
    {d : Descriptor κ} (hdeclared : ∀ d ∈ ds, d.Declared) (hend : endsBlank line = false)
    (hparse : Command.parse line = .ok c)
    (hfound : (Catalog.ofDescriptors includePrivate ds).lookup c.name c.verb = some d) :
    (c.verb = .call → ∃ ps returns call, d.invoker = .call ps returns call ∧
      CallHints (.ofDescriptors includePrivate ds) line c d ps) ∧
    (c.verb = .set → ∃ type set, d.invoker = .set type set ∧
      SetHints (.ofDescriptors includePrivate ds) line c d type) := by
  have hverb : d.invoker.verb = c.verb := verb_of_lookup hdeclared hfound
  constructor
  · intro hcall
    rw [hcall] at hverb
    cases hinvoker : d.invoker with
    | call ps returns call =>
      exact ⟨ps, returns, call, rfl, callHints_of_parse hdeclared hend hparse rfl hfound hinvoker⟩
    | get | set            => simp [hinvoker, Invoker.verb] at hverb
  · intro hset
    rw [hset] at hverb
    cases hinvoker : d.invoker with
    | set type set => exact ⟨type, set, rfl, setHints_of_parse hdeclared hparse rfl hfound hinvoker⟩
    | get | call   => simp [hinvoker, Invoker.verb] at hverb

/-- A static callable of two parameters, declared in capitals. -/
def adding : Descriptor Samples.Kind :=
  .static (.callable ['A', 'D', 'D'] .game [⟨['a'], .signed .bits32⟩, ⟨['b'], .bool⟩] .void (fun _ => Access.pure .unit))

/-- With one argument typed its own parameter is hinted, and the other one after a space; so the line is refused for the
number of its arguments. -/
theorem hints_follow_dispatch_adding :
    let catalog := Catalog.ofDescriptors false [adding]
    hint catalog ("call Add 1" : String) = some ("i32 a" : String) ∧
      hint catalog ("call Add 1 " : String) = some ("bool b" : String) ∧
      (Session.run .runtime ("call Add 1" : String) ⟨.empty, ⟨catalog, 0⟩⟩).1 = .error (.arity ['a', 'd', 'd'] 2 1) := by
  intro catalog
  have hdeclared : ∀ d ∈ [adding], d.Declared := by
    intro d hd
    cases List.mem_singleton.1 hd
    exact ⟨_, rfl⟩
  have hname : adding.name = ['a', 'd', 'd'] := by decide +kernel
  have hend : endsBlank ("call Add 1" : String) = false := by decide +kernel
  have hparse : Command.parse ("call Add 1" : String) = .ok ⟨none, .call, ['a', 'd', 'd'], [['1']]⟩ := by decide +kernel
  have hfound : catalog.lookup ['a', 'd', 'd'] .call = some adding := by rfl
  obtain ⟨ps, returns, call, hinvoker, hints⟩ := (hints_follow_dispatch hdeclared hend hparse hfound).1 rfl
  cases hinvoker
  refine ⟨hints.last, hints.next, (hints.count .runtime _ rfl _ _ _).2 ⟨⟨hname.symm, rfl, rfl⟩, ⟨none, rfl⟩, ?_⟩⟩
  rintro ⟨hnone, -⟩
  rw [hints.next] at hnone
  cases hnone

end CommandConsole

import CommandConsole.Proofs.Catalog.Contents
import CommandConsole.Proofs.Session.Ranking
import CommandConsole.Proofs.Session.Refusal
import CommandConsole.Samples.Kind
/-!
# Naming — offered names can be run

While the name of a command is typed, prediction and the parser read the words before it alike: a selector if there is one,
and a verb (`position_of_opens`, `parse_of_opens`).  A name that is offered there is the name of a command that the verb
reaches and that the selector suits, so the line with that name is neither without command nor without target
(`offered_name_dispatches`).
-/
namespace CommandConsole

/-! ## The words before a name -/

/-- The words that open a command up to its name: a selector or none, and a verb. -/
inductive Opens : List Text → Option Selector → Verb → Prop
  | bare {w : Text} {v : Verb} (verb : Verb.ofText? w = some v) : Opens [w] none v
  | targeted {s w : Text} {t : Selector} {v : Verb} (selector : Selector.ofText? s = some t)
      (verb : Verb.ofText? w = some v) : Opens [s, w] (some t) v

theorem Opens.ne_nil {ws : List Text} {target : Option Selector} {v : Verb} (h : Opens ws target v) : ws ≠ [] := by
  cases h <;> exact List.cons_ne_nil _ _

/-- A verb is no selector, in whatever case it is typed. -/
theorem selector_ofText?_of_verb {w : Text} {v : Verb} (h : Verb.ofText? w = some v) : Selector.ofText? w = none := by
  have hlower : Text.asciiLower v.text = Text.asciiLower w := by
    rw [Verb.ofText?] at h
    have := List.find?_some h
    simpa [Text.sameAscii] using this
  have hselect : Text.sameAscii w selectWord = false := by
    rw [Text.sameAscii, ← hlower]
    cases v <;> rfl
  have hsplit : Sigil.split? w = none := by
    -- the first letter of a verb is no mark
    unfold Sigil.split?
    split <;> first | rfl | (cases v <;> cases hlower)
  rw [Selector.ofText?, hselect, if_neg Bool.false_ne_true, hsplit]
  rfl

variable {head typed name : Text} {target : Option Selector} {v : Verb}

/-- The last of the words stands at the name, if a selector and a verb come before it. -/
theorem ofWords_name {us : List Text} (h : Opens us target v) :
    Position.ofWords (us ++ [name]) = some (.commandName v target.isSome name) := by
  cases h with
  | bare hv =>
    simp only [List.cons_append, List.nil_append, Position.ofWords, selector_ofText?_of_verb hv, Option.isSome_none,
      Bool.false_eq_true, if_false, Position.afterSelector, hv]
    rfl
  | targeted hs hv =>
    simp only [List.cons_append, List.nil_append, Position.ofWords, hs, Option.isSome_some, if_true,
      Position.afterSelector, hv]
    rfl

/-- **Prediction places the word after a selector and a verb at the name.** -/
theorem position_of_opens (h : Opens (words head) target v) (hblank : Text.endsBlank head = true) (htyped : NoBlank typed) :
    Position.of (head ++ typed) = some (.commandName v target.isSome typed) := by
  rw [Position.of, typedWords_append h.ne_nil hblank htyped, ofWords_name h]

/-- **Beyond a verb, words are placed by a selector or none, the verb, a name and the words after it.** -/
theorem exists_words_of_ofWords {ws : List Text} {p : Position} (h : Position.ofWords ws = some p)
    (hleading : ∀ t, p ≠ .leading t) (hverb : ∀ t, p ≠ .verb t) :
    ∃ us target v name rest, ws = us ++ name :: rest ∧ Opens us target v ∧
      p = match rest.getLast? with
        | none   => .commandName v target.isSome name
        | some t => .argument v name (rest.length - 1) t := by
  have after {b : Bool} : ∀ {us : List Text}, Position.afterSelector b us = some p →
      ∃ w v name rest, us = w :: name :: rest ∧ Verb.ofText? w = some v ∧
        p = match rest.getLast? with
          | none   => .commandName v b name
          | some t => .argument v name (rest.length - 1) t
    | [], h => nomatch h
    | [w], h => absurd (Option.some.inj h).symm (hverb w)
    | w :: name :: rest, h => by
      obtain ⟨v, hv, rfl⟩ := Option.map_eq_some_iff.1 h
      exact ⟨w, v, name, rest, rfl, hv, rfl⟩
  match ws, h with
  | [], h => cases h
  | [w], h => exact absurd (Option.some.inj h).symm (hleading w)
  | s :: w :: rest, h =>
    rw [Position.ofWords] at h
    · split at h
      · rename_i hs
        obtain ⟨t, ht⟩ := Option.isSome_iff_exists.1 hs
        obtain ⟨w, v, name, rest, hws, hv, hp⟩ := after h
        exact ⟨[s, w], some t, v, name, rest, by rw [hws]; rfl, .targeted ht hv, hp⟩
      · obtain ⟨w, v, name, rest, hws, hv, hp⟩ := after h
        exact ⟨[w], none, v, name, rest, hws, .bare hv, hp⟩
    · exact nofun

/-- Words are placed at a name only after a verb, or after a selector and a verb. -/
theorem exists_opens_of_ofWords {ws : List Text} {targeted : Bool}
    (h : Position.ofWords ws = some (.commandName v targeted typed)) :
    ∃ us target, ws = us ++ [typed] ∧ Opens us target v ∧ target.isSome = targeted := by
  obtain ⟨us, target, v, name, rest, rfl, hopens, hp⟩ := exists_words_of_ofWords h nofun nofun
  cases hrest : rest.getLast? with
  | none =>
    rw [hrest] at hp
    cases hp
    exact ⟨us, target, by rw [List.getLast?_eq_none_iff.1 hrest], hopens, rfl⟩
  | some t =>
    rw [hrest] at hp
    cases hp

/-- **Prediction offers names exactly where the grammar has one**: for the word after a verb, or after a selector and a
verb. -/
theorem position_eq_commandName_iff {line : Text} {targeted : Bool} :
    Position.of line = some (.commandName v targeted typed) ↔
      ∃ head target, line = head ++ typed ∧ Opens (words head) target v ∧ Text.endsBlank head = true ∧ NoBlank typed ∧
        target.isSome = targeted := by
  constructor
  · intro h
    obtain ⟨ws, target, hws, hopens, htarget⟩ := exists_opens_of_ofWords h
    obtain ⟨head, hline, rfl, hblank, htyped⟩ := exists_head_of_typedWords hopens.ne_nil hws
    exact ⟨head, target, hline, hopens, hblank, htyped, htarget⟩
  · rintro ⟨head, target, rfl, hopens, hblank, htyped, rfl⟩
    exact position_of_opens hopens hblank htyped

/-- A selector, a verb, a name and what follows it are a command. -/
theorem parse_of_words {line : Text} {us ts : List Text} (hline : words line = us ++ name :: ts) (h : Opens us target v) :
    Command.parse line = .ok ⟨target, v, Text.lower name, v.argsOf ts⟩ := by
  rw [Command.parse, hline]
  cases h with
  | bare hv =>
    simp only [List.cons_append, List.nil_append, Command.ofWords, selector_ofText?_of_verb hv, Command.ofVerb, hv]
  | targeted hs hv =>
    simp only [List.cons_append, List.nil_append, Command.ofWords, hs, Command.ofVerb, hv]

/-- **The parser reads the word after a selector and a verb as the name.** -/
theorem parse_of_opens (h : Opens (words head) target v) (hblank : Text.endsBlank head = true) (hname : IsWord name) :
    Command.parse (head ++ name) = .ok ⟨target, v, Text.lower name, []⟩ := by
  have hargs : v.argsOf [] = [] := by cases v <;> rfl
  have hline : words (head ++ name) = words head ++ name :: [] := by
    rw [words_append_of_endsBlank hblank, words_of_isWord hname]
  rw [parse_of_words hline h, hargs]

/-! ## Offered names -/

variable {κ : Type} [ComponentKind κ]

/-- What is offered is one of the words that may stand at the place. -/
theorem mem_options_of_mem_predict {catalog : Catalog κ} {w : World κ} {limit : Nat} {line c : Text} {p : Position}
    (hp : Position.of line = some p) (h : c ∈ predict catalog w limit line) :
    c ∈ p.options catalog w ∧ p.accepts c = true := by
  rw [predict, hp] at h
  exact List.mem_filter.1 (mem_ranked.1 (List.mem_of_mem_take h))

/-- **A command that suits the selector is neither missed nor left without target.** -/
theorem plan_error_of_suits {catalog : Catalog κ} {w : World κ} {context : Context} {c : Command} {d : Descriptor κ}
    {e : CommandError} (hd : catalog.lookup c.name c.verb = some d) (hsuits : d.isStatic ≠ c.target.isSome)
    (he : c.plan catalog w context = .error e) : (∀ v n, e ≠ .notFound v n) ∧ ∀ n, e ≠ .targetRequired n := by
  rcases plan_eq_error_iff.1 he with ⟨hnone, -⟩ | ⟨d', hd', hcheck⟩
  · cases hnone.symm.trans hd
  cases hd.symm.trans hd'
  rcases hcheck with htarget | ⟨-, -, hprepare⟩
  · have hunreached := targets_eq_error_iff.1 htarget
    generalize c.target = target at hsuits hunreached
    cases hunreached with
    | noSelector hstatic => exact absurd hstatic hsuits
    | noObject           => exact ⟨nofun, nofun⟩
  · have hmisfed := prepare_eq_error_iff.1 hprepare
    generalize c.args = args at hmisfed
    cases hmisfed <;> exact ⟨nofun, nofun⟩

variable [DecidableEq κ]

/-- **A name that is offered can be run.**  A line that has come to a name is a selector or none, a verb and, after a blank,
the name so far.  In a catalog whose names are words, the line with an offered name in that place is read as that command,
under the selector and the verb that were typed; and it is not refused for want of a command or of a target. -/
theorem offered_name_dispatches {includePrivate : Bool} {ds : List (Descriptor κ)} (hdeclared : ∀ d ∈ ds, d.Declared)
    (hnames : ∀ n ∈ (Catalog.ofDescriptors includePrivate ds).names, IsWord n) {line : Text} {targeted : Bool}
    (hposition : Position.of line = some (.commandName v targeted typed)) (w : World κ) (limit : Nat) :
    ∃ head target, line = head ++ typed ∧ Opens (words head) target v ∧ target.isSome = targeted ∧
      ∀ name ∈ predict (Catalog.ofDescriptors includePrivate ds) w limit line,
        Command.parse (head ++ name) = .ok ⟨target, v, name, []⟩ ∧
          ∀ (context : Context) (s : Session κ) (e : CommandError), s.slot.catalog = .ofDescriptors includePrivate ds →
            (Command.run context ⟨target, v, name, []⟩ s).1 = .error e →
              (∀ v n, e ≠ .notFound v n) ∧ ∀ n, e ≠ .targetRequired n := by
  have hlists := Catalog.lists_ofDescriptors includePrivate ds
  obtain ⟨head, target, hline, hopens, hblank, -, htargeted⟩ := position_eq_commandName_iff.1 hposition
  refine ⟨head, target, hline, hopens, htargeted, fun name hname => ?_⟩
  obtain ⟨hoption, -⟩ := mem_options_of_mem_predict hposition hname
  obtain ⟨d, hd, rfl⟩ := List.mem_map.1 hoption
  obtain ⟨hd, hsuits⟩ := List.mem_filter.1 hd
  obtain ⟨hlookup, -, hmem⟩ := hlists.lookup_of_mem_values hd
  have hlower : Text.lower d.name = d.name := by
    obtain ⟨n, hn⟩ := hdeclared d hmem
    rw [hn, canonicalName, Text.lower_lower]
  refine ⟨?_, fun context s e hcatalog he => ?_⟩
  · rw [parse_of_opens hopens hblank (hnames _ (Catalog.name_mem_names hlists hd)), hlower]
  · rw [run_eq_error_iff, hcatalog] at he
    rw [← htargeted] at hsuits
    exact plan_error_of_suits hlookup (by simpa using hsuits) he

/-- Two commands declared in capitals: a getter of an instance and a static one. -/
def capitals : List (Descriptor Samples.Kind) :=
  [.getter ['H', 'P'] .health .single (Access.pure .unit),
    .static (.getter ['H', 'O', 'U', 'R'] .game .single (Access.pure .unit))]

/-- After a selector and an uneven blank only the getter is offered, by the name that reaches it. -/
theorem offered_name_dispatches_getter :
    predict (.ofDescriptors false capitals) .empty 32 ("#Crate  Get H" : String) = [['h', 'p']] ∧
      Command.parse ("#Crate  Get hp" : String) = .ok ⟨some (.marked .tag ("Crate" : String)), .get, ['h', 'p'], []⟩ ∧
      ∃ e, (Command.run .runtime ⟨some (.marked .tag ("Crate" : String)), .get, ['h', 'p'], []⟩
        ⟨.empty, ⟨.ofDescriptors false capitals, 0⟩⟩).1 = .error e ∧
          (∀ v n, e ≠ .notFound v n) ∧ ∀ n, e ≠ .targetRequired n := by
  have hdeclared : ∀ d ∈ capitals, d.Declared := by
    intro d hd
    rcases List.mem_cons.1 hd with rfl | hd
    · exact ⟨_, rfl⟩
    · cases List.mem_singleton.1 hd
      exact ⟨_, rfl⟩
  have hnames : ∀ n ∈ (Catalog.ofDescriptors false capitals).names, IsWord n := by
    have hmaps : (Catalog.ofDescriptors false capitals).calls.names ++ (Catalog.ofDescriptors false capitals).gets.names ++
        (Catalog.ofDescriptors false capitals).sets.names = [['h', 'o', 'u', 'r'], ['h', 'p']] := by decide +kernel
    have hwords : ∀ n ∈ [['h', 'o', 'u', 'r'], ['h', 'p']], IsWord n := by decide
    intro n hn
    rw [Catalog.names, Text.mem_sortedDistinct, hmaps] at hn
    exact hwords n hn
  have hposition : Position.of ("#Crate  Get H" : String) = some (.commandName .get true ['H']) := by decide +kernel
  obtain ⟨head, target, hline, hopens, -, hoffered⟩ :=
    offered_name_dispatches hdeclared hnames hposition (.empty : World Samples.Kind) 32
  have hhead : ("#Crate  Get " : String) = head := List.append_cancel_right hline
  have hwords : words ("#Crate  Get " : String) = [("#Crate" : String).toList, ['G', 'e', 't']] := by decide +kernel
  rw [← hhead, hwords] at hopens
  rw [← hhead] at hoffered
  have htarget : target = some (.marked .tag ("Crate" : String)) := by
    cases hopens with
    | targeted hselector _ => exact congrArg some (Option.some.inj hselector).symm
  have hpredicted : predict (Catalog.ofDescriptors false capitals) .empty 32 ("#Crate  Get H" : String) =
      [['h', 'p']] := by decide +kernel
  obtain ⟨hparse, hrun⟩ := hoffered ['h', 'p'] (by rw [hpredicted]; exact List.mem_singleton_self _)
  rw [htarget] at hparse hrun
  have hrefused : (Command.run .runtime ⟨some (.marked .tag ("Crate" : String)), .get, ['h', 'p'], []⟩
      ⟨.empty, ⟨.ofDescriptors false capitals, 0⟩⟩).1 = .error (.target (.noObjectTagged ("Crate" : String))) := by
    rfl
  exact ⟨hpredicted, hparse, _, hrefused, hrun .runtime _ _ rfl hrefused⟩

end CommandConsole

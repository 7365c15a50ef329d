import CommandConsole.Proofs.Session.Hinting
import CommandConsole.Proofs.Session.Offering
/-!
# Literals — offered literals are read

At an argument the literals of its type are offered, if it has few.  Such a word is read against that type, be it nullable
any number of times, as a value that is shown as the word, up to the case of ASCII letters (`read_of_literal`).  In the place
of what has been typed it is the argument that the line hands to its command there, and it is read against the type that it
was offered for (`offered_literal_is_read`).
-/
namespace CommandConsole

open Text

/-! ## Reading -/

theorem Text.sameAscii_symm {s t : Text} (h : sameAscii s t = true) : sameAscii t s = true :=
  beq_iff_eq.2 (beq_iff_eq.1 h).symm

theorem EnumInfo.exists_find?_of_mem {e : EnumInfo} {c : Text} (h : c ∈ e.members) :
    ∃ i, e.find? c = some i ∧ sameAscii (e.memberText i) c = true := by
  have hsame : (e.members.findIdx? (sameAscii c)).isSome = true := by
    rw [List.findIdx?_isSome, List.any_eq_true]
    exact ⟨c, h, beq_self_eq_true _⟩
  obtain ⟨i, hi⟩ := Option.isSome_iff_exists.1 hsame
  obtain ⟨hlt, halike, -⟩ := List.findIdx?_eq_some_iff_getElem.1 hi
  refine ⟨i, hi, ?_⟩
  rw [EnumInfo.memberText, List.getD_eq_getElem?_getD, List.getElem?_eq_getElem hlt]
  exact sameAscii_symm halike

/-- **A literal of a type is read against it**, as a value that is shown as the literal is written, up to case. -/
theorem read_of_literal (find : ObjectLookup) {t : TypeTag} {ls : List Text} {c : Text} (hfew : t.literals? = some ls)
    (hc : c ∈ ls) (hword : IsWord c) : ∃ u, t.read find c = .ok u ∧ sameAscii u.text c = true := by
  have htrim : trim c = c := trim_of_noBlank hword.noBlank
  induction t with
  | bool =>
    cases hfew
    rcases List.mem_pair.1 hc with rfl | rfl
    · exact ⟨.bool true, rfl, rfl⟩
    · exact ⟨.bool false, rfl, rfl⟩
  | enum e =>
    cases hfew
    obtain ⟨i, hi, htext⟩ := EnumInfo.exists_find?_of_mem hc
    refine ⟨.enum e i, ?_, htext⟩
    rw [TypeTag.read, htrim, hi]
  | nullable t ih =>
    obtain ⟨u, hread, htext⟩ := ih hfew
    by_cases hnull : sameAscii c "null" = true
    · refine ⟨.null, ?_, sameAscii_symm hnull⟩
      rw [TypeTag.read, htrim, hnull, Bool.or_true, if_pos rfl]
    · refine ⟨u, ?_, htext⟩
      have hbare : (decide (c = []) || sameAscii c "null") = false := by
        rw [Bool.or_eq_false_iff, decide_eq_false_iff_not]
        exact ⟨hword.ne_nil, Bool.eq_false_iff.2 hnull⟩
      rw [TypeTag.read, htrim, hbare, if_neg Bool.false_ne_true, hread]
  | _ => cases hfew

/-! ## The place of an argument -/

variable {line typed name : Text} {target : Option Selector} {v : Verb} {i : Nat}

/-- **Prediction places the end of a line at an argument exactly where the grammar has one**: after a verb, or a selector and
a verb, a name, and as many words as the index of the argument tells. -/
theorem position_eq_argument_iff : Position.of line = some (.argument v name i typed) ↔
    ∃ head us target ts, line = head ++ typed ∧ words head = us ++ name :: ts ∧ Opens us target v ∧ ts.length = i ∧
      endsBlank head = true ∧ NoBlank typed := by
  constructor
  · intro h
    obtain ⟨us, target, v, name, rest, hwords, hopens, hp⟩ := exists_words_of_ofWords h nofun nofun
    rcases List.eq_nil_or_concat rest with rfl | ⟨ts, t, rfl⟩
    · cases hp
    · rw [List.concat_eq_append, List.getLast?_concat, List.length_append] at hp
      cases hp
      have hne : us ++ name :: ts ≠ [] := by simp
      have htyping : typedWords line = (us ++ name :: ts) ++ [typed] := by rw [hwords]; simp
      obtain ⟨head, hline, hhead, hblank, htyped⟩ := exists_head_of_typedWords hne htyping
      exact ⟨head, us, target, ts, hline, hhead, hopens, rfl, hblank, htyped⟩
  · rintro ⟨head, us, target, ts, rfl, hhead, hopens, rfl, hblank, htyped⟩
    have hne : words head ≠ [] := by simp [hhead]
    rw [Position.of, typedWords_append hne hblank htyped, hhead, List.append_assoc, List.cons_append,
      ofWords_argument hopens]

/-! ## Offered literals -/

variable {κ : Type} [ComponentKind κ]

/-- The members of the enumerations that a command takes, null or not, are words. -/
def Descriptor.TakesWords (d : Descriptor κ) : Prop :=
  ∀ index slotted e, d.invoker.slotted? index = some slotted → slotted.type.unwrapNullable = .enum e →
    ∀ m ∈ e.members, IsWord m

theorem isWord_of_literal {t : TypeTag} (hmembers : ∀ e, t.unwrapNullable = .enum e → ∀ m ∈ e.members, IsWord m)
    {ls : List Text} {c : Text} (hfew : t.literals? = some ls) (hc : c ∈ ls) : IsWord c := by
  unfold TypeTag.literals? at hfew
  split at hfew
  · cases hfew
    rcases List.mem_pair.1 hc with rfl | rfl <;> decide
  · rename_i e he
    cases hfew
    exact hmembers e he c hc
  · cases hfew

variable {catalog : Catalog κ} {includePrivate : Bool} {ds : List (Descriptor κ)}

/-- What is offered at an argument is a literal of the type that the command has there. -/
theorem exists_literal_of_mem_predict (hposition : Position.of line = some (.argument v name i typed)) {w : World κ}
    {limit : Nat} {c : Text} (hc : c ∈ predict catalog w limit line) :
    ∃ d slotted ls, catalog.lookup name v = some d ∧ d.invoker.slotted? i = some slotted ∧
      slotted.type.literals? = some ls ∧ c ∈ ls := by
  have hmay := mem_matching_argument_iff.1 (List.mem_filter.2 (mem_options_of_mem_predict hposition hc))
  cases hmay with
  | literal declared few literal begins =>
    obtain ⟨d, hd, hslotted⟩ := Option.bind_eq_some_iff.1 declared
    exact ⟨d, _, _, hd, hslotted, few, literal⟩

/-- A word at an argument that a command has is handed to it as that argument; to a setter as its value. -/
theorem argsOf_of_slotted {d : Descriptor κ} {slotted : Slotted} {ts : List Text}
    (hslotted : d.invoker.slotted? ts.length = some slotted) (c : Text) :
    (d.verb.argsOf (ts ++ [c]))[ts.length]? = some c ∧ (d.verb = .set → d.verb.argsOf (ts ++ [c]) = [c]) := by
  unfold Descriptor.verb
  cases hinvoker : d.invoker with
  | call ps returns run => exact ⟨List.getElem?_concat_length, nofun⟩
  | get type run        => rw [hinvoker] at hslotted; cases hslotted
  | set type run        =>
    rw [hinvoker, Invoker.slotted?] at hslotted
    split at hslotted
    · rename_i hzero
      cases List.length_eq_zero_iff.1 hzero
      exact ⟨rfl, fun _ => rfl⟩
    · cases hslotted

/-- An argument of a command that is carried out has been read against the type that the command has there. -/
theorem exists_value_of_slotted {d : Descriptor κ} {slotted : Slotted} (hslotted : d.invoker.slotted? i = some slotted)
    {find : ObjectLookup} {args : List Text} {r : Prepared κ} (hprepare : d.invoker.prepare find name args = .ok r)
    {c : Text} (hc : args[i]? = some c) : ∃ u, r.values[i]? = some u ∧ slotted.type.read find c = .ok u := by
  cases hinvoker : d.invoker with
  | get type run        => rw [hinvoker] at hslotted; cases hslotted
  | call ps returns run =>
    rw [hinvoker] at hslotted hprepare
    obtain ⟨p, hp, rfl⟩ := Option.map_eq_some_iff.1 hslotted
    have hreads := readsAs_of_prepare_call hprepare
    have hi : i < r.values.length := hreads.length ▸ (List.getElem?_eq_some_iff.1 hp).1
    exact ⟨r.values[i], List.getElem?_eq_getElem hi, hreads.read hp hc (List.getElem?_eq_getElem hi)⟩
  | set type run        =>
    rw [hinvoker] at hslotted hprepare
    rw [Invoker.slotted?] at hslotted
    split at hslotted
    · rename_i hzero
      cases hzero
      cases hslotted
      obtain ⟨t, u, ht, hread, hvalues⟩ := read_of_prepare_set hprepare
      rw [List.head?_eq_getElem?, hc] at ht
      cases ht
      exact ⟨u, by rw [hvalues]; rfl, hread⟩
    · cases hslotted

/-- **A literal that is offered is read.**  Let the members of the enumerations be words.  Where a line has come to an
argument, each offered word, in the place of what has been typed of it, is handed unchanged to the command that the line
names, as the argument at that place; to a setter as its value.  It is read against the type that the command has there,
whatever objects the host has, as a value that is shown as the word up to the case of ASCII letters; and so it is read when
the line is run. -/
theorem offered_literal_is_read (hdeclared : ∀ d ∈ ds, d.Declared) (hwords : ∀ d ∈ ds, d.TakesWords)
    (hposition : Position.of line = some (.argument v name i typed)) (w : World κ) (limit : Nat) :
    ∃ head target us ts, line = head ++ typed ∧ words head = us ++ name :: ts ∧ Opens us target v ∧ ts.length = i ∧
      ∀ c ∈ predict (.ofDescriptors includePrivate ds) w limit line,
        let command : Command := ⟨target, v, lower name, v.argsOf (ts ++ [c])⟩
        Command.parse (head ++ c) = .ok command ∧ command.args[i]? = some c ∧ (v = .set → command.args = [c]) ∧
          ∃ d slotted, (Catalog.ofDescriptors includePrivate ds).lookup command.name v = some d ∧
            d.invoker.slotted? i = some slotted ∧
            (∀ find, ∃ u, slotted.type.read find c = .ok u ∧ sameAscii u.text c = true) ∧
            ∀ (context : Context) (world : World κ) (p : Plan κ),
              command.plan (.ofDescriptors includePrivate ds) world context = .ok p →
              ∃ u, p.prepared.values[i]? = some u ∧ slotted.type.read world.lookup c = .ok u := by
  obtain ⟨head, us, target, ts, hline, hhead, hopens, rfl, hblank, -⟩ := position_eq_argument_iff.1 hposition
  refine ⟨head, target, us, ts, hline, hhead, hopens, rfl, fun c hc => ?_⟩
  obtain ⟨d, slotted, ls, hfound, hslotted, hfew, hliteral⟩ := exists_literal_of_mem_predict hposition hc
  rw [Catalog.lookup_ofDescriptors hdeclared] at hfound
  obtain ⟨hoffered, hd⟩ := List.mem_filter.1 (List.mem_of_getLast? hfound)
  obtain ⟨rfl, -⟩ := of_decide_eq_true hd
  have hlookup : (Catalog.ofDescriptors includePrivate ds).lookup (lower name) d.verb = some d := by
    rw [Catalog.lookup_ofDescriptors hdeclared, lower_lower, hfound]
  have hword : IsWord c :=
    isWord_of_literal (fun e => hwords d (List.mem_filter.1 hoffered).1 ts.length slotted e hslotted) hfew hliteral
  have hline : words (head ++ c) = us ++ name :: (ts ++ [c]) := by
    rw [words_append_of_endsBlank hblank, words_of_isWord hword, hhead, List.append_assoc, List.cons_append]
  obtain ⟨hargs, hvalue⟩ := argsOf_of_slotted hslotted c
  refine ⟨parse_of_words hline hopens, hargs, hvalue, d, slotted, hlookup, hslotted,
    fun find => read_of_literal find hfew hliteral hword, fun context world p hplan => ?_⟩
  obtain ⟨hcommand, -, hprepare⟩ := plan_eq_ok_iff.1 hplan
  cases hlookup.symm.trans hcommand
  exact exists_value_of_slotted hslotted hprepare hargs

/-- A level that may be left out twice over, of whose members one is named like nothing at all and two differ in case. -/
def Samples.level : TypeTag := .nullable (.nullable (.enum ⟨"Level", ["Null", "LOW", "low"]⟩))

/-- A command that takes a mark and a level. -/
def Samples.leveled : Descriptor Samples.Kind :=
  .static (.callable "f" .game [⟨"mark", .bool⟩, ⟨"level", Samples.level⟩] .void fun _ => Access.pure .unit)

/-- The second of two members that differ in case is offered, handed on as it is, and read. -/
theorem offered_literal_is_read_nullable :
    predict (.ofDescriptors false [Samples.leveled]) .empty 32 "call F true l" = [("LOW" : Text), ("low" : Text)] ∧
      Command.parse "call F true low" = .ok ⟨none, .call, "f", ["true", "low"]⟩ ∧
      ∃ u, Samples.level.read (fun _ => none) "low" = .ok u ∧ sameAscii u.text "low" = true := by
  have hdeclared : ∀ d ∈ [Samples.leveled], d.Declared := fun d hd => by
    cases List.mem_singleton.1 hd
    exact ⟨_, rfl⟩
  have hwords : ∀ d ∈ [Samples.leveled], d.TakesWords := by
    rintro d hd index slotted e hslotted he
    cases List.mem_singleton.1 hd
    match index, hslotted with
    | 0, rfl => cases he
    | 1, rfl => cases he; decide
  have hposition : Position.of "call F true l" = some (.argument .call "F" 1 "l") := by decide +kernel
  have hmatching : (Position.argument .call "F" 1 "l").matching (.ofDescriptors false [Samples.leveled]) .empty =
      [("LOW" : Text), ("low" : Text)] := by decide +kernel
  have hpredicted : predict (.ofDescriptors false [Samples.leveled]) .empty 32 "call F true l" =
      [("LOW" : Text), ("low" : Text)] := by
    rw [predict_of_position hposition, hmatching, ranked_of_pairwise (by decide +kernel)]
    rfl
  obtain ⟨head, target, us, ts, hline, hhead, hopens, hlength, hoffered⟩ :=
    @offered_literal_is_read _ _ _ _ _ _ _ false _ hdeclared hwords hposition .empty 32
  have hstart : ("call F true " : Text) = head := List.append_cancel_right hline
  have hwords : words "call F true " = [("call" : Text), ("F" : Text), ("true" : Text)] := by decide +kernel
  rw [← hstart] at hoffered
  rw [← hstart, hwords] at hhead
  obtain ⟨hparse, -, -, d, slotted, hlookup, hslotted, hread, -⟩ := hoffered "low" (by rw [hpredicted]; decide)
  have hbare : target = none ∧ ts = [("true" : Text)] := by
    cases hopens with
    | bare     => cases hhead; exact ⟨rfl, rfl⟩
    | targeted => cases hhead
  obtain ⟨rfl, rfl⟩ := hbare
  have hcommand : (Catalog.ofDescriptors false [Samples.leveled]).lookup (lower "F") .call = some Samples.leveled := rfl
  cases hcommand.symm.trans hlookup
  cases hslotted
  exact ⟨hpredicted, hparse, hread _⟩

end CommandConsole

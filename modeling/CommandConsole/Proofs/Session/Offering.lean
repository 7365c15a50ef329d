import CommandConsole.Proofs.Session.Ranking
import CommandConsole.Proofs.Text.Case
import CommandConsole.Samples.Kind
import Mathlib.Data.List.Sort
/-!
# Offering — prediction takes the least of what may stand at a place

`MayStand` says which words may stand at a place of the grammar, as far as it has been typed, and `Precedes` which of two
words is offered first.  The latter is a total order, in which no two words tie, so the words that may stand at a place have
one list in that order; and what is offered is the start of that list (`predict_takes_least`).  It does not depend on how the
host lists the names and tags that it knows.
-/
namespace CommandConsole

open Text

/-! ## Which word comes first -/

/-- The code points of `s` come before those of `t`. -/
def Text.Below (s t : Text) : Prop := le s t = true ∧ s ≠ t

/-- **Which word is offered first**: one that is typed in full, else the one that is less in lowercase, else the one that is
less as it is written. -/
inductive Precedes (typed : Text) : Text → Text → Prop
  | full {a b : Text} (full : sameAscii a typed = true) (other : sameAscii b typed = false) : Precedes typed a b
  | lowercase {a b : Text} (alike : sameAscii a typed = sameAscii b typed) (below : Below (lower a) (lower b)) :
      Precedes typed a b
  | written {a b : Text} (alike : sameAscii a typed = sameAscii b typed) (same : lower a = lower b) (below : Below a b) :
      Precedes typed a b

variable {typed a b o : Text}

theorem precedes_iff : Precedes typed a b ↔ rankLe typed a b = true ∧ a ≠ b := by
  rw [rankLe_iff]
  constructor
  · intro h
    cases h with
    | full ha hb                =>
      refine ⟨.inl ⟨ha, hb⟩, ?_⟩
      rintro rfl
      cases ha.symm.trans hb
    | lowercase halike hbelow   => exact ⟨.inr ⟨halike, .inr ⟨hbelow.2, hbelow.1⟩⟩, fun hab => hbelow.2 (congrArg lower hab)⟩
    | written halike hsame hbelow => exact ⟨.inr ⟨halike, .inl ⟨hsame, hbelow.1⟩⟩, hbelow.2⟩
  · rintro ⟨⟨ha, hb⟩ | ⟨halike, ⟨hsame, hle⟩ | ⟨hne, hle⟩⟩, hab⟩
    · exact .full ha hb
    · exact .written halike hsame ⟨hle, hab⟩
    · exact .lowercase halike ⟨hle, hne⟩

/-- **Of two different words one is offered first**, and this is an order. -/
theorem isStrictTotalOrder_precedes (typed : Text) : IsStrictTotalOrder Text (Precedes typed) where
  trichotomous a b hab hba := by
    rw [precedes_iff, not_and, not_not] at hab hba
    rcases Bool.or_eq_true_iff.1 (rankLe_total typed a b) with h | h
    · exact hab h
    · exact (hba h).symm
  irrefl a h := (precedes_iff.1 h).2 rfl
  trans a b c hab hbc := by
    obtain ⟨hab, hne⟩ := precedes_iff.1 hab
    obtain ⟨hbc, -⟩ := precedes_iff.1 hbc
    refine precedes_iff.2 ⟨rankLe_trans typed a b c hab hbc, ?_⟩
    rintro rfl
    exact hne (rankLe_antisymm typed a b hab hbc)

theorem pairwise_precedes_ranked (typed : Text) (candidates : List Text) :
    (ranked typed candidates).Pairwise (Precedes typed) := (pairwise_ranked typed candidates).imp precedes_iff.2

/-- **Candidates are ranked alike in whatever order and however often they are listed.** -/
theorem ranked_congr {l l' : List Text} (h : ∀ o, o ∈ l ↔ o ∈ l') : ranked typed l = ranked typed l' := by
  have hl := pairwise_ranked typed l
  have hl' := pairwise_ranked typed l'
  have hperm : (ranked typed l).Perm (ranked typed l') := by
    refine (List.perm_ext_iff_of_nodup (hl.imp And.right) (hl'.imp And.right)).2 fun o => ?_
    rw [mem_ranked, mem_ranked, h]
  exact hperm.eq_of_pairwise (fun a b _ _ => rankLe_antisymm typed a b) (hl.imp And.left) (hl'.imp And.left)

/-! ## What may stand at a place -/

variable {κ : Type} [ComponentKind κ] {c : Catalog κ} {w w' : World κ} {p : Position} {line : Text} {limit : Nat}

/-- **The words that may stand at a place**, as far as it has been typed. -/
inductive MayStand (c : Catalog κ) (w : World κ) : Position → Text → Prop
  | afterSelect {t : Text} (complete : SameBytes t selectWord) (v : Verb) : MayStand c w (.leading t) v.text
  | name {t rest n : Text} {s : Sigil} (split : Sigil.split? t = some (s, rest)) (mark : s = .name ∨ s = .allNames)
      (known : n ∈ w.knownNames) (begins : n.BeginsWith rest) : MayStand c w (.leading t) n
  | tag {t rest n : Text} {s : Sigil} (split : Sigil.split? t = some (s, rest)) (mark : s = .tag ∨ s = .allTags)
      (known : n ∈ w.knownTags) (begins : n.BeginsWith rest) : MayStand c w (.leading t) n
  | select {t : Text} (unmarked : Sigil.split? t = none) (incomplete : ¬ SameBytes t selectWord)
      (begins : selectWord.BeginsWith t) : MayStand c w (.leading t) selectWord
  | leadingVerb {t : Text} {v : Verb} (unmarked : Sigil.split? t = none) (incomplete : ¬ SameBytes t selectWord)
      (begins : v.text.BeginsWith t) : MayStand c w (.leading t) v.text
  | verb {t : Text} {v : Verb} (begins : v.text.BeginsWith t) : MayStand c w (.verb t) v.text
  | commandName {v : Verb} {targeted : Bool} {t : Text} {d : Descriptor κ} (listed : d ∈ (c.forVerb v).values)
      (suits : d.isStatic ≠ targeted) (begins : d.name.BeginsWith t) : MayStand c w (.commandName v targeted t) d.name
  | literal {v : Verb} {n t o : Text} {i : Nat} {s : Slotted} {ls : List Text} (declared : c.slotted? v n i = some s)
      (few : s.type.literals? = some ls) (literal : o ∈ ls) (begins : o.BeginsWith t) : MayStand c w (.argument v n i t) o

theorem mem_verbWords : o ∈ verbWords ↔ ∃ v : Verb, o = v.text := by
  rw [verbWords, List.mem_map]
  constructor
  · rintro ⟨v, -, rfl⟩
    exact ⟨v, rfl⟩
  · rintro ⟨v, rfl⟩
    exact ⟨v, by cases v <;> decide, rfl⟩

theorem split?_of_sameBytes {t : Text} (h : SameBytes t selectWord) : Sigil.split? t = none := by
  have hlower : asciiLower t = selectWord := sameBytes_iff.1 h
  unfold Sigil.split?
  split
  · cases hlower
  · cases hlower
  · cases hlower
  · cases hlower
  · rfl

theorem leading_accepts {t : Text} : (Position.leading t).accepts o = true ↔
    SameBytes t selectWord ∨ o.BeginsWith (Position.leading t).typed := by
  rw [Position.accepts, Bool.or_eq_true, sameAscii_iff, startsWithAscii_iff_beginsWith]

theorem leading_typed_of_unmarked {t : Text} (h : Sigil.split? t = none) : (Position.leading t).typed = t := by
  rw [Position.typed, h]
  rfl

theorem leading_typed_of_marked {t rest : Text} {s : Sigil} (h : Sigil.split? t = some (s, rest)) :
    (Position.leading t).typed = rest := by
  rw [Position.typed, h]
  rfl

theorem mem_matching_leading_iff {t : Text} :
    o ∈ (Position.leading t).matching c w ↔ MayStand c w (.leading t) o := by
  rw [Position.matching, List.mem_filter, leading_accepts, Position.options, leadingOptions]
  by_cases hselect : SameBytes t selectWord
  · rw [if_pos (sameAscii_iff.2 hselect), mem_verbWords]
    have hsplit := split?_of_sameBytes hselect
    constructor
    · rintro ⟨⟨v, rfl⟩, -⟩
      exact .afterSelect hselect v
    · intro h
      refine ⟨?_, .inl hselect⟩
      cases h with
      | afterSelect _ v                => exact ⟨v, rfl⟩
      | name split                     => cases hsplit.symm.trans split
      | tag split                      => cases hsplit.symm.trans split
      | select _ incomplete            => exact absurd hselect incomplete
      | leadingVerb _ incomplete       => exact absurd hselect incomplete
  rw [if_neg (mt sameAscii_iff.1 hselect), or_iff_right hselect]
  cases hsplit : Sigil.split? t with
  | none =>
    rw [leading_typed_of_unmarked hsplit, List.mem_cons, mem_verbWords]
    constructor
    · rintro ⟨rfl | ⟨v, rfl⟩, hbegins⟩
      · exact .select hsplit hselect hbegins
      · exact .leadingVerb hsplit hselect hbegins
    · intro h
      cases h with
      | afterSelect complete           => exact absurd complete hselect
      | name split                     => cases hsplit.symm.trans split
      | tag split                      => cases hsplit.symm.trans split
      | select _ _ begins              => exact ⟨.inl rfl, begins⟩
      | leadingVerb _ _ begins         => exact ⟨.inr ⟨_, rfl⟩, begins⟩
  | some found =>
    obtain ⟨s, rest⟩ := found
    rw [leading_typed_of_marked hsplit]
    constructor
    · rintro ⟨hknown, hbegins⟩
      cases s with
      | name | allNames => exact .name hsplit (by simp) hknown hbegins
      | tag | allTags   => exact .tag hsplit (by simp) hknown hbegins
    · intro h
      cases h with
      | afterSelect complete           => exact absurd complete hselect
      | name split mark known begins   =>
        cases hsplit.symm.trans split
        rcases mark with rfl | rfl <;> exact ⟨known, begins⟩
      | tag split mark known begins    =>
        cases hsplit.symm.trans split
        rcases mark with rfl | rfl <;> exact ⟨known, begins⟩
      | select unmarked                => cases hsplit.symm.trans unmarked
      | leadingVerb unmarked           => cases hsplit.symm.trans unmarked

/-- Beyond the first word the options are compared with the word as it is typed. -/
theorem mem_matching_of_not_leading (h : ∀ t, p ≠ .leading t) :
    o ∈ p.matching c w ↔ o ∈ p.options c w ∧ o.BeginsWith p.typed := by
  rw [Position.matching, List.mem_filter, ← startsWithAscii_iff_beginsWith]
  cases p with
  | leading t => exact absurd rfl (h t)
  | _         => rfl

theorem mem_matching_verb_iff {t : Text} : o ∈ (Position.verb t).matching c w ↔ MayStand c w (.verb t) o := by
  rw [mem_matching_of_not_leading (by simp), Position.options, mem_verbWords, Position.typed]
  constructor
  · rintro ⟨⟨v, rfl⟩, hbegins⟩
    exact .verb hbegins
  · rintro ⟨⟩
    exact ⟨⟨_, rfl⟩, ‹_›⟩

theorem mem_matching_commandName_iff {v : Verb} {targeted : Bool} {t : Text} :
    o ∈ (Position.commandName v targeted t).matching c w ↔ MayStand c w (.commandName v targeted t) o := by
  rw [mem_matching_of_not_leading (by simp), Position.options, List.mem_map, Position.typed]
  constructor
  · rintro ⟨⟨d, hd, rfl⟩, hbegins⟩
    obtain ⟨hlisted, hsuits⟩ := List.mem_filter.1 hd
    exact .commandName hlisted (bne_iff_ne.1 hsuits) hbegins
  · intro h
    cases h with
    | commandName listed suits begins => exact ⟨⟨_, List.mem_filter.2 ⟨listed, bne_iff_ne.2 suits⟩, rfl⟩, begins⟩

theorem mem_matching_argument_iff {v : Verb} {n t : Text} {i : Nat} :
    o ∈ (Position.argument v n i t).matching c w ↔ MayStand c w (.argument v n i t) o := by
  rw [mem_matching_of_not_leading (by simp), Position.options, Position.typed]
  constructor
  · rintro ⟨ho, hbegins⟩
    cases hslot : c.slotted? v n i with
    | none   => simp [hslot] at ho
    | some s =>
      cases hfew : s.type.literals? with
      | none    => simp [hslot, hfew] at ho
      | some ls =>
        have ho : o ∈ ls := by simpa [hslot, hfew] using ho
        exact .literal hslot hfew ho hbegins
  · intro h
    cases h with
    | literal declared few literal begins => exact ⟨by simpa [declared, few] using literal, begins⟩

/-- **What goes with a place of the grammar is what may stand there.** -/
theorem mem_matching_iff : o ∈ p.matching c w ↔ MayStand c w p o := by
  cases p with
  | leading t                => exact mem_matching_leading_iff
  | verb t                   => exact mem_matching_verb_iff
  | commandName v targeted t => exact mem_matching_commandName_iff
  | argument v n i t         => exact mem_matching_argument_iff

/-- The names and the tags that the host knows are what matters, not how it lists them. -/
theorem MayStand.of_known (hnames : ∀ n, n ∈ w.knownNames ↔ n ∈ w'.knownNames)
    (htags : ∀ n, n ∈ w.knownTags ↔ n ∈ w'.knownTags) (h : MayStand c w p o) : MayStand c w' p o := by
  cases h with
  | afterSelect complete v                     => exact .afterSelect complete v
  | name split mark known begins               => exact .name split mark ((hnames _).1 known) begins
  | tag split mark known begins                => exact .tag split mark ((htags _).1 known) begins
  | select unmarked incomplete begins          => exact .select unmarked incomplete begins
  | leadingVerb unmarked incomplete begins     => exact .leadingVerb unmarked incomplete begins
  | verb begins                                => exact .verb begins
  | commandName listed suits begins            => exact .commandName listed suits begins
  | literal declared few literal begins        => exact .literal declared few literal begins

/-! ## What is offered -/

theorem matching_congr (hnames : ∀ n, n ∈ w.knownNames ↔ n ∈ w'.knownNames)
    (htags : ∀ n, n ∈ w.knownTags ↔ n ∈ w'.knownTags) (o : Text) : o ∈ p.matching c w ↔ o ∈ p.matching c w' := by
  rw [mem_matching_iff, mem_matching_iff]
  exact ⟨.of_known hnames htags, .of_known (fun n => (hnames n).symm) (fun n => (htags n).symm)⟩

theorem predict_of_position (h : Position.of line = some p) :
    predict c w limit line = (ranked p.typed (p.matching c w)).take limit := by
  rw [predict, h]

/-- What is left out comes after what is offered. -/
theorem precedes_of_omitted (h : Position.of line = some p) (hmay : MayStand c w p o) (ho : o ∉ predict c w limit line)
    (ha : a ∈ predict c w limit line) : Precedes p.typed a o := by
  have hmatching : o ∈ matchingOptions c w line := by
    rw [matchingOptions, h]
    exact mem_matching_iff.2 hmay
  have htyped : typedPart line = p.typed := by
    rw [typedPart, h]
    rfl
  have hbefore := ((mem_predict_or_outranked hmatching).resolve_left ho).2 a ha
  rw [htyped] at hbefore
  exact precedes_iff.2 hbefore

/-- **Prediction takes the least of what may stand at a place.**  The words that may stand there have one list in order, each
once, and the start of it is offered: no word twice, none left out that comes before one that is offered, more words where
more are asked for after those that are offered already, and the same for every way to list the names and tags that the host
knows. -/
theorem predict_takes_least (hposition : Position.of line = some p) (c : Catalog κ) (w : World κ) :
    IsStrictTotalOrder Text (Precedes p.typed) ∧
      ∃ l : List Text, l.Nodup ∧ l.Pairwise (Precedes p.typed) ∧ (∀ o, o ∈ l ↔ MayStand c w p o) ∧
        ∀ limit, predict c w limit line = l.take limit ∧ (predict c w limit line).Nodup ∧
          (∀ o, MayStand c w p o → o ∉ predict c w limit line → ∀ a ∈ predict c w limit line, Precedes p.typed a o) ∧
          (∀ more, predict c w limit line <+: predict c w (limit + more) line) ∧
          ∀ w' : World κ, (∀ n, n ∈ w.knownNames ↔ n ∈ w'.knownNames) → (∀ t, t ∈ w.knownTags ↔ t ∈ w'.knownTags) →
            predict c w' limit line = predict c w limit line := by
  have hranked := pairwise_ranked p.typed (p.matching c w)
  have hnodup : (ranked p.typed (p.matching c w)).Nodup := hranked.imp And.right
  refine ⟨isStrictTotalOrder_precedes p.typed, ranked p.typed (p.matching c w), hnodup, pairwise_precedes_ranked _ _,
    fun o => mem_ranked.trans mem_matching_iff, fun limit => ?_⟩
  have htake : predict c w limit line = (ranked p.typed (p.matching c w)).take limit := predict_of_position hposition
  refine ⟨htake, ?_, fun o hmay ho a ha => precedes_of_omitted hposition hmay ho ha, fun more => ?_,
    fun w' hnames htags => ?_⟩
  · rw [htake]
    exact hnodup.sublist (List.take_sublist _ _)
  · rw [htake, predict_of_position hposition]
    exact List.take_prefix_take_left (Nat.le_add_right limit more)
  · rw [htake, predict_of_position hposition, ranked_congr (matching_congr hnames htags)]

/-- A host that lists `abc`, `ab`, `Ab` and `ab` again offers what one does that lists each once and in order. -/
theorem predict_takes_least_shuffled :
    let line : Text := ['@', 'a', 'b']
    let w : World Samples.Kind := ⟨[], [], [['A', 'b'], ['a', 'b'], ['a', 'b', 'c']], []⟩
    let w' : World Samples.Kind := ⟨[], [], [['a', 'b', 'c'], ['a', 'b'], ['A', 'b'], ['a', 'b']], []⟩
    Position.of line = some (.leading line) ∧ (∀ n, n ∈ w.knownNames ↔ n ∈ w'.knownNames) ∧
      (∀ t, t ∈ w.knownTags ↔ t ∈ w'.knownTags) ∧ predict .empty w' 2 line = [['A', 'b'], ['a', 'b']] := by
  intro line w w'
  have hposition : Position.of line = some (.leading line) := by decide +kernel
  have hnames : ∀ n, n ∈ w.knownNames ↔ n ∈ w'.knownNames := by
    simp only [w, w', List.mem_cons, List.not_mem_nil]
    tauto
  have htags : ∀ t, t ∈ w.knownTags ↔ t ∈ w'.knownTags := fun _ => Iff.rfl
  obtain ⟨-, l, -, -, -, hoffered⟩ := predict_takes_least hposition .empty w
  obtain ⟨-, -, -, -, hhost⟩ := hoffered 2
  refine ⟨hposition, hnames, htags, (hhost w' hnames htags).trans ?_⟩
  have hmatching : (Position.leading line).matching .empty w = [['A', 'b'], ['a', 'b'], ['a', 'b', 'c']] := by
    decide +kernel
  rw [predict_of_position hposition, hmatching, ranked_of_pairwise (by decide +kernel)]
  decide +kernel

end CommandConsole

import CommandConsole.Proofs.Session.Naming
import CommandConsole.Proofs.Session.Offering
/-!
# Casing — names that are typed in another case

A name is kept in lowercase, and the parser lowercases the whole of the word that is typed for it.  Prediction compares the
start of that word with the names as they are, and passes over the case of `A`-`Z` alone.  The two foldings differ on the
capitals outside ASCII.  So a start of a name that the parser would read as one is offered the name just where both
foldings make the same of it (`typed_name_offered_iff`): a line that goes on from `É` to `État` runs, while nothing is
offered for the `É` (`capital_hides_name`).
-/
namespace CommandConsole

open CaseTable Text

/-! ## Two foldings -/

/-- The letters `A`-`Z`. -/
def CaseTable.letters : Run := ⟨0x41, 0x5A, 1, 0x61⟩

theorem CaseTable.exists_lowercaseRuns_eq : ∃ runs, lowercaseRuns = letters :: runs := ⟨_, rfl⟩

section
variable {c : Char}

theorem CaseTable.letters_contains_iff : letters.contains c.toNat = true ↔ 0x41 ≤ c.toNat ∧ c.toNat ≤ 0x5A := by
  rw [Run.contains_iff]
  exact ⟨fun h => ⟨h.1, h.2.1⟩, fun h => ⟨h.1, h.2, Nat.mod_one _⟩⟩

theorem toLower_of_not_letter (h : letters.contains c.toNat = false) : c.toLower = c := by
  have hnat := Utf8.toNat_toLower c
  rw [if_neg fun hc => by rw [letters_contains_iff.2 hc] at h; cases h] at hnat
  exact Char.toNat_inj.1 hnat

theorem lowerOne_of_letter (h : letters.contains c.toNat = true) : lowerOne c = [c.toLower] := by
  obtain ⟨runs, hruns⟩ := exists_lowercaseRuns_eq
  have hrange := letters_contains_iff.1 h
  have hdot : c ≠ 'İ' := by
    rintro rfl
    exact absurd hrange.2 (by decide)
  have hnat : 0x61 + (c.toNat - 0x41) = c.toLower.toNat := by
    rw [Utf8.toNat_toLower, if_pos hrange]
    omega
  -- the letters are the first run of the table, and one that is found there is looked for no further
  have hform : lowerChar c = Char.ofNat (0x61 + (c.toNat - 0x41)) := by
    rw [lowerChar, hruns, List.find?_cons_of_pos (p := (Run.contains · c.toNat)) h]
    rfl
  rw [lowerOne, if_neg hdot, hform, hnat, Char.ofNat_toNat]

theorem Settled.toLower (h : Settled c) : c.toLower = c := by
  obtain ⟨runs, hruns⟩ := exists_lowercaseRuns_eq
  exact toLower_of_not_letter (h.noRun letters (hruns ▸ List.mem_cons_self))

/-- A letter of ASCII, or a character that is in lowercase, has the same form under both foldings, wherever it stands. -/
theorem lowerAt_of_settled_toLower (h : Settled c.toLower) (before t : Text) : lowerAt before c t = [c.toLower] := by
  cases hletter : letters.contains c.toNat with
  | true  =>
    have hsigma : c ≠ 'Σ' := by
      rintro rfl
      exact absurd hletter (by decide)
    rw [lowerAt, if_neg hsigma, lowerOne_of_letter hletter]
  | false =>
    rw [toLower_of_not_letter hletter] at h ⊢
    rw [lowerAt, if_neg h.ne_sigma, h.lowerOne]

end

namespace Text

variable {t rest name typed : Text}

theorem lowerAfter_eq_asciiLower : ∀ (before : Text) {t : Text}, (∀ c ∈ t, Settled c.toLower) →
    lowerAfter before t = asciiLower t
  | _,      [],     _ => rfl
  | before, c :: t, h => by
    rw [lowerAfter_cons, lowerAt_of_settled_toLower (h c List.mem_cons_self),
      lowerAfter_eq_asciiLower _ (fun d hd => h d (List.mem_cons_of_mem c hd))]
    rfl

/-- **Both foldings make the same of a text just where its capitals are those of ASCII.** -/
theorem lower_eq_asciiLower_iff : lower t = asciiLower t ↔ ∀ c ∈ t, Settled c.toLower := by
  constructor
  · intro h c hc
    have hmem : c.toLower ∈ lower t := h ▸ List.mem_map_of_mem hc
    exact settled_of_mem_lowerAfter hmem
  · exact lowerAfter_eq_asciiLower []

theorem asciiLower_lower (t : Text) : asciiLower (lower t) = lower t := by
  have hfixed : (lower t).map Char.toLower = (lower t).map id :=
    List.map_congr_left fun c hc => (settled_of_mem_lowerAfter hc).toLower
  rw [asciiLower, hfixed, List.map_id]

/-- **A text in lowercase starts with another, up to the case of ASCII letters, just where both foldings make the same of
that one**, if it starts with that one in lowercase. -/
theorem startsWithAscii_lower_iff (hstart : lower typed <+: lower name) :
    startsWithAscii typed (lower name) = true ↔ lower typed = asciiLower typed := by
  rw [startsWithAscii, List.isPrefixOf_iff_prefix, asciiLower_lower]
  constructor
  · intro h
    -- what is left of a capital outside ASCII would stand in the text, which has none
    refine lower_eq_asciiLower_iff.2 fun c hc => ?_
    have hmem : c.toLower ∈ lower name := h.subset (List.mem_map_of_mem hc)
    exact settled_of_mem_lowerAfter hmem
  · intro h
    rwa [← h]

/-- What follows in lowercase stays as it is.  A capital sigma may take another form before it than at the end. -/
theorem lowerAfter_append_of_settled (hrest : ∀ c ∈ rest, Settled c) : ∀ (before : Text) {t : Text}, 'Σ' ∉ t →
    lowerAfter before (t ++ rest) = lowerAfter before t ++ rest
  | before, [],     _ => by
    rw [List.nil_append, lowerAfter_of_settled before hrest]
    rfl
  | before, c :: t, h => by
    obtain ⟨hc, ht⟩ := not_or.1 (mt List.mem_cons.2 h)
    rw [List.cons_append, lowerAfter_cons, lowerAfter_cons, lowerAfter_append_of_settled hrest _ ht, lowerAt, lowerAt,
      if_neg (Ne.symm hc), if_neg (Ne.symm hc), List.append_assoc]

end Text

/-! ## Names that are offered -/

theorem Text.length_sortedDistinct_le (l : List Text) : (sortedDistinct l).length ≤ l.length :=
  ((ascending_sortedDistinct l).nodup.subperm fun _ h => mem_sortedDistinct.1 h).length_le

variable {κ : Type} [ComponentKind κ] {c : Catalog κ} {limit : Nat} {line typed : Text} {v : Verb} {targeted : Bool}
  {d : Descriptor κ}

/-- Where there is room for all names of the verb, one that suits the selector is offered just where it starts with what
has been typed. -/
theorem name_mem_predict_iff (hposition : Position.of line = some (.commandName v targeted typed))
    (hlisted : d ∈ (c.forVerb v).values) (hsuits : d.isStatic ≠ targeted) (hroom : (c.forVerb v).size ≤ limit)
    (w : World κ) : d.name ∈ predict c w limit line ↔ startsWithAscii typed d.name = true := by
  constructor
  · exact fun h => (mem_options_of_mem_predict hposition h).2
  · intro hstarts
    have hmatching : matchingOptions c w line = (Position.commandName v targeted typed).matching c w := by
      rw [matchingOptions, hposition]
    refine mem_predict_of_length_le ?_ ?_
    · calc (sortedDistinct (matchingOptions c w line)).length
          ≤ (matchingOptions c w line).length := length_sortedDistinct_le _
        _ ≤ ((c.forVerb v).values.filter (fun d => d.isStatic != targeted)).length := by
          rw [hmatching, Position.matching, Position.options, ← List.length_map (f := Descriptor.name)]
          exact List.length_filter_le _ _
        _ ≤ (c.forVerb v).values.length := List.length_filter_le _ _
        _ = (c.forVerb v).size := List.length_map _
        _ ≤ limit := hroom
    · rw [hmatching, mem_matching_iff]
      exact .commandName hlisted hsuits (startsWithAscii_iff_beginsWith.1 hstarts)

/-- **A name is offered for a start of it just where the capitals in that are those of ASCII.**  Let the word at the end of a
line be in lowercase a start of a name that the verb reaches and the selector suits.  Where there is room for all names, the
name is offered if and only if lowercasing the word does no more to it than lowercasing its ASCII letters.  The parser takes
no part in that: with the rest of the name, the line is read as that command, and the command is found, whatever the
capitals in the word.  The capital sigma is set aside there, since its form depends on what follows it. -/
theorem typed_name_offered_iff {includePrivate : Bool} {ds : List (Descriptor κ)} (hdeclared : ∀ d ∈ ds, d.Declared)
    (hposition : Position.of line = some (.commandName v targeted typed))
    (hlisted : d ∈ ((Catalog.ofDescriptors includePrivate ds).forVerb v).values) (hsuits : d.isStatic ≠ targeted)
    (hstart : Text.lower typed <+: d.name) (hroom : ((Catalog.ofDescriptors includePrivate ds).forVerb v).size ≤ limit)
    (w : World κ) :
    (d.name ∈ predict (.ofDescriptors includePrivate ds) w limit line ↔ Text.lower typed = asciiLower typed) ∧
      ∀ rest, d.name = Text.lower typed ++ rest → IsWord d.name → 'Σ' ∉ typed →
        ∃ target, target.isSome = targeted ∧ Command.parse (line ++ rest) = .ok ⟨target, v, d.name, []⟩ ∧
          (Catalog.ofDescriptors includePrivate ds).lookup d.name v = some d := by
  obtain ⟨hlookup, -, hmem⟩ := (Catalog.lists_ofDescriptors includePrivate ds).lookup_of_mem_values hlisted
  obtain ⟨declared, hname⟩ := hdeclared d hmem
  rw [canonicalName] at hname
  refine ⟨?_, fun rest hrest hword hsigma => ?_⟩
  · rw [name_mem_predict_iff hposition hlisted hsuits hroom, hname]
    exact startsWithAscii_lower_iff (hname ▸ hstart)
  · obtain ⟨head, target, rfl, hopens, hblank, htyped, htargeted⟩ := position_eq_commandName_iff.1 hposition
    have hsettled : ∀ c ∈ rest, Settled c := fun c hc => by
      have hmem : c ∈ Text.lower declared.trim := by
        rw [← hname, hrest]
        exact List.mem_append_right _ hc
      exact settled_of_mem_lowerAfter hmem
    have hlower : Text.lower (typed ++ rest) = d.name := (lowerAfter_append_of_settled hsettled [] hsigma).trans hrest.symm
    have htoken : IsWord (typed ++ rest) := by
      refine ⟨fun hnil => hword.ne_nil ?_, noBlank_append.2 ⟨htyped, ?_⟩⟩
      · rw [← hlower, hnil]
        rfl
      · exact (noBlank_append.1 (hrest ▸ hword.noBlank)).2
    refine ⟨target, htargeted, ?_, hlookup⟩
    rw [List.append_assoc, parse_of_opens hopens hblank htoken, hlower]

namespace Samples

/-- A getter that is declared with a capital outside ASCII. -/
def state : Descriptor Kind := .static (.getter "État".toList .game .single (Access.pure .unit))

theorem state_name : state.name = "état".toList := by decide +kernel

theorem state_declared : ∀ d ∈ [state], d.Declared := fun d hd => by
  cases List.mem_singleton.1 hd
  exact ⟨_, rfl⟩

theorem state_listed : state ∈ ((Catalog.ofDescriptors false [state]).forVerb .get).values := List.mem_singleton_self _

end Samples

/-- With `éT` typed the getter is offered; with `ÉT` it is not, and is found all the same. -/
theorem typed_name_offered_iff_accented :
    let c : Catalog Samples.Kind := .ofDescriptors false [Samples.state]
    "état".toList ∈ predict c .empty 1 "get éT".toList ∧ "état".toList ∉ predict c .empty 1 "get ÉT".toList ∧
      Command.parse ("get ÉT".toList ++ "at".toList) = .ok ⟨none, .get, "état".toList, []⟩ ∧
      c.lookup "état".toList .get = some Samples.state := by
  intro c
  have hroom : (c.forVerb .get).size ≤ 1 := by decide +kernel
  have hsmall : Position.of "get éT".toList = some (.commandName .get false "éT".toList) := by decide +kernel
  have hcapital : Position.of "get ÉT".toList = some (.commandName .get false "ÉT".toList) := by decide +kernel
  obtain ⟨hoffered, -⟩ := typed_name_offered_iff Samples.state_declared hsmall Samples.state_listed (by decide)
    (by decide +kernel) hroom .empty
  obtain ⟨hhidden, hread⟩ := typed_name_offered_iff Samples.state_declared hcapital Samples.state_listed (by decide)
    (by decide +kernel) hroom .empty
  obtain ⟨target, htarget, hparse, hlookup⟩ :=
    hread "at".toList (by decide +kernel) (by decide +kernel) (by decide)
  obtain rfl : target = none := Option.not_isSome_iff_eq_none.1 (by rw [htarget]; exact Bool.false_ne_true)
  rw [Samples.state_name] at hoffered hhidden hparse hlookup
  exact ⟨hoffered.2 (by decide +kernel), fun h => absurd (hhidden.1 h) (by decide +kernel), hparse, hlookup⟩

/-- **A capital outside ASCII hides the name that it starts.**  One getter is there, in lowercase `É` is a start of its
name, and there is room for more than that name; yet nothing is offered, for a word that the line with the rest of the name
runs the getter by. -/
theorem capital_hides_name :
    let c : Catalog Samples.Kind := .ofDescriptors false [Samples.state]
    c.names = ["état".toList] ∧ Samples.state ∈ (c.forVerb .get).values ∧ Samples.state.isStatic = true ∧
      Position.of "get É".toList = some (.commandName .get false "É".toList) ∧
      Text.lower "É".toList <+: Samples.state.name ∧ predict c .empty 32 "get É".toList = [] ∧
      Command.parse "get État".toList = .ok ⟨none, .get, "état".toList, []⟩ ∧
      (c.lookup "état".toList .get).isSome = true := by
  refine ⟨?_, Samples.state_listed, rfl, by decide +kernel, by decide +kernel, ?_, by decide +kernel, by decide +kernel⟩
  · have hmaps : (Catalog.ofDescriptors false [Samples.state]).calls.names ++
        (Catalog.ofDescriptors false [Samples.state]).gets.names ++
        (Catalog.ofDescriptors false [Samples.state]).sets.names = ["état".toList] := by decide +kernel
    rw [Catalog.names, hmaps, Text.sortedDistinct, List.mergeSort_singleton]
    rfl
  · have hmatching : matchingOptions (Catalog.ofDescriptors false [Samples.state]) .empty "get É".toList = [] := by
      decide +kernel
    rw [predict_eq_take, hmatching, ranked, List.mergeSort_nil]
    rfl

end CommandConsole

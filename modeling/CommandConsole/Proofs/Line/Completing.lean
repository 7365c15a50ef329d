import CommandConsole.Line.Completion
import CommandConsole.Proofs.Session.Ranking
import CommandConsole.Samples.Kind
import CommandConsole.Session.Console
/-!
# Completing — what Tab does to the options

Several candidates let the word grow to what they have in common, which is the longest text that all of them start with
(`startsWithAscii_commonPrefix_iff`).  So Tab leads away from none of the options that are offered, and from no option at
all where all of them are offered (`tab_keeps_matching`).  Where there are more options than the limit, it can lead away from
one that is left out (`tab_leaves_outranked`).
-/
namespace CommandConsole

/-! ## What candidates have in common -/

namespace Text

variable {p t : Text}

theorem startsWithAscii_iff : startsWithAscii p t = true ↔ asciiLower p <+: asciiLower t := List.isPrefixOf_iff_prefix

theorem startsWithAscii_refl (t : Text) : startsWithAscii t t = true := startsWithAscii_iff.2 (List.prefix_refl _)

theorem startsWithAscii_nil (t : Text) : startsWithAscii [] t = true := startsWithAscii_iff.2 List.nil_prefix

theorem startsWithAscii_cons {a b : Char} :
    startsWithAscii (a :: p) (b :: t) = true ↔ a.toLower = b.toLower ∧ startsWithAscii p t = true := by
  rw [startsWithAscii_iff, startsWithAscii_iff]
  exact List.cons_prefix_cons

theorem not_startsWithAscii_nil {a : Char} : ¬ startsWithAscii (a :: p) [] = true := Bool.false_ne_true

end Text

open Text

/-- **Two texts agree in what both start with.** -/
theorem startsWithAscii_agreeing_iff : ∀ {p s t : Text},
    startsWithAscii p (agreeing s t) = true ↔ startsWithAscii p s = true ∧ startsWithAscii p t = true
  | [],     _,      _  => by simp only [startsWithAscii_nil, and_self]
  | _ :: _, [],     _  => iff_of_false not_startsWithAscii_nil (fun h => not_startsWithAscii_nil h.1)
  | _ :: _, _ :: _, [] => iff_of_false not_startsWithAscii_nil (fun h => not_startsWithAscii_nil h.2)
  | c :: p, a :: s, b :: t => by
    rw [agreeing, startsWithAscii_cons, startsWithAscii_cons]
    split
    · rename_i hab
      rw [startsWithAscii_cons, startsWithAscii_agreeing_iff, ← hab, and_and_left]
    · rename_i hab
      refine iff_of_false not_startsWithAscii_nil ?_
      rintro ⟨⟨ha, -⟩, hb, -⟩
      exact hab (ha.symm.trans hb)

/-- **The common prefix starts with just what all candidates start with.** -/
theorem startsWithAscii_commonPrefix_iff {p : Text} (t : Text) (ts : List Text) :
    startsWithAscii p (commonPrefix (t :: ts)) = true ↔ ∀ u ∈ t :: ts, startsWithAscii p u = true := by
  rw [commonPrefix]
  induction ts generalizing t with
  | nil => rw [List.foldl_nil, List.forall_mem_singleton]
  | cons u ts ih =>
    rw [List.foldl_cons, ih, List.forall_mem_cons, startsWithAscii_agreeing_iff, and_assoc, List.forall_mem_cons,
      List.forall_mem_cons]

theorem startsWithAscii_commonPrefix : ∀ {l : List Text} {t : Text}, t ∈ l → startsWithAscii (commonPrefix l) t = true
  | u :: us, t, ht => (startsWithAscii_commonPrefix_iff u us).1 (startsWithAscii_refl _) t ht

/-! ## Pressing Tab -/

variable {m : Completion} {before t : Text} {backwards : Bool} {predict : Text → List Text}

theorem Completion.press_of_asks (hasks : m.asks before = true) : m.press before backwards predict =
    match predict before with
    | []         => (none, none)
    | [only]     => (some (completedHead before ++ only ++ " "), none)
    | candidates =>
      let cycle := Cycle.start (completedHead before) (completedWord before) candidates backwards
      (some cycle.shown, some cycle) := by
  rw [asks, Bool.and_eq_true, Bool.not_eq_true', Option.isNone_iff_eq_none] at hasks
  rw [press, hasks.1]
  dsimp only
  rw [hasks.2]
  exact if_neg Bool.false_ne_true

/-- A cycle that shows no candidate yet shows what they have in common, and that is longer than the word. -/
theorem Cycle.start_index_eq_none {head word : Text} {candidates : List Text}
    (h : (Cycle.start head word candidates backwards).index = none) :
    (Cycle.start head word candidates backwards).shown = head ++ commonPrefix candidates ∧
      utf8Length word < utf8Length (commonPrefix candidates) := by
  unfold start at h ⊢
  dsimp only at h ⊢
  split at h
  · rename_i hlonger
    rw [if_pos hlonger]
    exact ⟨rfl, hlonger⟩
  · cases h

theorem Completion.press_grown {cycle : Cycle} (hasks : m.asks before = true)
    (h : m.press before backwards predict = (some t, some cycle)) (hindex : cycle.index = none) :
    t = completedHead before ++ commonPrefix (predict before) ∧
      utf8Length (completedWord before) < utf8Length (commonPrefix (predict before)) := by
  rw [press_of_asks hasks] at h
  split at h
  · cases h
  · cases h
  · cases h
    exact Cycle.start_index_eq_none hindex

theorem Completion.press_accepted (hasks : m.asks before = true)
    (h : m.press before backwards predict = (some t, none)) :
    ∃ only, predict before = [only] ∧ t = completedHead before ++ only ++ " " := by
  rw [press_of_asks hasks] at h
  split at h
  · cases h
  · rename_i only honly
    cases h
    exact ⟨only, honly, rfl⟩
  · cases h

/-! ## Tab in the console -/

variable {κ : Type} [ComponentKind κ]

/-- The options of the place the line has come to that go with its last word, before any are left out. -/
def Console.matching (c : Console κ) (line : Text) : List Text := matchingOptions c.catalog c.session.world line

/-- An option is outranked where others that rank before it take up all places on offer. -/
def Console.Outranked (c : Console κ) (line o : Text) : Prop :=
  (c.predict line).length = c.options.maxCandidates ∧
    ∀ p ∈ c.predict line, rankLe (typedPart line) p o = true ∧ p ≠ o

theorem Console.mem_predict_or_outranked {c : Console κ} {line o : Text} (ho : o ∈ c.matching line) :
    o ∈ c.predict line ∨ c.Outranked line o := CommandConsole.mem_predict_or_outranked ho

/-- **Tab leads away from no option but one that is outranked.**  Where the word grows, every option that goes with it starts
with what it has grown to, unless that option is outranked; so all do where all of them can be offered.  Where a candidate
is accepted outright it is such an option, and the only one unless one is all that can be offered. -/
theorem tab_keeps_matching (c : Console κ) (hasks : m.asks before = true) :
    (∀ cycle, m.press before backwards c.predict = (some t, some cycle) → cycle.index = none →
      ∃ grown, t = completedHead before ++ grown ∧ utf8Length (completedWord before) < utf8Length grown ∧
        (∀ o ∈ c.matching before, startsWithAscii grown o = true ∨ c.Outranked before o) ∧
        ((sortedDistinct (c.matching before)).length ≤ c.options.maxCandidates →
          ∀ o ∈ c.matching before, startsWithAscii grown o = true)) ∧
    (m.press before backwards c.predict = (some t, none) →
      ∃ only ∈ c.matching before, t = completedHead before ++ only ++ " " ∧
        ∀ o ∈ c.matching before, o = only ∨ (c.options.maxCandidates = 1 ∧ c.Outranked before o)) := by
  refine ⟨fun cycle hpress hindex => ?_, fun hpress => ?_⟩
  · obtain ⟨ht, hlonger⟩ := Completion.press_grown hasks hpress hindex
    refine ⟨_, ht, hlonger, fun o ho => ?_, fun hall o ho => ?_⟩
    · exact (Console.mem_predict_or_outranked ho).imp_left startsWithAscii_commonPrefix
    · exact startsWithAscii_commonPrefix (mem_predict_of_length_le hall ho)
  · obtain ⟨only, honly, ht⟩ := Completion.press_accepted hasks hpress
    have hoffered : only ∈ c.predict before := honly ▸ List.mem_singleton_self only
    refine ⟨only, mem_matchingOptions_of_mem_predict hoffered, ht, fun o ho => ?_⟩
    refine (Console.mem_predict_or_outranked ho).imp (fun ho => ?_) fun houtranked => ⟨?_, houtranked⟩
    · rw [honly] at ho
      exact List.mem_singleton.1 ho
    · rw [← houtranked.1, honly, List.length_singleton]

def Samples.names : List Text := ["Ab1".toList, "Ab2".toList, "Ac".toList]

/-- A console that knows these names and offers so many of them at once. -/
def Samples.namesakes (limit : Nat) : Console Samples.Kind := .new ⟨[], [], names, []⟩ { maxCandidates := limit }

/-- The cycle that begins where two of the names are offered for `A`. -/
def Samples.namesCycle : Cycle := ⟨"@".toList, ["Ab1".toList, "Ab2".toList], none, "@Ab".toList⟩

theorem Samples.predict_namesakes (limit : Nat) : (namesakes limit).predict "@A".toList = names.take limit := by
  have hmatching : matchingOptions .empty (World.mk [] [] names [] : World Kind) "@A".toList = names := by decide +kernel
  have hranked : ranked (typedPart "@A".toList) names = names :=
    (ranked_of_pairwise (by decide +kernel)).trans (by decide)
  show CommandConsole.predict .empty (World.mk [] [] names [] : World Kind) limit _ = _
  rw [predict_eq_take, hmatching, hranked]

theorem Samples.press_namesakes_two :
    Completion.press none "@A".toList false (namesakes 2).predict = (some "@Ab".toList, some namesCycle) := by
  rw [Completion.press_of_asks rfl, predict_namesakes]
  rfl

theorem Samples.press_namesakes_one :
    Completion.press none "@A".toList false (namesakes 1).predict = (some "@Ab1 ".toList, none) := by
  rw [Completion.press_of_asks rfl, predict_namesakes]
  rfl

/-- With two names on offer the word grows to what they have in common, and the third name is outranked; with one on offer, that
one is accepted. -/
theorem tab_keeps_matching_names :
    (∀ o ∈ (Samples.namesakes 2).matching "@A".toList,
      startsWithAscii "Ab".toList o = true ∨ (Samples.namesakes 2).Outranked "@A".toList o) ∧
    ∃ only ∈ (Samples.namesakes 1).matching "@A".toList, "@Ab1 ".toList = "@".toList ++ only ++ " ".toList := by
  obtain ⟨grown, ht, -, hkept, -⟩ :=
    (tab_keeps_matching (m := none) (Samples.namesakes 2) rfl).1 _ Samples.press_namesakes_two rfl
  have ht : "@".toList ++ "Ab".toList = "@".toList ++ grown := ht
  obtain rfl := List.append_cancel_left ht
  obtain ⟨only, honly, ht, -⟩ := (tab_keeps_matching (m := none) (Samples.namesakes 1) rfl).2 Samples.press_namesakes_one
  exact ⟨hkept, only, honly, ht⟩

/-- **Tab can lead away from an option that is outranked.**  Of three names that go with `A` two are offered; the word grows to
`Ab`, which the third does not start with.  Where one is offered it is accepted outright, though all three go with `A`. -/
theorem tab_leaves_outranked : Completion.asks none "@A".toList = true ∧
    (Completion.press none "@A".toList false (Samples.namesakes 2).predict =
        (some ("@".toList ++ "Ab".toList), some Samples.namesCycle) ∧ Samples.namesCycle.index = none ∧
      "Ac".toList ∈ (Samples.namesakes 2).matching "@A".toList ∧ startsWithAscii "Ab".toList "Ac".toList = false) ∧
    (Completion.press none "@A".toList false (Samples.namesakes 1).predict =
        (some ("@".toList ++ "Ab1".toList ++ " ".toList), none) ∧
      "Ac".toList ∈ (Samples.namesakes 1).matching "@A".toList ∧ "Ac".toList ≠ "Ab1".toList) :=
  ⟨rfl, ⟨Samples.press_namesakes_two, rfl, by decide +kernel, rfl⟩, Samples.press_namesakes_one, by decide +kernel, by decide⟩

end CommandConsole

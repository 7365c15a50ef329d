import Mathlib.Data.List.Perm.Subperm
import CommandConsole.Proofs.Text.Order
import CommandConsole.Session.Prediction
/-!
# Ranking — what prediction offers, and what it leaves out

The options that go with what has been typed are offered in rank order, each once, and no more than a limit of them.  Rank
order tells any two texts apart (`rankLe_antisymm`), so an option is left out only where that many others rank before it
(`mem_predict_or_outranked`); where there are not more options than the limit, all are offered.
-/
namespace CommandConsole

variable {typed o : Text} {candidates : List Text}

/-! ## Rank order

The text that was typed in full stands apart from all others; the others are compared in lowercase, and as written where that
makes no difference. -/

theorem rankLe_iff {a b : Text} : rankLe typed a b = true ↔
    (Text.sameAscii a typed = true ∧ Text.sameAscii b typed = false) ∨
      (Text.sameAscii a typed = Text.sameAscii b typed ∧
        ((Text.lower a = Text.lower b ∧ Text.le a b = true) ∨
          (Text.lower a ≠ Text.lower b ∧ Text.le (Text.lower a) (Text.lower b) = true))) := by
  rw [rankLe]
  cases Text.sameAscii a typed <;> cases Text.sameAscii b typed <;> by_cases h : Text.lower a = Text.lower b <;> simp [h]

theorem rankLe_total (typed a b : Text) : (rankLe typed a b || rankLe typed b a) = true := by
  rw [Bool.or_eq_true, rankLe_iff, rankLe_iff]
  by_cases hsame : Text.sameAscii a typed = Text.sameAscii b typed
  · by_cases hlower : Text.lower a = Text.lower b
    · exact (Bool.or_eq_true_iff.1 (Text.le_total a b)).imp (fun h => .inr ⟨hsame, .inl ⟨hlower, h⟩⟩)
        (fun h => .inr ⟨hsame.symm, .inl ⟨hlower.symm, h⟩⟩)
    · exact (Bool.or_eq_true_iff.1 (Text.le_total _ _)).imp (fun h => .inr ⟨hsame, .inr ⟨hlower, h⟩⟩)
        (fun h => .inr ⟨hsame.symm, .inr ⟨Ne.symm hlower, h⟩⟩)
  · cases ha : Text.sameAscii a typed <;> cases hb : Text.sameAscii b typed
    · exact absurd (ha.trans hb.symm) hsame
    · exact .inr (.inl ⟨rfl, rfl⟩)
    · exact .inl (.inl ⟨rfl, rfl⟩)
    · exact absurd (ha.trans hb.symm) hsame

theorem rankLe_antisymm (typed a b : Text) (hab : rankLe typed a b = true) (hba : rankLe typed b a = true) : a = b := by
  rcases rankLe_iff.1 hab with ⟨ha, hb⟩ | ⟨hsame, hab⟩
  · rcases rankLe_iff.1 hba with ⟨hb', -⟩ | ⟨hsame, -⟩
    · cases hb.symm.trans hb'
    · cases (hb.symm.trans hsame).trans ha
  rcases rankLe_iff.1 hba with ⟨hb, ha⟩ | ⟨-, hba⟩
  · cases (ha.symm.trans hsame).trans hb
  rcases hab with ⟨hlower, hab⟩ | ⟨hlower, hab⟩ <;> rcases hba with ⟨hlower', hba⟩ | ⟨hlower', hba⟩
  · exact Text.le_antisymm a b hab hba
  · exact absurd hlower.symm hlower'
  · exact absurd hlower'.symm hlower
  · exact absurd (Text.le_antisymm _ _ hab hba) hlower

theorem rankLe_trans (typed a b c : Text) (hab : rankLe typed a b = true) (hbc : rankLe typed b c = true) :
    rankLe typed a c = true := by
  rcases rankLe_iff.1 hab with ⟨ha, hb⟩ | ⟨hsame, hab⟩
  · rcases rankLe_iff.1 hbc with ⟨hb', -⟩ | ⟨hsame, -⟩
    · cases hb.symm.trans hb'
    · exact rankLe_iff.2 (.inl ⟨ha, hsame ▸ hb⟩)
  rcases rankLe_iff.1 hbc with ⟨hb, hc⟩ | ⟨hsame', hbc⟩
  · exact rankLe_iff.2 (.inl ⟨hsame.trans hb, hc⟩)
  refine rankLe_iff.2 (.inr ⟨hsame.trans hsame', ?_⟩)
  rcases hab with ⟨hlower, hab⟩ | ⟨hlower, hab⟩ <;> rcases hbc with ⟨hlower', hbc⟩ | ⟨hlower', hbc⟩
  · exact .inl ⟨hlower.trans hlower', Text.le_trans a b c hab hbc⟩
  · exact .inr ⟨hlower ▸ hlower', hlower ▸ hbc⟩
  · exact .inr ⟨hlower' ▸ hlower, hlower' ▸ hab⟩
  · refine .inr ⟨fun hac => ?_, Text.le_trans _ _ _ hab hbc⟩
    rw [hac] at hab
    exact hlower' (Text.le_antisymm _ _ hbc hab)

/-! ## Ranked candidates -/

theorem mem_ranked : o ∈ ranked typed candidates ↔ o ∈ candidates := by
  rw [ranked, Text.mem_mergeEqual, List.mem_mergeSort]

/-- **The candidates are ranked strictly**, and so each stands there once. -/
theorem pairwise_ranked (typed : Text) (candidates : List Text) :
    (ranked typed candidates).Pairwise (fun a b => rankLe typed a b = true ∧ a ≠ b) :=
  Text.pairwise_mergeEqual (rankLe_antisymm typed)
    (List.pairwise_mergeSort (rankLe_trans typed) (rankLe_total typed) candidates)

theorem ranked_of_pairwise (h : candidates.Pairwise (fun a b => rankLe typed a b = true)) :
    ranked typed candidates = Text.mergeEqual candidates := by
  rw [ranked, List.mergeSort_of_pairwise h]

theorem length_ranked (typed : Text) (candidates : List Text) :
    (ranked typed candidates).length = (Text.sortedDistinct candidates).length := by
  refine List.Perm.length_eq ((List.perm_ext_iff_of_nodup ((pairwise_ranked typed candidates).imp And.right)
    (Text.ascending_sortedDistinct candidates).nodup).2 fun t => ?_)
  rw [mem_ranked, Text.mem_sortedDistinct]

/-! ## What is offered -/

variable {κ : Type} [ComponentKind κ]

/-- The options that go with the word at the end of a line, however many there are. -/
def matchingOptions (c : Catalog κ) (w : World κ) (line : Text) : List Text :=
  match Position.of line with
  | none   => []
  | some p => p.matching c w

/-- The part of the word at the end of a line that options are ranked against. -/
def typedPart (line : Text) : Text := ((Position.of line).map Position.typed).getD []

variable {c : Catalog κ} {w : World κ} {limit : Nat} {line : Text}

theorem predict_eq_take : predict c w limit line = (ranked (typedPart line) (matchingOptions c w line)).take limit := by
  rw [predict, matchingOptions, typedPart]
  cases Position.of line with
  | none   =>
    show [] = (Text.mergeEqual ([].mergeSort _)).take limit
    rw [List.mergeSort_nil, Text.mergeEqual, List.take_nil]
  | some p => rfl

theorem mem_matchingOptions_of_mem_predict (h : o ∈ predict c w limit line) : o ∈ matchingOptions c w line := by
  rw [predict_eq_take] at h
  exact mem_ranked.1 (List.mem_of_mem_take h)

/-- **An option is left out only where the limit is reached by others that rank before it.** -/
theorem mem_predict_or_outranked (h : o ∈ matchingOptions c w line) :
    o ∈ predict c w limit line ∨ ((predict c w limit line).length = limit ∧
      ∀ p ∈ predict c w limit line, rankLe (typedPart line) p o = true ∧ p ≠ o) := by
  have hranked := pairwise_ranked (typedPart line) (matchingOptions c w line)
  have hmem : o ∈ ranked (typedPart line) (matchingOptions c w line) := mem_ranked.2 h
  rw [← List.take_append_drop limit (ranked _ _), ← predict_eq_take] at hranked hmem
  refine (List.mem_append.1 hmem).imp_right fun hdrop => ⟨?_, fun p hp => (List.pairwise_append.1 hranked).2.2 p hp o hdrop⟩
  -- the option stands beyond the limit, so there are as many before it
  have hbeyond := List.length_pos_of_mem hdrop
  rw [List.length_drop] at hbeyond
  rw [predict_eq_take, List.length_take]
  omega

theorem mem_predict_of_length_le (hlength : (Text.sortedDistinct (matchingOptions c w line)).length ≤ limit)
    (h : o ∈ matchingOptions c w line) : o ∈ predict c w limit line := by
  rw [predict_eq_take, List.take_of_length_le (by rwa [length_ranked]), mem_ranked]
  exact h

end CommandConsole

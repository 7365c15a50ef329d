import CommandConsole.Text.Basic
/-!
# Order — sorted texts, each once

Merging equal neighbours keeps the texts of a list.  Of a list that is sorted by an order which tells any two texts apart it
leaves each text once (`pairwise_mergeEqual`); so the distinct texts of a list ascend strictly (`ascending_sortedDistinct`).
-/
namespace CommandConsole.Text

/-- Each text stands before all that are greater: ascending, and none of them twice. -/
def Ascending (l : List Text) : Prop := l.Pairwise (fun s t => le s t = true ∧ s ≠ t)

variable {t : Text} {l : List Text}

theorem mem_mergeEqual : ∀ {l : List Text}, t ∈ mergeEqual l ↔ t ∈ l
  | []     => Iff.rfl
  | a :: l => by
    have ih : t ∈ mergeEqual l ↔ t ∈ l := mem_mergeEqual
    rw [mergeEqual, List.mem_cons, ← ih]
    cases mergeEqual l with
    | nil      => rw [List.mem_cons]
    | cons b m =>
      dsimp only
      split
      · rename_i hab
        rw [hab, List.mem_cons, or_self_left]
      · rw [List.mem_cons]

theorem mem_sortedDistinct : t ∈ sortedDistinct l ↔ t ∈ l := by
  rw [sortedDistinct, mem_mergeEqual, List.mem_mergeSort]

/-- **Merging equal neighbours of a sorted list leaves each text once.** -/
theorem pairwise_mergeEqual {r : Text → Text → Prop} (hantisymm : ∀ s t, r s t → r t s → s = t) :
    ∀ {l : List Text}, l.Pairwise r → (mergeEqual l).Pairwise (fun s t => r s t ∧ s ≠ t)
  | [],     _ => List.Pairwise.nil
  | a :: l, h => by
    obtain ⟨ha, hl⟩ := List.pairwise_cons.1 h
    have ih := pairwise_mergeEqual hantisymm hl
    have hle : ∀ t ∈ mergeEqual l, r a t := fun t ht => ha t (mem_mergeEqual.1 ht)
    rw [mergeEqual]
    cases hm : mergeEqual l with
    | nil      => exact List.pairwise_singleton _ _
    | cons b m =>
      rw [hm] at ih hle
      dsimp only
      split
      · exact ih
      · rename_i hab
        refine List.pairwise_cons.2 ⟨fun t ht => ⟨hle t ht, fun heq => ?_⟩, ih⟩
        -- a text that comes back after `b` would stand on both sides of it
        rcases List.mem_cons.1 ht with rfl | ht
        · exact hab heq
        · have hba := ((List.pairwise_cons.1 ih).1 t ht).1
          rw [← heq] at hba
          exact hab (hantisymm a b (hle b List.mem_cons_self) hba)

theorem ascending_sortedDistinct (l : List Text) : Ascending (sortedDistinct l) :=
  pairwise_mergeEqual le_antisymm (List.pairwise_mergeSort le_trans le_total l)

theorem Ascending.nodup (h : Ascending l) : l.Nodup := h.imp And.right

end CommandConsole.Text

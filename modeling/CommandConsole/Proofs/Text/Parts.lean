import CommandConsole.Text.Blank
import Mathlib.Data.List.DropRight
/-!
# Parts — what trimming and splitting leave of a text

A trimmed text is trimmed already (`trim_trim`).  A text is split at a separator wherever it stands: what comes before it and
what comes after it are split apart (`splitOn_append_sep`).
-/
namespace CommandConsole.Text

/-! ## Trimming -/

theorem trimEnd_cons {c : Char} (hc : isBlank c = false) (t : Text) : trimEnd (c :: t) = c :: trimEnd t := by
  rw [trimEnd, trimEnd, List.reverse_cons, List.dropWhile_append]
  split
  · rename_i h
    rw [List.isEmpty_iff.1 h]
    simp [hc]
  · rw [List.reverse_append]
    rfl

theorem trimEnd_trimEnd (t : Text) : trimEnd (trimEnd t) = trimEnd t := List.rdropWhile_idempotent isBlank t

theorem trimStart_cons {c : Char} (hc : isBlank c = false) (t : Text) : trimStart (c :: t) = c :: t :=
  List.dropWhile_cons_of_neg (by simp [hc])

/-- What is left at the start is no blank. -/
theorem isBlank_of_trimStart_eq_cons {c : Char} {t u : Text} (h : trimStart t = c :: u) : isBlank c = false := by
  have := List.head?_dropWhile_not isBlank t
  rw [trimStart] at h
  rw [h] at this
  simpa using this

/-- **Trimming twice is trimming once.** -/
@[simp] theorem trim_trim (t : Text) : trim (trim t) = trim t := by
  unfold trim
  cases h : trimStart t with
  | nil      => rfl
  | cons c u =>
    have hc := isBlank_of_trimStart_eq_cons h
    rw [trimEnd_cons hc, trimStart_cons hc, trimEnd_cons hc, trimEnd_trimEnd]

theorem trimEnd_eq_self_iff {t : Text} : trimEnd t = t ↔ ∀ h : t ≠ [], isBlank (t.getLast h) = false := by
  refine List.rdropWhile_eq_self_iff.trans (forall_congr' fun h => ?_)
  simp

/-- There is nothing to trim where no blank is at either end. -/
theorem trim_eq_self {t : Text} (hfirst : ∀ c u, t = c :: u → isBlank c = false)
    (hlast : ∀ h : t ≠ [], isBlank (t.getLast h) = false) : trim t = t := by
  cases t with
  | nil      => rfl
  | cons c u => rw [trim, trimStart_cons (hfirst c u rfl), trimEnd_eq_self_iff.2 hlast]

/-- At the ends of what is trimmed there is no blank. -/
theorem isBlank_ends_trim (t : Text) : (∀ c u, trim t = c :: u → isBlank c = false) ∧
    ∀ h : trim t ≠ [], isBlank ((trim t).getLast h) = false := by
  refine ⟨fun c u h => ?_, trimEnd_eq_self_iff.1 (trimEnd_trimEnd _)⟩
  cases hstart : trimStart t with
  | nil       => rw [trim, hstart] at h; cases h
  | cons c' v =>
    have hc := isBlank_of_trimStart_eq_cons hstart
    rw [trim, hstart, trimEnd_cons hc] at h
    cases h
    exact hc

theorem mem_of_mem_trim {c : Char} {t : Text} (h : c ∈ trim t) : c ∈ t := by
  have hend : c ∈ trimStart t := by
    have := (List.dropWhile_sublist isBlank).subset (List.mem_reverse.1 h)
    exact List.mem_reverse.1 this
  exact (List.dropWhile_sublist isBlank).subset hend

/-! ## Splitting -/

theorem splitOn_ne_nil (sep : Char) (t : Text) : splitOn sep t ≠ [] := by
  cases t with
  | nil      => exact List.cons_ne_nil _ _
  | cons c t =>
    unfold splitOn
    split
    · exact List.cons_ne_nil _ _
    · split <;> exact List.cons_ne_nil _ _

theorem splitOn_of_not_mem {sep : Char} : ∀ {t : Text}, sep ∉ t → splitOn sep t = [t]
  | [],     _ => rfl
  | c :: t, h => by
    rw [List.mem_cons, not_or] at h
    rw [splitOn, if_neg (Ne.symm h.1), splitOn_of_not_mem h.2]

/-- **A text is split at a separator**, whatever stands before it and after it. -/
theorem splitOn_append_sep (sep : Char) (t : Text) : ∀ s : Text,
    splitOn sep (s ++ sep :: t) = splitOn sep s ++ splitOn sep t
  | []     => by simp [splitOn]
  | c :: s => by
    have ih := splitOn_append_sep sep t s
    rw [List.cons_append, splitOn, splitOn, ih]
    split
    · rfl
    · cases h : splitOn sep s with
      | nil       => exact absurd h (splitOn_ne_nil sep s)
      | cons p ps => rfl

/-- Parts without the separator are found again in what they are joined to. -/
theorem splitOn_join {sep : Char} : ∀ {parts : List Text}, parts ≠ [] → (∀ p ∈ parts, sep ∉ p) →
    splitOn sep (join [sep] parts) = parts
  | [p],          _, h => splitOn_of_not_mem (h p List.mem_cons_self)
  | p :: q :: ps, _, h => by
    rw [join, List.append_assoc, List.singleton_append, splitOn_append_sep, splitOn_of_not_mem (h p List.mem_cons_self),
      splitOn_join (List.cons_ne_nil q ps) (fun r hr => h r (List.mem_cons_of_mem p hr)), List.singleton_append]

end CommandConsole.Text

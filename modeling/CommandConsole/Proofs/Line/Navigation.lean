import CommandConsole.Proofs.Line.Capacity
/-!
# Navigation — going back and forth in a history

Whatever is done to a history, its entries stay as they are recorded and its place stays among them (`Reachable.sound`).  So
a step back finds an entry whenever there is one, and a step forward whenever there is a newer one.  From past the newest,
steps back reach every entry in turn and stay at the oldest, and steps forward lead the same way to the newest and past it
(`navigation_finds_entries`).
-/
namespace CommandConsole.History

variable {maxEntries maxBytes : Nat} {h : History maxEntries maxBytes}

/-- The histories that come of opening one, on a file or on none, and of what a shell does to it after that. -/
inductive Reachable : History maxEntries maxBytes → Prop
  | fresh : Reachable empty
  | opened (disk : Disk) : Reachable («open» disk)
  | step {h : History maxEntries maxBytes} (s : Step) : Reachable h → Reachable (s.apply h)

theorem Reachable.sound (hr : h.Reachable) : h.Sound := by
  induction hr with
  | fresh       => exact sound_empty
  | opened disk => exact sound_open disk
  | step s _ ih => exact ih.step s

theorem Reachable.after : ∀ {h : History maxEntries maxBytes} (steps : List Step), h.Reachable → (h.after steps).Reachable
  | _, [],         hr => hr
  | _, s :: steps, hr => Reachable.after steps (hr.step s)

/-! ## Answers -/

/-- An entry is found unless there is none. -/
theorem answer_eq_none_iff {r : Option Text × History maxEntries maxBytes}
    (hr : h.Goes r ∨ (h.entries = [] ∧ r = (none, h))) : r.1 = none ↔ h.entries = [] := by
  rcases hr with hgoes | ⟨hnil, rfl⟩
  · obtain ⟨t, ht, hfound⟩ := hgoes.found
    rw [hfound]
    exact iff_of_false (Option.some_ne_none t) (List.ne_nil_of_mem ht)
  · exact iff_of_true rfl hnil

theorem newer_of_some {i : Nat} (hposition : h.position = some i) :
    h.newer = if i + 1 < h.entries.length then h.goTo (i + 1) else (none, { h with position := none }) := by
  rw [newer, hposition]

theorem newer_of_none (hposition : h.position = none) : h.newer = (none, h) := by
  rw [newer, hposition]

theorem newer_eq_none_iff (hs : h.Sound) :
    h.newer.1 = none ↔ h.position = none ∨ h.position = some (h.entries.length - 1) := by
  cases hposition : h.position with
  | none   => simp [newer_of_none hposition]
  | some i =>
    have hinside := hs.inside i hposition
    rw [newer_of_some hposition]
    by_cases hnewer : i + 1 < h.entries.length
    · have hfound : (h.goTo (i + 1)).1 = some h.entries[i + 1] := List.getElem?_eq_getElem hnewer
      have hplace : i ≠ h.entries.length - 1 := by omega
      simp [hnewer, hfound, hplace]
    · have hplace : i = h.entries.length - 1 := by omega
      simp [hnewer, ← hplace]

/-! ## Steps that lead past the newest entry -/

/-- Do the steps that go back and forth start afresh after this one? -/
def Step.Resets : Step → Prop
  | .push _ | .clear | .reopen => True
  | _                          => False

theorem position_of_resets {s : Step} (hs : s.Resets) (h : History maxEntries maxBytes) :
    (s.apply h).position = none := by
  cases s with
  | push line =>
    show (h.push line).2.position = none
    unfold History.push
    dsimp only
    split <;> rfl
  | clear     => rfl
  | reopen    =>
    show h.reopen.position = none
    unfold History.reopen
    split <;> rfl
  | _         => exact hs.elim

/-! ## Going on -/

theorem after_append (h : History maxEntries maxBytes) (steps more : List Step) :
    h.after (steps ++ more) = (h.after steps).after more := List.foldl_append ..

theorem after_replicate_succ (h : History maxEntries maxBytes) (s : Step) (k : Nat) :
    h.after (List.replicate (k + 1) s) = s.apply (h.after (List.replicate k s)) := by
  rw [List.replicate_succ', after_append]
  rfl

/-- **From past the newest, steps back go to one entry after the other**, and stay at the oldest. -/
theorem after_older (hposition : h.position = none) (hsome : h.entries ≠ []) (k : Nat) :
    h.after (List.replicate (k + 1) .older) = { h with position := some (h.entries.length - (k + 1)) } := by
  induction k with
  | zero   =>
    show h.older.2 = _
    rw [older, hposition]
    simp [hsome, goTo]
  | succ k ih =>
    rw [after_replicate_succ, ih]
    rfl

/-- The entry that the next step back finds. -/
theorem older_after_older (hposition : h.position = none) (hsome : h.entries ≠ []) (k : Nat) :
    (h.after (List.replicate k .older)).older.1 = h.entries[h.entries.length - (k + 1)]? := by
  cases k with
  | zero   =>
    show h.older.1 = _
    rw [older, hposition]
    simp [hsome, goTo, get?]
  | succ k =>
    rw [after_older hposition hsome k]
    rfl

/-- A step forward from any place. -/
theorem newer_at (h : History maxEntries maxBytes) (i : Nat) :
    ({ h with position := some i } : History maxEntries maxBytes).newer =
      if i + 1 < h.entries.length then h.goTo (i + 1) else (none, { h with position := none }) := newer_of_some rfl

/-- **From an entry, steps forward go to one after the other**, and past the newest. -/
theorem after_newer {i : Nat} (hposition : h.position = some i) (hinside : i < h.entries.length) (j : Nat) :
    h.after (List.replicate j .newer) = { h with position := if i + j < h.entries.length then some (i + j) else none } := by
  induction j with
  | zero   =>
    rw [Nat.add_zero, if_pos hinside, ← hposition]
    rfl
  | succ j ih =>
    rw [after_replicate_succ, ih, Step.apply]
    by_cases hbefore : i + j < h.entries.length
    · rw [if_pos hbefore, newer_at, Nat.add_assoc]
      split <;> rfl
    · have hpast : ¬ i + (j + 1) < h.entries.length := by omega
      rw [if_neg hbefore, if_neg hpast]
      rfl

/-- The entry that the next step forward finds; past the newest there is none. -/
theorem newer_after_newer {i : Nat} (hposition : h.position = some i) (hinside : i < h.entries.length) (j : Nat) :
    (h.after (List.replicate j .newer)).newer.1 = h.entries[i + (j + 1)]? := by
  rw [after_newer hposition hinside]
  by_cases hbefore : i + j < h.entries.length
  · rw [if_pos hbefore, newer_at, Nat.add_assoc]
    split
    · rfl
    · rename_i hpast
      exact (List.getElem?_eq_none (Nat.le_of_not_lt hpast)).symm
  · rw [if_neg hbefore, newer_of_none rfl, List.getElem?_eq_none (by omega)]

/-- **Going back and forth finds the entries, whatever has been done to the history.**  The entries are distinct lines,
trimmed, not empty and not too long, no more than there is room for, and the place is among them.  A step back and a step to
either end find an entry unless there is none; a step forward finds one unless the place is past the newest or at it.
Recording, clearing and opening lead past the newest.  From there `k + 1` steps back end at the entry `k + 1` from the end,
or at the oldest, and each step forward after them at the next entry, up to the newest and past it. -/
theorem navigation_finds_entries (hr : h.Reachable) :
    Recorded maxEntries maxBytes h.entries ∧
    (∀ i, h.position = some i → i < h.entries.length) ∧
    h.free + h.entries.length = maxEntries ∧
    (h.older.1 = none ↔ h.entries = []) ∧
    (h.first.1 = none ↔ h.entries = []) ∧
    (h.last.1 = none ↔ h.entries = []) ∧
    (h.newer.1 = none ↔ h.position = none ∨ h.position = some (h.entries.length - 1)) ∧
    (∀ s : Step, s.Resets → (s.apply h).position = none) ∧
    (h.position = none → h.entries ≠ [] → ∀ k : Nat,
      (h.after (List.replicate k .older)).older.1 = h.entries[h.entries.length - (k + 1)]? ∧
      ∀ j : Nat, (h.after (List.replicate (k + 1) .older ++ List.replicate j .newer)).newer.1 =
        h.entries[h.entries.length - (k + 1) + (j + 1)]?) := by
  have hs := hr.sound
  refine ⟨hs.recorded, hs.inside, Nat.sub_add_cancel hs.recorded.room, answer_eq_none_iff hs.goes_older,
    answer_eq_none_iff goes_first, answer_eq_none_iff goes_last, newer_eq_none_iff hs,
    fun s hresets => position_of_resets hresets h, fun hposition hsome k => ⟨older_after_older hposition hsome k, fun j => ?_⟩⟩
  have hinside : h.entries.length - (k + 1) < h.entries.length :=
    Nat.sub_lt (List.length_pos_iff.2 hsome) (Nat.succ_pos k)
  have hplace : (h.after (List.replicate (k + 1) .older)).position = some (h.entries.length - (k + 1)) := by
    rw [after_older hposition hsome k]
  have hentries : (h.after (List.replicate (k + 1) .older)).entries = h.entries := by
    rw [after_older hposition hsome k]
  rw [after_append, newer_after_newer hplace (by rwa [hentries]), hentries]

/-- A full history that was gone through before the last line was recorded: back to the oldest, where one more step stays,
and forward past the newest. -/
theorem navigation_finds_entries_evicted :
    let h : History 2 8 := after empty [.push ['a'], .push ['b'], .older, .push [' ', 'c']]
    h.free = 0 ∧ h.older.1 = some ['c'] ∧ (h.after [.older]).older.1 = some ['b'] ∧
      (h.after [.older, .older]).older.1 = some ['b'] ∧ (h.after [.older, .older, .older]).newer.1 = some ['c'] ∧
      (h.after [.older, .older, .older, .newer]).newer.1 = none := by
  intro h
  have hr : h.Reachable := .after _ .fresh
  obtain ⟨-, -, hfree, -, -, -, -, -, hnavigate⟩ := navigation_finds_entries hr
  have hentries : h.entries = [['b'], ['c']] := by decide
  have hback := hnavigate (by decide) (by decide)
  rw [hentries] at hfree hback
  have hroom : h.free = 0 := Nat.add_right_cancel hfree
  exact ⟨hroom, (hback 0).1, (hback 1).1, (hback 2).1, (hback 2).2 0, (hback 2).2 1⟩

end CommandConsole.History

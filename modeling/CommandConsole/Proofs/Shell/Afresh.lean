import CommandConsole.Proofs.Line.Marking
import CommandConsole.Proofs.Line.Navigation
import CommandConsole.Proofs.Shell.Lines
/-!
# Afresh — where navigation starts after a line

The place in the history is moved by keys and given up where a line is recorded or refused as an entry, or the history is
cleared (`editor_of_command`).  A blank line and any other meta command leave it where it was (`editor_of_other`).  So after a
line `ArrowUp` brings back the newest entry just where that line was a command line, or there was no place to leave, or there
is one entry only (`line_starts_afresh_iff`).
-/
namespace CommandConsole

/-! ## Going back -/

namespace History

variable {maxEntries maxBytes : Nat} {h : History maxEntries maxBytes} {i : Nat}

theorem older_of_none (hposition : h.position = none) : h.older.1 = h.entries.getLast? := by
  rw [List.getLast?_eq_getElem?]
  by_cases hsome : h.entries = []
  · simp [older, hposition, hsome]
  · exact older_after_older hposition hsome 0

theorem older_of_some (hposition : h.position = some i) : h.older.1 = h.entries[i - 1]? := by
  rw [older, hposition]
  rfl

/-- A step back from an entry finds the newest only if there is no other. -/
theorem Sound.older_eq_newest_iff (hs : h.Sound) {newest : Text} (hnewest : h.entries.getLast? = some newest) :
    h.older.1 = some newest ↔ h.position = none ∨ h.entries.length = 1 := by
  rw [List.getLast?_eq_getElem?] at hnewest
  cases hposition : h.position with
  | none   =>
    rw [older_of_none hposition, List.getLast?_eq_getElem?, hnewest]
    exact iff_of_true rfl (.inl rfl)
  | some i =>
    have hinside := hs.inside i hposition
    have hplaces : h.entries[i - 1]? = h.entries[h.entries.length - 1]? ↔ i - 1 = h.entries.length - 1 :=
      List.getElem?_inj (by omega) hs.recorded.nodup
    rw [older_of_some hposition, ← hnewest, hplaces]
    simp only [reduceCtorEq, false_or]
    omega

end History

namespace Shell

variable {κ : Type} [ComponentKind κ] [DecidableEq κ] {lineLimit historyLimit : Nat}
  {s : Shell κ lineLimit historyLimit} {line prompt : Text}

/-! ## Sessions -/

/-- The shells of a session: it begins with no entries or with those of a file, keys are pressed and lines handled, and
meanwhile the host does to the console what it will. -/
inductive InSession : Shell κ lineLimit historyLimit → Prop
  | fresh (c : Console κ) : InSession (.new c .empty)
  | opened (c : Console κ) (disk : Disk) : InSession (.new c (.open disk))
  | key {s : Shell κ lineLimit historyLimit} (prompt : Text) (k : Key) : InSession s → InSession (s.press prompt k).2.2
  | line {s : Shell κ lineLimit historyLimit} (line : Text) : InSession s → InSession (s.processLine line).2.2
  | host {s : Shell κ lineLimit historyLimit} (c : Console κ) : InSession s → InSession { s with console := c }

/-- Is the line neither blank nor a meta command? -/
def ForConsole (line : Text) : Prop := Text.trim line ≠ [] ∧ Meta.ofLine? line = none

instance (line : Text) : Decidable (ForConsole line) := inferInstanceAs (Decidable (_ ∧ _))

/-- **A command line goes into the history**, if it is accepted there. -/
theorem editor_of_command (h : ForConsole line) : (s.processLine line).2.2.editor =
    { s.editor with history := (s.history.push (Text.trim line)).2 } := by
  rw [processLine_of_command h.1 h.2]

/-- **Any other line leaves the history alone**, unless it clears it. -/
theorem editor_of_other (h : ¬ ForConsole line) : (s.processLine line).2.2.editor = s.editor ∨
    (s.processLine line).2.2.editor = { s.editor with history := s.history.clear } := by
  by_cases hblank : Text.trim line = []
  · rw [processLine_of_blank hblank]
    exact .inl rfl
  cases hmeta : Meta.ofLine? line with
  | none   => exact absurd ⟨hblank, hmeta⟩ h
  | some m =>
    obtain ⟨-, hkeeps, hclears, -, -⟩ := s.runMeta_carriesOut m
    rw [processLine_of_meta hmeta]
    by_cases hm : m = .clearHistory
    · rw [hclears hm]
      exact .inr rfl
    · exact .inl (hkeeps hm)

theorem reachable_processLine (h : s.editor.Reachable κ) (line : Text) : (s.processLine line).2.2.editor.Reachable κ := by
  by_cases hline : ForConsole line
  · rw [editor_of_command hline]
    exact h.history (.push (Text.trim line))
  · rcases editor_of_other (s := s) hline with heq | heq <;> rw [heq]
    · exact h
    · exact h.history .clear

/-- What `Enter` comes to: the line is taken off the editor and handled. -/
theorem press_enter (s : Shell κ lineLimit historyLimit) (prompt : Text) :
    let r := Shell.processLine { s with editor := s.editor.takeLine.2 } s.editor.buffer.text
    (s.press prompt .enter).1 = r.1 ∧ (s.press prompt .enter).2.2 = r.2.2 := by
  have hpress : s.editor.press s.console prompt .enter =
      ⟨(s.editor.press s.console prompt .enter).drawn, s.editor.takeLine.2, some s.editor.buffer.text⟩ := rfl
  unfold press
  rw [hpress]
  dsimp only
  split <;> rename_i heq <;> rw [heq] <;> exact ⟨rfl, rfl⟩

theorem editor_press_of_edited {k : Key} (h : (s.editor.apply s.console k).1 = .edited) (prompt : Text) :
    (s.press prompt k).2.2.editor = (s.editor.apply s.console k).2 := by
  rw [press, Editor.press_of_edited h]

theorem reachable_press (h : s.editor.Reachable κ) (prompt : Text) (k : Key) :
    (s.press prompt k).2.2.editor.Reachable κ := by
  have hpressed := h.press s.console prompt k
  unfold Shell.press
  dsimp only
  split
  · exact hpressed
  · rename_i line _
    have hafter := reachable_processLine (s := { s with editor := (s.editor.press s.console prompt k).editor }) hpressed line
    split <;> rename_i heq <;> rwa [heq] at hafter

theorem InSession.pressAll (prompt : Text) : ∀ (ks : List Key) {s : Shell κ lineLimit historyLimit}, s.InSession →
    (s.pressAll prompt ks).2.InSession
  | [],      _, h => h
  | k :: ks, s, h => by
    have hpressed := h.key prompt k
    unfold Shell.pressAll
    split <;> rename_i heq <;> rw [heq] at hpressed
    · exact hpressed
    · exact hpressed.pressAll prompt ks

/-- **In every session the editor is one that can be reached.** -/
theorem InSession.reachable (h : s.InSession) : s.editor.Reachable κ := by
  induction h with
  | fresh c          => exact .fresh
  | opened c disk    => exact .opened disk
  | key prompt k _ ih => exact reachable_press ih prompt k
  | line line _ ih   => exact reachable_processLine ih line
  | host c _ ih      => exact ih

/-- What `ArrowUp` puts into the line: the entry that a step back in the history finds. -/
theorem press_arrowUp (h : s.editor.Reachable κ) (hsome : s.history.entries ≠ []) (prompt : Text) :
    ∃ entry, s.history.older.1 = some entry ∧ (s.press prompt .arrowUp).2.2.editor.buffer = .atEnd entry := by
  have hs := h.sound
  obtain ⟨entry, hentry⟩ := hs.exists_recalled hsome (.inl rfl)
  obtain ⟨hmem, hedited, hbuffer⟩ := hs.apply_of_recalled s.console hentry
  refine ⟨entry, hentry, ?_⟩
  rw [editor_press_of_edited hedited]
  exact hbuffer.trans (LineBuffer.overwrite_of_fits _ (hs.history.recorded.fits entry hmem))

/-- **Navigation starts afresh after command lines.**  In a session, let `Enter` submit a line, and let the history have an
entry when that has been handled.  `ArrowUp` brings back the newest entry just where the line was for the console, or
navigation had not left the place past the newest entry when the line was submitted, or the newest entry is the only one.
Any other line leaves the entries and the place as they were, and `ArrowUp` goes on from there to the entry before it. -/
theorem line_starts_afresh_iff (h : s.InSession) (prompt : Text) :
    let after := (s.press prompt .enter).2.2
    let recalled := (after.press prompt .arrowUp).2.2.editor.buffer
    ∀ newest, after.history.entries.getLast? = some newest →
      (recalled = ⟨newest, newest.length⟩ ↔
        ForConsole s.editor.buffer.text ∨ s.history.position = none ∨ after.history.entries.length = 1) ∧
      (¬ ForConsole s.editor.buffer.text → after.history.entries = s.history.entries ∧
        ∀ i, s.history.position = some i → ∃ entry, s.history.entries[i - 1]? = some entry ∧
          recalled = ⟨entry, entry.length⟩) := by
  intro after recalled newest hnewest
  have hreached : after.editor.Reachable κ := (h.key prompt .enter).reachable
  have hsome : after.history.entries ≠ [] := fun hnil => by rw [hnil] at hnewest; cases hnewest
  obtain ⟨entry, hentry, hbuffer⟩ := press_arrowUp hreached hsome prompt
  have hrecalled (t : Text) : recalled = ⟨t, t.length⟩ ↔ after.history.older.1 = some t := by
    rw [hentry, Option.some.injEq]
    exact ⟨fun heq => congrArg LineBuffer.text (hbuffer.symm.trans heq), fun heq => heq ▸ hbuffer⟩
  have hsound : after.history.Sound := hreached.sound.history
  have hafter : after.editor = _ := congrArg Shell.editor (press_enter s prompt).2
  rw [hrecalled, hsound.older_eq_newest_iff hnewest]
  by_cases hline : ForConsole s.editor.buffer.text
  · rw [editor_of_command hline] at hafter
    have hposition : after.history.position = none := by
      rw [history, hafter]
      exact History.position_of_resets (s := .push (Text.trim s.editor.buffer.text)) trivial s.history
    exact ⟨iff_of_true (.inl hposition) (.inl hline), fun hother => absurd hline hother⟩
  · have hhistory : after.history = s.history := by
      rcases editor_of_other (s := { s with editor := s.editor.takeLine.2 }) hline with heq | heq
      · rw [history, hafter.trans heq]
        rfl
      · -- a history that has been cleared has no entry
        have hnone : after.history.entries = [] := congrArg (fun e => e.history.entries) (hafter.trans heq)
        exact absurd hnone hsome
    rw [hhistory]
    refine ⟨⟨.inr, fun h => h.resolve_left hline⟩, fun _ => ⟨rfl, fun i hi => ⟨entry, ?_, hbuffer⟩⟩⟩
    rw [← hentry, hhistory, History.older_of_some hi]

/-- Two lines have been submitted, then `ArrowUp` has led back to the first, and the line has been cleared. -/
def wentBack : Shell Samples.Kind 64 8 :=
  ((Shell.new (.new .empty {}) .empty).pressAll []
    [.char 'a', .enter, .char 'b', .enter, .arrowUp, .arrowUp, .ctrlD]).2

theorem inSession_wentBack : wentBack.InSession := (InSession.fresh (.new .empty {})).pressAll [] _

/-- A third line has been typed there. -/
def typedThird : Shell Samples.Kind 64 8 := (wentBack.press [] (.char 'c')).2.2

/-- It is submitted: a command line, and `ArrowUp` brings it back. -/
theorem line_starts_afresh_iff_typed : typedThird.InSession ∧
    (typedThird.press [] .enter).2.2.history.entries.getLast? = some ['c'] ∧ ForConsole typedThird.editor.buffer.text ∧
      ((typedThird.press [] .enter).2.2.press [] .arrowUp).2.2.editor.buffer = ⟨['c'], 1⟩ := by
  have hs : typedThird.InSession := inSession_wentBack.key [] (.char 'c')
  have hnewest : (typedThird.press [] .enter).2.2.history.entries.getLast? = some ['c'] := by decide +kernel
  have hcommand : ForConsole typedThird.editor.buffer.text := by decide +kernel
  obtain ⟨hrecalled, -⟩ := line_starts_afresh_iff hs [] ['c'] hnewest
  exact ⟨hs, hnewest, hcommand, hrecalled.2 (.inl hcommand)⟩

/-- **A blank line does not start navigation afresh.**  It is submitted there, the shell goes on, and `ArrowUp` brings back the
first line again, although the second is the newest entry. -/
theorem blank_line_keeps_place :
    let after := (wentBack.press [] .enter).2.2
    wentBack.InSession ∧ wentBack.editor.buffer.text = [] ∧ (wentBack.press [] .enter).1 = .goOn ∧
      after.history.entries = [['a'], ['b']] ∧ (after.press [] .arrowUp).2.2.editor.buffer.text = ['a'] := by
  refine ⟨inSession_wentBack, ?_, ?_, ?_, ?_⟩ <;> decide +kernel

end Shell
end CommandConsole

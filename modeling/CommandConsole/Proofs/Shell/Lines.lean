import CommandConsole.Proofs.Command.Grammar
import CommandConsole.Proofs.Command.Words
import CommandConsole.Proofs.Shell.Typing
/-!
# Lines — what becomes of a line

A line is blank, or a meta command, or a command line, and the shell does one thing with each.  A meta command is carried out
by the shell and recorded nowhere (`CarriesOut`); a command line goes into the history and to the console.  So the history of
a shell that began without entries holds command lines only (`Reachable.holdsCommands`), and running an entry again is typing
it again.
-/
namespace CommandConsole

/-! ## Blanks around a line -/

theorem Meta.ofLine?_trim (line : Text) : ofLine? (Text.trim line) = ofLine? line := by
  unfold ofLine?
  rw [Text.trim_trim]

theorem Meta.ofLine?_of_blank {line : Text} (h : Text.trim line = []) : ofLine? line = none := by
  unfold ofLine?
  rw [h]

/-- Two lines of the same words are answered alike. -/
theorem Console.execute_congr {κ : Type} [ComponentKind κ] [DecidableEq κ] (c : Console κ) {line line' : Text}
    (h : words line = words line') : c.execute line = c.execute line' := by
  unfold execute Session.run
  rw [parse_congr h]

/-! ## Keys and the history -/

namespace Editor

variable {κ : Type} [ComponentKind κ] {lineLimit historyLimit : Nat} (e : Editor lineLimit historyLimit)

theorem history_edit (edited : Option (LineBuffer lineLimit)) : (e.edit edited).2.history = e.history := by
  cases edited <;> rfl

theorem history_bringBack (found : Option Text × History historyLimit lineLimit) :
    (e.bringBack found).2.history = found.2 := by
  obtain ⟨_ | _, _⟩ := found <;> rfl

theorem history_complete (c : Console κ) (backwards : Bool) : (e.complete c backwards).2.history = e.history := by
  unfold complete
  dsimp only
  split
  · split <;> rfl
  · rfl

/-- **Keys move about in the history and leave its entries alone.** -/
theorem entries_apply (c : Console κ) (k : Key) : (e.apply c k).2.history.entries = e.history.entries := by
  have navigated {s : History.Step} (hs : s = .older ∨ s = .newer ∨ s = .first ∨ s = .last) :
      (s.apply e.history).entries = e.history.entries := (e.history.navigate_keeps hs).1
  cases k with
  | enter | insert => rfl
  | tab | shiftTab => exact congrArg History.entries (e.history_complete c _)
  | arrowUp   => exact (congrArg History.entries (history_bringBack ..)).trans (navigated (.inl rfl))
  | pageUp    => exact (congrArg History.entries (history_bringBack ..)).trans (navigated (.inr (.inr (.inl rfl))))
  | pageDown  => exact (congrArg History.entries (history_bringBack ..)).trans (navigated (.inr (.inr (.inr rfl))))
  | arrowDown =>
    have hnewer : e.history.newer.2.entries = e.history.entries := navigated (.inr (.inl rfl))
    unfold apply
    dsimp only
    split <;> rename_i heq <;> rw [heq] at hnewer <;> exact hnewer
  | _ => exact congrArg History.entries (history_edit ..)

theorem entries_press (c : Console κ) (prompt : Text) (k : Key) :
    (e.press c prompt k).editor.history.entries = e.history.entries := by
  have happly := e.entries_apply c k
  unfold press
  split <;> rename_i heq <;> rw [heq] at happly <;> exact happly

end Editor

namespace Shell

variable {κ : Type} [ComponentKind κ] [DecidableEq κ] {lineLimit historyLimit : Nat}
  {s : Shell κ lineLimit historyLimit} {line entry : Text} {m : Meta}

/-! ## The three kinds of line -/

theorem processLine_of_blank (h : Text.trim line = []) : s.processLine line = (.goOn, [], s) := by
  unfold processLine
  rw [h]
  rfl

theorem processLine_of_meta (h : Meta.ofLine? line = some m) : s.processLine line = s.runMeta m := by
  have hsome : Text.trim line ≠ [] := fun hnil => by cases h.symm.trans (Meta.ofLine?_of_blank hnil)
  unfold processLine
  dsimp only
  rw [if_neg (mt List.isEmpty_iff.1 hsome), Meta.ofLine?_trim, h]

theorem processLine_of_command (hsome : Text.trim line ≠ []) (h : Meta.ofLine? line = none) :
    let t := Text.trim line
    s.processLine line = (.goOn, (s.console.execute t).1 ++ "\n",
      ⟨(s.console.execute t).2, { s.editor with history := (s.history.push t).2 }⟩) := by
  unfold processLine
  dsimp only
  rw [if_neg (mt List.isEmpty_iff.1 hsome), Meta.ofLine?_trim, h]
  rfl

/-! ## Meta commands -/

/-- What it comes to that a shell carries out a meta command: it records nothing and forgets entries only when it is asked
to, it stops only when it is asked to, and unless it runs an entry again it runs nothing, printing what it reads off the
catalog and the history. -/
structure CarriesOut (s : Shell κ lineLimit historyLimit) (m : Meta)
    (r : Flow × Text × Shell κ lineLimit historyLimit) : Prop where
  stops   : r.1 = .quit ↔ m = .quit
  keeps   : m ≠ .clearHistory → r.2.2.editor = s.editor
  clears  : m = .clearHistory → r.2.2 = s.withHistory s.history.clear
  idle    : (∀ i, m ≠ .rerun i) → r.2.2.console = s.console
  printed : (∀ i, m ≠ .rerun i) → ∀ t : Shell κ lineLimit historyLimit, t.console.catalog = s.console.catalog →
    t.history = s.history → (t.runMeta m).2.1 = r.2.1

theorem runMeta_carriesOut (s : Shell κ lineLimit historyLimit) (m : Meta) : s.CarriesOut m (s.runMeta m) := by
  have goesOn {P : Prop} (h : ¬ P) : (Flow.goOn = .quit ↔ P) := iff_of_false nofun h
  cases m with
  | quit         => exact ⟨iff_of_true rfl rfl, fun _ => rfl, nofun, fun _ => rfl, fun _ _ _ _ => rfl⟩
  | help         => exact ⟨goesOn nofun, fun _ => rfl, nofun, fun _ => rfl, fun _ _ _ _ => rfl⟩
  | clearHistory => exact ⟨goesOn nofun, fun h => absurd rfl h, fun _ => rfl, fun _ => rfl, fun _ _ _ _ => rfl⟩
  | listCommands =>
    exact ⟨goesOn nofun, fun _ => rfl, nofun, fun _ => rfl, fun _ _ hcatalog _ => congrArg commandList hcatalog⟩
  | history      =>
    exact ⟨goesOn nofun, fun _ => rfl, nofun, fun _ => rfl, fun _ _ _ hhistory => congrArg historyList hhistory⟩
  | rerun i      =>
    unfold runMeta
    dsimp only
    split <;> exact ⟨goesOn nofun, fun _ => rfl, nofun, fun h => absurd rfl (h i), fun h => absurd rfl (h i)⟩

/-- What it comes to that a shell runs an entry again: the entry is printed and run, and stays where it was.  If it is a
command line, then what follows it is what typing it prints and does. -/
structure Reruns (s : Shell κ lineLimit historyLimit) (entry : Text)
    (r : Flow × Text × Shell κ lineLimit historyLimit) : Prop where
  printed : r.2.1 = entry ++ "\n" ++ ((s.console.execute entry).1 ++ "\n")
  shell   : r.2.2 = { s with console := (s.console.execute entry).2 }
  listed  : historyList r.2.2.history = historyList s.history
  typed   : Text.trim entry ≠ [] → Meta.ofLine? entry = none →
    r.2.1 = entry ++ "\n" ++ (s.processLine entry).2.1 ∧ r.2.2.console = (s.processLine entry).2.2.console

theorem runMeta_rerun {i : Nat} (h : s.history.get? i = some entry) : s.Reruns entry (s.runMeta (.rerun i)) := by
  have hrun : s.runMeta (.rerun i) = (.goOn, entry ++ "\n" ++ ((s.console.execute entry).1 ++ "\n"),
      { s with console := (s.console.execute entry).2 }) := by
    unfold runMeta
    dsimp only
    rw [h]
    rfl
  rw [hrun]
  refine ⟨rfl, rfl, rfl, fun hsome hmeta => ?_⟩
  rw [processLine_of_command hsome hmeta, s.console.execute_congr (words_trim entry)]
  exact ⟨rfl, rfl⟩

theorem runMeta_rerun_of_none {i : Nat} (h : s.history.get? i = none) :
    s.runMeta (.rerun i) = (.goOn, "No history entry at index " ++ Text.ofNat i ++ "\n", s) := by
  unfold runMeta
  dsimp only
  rw [h]

/-! ## What the history holds -/

/-- A line for the console, without blanks around it. -/
structure IsCommandLine (t : Text) : Prop where
  trimmed : Text.trim t = t
  ne_nil  : t ≠ []
  notMeta : Meta.ofLine? t = none

/-- Nothing but command lines is in the history. -/
def HoldsCommands (s : Shell κ lineLimit historyLimit) : Prop := ∀ e ∈ s.history.entries, IsCommandLine e

/-- The shells that come of one without entries: lines are handled, keys are pressed, and meanwhile the host does to the
console what it will. -/
inductive Reachable : Shell κ lineLimit historyLimit → Prop
  | start {s : Shell κ lineLimit historyLimit} : s.history.entries = [] → Reachable s
  | line {s : Shell κ lineLimit historyLimit} (line : Text) : Reachable s → Reachable (s.processLine line).2.2
  | key {s : Shell κ lineLimit historyLimit} (prompt : Text) (k : Key) : Reachable s → Reachable (s.press prompt k).2.2
  | host {s : Shell κ lineLimit historyLimit} (c : Console κ) : Reachable s → Reachable { s with console := c }

theorem mem_entries_push {h : History historyLimit lineLimit} (he : entry ∈ (h.push line).2.entries) :
    entry ∈ h.entries ∨ entry = Text.trim line := by
  unfold History.push at he
  dsimp only at he
  split at he
  · rcases List.mem_append.1 he with he | he
    · left
      split at he
      · exact List.mem_of_mem_drop he
      · exact he
    · exact .inr (List.mem_singleton.1 he)
  · exact .inl he

/-- **Handling a line records command lines alone.** -/
theorem HoldsCommands.processLine (h : s.HoldsCommands) (line : Text) : (s.processLine line).2.2.HoldsCommands := by
  by_cases hblank : Text.trim line = []
  · rw [processLine_of_blank hblank]
    exact h
  cases hmeta : Meta.ofLine? line with
  | none   =>
    rw [processLine_of_command hblank hmeta]
    rintro e he
    rcases mem_entries_push he with he | rfl
    · exact h e he
    · rw [Text.trim_trim]
      exact ⟨Text.trim_trim line, hblank, (Meta.ofLine?_trim line).trans hmeta⟩
  | some m =>
    rw [processLine_of_meta hmeta]
    obtain ⟨-, hkeeps, hclears, -, -⟩ := s.runMeta_carriesOut m
    by_cases hm : m = .clearHistory
    · rw [hclears hm]
      exact nofun
    · rw [HoldsCommands, history, hkeeps hm]
      exact h

theorem HoldsCommands.press (h : s.HoldsCommands) (prompt : Text) (k : Key) : (s.press prompt k).2.2.HoldsCommands := by
  -- the editor comes first, and then the line that it submits, if it does
  have hpressed : HoldsCommands { s with editor := (s.editor.press s.console prompt k).editor } := by
    rw [HoldsCommands, history, Editor.entries_press]
    exact h
  unfold Shell.press
  dsimp only
  split
  · exact hpressed
  · rename_i line _
    have hafter := hpressed.processLine line
    split <;> rename_i heq <;> rwa [heq] at hafter

/-- **Whatever a shell does that began without entries, its history holds command lines alone.** -/
theorem Reachable.holdsCommands (h : s.Reachable) : s.HoldsCommands := by
  induction h with
  | start hnone      =>
    rw [HoldsCommands, hnone]
    exact nofun
  | line line _ ih   => exact ih.processLine line
  | key prompt k _ ih => exact ih.press prompt k
  | host c _ ih      => exact ih

theorem Reachable.pressAll (prompt : Text) : ∀ (ks : List Key) {s : Shell κ lineLimit historyLimit}, s.Reachable →
    (s.pressAll prompt ks).2.Reachable
  | [],      _, h => h
  | k :: ks, s, h => by
    have hone := h.key prompt k
    unfold Shell.pressAll
    split <;> rename_i heq <;> rw [heq] at hone
    · exact hone
    · exact hone.pressAll prompt ks

/-- **The shell does one thing with each line, and its history can be run again.**  A blank line is nothing to it.  A meta
command is carried out and not recorded.  Any other line is recorded and run.  Running an entry again prints it, and then
what typing it as a command line prints; it does the same to the console, and every entry keeps its number.  A shell that
began without entries has none that is blank or a meta command, also after any keys that are fed to it. -/
theorem processLine_cases (s : Shell κ lineLimit historyLimit) (line : Text) :
    (Text.trim line = [] → Meta.ofLine? line = none ∧ s.processLine line = (.goOn, [], s)) ∧
      (∀ m, Meta.ofLine? line = some m → Text.trim line ≠ [] ∧ s.CarriesOut m (s.processLine line)) ∧
      (Text.trim line ≠ [] → Meta.ofLine? line = none →
        let t := Text.trim line
        s.processLine line = (.goOn, (s.console.execute t).1 ++ "\n",
          ⟨(s.console.execute t).2, { s.editor with history := (s.history.push t).2 }⟩)) ∧
      (∀ i, Meta.ofLine? line = some (.rerun i) →
        (∀ entry, s.history.get? i = some entry → s.Reruns entry (s.processLine line)) ∧
          (s.history.get? i = none →
            s.processLine line = (.goOn, "No history entry at index " ++ Text.ofNat i ++ "\n", s))) ∧
      (s.Reachable → (∀ e ∈ s.history.entries, IsCommandLine e) ∧
        ∀ prompt ks, ∀ e ∈ (s.run prompt ks).2.history.entries, IsCommandLine e) := by
  refine ⟨fun h => ⟨Meta.ofLine?_of_blank h, processLine_of_blank h⟩, fun m hm => ⟨?_, ?_⟩, processLine_of_command,
    fun i hi => ⟨fun entry hentry => ?_, fun hnone => ?_⟩, fun h => ⟨h.holdsCommands, fun prompt ks => ?_⟩⟩
  · rintro hblank
    cases hm.symm.trans (Meta.ofLine?_of_blank hblank)
  · rw [processLine_of_meta hm]
    exact s.runMeta_carriesOut m
  · rw [processLine_of_meta hi]
    exact runMeta_rerun hentry
  · rw [processLine_of_meta hi]
    exact runMeta_rerun_of_none hnone
  · exact (h.pressAll prompt ks).holdsCommands

/-- A shell that has been given one line, which its console cannot run. -/
def afterLine : Shell Samples.Kind 4 2 := (bare.processLine "ab".toList).2.2

/-- The line is run again by its number, typed with blanks around it. -/
theorem processLine_cases_rerun :
    (afterLine.processLine " #0 ".toList).2.1 = "ab".toList ++ "\n" ++ (afterLine.processLine "ab".toList).2.1 ∧
      (afterLine.processLine " #0 ".toList).2.2.history = afterLine.history ∧
      ∀ e ∈ (afterLine.run "> ".toList [.char '#', .char '0', .enter]).2.history.entries, IsCommandLine e := by
  obtain ⟨-, -, -, hrerun, hreached⟩ := processLine_cases afterLine " #0 ".toList
  obtain ⟨hfound, -⟩ := hrerun 0 (by decide +kernel)
  obtain ⟨-, hshell, -, htyped⟩ := hfound "ab".toList (by decide +kernel)
  obtain ⟨hprinted, -⟩ := htyped (by decide) (by decide)
  have hhistory : (afterLine.processLine " #0 ".toList).2.2.history = afterLine.history := by
    rw [hshell]
    rfl
  exact ⟨hprinted, hhistory, (hreached (.line _ (.start rfl))).2 _ _⟩

end Shell
end CommandConsole

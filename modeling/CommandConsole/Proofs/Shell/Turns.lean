import CommandConsole.Shell.Basic
/-!
# Turns — a run of the shell, line by line

The shell is defined by what one key does.  Seen from afar a run is a sequence of turns: keys are pressed until one of them
submits a line, the line is handled, and unless it quits the next turn begins (`run_eq_course`).  What handling a line does
and prints depends on the console and on the history alone, not on what stands in the editor (`processLine_withLine`).
-/
namespace CommandConsole.Shell

variable {κ : Type} [ComponentKind κ] {lineLimit historyLimit : Nat}

/-- What came of a line: what was printed for it, and whether the shell goes on. -/
structure Handled where
  line    : Text
  printed : Text
  flow    : Flow
deriving DecidableEq

/-- One turn of a run: what was drawn while the line was edited, and what came of it. -/
structure Turn where
  drawn   : Text
  handled : Handled

/-- A whole run: its turns, what is printed after the last of them, and the shell as it is left. -/
structure Course (κ : Type) [ComponentKind κ] (lineLimit historyLimit : Nat) where
  turns : List Turn
  last  : Text
  shell : Shell κ lineLimit historyLimit

/-- Everything that a run prints. -/
def Course.printed (c : Course κ lineLimit historyLimit) : Text :=
  c.turns.flatMap (fun t => t.drawn ++ t.handled.printed) ++ c.last

/-- The shell with another line and completion in its editor. -/
def withLine (s : Shell κ lineLimit historyLimit) (b : LineBuffer lineLimit) (m : Completion) :
    Shell κ lineLimit historyLimit :=
  { s with editor := { s.editor with buffer := b, completion := m } }

variable [DecidableEq κ] {s : Shell κ lineLimit historyLimit} {prompt line out : Text} {rest : List Key}

/-- Handles lines one after the other, up to the first that quits. -/
def processLines : Shell κ lineLimit historyLimit → List Text → List Handled × Shell κ lineLimit historyLimit
  | s, []            => ([], s)
  | s, line :: lines =>
    match s.processLine line with
    | (.quit, out, s) => ([⟨line, out, .quit⟩], s)
    | (.goOn, out, s) =>
      let (later, s) := s.processLines lines
      (⟨line, out, .goOn⟩ :: later, s)

/-- The course of a run: a line is read off the keys and handled, and then the next, until a line quits or none comes. -/
def course (prompt : Text) (s : Shell κ lineLimit historyLimit) (ks : List Key) : Course κ lineLimit historyLimit :=
  let r := s.editor.readLine s.console prompt ks
  let s := { s with editor := r.editor }
  match _h : r.line? with
  | none              => ⟨[], r.drawn ++ "\n", s⟩
  | some (line, rest) =>
    match s.processLine line with
    | (.quit, out, s) => ⟨[⟨r.drawn, ⟨line, out, .quit⟩⟩], [], s⟩
    | (.goOn, out, s) =>
      let later := s.course prompt rest
      ⟨⟨r.drawn, ⟨line, out, .goOn⟩⟩ :: later.turns, later.last, later.shell⟩
termination_by ks.length
decreasing_by exact Editor.length_lt_of_followKeys _h

/-! ## Keys and lines -/

theorem pressAll_eq (prompt : Text) (ks : List Key) : ∀ s : Shell κ lineLimit historyLimit, s.pressAll prompt ks =
    let r := s.editor.followKeys s.console prompt ks
    let s := { s with editor := r.editor }
    match r.line? with
    | none              => (r.drawn ++ "\n", s)
    | some (line, rest) =>
      match s.processLine line with
      | (.quit, out, s) => (r.drawn ++ out, s)
      | (.goOn, out, s) => (r.drawn ++ out ++ (s.run prompt rest).1, (s.run prompt rest).2) := by
  induction ks with
  | nil => exact fun _ => rfl
  | cons k ks ih =>
    intro s
    rw [pressAll, press, Editor.followKeys]
    dsimp only
    cases hline : (s.editor.press s.console prompt k).line? with
    | none =>
      -- the line goes on: what is drawn for this key comes before what the rest of the keys draw
      dsimp only
      rw [ih]
      dsimp only
      split
      · rw [List.append_assoc]
      · split
        · rw [List.append_assoc]
        · simp only [List.append_assoc]
    | some line =>
      dsimp only
      rcases Shell.processLine _ line with ⟨flow, out, s'⟩
      cases flow with
      | quit => rfl
      | goOn => simp only [run, List.append_assoc]

/-- **A run is a loop over lines.** -/
theorem run_eq (prompt : Text) (s : Shell κ lineLimit historyLimit) (ks : List Key) : s.run prompt ks =
    let r := s.editor.readLine s.console prompt ks
    let s := { s with editor := r.editor }
    match r.line? with
    | none              => (r.drawn ++ "\n", s)
    | some (line, rest) =>
      match s.processLine line with
      | (.quit, out, s) => (r.drawn ++ out, s)
      | (.goOn, out, s) => (r.drawn ++ out ++ (s.run prompt rest).1, (s.run prompt rest).2) := by
  rw [run, pressAll_eq, Editor.readLine]
  dsimp only
  split
  · rw [List.append_assoc]; rfl
  · split
    · rw [List.append_assoc]; rfl
    · simp only [List.append_assoc]; rfl

theorem course_of_unended (hline : (s.editor.readLine s.console prompt rest).line? = none) :
    s.course prompt rest = ⟨[], (s.editor.readLine s.console prompt rest).drawn ++ "\n",
      { s with editor := (s.editor.readLine s.console prompt rest).editor }⟩ := by
  rw [course]
  split
  · rfl
  · rename_i heq
    cases hline.symm.trans heq

theorem course_of_line {ks : List Key} (hline : (s.editor.readLine s.console prompt ks).line? = some (line, rest)) :
    s.course prompt ks =
      let r := s.editor.readLine s.console prompt ks
      match Shell.processLine { s with editor := r.editor } line with
      | (.quit, out, s) => ⟨[⟨r.drawn, ⟨line, out, .quit⟩⟩], [], s⟩
      | (.goOn, out, s) =>
        let later := s.course prompt rest
        ⟨⟨r.drawn, ⟨line, out, .goOn⟩⟩ :: later.turns, later.last, later.shell⟩ := by
  rw [course]
  split
  · rename_i heq
    cases hline.symm.trans heq
  · rename_i heq
    cases hline.symm.trans heq
    rfl

/-- **What a run prints and leaves is what its turns print and leave.** -/
theorem run_eq_course (prompt : Text) (s : Shell κ lineLimit historyLimit) (ks : List Key) :
    s.run prompt ks = ((s.course prompt ks).printed, (s.course prompt ks).shell) := by
  induction hn : ks.length using Nat.strongRecOn generalizing s ks with
  | ind n ih =>
    subst hn
    rw [run_eq]
    dsimp only
    cases hline : (s.editor.readLine s.console prompt ks).line? with
    | none => rw [course_of_unended hline]; rfl
    | some submitted =>
      obtain ⟨line, rest⟩ := submitted
      rw [course_of_line hline]
      dsimp only
      rcases Shell.processLine _ line with ⟨flow, out, after⟩
      cases flow with
      | quit => simp [Course.printed]
      | goOn =>
        dsimp only
        rw [ih rest.length (Editor.length_lt_of_followKeys hline) after rest rfl]
        simp [Course.printed]

/-! ## What handling a line depends on -/

theorem processLine_withLine (s : Shell κ lineLimit historyLimit) (b : LineBuffer lineLimit) (m : Completion) (line : Text) :
    (s.withLine b m).processLine line =
      ((s.processLine line).1, (s.processLine line).2.1, (s.processLine line).2.2.withLine b m) := by
  unfold processLine
  dsimp only
  split
  · rfl
  · split
    · rename_i command _
      cases command with
      | rerun i =>
        have hhistory : (s.withLine b m).history = s.history := rfl
        rw [runMeta, runMeta, hhistory]
        cases s.history.get? i <;> rfl
      | _ => rfl
    · rfl

end CommandConsole.Shell

import CommandConsole.Proofs.Line.Capacity
import CommandConsole.Proofs.Shell.Turns
import CommandConsole.Proofs.Terminal.KeyStream
import CommandConsole.Samples.Kind
/-!
# Typing — the lines that are typed are the lines that are handled

Characters that are typed at the end of a line come to stand there, as long as they fit (`followKeys_typed`).  So a shell that
is fed the bytes of whole lines handles these lines, one after the other, as if they had been handed to it; what is typed and
not ended is never handled (`run_typed_lines`).
-/
namespace CommandConsole

/-- A text that can be typed: no key but `Enter` ends it, and none of its characters edits it. -/
def Typable (t : Text) : Prop := ∀ c ∈ t, isControl c = false

instance (t : Text) : Decidable (Typable t) := List.decidableBAll (isControl · = false) t

theorem typable_cons {c : Char} {t : Text} : Typable (c :: t) ↔ isControl c = false ∧ Typable t := by
  simp only [Typable, List.mem_cons, forall_eq_or_imp]

/-! ## Bytes and keys -/

namespace Key

theorem sendable_char {c : Char} (hc : isControl c = false) : (char c).Sendable := by
  have hcontrols : ∀ d ∈ controls, isControl d = true := List.all_eq_true.1 rfl
  rintro d hd heq
  cases heq
  cases hc.symm.trans (hcontrols c hd)

theorem decodeAll_encode_append {t : Text} (ht : Typable t) (r : List UInt8) :
    decodeAll (Utf8.encode t ++ r) = t.map .char ++ decodeAll r := by
  have hbytes : (t.map char).flatMap encode = Utf8.encode t := List.flatMap_map ..
  rw [← hbytes, decodeAll_flatMap_encode]
  intro k hk
  obtain ⟨c, hc, rfl⟩ := List.mem_map.1 hk
  exact sendable_char (ht c hc)

theorem decodeAll_lineFeed (r : List UInt8) : decodeAll (0x0A :: r) = .enter :: decodeAll r :=
  decodeAll_of_decode (decode_cons_of_decodeAt rfl)

/-- The keys by which a line is typed and submitted. -/
def ofLine (line : Text) : List Key := line.map .char ++ [.enter]

theorem decodeAll_lines {lines : List Text} (hlines : ∀ line ∈ lines, Typable line) (r : List UInt8) :
    decodeAll (lines.flatMap (fun line => Utf8.encode line ++ [0x0A]) ++ r) = lines.flatMap ofLine ++ decodeAll r := by
  induction lines with
  | nil => rfl
  | cons line lines ih =>
    have hrest := ih (fun l hl => hlines l (List.mem_cons_of_mem _ hl))
    rw [List.flatMap_cons, List.append_assoc, List.append_assoc, decodeAll_encode_append (hlines line List.mem_cons_self),
      List.singleton_append, decodeAll_lineFeed, hrest, List.flatMap_cons, ofLine]
    simp only [List.append_assoc, List.cons_append, List.nil_append]

end Key

/-! ## Characters at the end of a line -/

variable {κ : Type} [ComponentKind κ] {lineLimit historyLimit : Nat} (console : Console κ) (prompt : Text)

namespace Editor

variable {e : Editor lineLimit historyLimit} {t : Text} {c : Char}

theorem press_typed (hc : isControl c = false) (he : e.buffer = .atEnd t)
    (hfits : Text.utf8Length t + c.utf8Size ≤ lineLimit) :
    (e.press console prompt (.char c)).line? = none ∧
      (e.press console prompt (.char c)).editor = { e with buffer := .atEnd (t ++ [c]), completion := none } := by
  have hpress : e.apply console (.char c) = (.edited, { e with buffer := .atEnd (t ++ [c]), completion := none }) := by
    unfold apply
    dsimp only
    rw [hc, if_neg Bool.false_ne_true, he, LineBuffer.insert?_atEnd hfits]
    rfl
  rw [press, hpress]
  exact ⟨rfl, rfl⟩

/-- **What is typed at the end of a line stands there**, and `Enter` submits it. -/
theorem followKeys_typed (ks : List Key) : ∀ {line t : Text} {e : Editor lineLimit historyLimit}, Typable line →
    e.buffer = .atEnd t → Text.utf8Length (t ++ line) ≤ lineLimit →
      (e.followKeys console prompt (Key.ofLine line ++ ks)).line? = some (t ++ line, ks) ∧
        (e.followKeys console prompt (Key.ofLine line ++ ks)).editor = { e with buffer := .empty, completion := none }
  | [], t, e, _, he, _ => by
    rw [List.append_nil, Key.ofLine, List.map_nil, List.nil_append, List.singleton_append, followKeys, press, apply]
    refine ⟨?_, rfl⟩
    show some (e.buffer.text, ks) = some (t, ks)
    rw [he]
    rfl
  | c :: line, t, e, hline, he, hfits => by
    obtain ⟨hc, hline⟩ := typable_cons.1 hline
    have hroom : Text.utf8Length t + c.utf8Size ≤ lineLimit := by
      rw [Text.utf8Length_append, Text.utf8Length_cons] at hfits
      omega
    have happend : t ++ c :: line = (t ++ [c]) ++ line := by rw [List.append_assoc, List.singleton_append]
    obtain ⟨hnone, heditor⟩ := press_typed console prompt hc he hroom
    obtain ⟨hread, hleft⟩ := followKeys_typed ks (e := (e.press console prompt (.char c)).editor)
      hline (by rw [heditor]) (happend ▸ hfits)
    have hkeys : Key.ofLine (c :: line) ++ ks = .char c :: (Key.ofLine line ++ ks) := rfl
    rw [hkeys, followKeys]
    dsimp only
    rw [hnone, happend]
    refine ⟨hread, ?_⟩
    dsimp only
    rw [hleft, heditor]

/-- What is typed and not ended is no line, whether it fits or not. -/
theorem followKeys_unended : ∀ (t : Text) (e : Editor lineLimit historyLimit),
    (e.followKeys console prompt (t.map .char)).line? = none ∧
      (e.followKeys console prompt (t.map .char)).editor.history = e.history
  | [],     _ => ⟨rfl, rfl⟩
  | c :: t, e => by
    have hpress : (e.press console prompt (.char c)).line? = none ∧
        (e.press console prompt (.char c)).editor.history = e.history := by
      unfold press apply
      dsimp only
      cases (if isControl c = true then none else e.buffer.insert? c) <;> exact ⟨rfl, rfl⟩
    obtain ⟨hnone, hleft⟩ := followKeys_unended t (e.press console prompt (.char c)).editor
    rw [List.map_cons, followKeys]
    dsimp only
    rw [hpress.1]
    exact ⟨hnone, hleft.trans hpress.2⟩

end Editor

/-! ## Runs on typed lines -/

namespace Shell

variable [DecidableEq κ] {s : Shell κ lineLimit historyLimit}

theorem lines_of_processLines : ∀ (lines : List Text) (s : Shell κ lineLimit historyLimit),
    (s.processLines lines).1.map Handled.line <+: lines ∧
      (∀ h ∈ (s.processLines lines).1.dropLast, h.flow = .goOn) ∧
      ((∀ h ∈ (s.processLines lines).1, h.flow = .goOn) → (s.processLines lines).1.map Handled.line = lines)
  | [],            _ => ⟨List.prefix_refl [], nofun, fun _ => rfl⟩
  | line :: lines, s => by
    rw [processLines]
    rcases s.processLine line with ⟨flow, out, after⟩
    obtain ⟨hfirst, hon, hall⟩ := lines_of_processLines lines after
    cases flow with
    | quit => exact ⟨by simp, nofun, fun h => nomatch h _ List.mem_cons_self⟩
    | goOn =>
      dsimp only
      refine ⟨List.cons_prefix_cons.2 ⟨rfl, hfirst⟩, fun h hmem => ?_, fun h => ?_⟩
      · cases hlater : (after.processLines lines).1 with
        | nil          => rw [hlater] at hmem; cases hmem
        | cons g later =>
          rw [hlater] at hmem hon
          rcases List.mem_cons.1 hmem with rfl | hmem
          · rfl
          · exact hon h hmem
      · rw [List.map_cons, hall (fun g hg => h g (List.mem_cons_of_mem _ hg))]

theorem processLines_withLine (b : LineBuffer lineLimit) (m : Completion) : ∀ (lines : List Text)
    (s : Shell κ lineLimit historyLimit), (s.withLine b m).processLines lines =
      ((s.processLines lines).1, (s.processLines lines).2.withLine b m)
  | [],            _ => rfl
  | line :: lines, s => by
    rw [processLines, processLines, processLine_withLine]
    rcases s.processLine line with ⟨flow, out, after⟩
    cases flow with
    | quit => rfl
    | goOn =>
      dsimp only
      rw [processLines_withLine b m lines after]

/-- **One turn for each line that is typed**, until one quits. -/
theorem course_typed {lines : List Text} (tail : Text)
    (hlines : ∀ line ∈ lines, Typable line ∧ Text.utf8Length line ≤ lineLimit) :
    ∀ {s : Shell κ lineLimit historyLimit}, s.editor.buffer = .empty →
      let course := s.course prompt (lines.flatMap Key.ofLine ++ tail.map .char)
      let direct := s.processLines lines
      course.turns.map Turn.handled = direct.1 ∧ course.shell.history = direct.2.history ∧
        course.shell.console = direct.2.console := by
  induction lines with
  | nil =>
    intro s _
    obtain ⟨hnone, hleft⟩ := Editor.followKeys_unended s.console prompt tail s.editor
    rw [List.flatMap_nil, List.nil_append, course_of_unended hnone]
    exact ⟨rfl, hleft, rfl⟩
  | cons line lines ih =>
    intro s hs
    obtain ⟨htyped, hfits⟩ := hlines line List.mem_cons_self
    obtain ⟨hread, hleft⟩ := Editor.followKeys_typed s.console prompt (t := []) (e := s.editor)
      (lines.flatMap Key.ofLine ++ tail.map .char) htyped hs hfits
    -- the line is handled by a shell that differs from `s` in its completion alone
    have hshell : Shell.mk s.console (s.editor.readLine s.console prompt
        (Key.ofLine line ++ (lines.flatMap Key.ofLine ++ tail.map .char))).editor = s.withLine .empty none := by
      rw [Editor.readLine]
      dsimp only
      rw [hleft]
      rfl
    rw [List.flatMap_cons, List.append_assoc, course_of_line hread, processLines]
    dsimp only
    rw [hshell, List.nil_append, processLine_withLine]
    rcases s.processLine line with ⟨flow, out, after⟩
    cases flow with
    | quit => exact ⟨rfl, rfl, rfl⟩
    | goOn =>
      obtain ⟨hhandled, hhistory, hconsole⟩ := ih (fun l hl => hlines l (List.mem_cons_of_mem _ hl))
        (s := after.withLine .empty none) rfl
      rw [processLines_withLine] at hhandled hhistory hconsole
      exact ⟨congrArg (Handled.mk line out .goOn :: ·) hhandled, hhistory, hconsole⟩

/-- **A run on typed lines is the handling of these lines.**  A shell whose line is empty is fed the bytes of some lines, each
short enough and ended by a line feed, and of a text that is not ended.  It then handles just these lines, unchanged and in
order, up to the first that quits, and prints for each what handling it directly prints; history and console end up as if
the lines had been handled directly. -/
theorem run_typed_lines (s : Shell κ lineLimit historyLimit) (hs : s.editor.buffer = .empty) (lines : List Text)
    (hlines : ∀ line ∈ lines, Typable line ∧ Text.utf8Length line ≤ lineLimit) (tail : Text) (htail : Typable tail) :
    let keys := Key.decodeAll (lines.flatMap (fun line => Utf8.encode line ++ [0x0A]) ++ Utf8.encode tail)
    let course := s.course prompt keys
    let direct := s.processLines lines
    s.run prompt keys = (course.printed, course.shell) ∧ course.turns.map Turn.handled = direct.1 ∧
      direct.1.map Handled.line <+: lines ∧ (∀ h ∈ direct.1.dropLast, h.flow = .goOn) ∧
      ((∀ h ∈ direct.1, h.flow = .goOn) → direct.1.map Handled.line = lines) ∧
      (s.run prompt keys).2.history = direct.2.history ∧ (s.run prompt keys).2.console = direct.2.console := by
  intro keys course direct
  have hkeys : keys = lines.flatMap Key.ofLine ++ tail.map .char := by
    have htailKeys := Key.decodeAll_encode_append htail []
    rw [List.append_nil, Key.decodeAll_nil, List.append_nil] at htailKeys
    show Key.decodeAll _ = _
    rw [Key.decodeAll_lines (fun line hline => (hlines line hline).1), htailKeys]
  have hrun : s.run prompt keys = (course.printed, course.shell) := run_eq_course prompt s keys
  obtain ⟨hhandled, hhistory, hconsole⟩ := course_typed prompt tail hlines hs
  rw [← hkeys] at hhandled hhistory hconsole
  obtain ⟨hfirst, hon, hall⟩ := lines_of_processLines lines s
  refine ⟨hrun, hhandled, hfirst, hon, hall, ?_, ?_⟩
  · rw [hrun]
    exact hhistory
  · rw [hrun]
    exact hconsole

/-- A shell that has no commands, holds lines of four bytes, and remembers two. -/
def bare : Shell Samples.Kind 4 2 := .new (.new .empty {}) .empty

/-- The line that fills the buffer with two characters of two bytes is handled as it was typed; the line after the one that
quits is not, and neither is the text at the end, which does not even fit. -/
theorem run_typed_lines_quits :
    let lines : List Text := ["éé".toList, "#q".toList, "a".toList]
    let direct := bare.processLines lines
    (bare.run "> ".toList (Key.decodeAll
      (lines.flatMap (fun line => Utf8.encode line ++ [0x0A]) ++ Utf8.encode "bcdef".toList))).2.history = direct.2.history ∧
    direct.1.map Handled.line = ["éé".toList, "#q".toList] ∧ direct.2.history.entries = ["éé".toList] :=
  have htyped := run_typed_lines "> ".toList bare rfl ["éé".toList, "#q".toList, "a".toList] (by decide)
    "bcdef".toList (by decide)
  ⟨htyped.2.2.2.2.2.1, by decide +kernel, by decide +kernel⟩

end Shell
end CommandConsole

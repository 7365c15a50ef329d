import CommandConsole.Proofs.Line.Completing
import CommandConsole.Proofs.Line.Sides
/-!
# Tail — what Tab leaves after the cursor

Tab puts a text in the place of what is before the cursor.  What is after it stays as far as that text leaves room in the
line (`afterCursor_replaceBeforeCursor`), so all of it stays just where both fit together (`tab_keeps_tail_iff`).  Where they
do not, the key is not refused, and the end of the line is lost (`tab_drops_tail`).
-/
namespace CommandConsole

open Text

theorem LineBuffer.afterCursor_replaceBeforeCursor {limit : Nat} (b : LineBuffer limit) (t : Text) :
    (b.replaceBeforeCursor t).afterCursor = fitting (limit - utf8Length t) b.afterCursor := by
  rw [replaceBeforeCursor_eq, Sides.afterCursor_buffer]
  by_cases ht : utf8Length t ≤ limit
  · rw [fitting_append_of_le b.afterCursor ht, List.drop_left]
  · have hlarge : limit < utf8Length t := Nat.lt_of_not_le ht
    have hnone : fitting (limit - utf8Length t) b.afterCursor = [] := by
      have hfits := utf8Length_fitting_le (limit - utf8Length t) b.afterCursor
      exact utf8Length_eq_zero_iff.1 (by omega)
    have hstart : (fitting limit t).length ≤ t.length := (longestFitting_fitting limit t).start.length_le
    rw [fitting_append_of_lt b.afterCursor hlarge, hnone, List.drop_eq_nil_of_le hstart]

namespace Editor

variable {κ : Type} [ComponentKind κ] {lineLimit historyLimit : Nat}

/-- The text that Tab, or Shift+Tab if `backwards`, puts in the place of what is before the cursor; nothing where it is
refused. -/
def replacement (c : Console κ) (backwards : Bool) (e : Editor lineLimit historyLimit) : Option Text :=
  (e.completion.press e.buffer.beforeCursor backwards c.predict).1.filter (· ≠ e.buffer.beforeCursor)

variable {c : Console κ} {backwards : Bool} {e : Editor lineLimit historyLimit} {t : Text}

theorem complete_of_replacement (h : e.replacement c backwards = some t) :
    (e.complete c backwards).1 = .edited ∧ (e.complete c backwards).2.buffer = e.buffer.replaceBeforeCursor t := by
  unfold replacement at h
  unfold complete
  rcases hpress : e.completion.press e.buffer.beforeCursor backwards c.predict with ⟨text, m⟩
  rw [hpress] at h
  obtain ⟨rfl, hchanged⟩ := Option.filter_eq_some_iff.1 h
  have hne : t ≠ e.buffer.beforeCursor := of_decide_eq_true hchanged
  simp [hpress, hne]

theorem complete_of_no_replacement (h : e.replacement c backwards = none) :
    (e.complete c backwards).1 = .refused ∧ (e.complete c backwards).2.buffer = e.buffer := by
  unfold replacement at h
  unfold complete
  rcases hpress : e.completion.press e.buffer.beforeCursor backwards c.predict with ⟨text, m⟩
  rw [hpress] at h
  cases text with
  | none   => simp [hpress]
  | some t =>
    have hsame : t = e.buffer.beforeCursor := by simpa using Option.filter_eq_none_iff.1 h t rfl
    simp [hpress, hsame]

theorem apply_tab (c : Console κ) (backwards : Bool) (e : Editor lineLimit historyLimit) :
    e.apply c (if backwards then .shiftTab else .tab) = e.complete c backwards := by
  cases backwards <;> rfl

/-- **Tab keeps what is after the cursor just where there is room for it.**  Where Tab puts another text before the cursor,
as much of what is after it stays as fits in the line together with that text, cut at its end.  So all of it stays just where
the key is refused, where there is nothing after the cursor, or where the two fit in the line together. -/
theorem tab_keeps_tail_iff (c : Console κ) (backwards : Bool) (e : Editor lineLimit historyLimit) :
    let after := (e.apply c (if backwards then .shiftTab else .tab)).2.buffer.afterCursor
    (∀ t ∈ e.replacement c backwards, LongestFitting (lineLimit - utf8Length t) e.buffer.afterCursor after) ∧
      (after = e.buffer.afterCursor ↔ ∀ t ∈ e.replacement c backwards,
        e.buffer.afterCursor = [] ∨ utf8Length t + utf8Length e.buffer.afterCursor ≤ lineLimit) := by
  intro after
  have hafter : after = (e.complete c backwards).2.buffer.afterCursor := by rw [← apply_tab]
  cases hr : e.replacement c backwards with
  | none   =>
    obtain ⟨-, hbuffer⟩ := complete_of_no_replacement hr
    rw [hbuffer] at hafter
    exact ⟨nofun, iff_of_true hafter nofun⟩
  | some t =>
    obtain ⟨-, hbuffer⟩ := complete_of_replacement hr
    rw [hbuffer, LineBuffer.afterCursor_replaceBeforeCursor] at hafter
    rw [hafter, fitting_eq_self_iff]
    simp only [Option.mem_def, Option.some.injEq, forall_eq', ← utf8Length_eq_zero_iff]
    exact ⟨longestFitting_fitting _ _, by omega⟩

/-- The editor of a line of so many bytes in which `selx` has been typed, with the cursor before the `x`. -/
def beforeLetter (lineLimit : Nat) : Editor lineLimit 2 :=
  [.char 's', .char 'e', .char 'l', .char 'x', .arrowLeft].foldl (fun e k => (e.apply idle k).2) (.new .empty)

theorem reachable_beforeLetter (lineLimit : Nat) : (beforeLetter lineLimit).Reachable Samples.Kind :=
  .key idle _ (.key idle _ (.key idle _ (.key idle _ (.key idle _ .fresh))))

theorem predict_idle : idle.predict "sel".toList = ["select".toList] := by
  have hmatching : matchingOptions .empty (World.empty : World Samples.Kind) "sel".toList = ["select".toList] := by
    decide +kernel
  show CommandConsole.predict .empty (World.empty : World Samples.Kind) 32 _ = _
  rw [predict_eq_take, hmatching, ranked_of_pairwise (List.pairwise_singleton ..)]
  rfl

theorem press_idle : Completion.press none "sel".toList false idle.predict = (some "select ".toList, none) := by
  rw [Completion.press_of_asks rfl, predict_idle]
  rfl

theorem replacement_of_sel {e : Editor lineLimit historyLimit} (hcompletion : e.completion = none)
    (hbefore : e.buffer.beforeCursor = "sel".toList) : e.replacement idle false = some "select ".toList := by
  rw [replacement, hcompletion, hbefore, press_idle]
  rfl

/-- In a line of eight bytes `select` and the space after it leave room for the letter, but for no more. -/
theorem tab_keeps_tail_iff_room :
    "select ".toList ∈ (beforeLetter 8).replacement idle false ∧
      utf8Length "select ".toList + utf8Length (beforeLetter 8).buffer.afterCursor = 8 ∧
      ((beforeLetter 8).apply idle .tab).2.buffer.afterCursor = ['x'] := by
  have hreplaced : (beforeLetter 8).replacement idle false = some "select ".toList := replacement_of_sel rfl rfl
  refine ⟨hreplaced, by decide, ((tab_keeps_tail_iff idle false (beforeLetter 8)).2).2 fun t ht => ?_⟩
  obtain rfl : "select ".toList = t := Option.some.inj (hreplaced.symm.trans ht)
  exact .inr (by decide)

/-- **Tab can cost what is after the cursor.**  In a line of four bytes `selx` leaves no room; still Tab after `sel` is not
refused, and the `x` is gone. -/
theorem tab_drops_tail : (beforeLetter 4).Reachable Samples.Kind ∧
    (beforeLetter 4).buffer = ⟨"selx".toList, 3⟩ ∧ (beforeLetter 4).buffer.afterCursor = ['x'] ∧
    ((beforeLetter 4).apply idle .tab).1 = .edited ∧ ((beforeLetter 4).apply idle .tab).2.buffer = ⟨"sele".toList, 4⟩ ∧
    ((beforeLetter 4).apply idle .tab).2.buffer.afterCursor = [] := by
  have hreplaced : (beforeLetter 4).replacement idle false = some "select ".toList := replacement_of_sel rfl rfl
  obtain ⟨hedited, hbuffer⟩ := complete_of_replacement hreplaced
  have hline : (beforeLetter 4).buffer.replaceBeforeCursor "select ".toList = ⟨"sele".toList, 4⟩ := by decide
  have hreached := hbuffer.trans hline
  exact ⟨reachable_beforeLetter 4, rfl, rfl, hedited, hreached, congrArg LineBuffer.afterCursor hreached⟩

end Editor
end CommandConsole

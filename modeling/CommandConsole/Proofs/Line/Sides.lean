import CommandConsole.Proofs.Line.Slots
/-!
# Sides — the line as what stands on either side of the cursor

A line with a cursor in it can be told as two texts, what stands before the cursor and what stands after it (`Sides`).  No
place in the line is counted then: an insertion and a deletion happen where the two meet, and moving passes characters from
one to the other.  The line does step by step what the two texts do (`Step.apply_buffer`), so nothing that can be seen of it
tells the one from the other; and on the line that is reached no step goes wrong (`steps_refine_sides`).
-/
namespace CommandConsole

open Text

/-- All that can be asked about a line. -/
structure LineBuffer.View where
  text       : Text
  before     : Text
  cursor     : Nat
  length     : Nat
  byteLength : Nat
deriving DecidableEq

def LineBuffer.view {limit : Nat} (b : LineBuffer limit) : View :=
  ⟨b.text, b.beforeCursor, b.cursor, b.text.length, b.byteLength⟩

/-! ## Two sides -/

structure Sides where
  before : Text
  after  : Text
deriving DecidableEq

namespace Sides

open LineBuffer (Step View)

def text (s : Sides) : Text := s.before ++ s.after

def view (s : Sides) : View := ⟨s.text, s.before, s.before.length, s.text.length, utf8Length s.text⟩

/-- What a step does to the sides of a line of at most `limit` bytes. -/
def apply (limit : Nat) (s : Sides) : Step → Option Bool × Sides
  | .insert c              =>
    if utf8Length s.text + c.utf8Size ≤ limit then (some true, ⟨s.before ++ [c], s.after⟩) else (some false, s)
  | .backspace             => if s.before = [] then (some false, s) else (some true, ⟨s.before.dropLast, s.after⟩)
  | .delete                => if s.after = [] then (some false, s) else (some true, ⟨s.before, s.after.tail⟩)
  | .deleteToStart         => (none, ⟨[], s.after⟩)
  | .deleteToEnd           => (none, ⟨s.before, []⟩)
  | .left                  => (none, ⟨s.before.dropLast, s.before.getLast?.toList ++ s.after⟩)
  | .right                 => (none, ⟨s.before ++ s.after.head?.toList, s.after.tail⟩)
  | .home                  => (none, ⟨[], s.text⟩)
  | .toEnd                 => (none, ⟨s.text, []⟩)
  | .overwrite t           => (none, ⟨fitting limit t, []⟩)
  | .replaceBeforeCursor t =>
    let kept := fitting limit (t ++ s.after)
    (none, ⟨kept.take t.length, kept.drop t.length⟩)
  | .clear                 => (none, ⟨[], []⟩)

variable {limit : Nat}

/-- The line with the cursor where the sides meet. -/
def buffer (s : Sides) : LineBuffer limit := ⟨s.text, s.before.length⟩

theorem text_nil (t : Text) : (⟨t, []⟩ : Sides).text = t := List.append_nil t

theorem beforeCursor_buffer (s : Sides) : (s.buffer : LineBuffer limit).beforeCursor = s.before := List.take_left

theorem afterCursor_buffer (s : Sides) : (s.buffer : LineBuffer limit).afterCursor = s.after := List.drop_left

theorem view_buffer (s : Sides) : (s.buffer : LineBuffer limit).view = s.view := by
  rw [LineBuffer.view, beforeCursor_buffer]
  rfl

end Sides

/-! ## Each step on the two sides -/

namespace LineBuffer

variable {limit : Nat}

theorem insert?_buffer (s : Sides) (c : Char) : (s.buffer : LineBuffer limit).insert? c =
    if utf8Length s.text + c.utf8Size ≤ limit then some (Sides.buffer ⟨s.before ++ [c], s.after⟩) else none := by
  have hline : s.before ++ c :: s.after = (⟨s.before ++ [c], s.after⟩ : Sides).text := by simp [Sides.text]
  have hcursor : s.before.length + 1 = (s.before ++ [c]).length := by simp
  rw [insert?, Sides.beforeCursor_buffer, Sides.afterCursor_buffer, hline]
  exact ite_congr rfl (fun _ => congrArg some (congrArg (LineBuffer.mk _) hcursor)) (fun _ => rfl)

theorem backspace?_buffer (s : Sides) : (s.buffer : LineBuffer limit).backspace? =
    if s.before = [] then none else some (Sides.buffer ⟨s.before.dropLast, s.after⟩) := by
  obtain ⟨before, after⟩ := s
  rcases List.eq_nil_or_concat before with rfl | ⟨init, c, rfl⟩
  · rfl
  · simp [backspace?, Sides.buffer, Sides.text, List.eraseIdx_append_of_length_le]

theorem delete?_buffer (s : Sides) : (s.buffer : LineBuffer limit).delete? =
    if s.after = [] then none else some (Sides.buffer ⟨s.before, s.after.tail⟩) := by
  obtain ⟨before, after⟩ := s
  cases after with
  | nil      => simp [delete?, Sides.buffer, Sides.text]
  | cons c t => simp [delete?, Sides.buffer, Sides.text, List.eraseIdx_append_of_length_le]

theorem left_buffer (s : Sides) : (s.buffer : LineBuffer limit).left =
    Sides.buffer ⟨s.before.dropLast, s.before.getLast?.toList ++ s.after⟩ := by
  obtain ⟨before, after⟩ := s
  rcases List.eq_nil_or_concat before with rfl | ⟨init, c, rfl⟩
  · rfl
  · simp [left, Sides.buffer, Sides.text]

theorem right_buffer (s : Sides) : (s.buffer : LineBuffer limit).right =
    Sides.buffer ⟨s.before ++ s.after.head?.toList, s.after.tail⟩ := by
  obtain ⟨before, after⟩ := s
  cases after <;> simp [right, Sides.buffer, Sides.text]

theorem atEnd_eq_buffer (t : Text) : (atEnd t : LineBuffer limit) = Sides.buffer ⟨t, []⟩ := by
  rw [atEnd, Sides.buffer, Sides.text_nil]

/-- **As much as fits of a text and of what follows the cursor makes up the line**, with the cursor between the two. -/
theorem replaceBeforeCursor_eq (b : LineBuffer limit) (t : Text) :
    let kept := fitting limit (t ++ b.afterCursor)
    b.replaceBeforeCursor t = Sides.buffer ⟨kept.take t.length, kept.drop t.length⟩ := by
  intro kept
  rw [replaceBeforeCursor, Sides.buffer, Sides.text, List.take_append_drop, List.length_take]

/-- **A step does to the line what it does to its two sides.** -/
theorem Step.apply_buffer (s : Sides) (x : Step) :
    x.apply (s.buffer : LineBuffer limit) = ((s.apply limit x).1, (s.apply limit x).2.buffer) := by
  cases x with
  | insert c              =>
    rw [Step.apply, insert?_buffer, Sides.apply]
    split <;> rfl
  | backspace             =>
    rw [Step.apply, backspace?_buffer, Sides.apply]
    split <;> rfl
  | delete                =>
    rw [Step.apply, delete?_buffer, Sides.apply]
    split <;> rfl
  | deleteToStart         =>
    rw [Step.apply, LineBuffer.deleteToStart, Sides.afterCursor_buffer]
    rfl
  | deleteToEnd           =>
    rw [Step.apply, LineBuffer.deleteToEnd, Sides.beforeCursor_buffer]
    exact congrArg (none, ·) (atEnd_eq_buffer s.before)
  | left                  => rw [Step.apply, left_buffer]; rfl
  | right                 => rw [Step.apply, right_buffer]; rfl
  | toEnd                 => exact congrArg (none, ·) (atEnd_eq_buffer s.text)
  | overwrite t           => rw [Step.apply, overwrite_eq, atEnd_eq_buffer]; rfl
  | replaceBeforeCursor t => rw [Step.apply, replaceBeforeCursor_eq, Sides.afterCursor_buffer]; rfl
  | home | clear          => rfl

/-! ## Steps one after the other -/

/-- What is seen while steps are taken: the answer to each, and the line after it. -/
def seen {σ : Type} (step : σ → Step → Option Bool × σ) (view : σ → View) : σ → List Step → List (Option Bool × View)
  | _, []      => []
  | a, x :: xs => ((step a x).1, view (step a x).2) :: seen step view (step a x).2 xs

/-- The line that steps lead to. -/
def reached (limit : Nat) (xs : List Step) : LineBuffer limit := xs.foldl (fun b x => (x.apply b).2) empty

theorem seen_buffer (xs : List Step) : ∀ s : Sides,
    seen Step.apply view (s.buffer : LineBuffer limit) xs = seen (Sides.apply limit) Sides.view s xs := by
  induction xs with
  | nil          => exact fun _ => rfl
  | cons x xs ih =>
    intro s
    rw [seen, seen, Step.apply_buffer, Sides.view_buffer, ih]

theorem sound_reached (limit : Nat) (xs : List Step) : (reached limit xs).Sound := by
  unfold reached
  induction xs using List.reverseRecOn with
  | nil                      => exact sound_empty
  | append_singleton xs x ih =>
    rw [List.foldl_concat]
    exact ih.step x

/-- **The line is told by its two sides.**  Whatever steps are taken from the empty line, they answer what the two sides
answer, and the text, the cursor and the lengths are what the two sides make them.  On the line that is reached a character
is refused just where it would make the line too long, and then nothing changes; a text that takes the place of the line is
kept up to the longest start that fits, and so is a text that takes the place of what is before the cursor, together with
what is after it.  The cursor is in the line and the line is not too long, so a look at what is before the cursor stays
within the line; and so does every step, which finds a slot wherever the bytes leave room. -/
theorem steps_refine_sides (limit : Nat) (xs : List Step) :
    seen Step.apply view (empty : LineBuffer limit) xs = seen (Sides.apply limit) Sides.view ⟨[], []⟩ xs ∧
    let b := reached limit xs
    (∀ c, ((Step.insert c).apply b = (some false, b) ↔ limit < b.byteLength + c.utf8Size) ∧
      (((Step.insert c).apply b).1 = some true ↔ b.byteLength + c.utf8Size ≤ limit)) ∧
    (∀ t, LongestFitting limit t (b.overwrite t).text) ∧
    (∀ t, LongestFitting limit (t ++ b.afterCursor) (b.replaceBeforeCursor t).text) ∧
    b.cursor ≤ b.text.length ∧ b.byteLength ≤ limit ∧
    Slots.upTo b.text b.cursor = .ok b.beforeCursor ∧ ∀ x : Step, x.onSlots b = .ok (x.apply b) := by
  have hsound := sound_reached limit xs
  generalize reached limit xs = b at hsound
  refine ⟨seen_buffer xs ⟨[], []⟩, fun c => ?_, fun t => ?_, fun t => longestFitting_fitting limit _, hsound.inside,
    hsound.fits, Slots.upTo_of_le hsound.inside, fun x => hsound.onSlots x⟩
  · rw [Step.apply, insert?]
    by_cases hroom : b.byteLength + c.utf8Size ≤ limit
    · simp [hroom, Nat.not_lt.2 hroom, orKeep]
    · simp [hroom, Nat.lt_of_not_le hroom, orKeep]
  · rw [overwrite_eq]
    exact longestFitting_fitting limit t

end LineBuffer
end CommandConsole

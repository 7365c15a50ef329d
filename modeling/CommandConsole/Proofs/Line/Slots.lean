import CommandConsole.Proofs.Line.Capacity
/-!
# Slots — the line in a vector of limited capacity

The line takes one slot of a vector for each character, and the vector has as many slots as the line may have bytes.  An
access outside the vector or beyond its capacity is a fault (`SlotFault`).  A step of the line can be told by the accesses it
makes (`Step.onSlots`).  On a line that is not too long, with the cursor in it, none of them is a fault (`Sound.onSlots`): a
character takes a byte at least, so a line that has room for the bytes of one has a slot for it.
-/
namespace CommandConsole

open Text

/-! ## Accesses -/

inductive SlotFault where
  | outside | full
deriving DecidableEq

namespace Slots

variable {limit i : Nat} {c : Char} {t : Text}

def push (limit : Nat) (t : Text) (c : Char) : Except SlotFault Text :=
  if t.length < limit then .ok (t ++ [c]) else .error .full

def insert (limit : Nat) (t : Text) (i : Nat) (c : Char) : Except SlotFault Text :=
  if t.length < i then .error .outside else if t.length < limit then .ok (t.insertIdx i c) else .error .full

def remove (t : Text) (i : Nat) : Except SlotFault Text :=
  if i < t.length then .ok (t.eraseIdx i) else .error .outside

def upTo (t : Text) (i : Nat) : Except SlotFault Text := if i ≤ t.length then .ok (t.take i) else .error .outside

def startingAt (t : Text) (i : Nat) : Except SlotFault Text := if i ≤ t.length then .ok (t.drop i) else .error .outside

def collect (limit : Nat) (t : Text) : Except SlotFault Text := t.foldlM (push limit) []

/-- Pushes characters after `kept`, which takes `bytes` bytes, up to the first that makes the line too long. -/
def pushFitting (limit bytes : Nat) (kept : Text) : Text → Except SlotFault Text
  | []     => .ok kept
  | c :: t =>
    if limit < bytes + c.utf8Size then .ok kept
    else push limit kept c >>= fun kept => pushFitting limit (bytes + c.utf8Size) kept t

theorem push_of_lt (h : t.length < limit) : push limit t c = .ok (t ++ [c]) := if_pos h

theorem insertIdx_eq : ∀ {t : Text} {i : Nat}, i ≤ t.length → t.insertIdx i c = t.take i ++ c :: t.drop i
  | _,      0,     _ => rfl
  | d :: _, _ + 1, h => congrArg (d :: ·) (insertIdx_eq (Nat.le_of_succ_le_succ h))

theorem insert_of_lt (hi : i ≤ t.length) (h : t.length < limit) :
    insert limit t i c = .ok (t.take i ++ c :: t.drop i) := by
  rw [insert, if_neg (Nat.not_lt.2 hi), if_pos h, insertIdx_eq hi]

theorem remove_of_lt (h : i < t.length) : remove t i = .ok (t.eraseIdx i) := if_pos h

theorem upTo_of_le (h : i ≤ t.length) : upTo t i = .ok (t.take i) := if_pos h

theorem startingAt_of_le (h : i ≤ t.length) : startingAt t i = .ok (t.drop i) := if_pos h

theorem foldlM_push : ∀ {t kept : Text}, kept.length + t.length ≤ limit → t.foldlM (push limit) kept = .ok (kept ++ t)
  | [],     kept, _ => by rw [List.append_nil]; rfl
  | c :: t, kept, h => by
    rw [List.length_cons] at h
    have hrest : (kept ++ [c]).length + t.length ≤ limit := by
      rw [List.length_append, List.length_singleton]
      omega
    have ih : t.foldlM (push limit) (kept ++ [c]) = .ok (kept ++ [c] ++ t) := foldlM_push hrest
    rw [List.foldlM_cons, push_of_lt (by omega)]
    exact ih.trans (by rw [List.append_assoc, List.singleton_append])

theorem collect_of_le (h : t.length ≤ limit) : collect limit t = .ok t := foldlM_push (by simpa using h)

theorem pushFitting_eq : ∀ {t kept : Text}, utf8Length kept ≤ limit →
    pushFitting limit (utf8Length kept) kept t = .ok (kept ++ fitting (limit - utf8Length kept) t)
  | [],     kept, _ => by rw [fitting, List.append_nil, pushFitting]
  | c :: t, kept, h => by
    rw [pushFitting]
    by_cases hc : limit < utf8Length kept + c.utf8Size
    · rw [if_pos hc, fitting_cons_of_lt (by omega), List.append_nil]
    · have hlength := length_le_utf8Length kept
      have hsize := c.utf8Size_pos
      have hbytes : utf8Length (kept ++ [c]) = utf8Length kept + c.utf8Size := by simp
      have ih : pushFitting limit (utf8Length (kept ++ [c])) (kept ++ [c]) t =
          .ok (kept ++ [c] ++ fitting (limit - utf8Length (kept ++ [c])) t) := pushFitting_eq (by omega)
      rw [hbytes, ← Nat.sub_sub, List.append_assoc, List.singleton_append] at ih
      rw [if_neg hc, push_of_lt (by omega), fitting_cons_of_le (by omega)]
      exact ih

end Slots

/-! ## Steps -/

namespace LineBuffer

variable {limit : Nat} {b : LineBuffer limit}

/-- What can be asked of a line. -/
inductive Step where
  | insert (c : Char)
  | backspace | delete | deleteToStart | deleteToEnd | left | right | home | toEnd
  | overwrite (t : Text)
  | replaceBeforeCursor (t : Text)
  | clear

/-- The answer to a step that can be refused, and the line after it. -/
def orKeep (b : LineBuffer limit) : Option (LineBuffer limit) → Option Bool × LineBuffer limit
  | some b' => (some true, b')
  | none    => (some false, b)

/-- The answer to a step, if it gives one, and the line after it. -/
def Step.apply (b : LineBuffer limit) : Step → Option Bool × LineBuffer limit
  | .insert c              => b.orKeep (b.insert? c)
  | .backspace             => b.orKeep b.backspace?
  | .delete                => b.orKeep b.delete?
  | .deleteToStart         => (none, b.deleteToStart)
  | .deleteToEnd           => (none, b.deleteToEnd)
  | .left                  => (none, b.left)
  | .right                 => (none, b.right)
  | .home                  => (none, b.home)
  | .toEnd                 => (none, b.toEnd)
  | .overwrite t           => (none, b.overwrite t)
  | .replaceBeforeCursor t => (none, b.replaceBeforeCursor t)
  | .clear                 => (none, b.clear)

theorem Sound.orKeep (h : b.Sound) {r : Option (LineBuffer limit)} (hr : ∀ b', r = some b' → b'.Sound) :
    (b.orKeep r).2.Sound := by
  cases r with
  | none    => exact h
  | some b' => exact hr b' rfl

/-- **Every step leaves a line that is not too long, and the cursor in it.** -/
theorem Sound.step (h : b.Sound) (x : Step) : (x.apply b).2.Sound := by
  have hinside := h.inside
  cases x with
  | insert c              => exact h.orKeep fun _ hb => h.insert? hb
  | backspace             => exact h.orKeep fun _ hb => h.backspace? hb
  | delete                => exact h.orKeep fun _ hb => h.delete? hb
  | deleteToStart         => exact h.deleteToStart
  | deleteToEnd           => exact h.deleteToEnd
  | left                  => exact h.moved (by omega)
  | right                 => exact h.moved (by split <;> omega)
  | home                  => exact h.moved (Nat.zero_le _)
  | toEnd                 => exact h.moved (Nat.le_refl _)
  | overwrite t           => exact b.sound_overwrite t
  | replaceBeforeCursor t => exact b.sound_replaceBeforeCursor t
  | clear                 => exact sound_empty

/-! ## Steps by accesses -/

def insertOnSlots (b : LineBuffer limit) (c : Char) : Except SlotFault (Option (LineBuffer limit)) :=
  if limit < b.byteLength + c.utf8Size then .ok none
  else (Slots.insert limit b.text b.cursor c).map (fun t => some ⟨t, b.cursor + 1⟩)

def insertAllOnSlots (b : LineBuffer limit) : Text → Except SlotFault (LineBuffer limit)
  | []     => .ok b
  | c :: t => b.insertOnSlots c >>= fun
    | some b => b.insertAllOnSlots t
    | none   => .ok b

def Step.onSlots (b : LineBuffer limit) : Step → Except SlotFault (Option Bool × LineBuffer limit)
  | .insert c              => (b.insertOnSlots c).map b.orKeep
  | .backspace             =>
    if b.cursor = 0 then .ok (some false, b)
    else (Slots.remove b.text (b.cursor - 1)).map (fun t => (some true, ⟨t, b.cursor - 1⟩))
  | .delete                =>
    if b.text.length ≤ b.cursor then .ok (some false, b)
    else (Slots.remove b.text b.cursor).map (fun t => (some true, ⟨t, b.cursor⟩))
  | .deleteToStart         => (Slots.collect limit (b.text.drop b.cursor)).map (fun t => (none, ⟨t, 0⟩))
  | .deleteToEnd           => .ok (none, ⟨b.text.take b.cursor, b.cursor⟩)
  | .left                  => .ok (none, b.left)
  | .right                 => .ok (none, b.right)
  | .home                  => .ok (none, b.home)
  | .toEnd                 => .ok (none, b.toEnd)
  | .overwrite t           => ((empty : LineBuffer limit).insertAllOnSlots t).map (none, ·)
  | .replaceBeforeCursor t => do
    let tail ← Slots.startingAt b.text b.cursor
    let line ← Slots.pushFitting limit 0 [] (t ++ tail)
    return (none, ⟨line, min t.length line.length⟩)
  | .clear                 => .ok (none, empty)

theorem Sound.insertOnSlots (h : b.Sound) (c : Char) : b.insertOnSlots c = .ok (b.insert? c) := by
  rw [LineBuffer.insertOnSlots, LineBuffer.insert?]
  by_cases hroom : b.byteLength + c.utf8Size ≤ limit
  · have hlength : b.text.length ≤ b.byteLength := length_le_utf8Length b.text
    have hsize := c.utf8Size_pos
    rw [if_neg (Nat.not_lt.2 hroom), if_pos hroom, Slots.insert_of_lt h.inside (by omega)]
    rfl
  · rw [if_pos (Nat.lt_of_not_le hroom), if_neg hroom]

theorem Sound.insertAllOnSlots (h : b.Sound) : ∀ t : Text, b.insertAllOnSlots t = .ok (b.insertAll t) := by
  intro t
  induction t generalizing b with
  | nil         => rfl
  | cons c t ih =>
    rw [LineBuffer.insertAllOnSlots, h.insertOnSlots, LineBuffer.insertAll]
    cases hb : b.insert? c with
    | none    => rfl
    | some b' => exact ih (h.insert? hb)

/-- **On a line that is not too long, with the cursor in it, no access of a step is a fault.** -/
theorem Sound.onSlots (h : b.Sound) (x : Step) : x.onSlots b = .ok (x.apply b) := by
  have hinside := h.inside
  have hlength : b.text.length ≤ b.byteLength := length_le_utf8Length b.text
  have hfits := h.fits
  cases x with
  | insert c =>
    rw [Step.onSlots, h.insertOnSlots]
    rfl
  | backspace =>
    rw [Step.onSlots, Step.apply, LineBuffer.backspace?]
    by_cases hstart : b.cursor = 0
    · rw [if_pos hstart, if_pos hstart]
      rfl
    · rw [if_neg hstart, if_neg hstart, Slots.remove_of_lt (by omega)]
      rfl
  | delete =>
    rw [Step.onSlots, Step.apply, LineBuffer.delete?]
    by_cases hend : b.cursor < b.text.length
    · rw [if_pos hend, if_neg (Nat.not_le.2 hend), Slots.remove_of_lt hend]
      rfl
    · rw [if_neg hend, if_pos (Nat.not_lt.1 hend)]
      rfl
  | deleteToStart =>
    have htail : (b.text.drop b.cursor).length ≤ limit := by
      rw [List.length_drop]
      omega
    rw [Step.onSlots, Slots.collect_of_le htail]
    rfl
  | overwrite t =>
    rw [Step.onSlots, sound_empty.insertAllOnSlots]
    rfl
  | replaceBeforeCursor t =>
    have hline : Slots.pushFitting limit 0 [] (t ++ b.afterCursor) = .ok (fitting limit (t ++ b.afterCursor)) :=
      @Slots.pushFitting_eq limit (t ++ b.afterCursor) [] (Nat.zero_le limit)
    rw [Step.onSlots, Slots.startingAt_of_le hinside]
    show (Slots.pushFitting limit 0 [] (t ++ b.afterCursor) >>= _) = _
    rw [hline]
    rfl
  | deleteToEnd | left | right | home | toEnd | clear => rfl

end LineBuffer
end CommandConsole

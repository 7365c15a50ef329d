import CommandConsole.Line.Editor
import CommandConsole.Proofs.Line.HistoryFile
import CommandConsole.Proofs.Text.Fitting
import CommandConsole.Samples.Kind
/-!
# Capacity — a line that can be edited can be remembered

The line in the editor and the entries of the history are bounded by one number of bytes.  Every key keeps the line within
it, whatever the width of its characters (`Editor.Sound.apply`), and every step of the history keeps the entries within it
(`History.Sound.step`).  So no submitted line is too long to be recorded, and an entry that is recalled comes back whole
(`submitted_lines_recorded`).
-/
namespace CommandConsole

/-! ## Bytes of parts of a text -/

theorem Text.utf8Length_le_of_sublist {s t : Text} (h : s.Sublist t) : utf8Length s ≤ utf8Length t := by
  induction h with
  | slnil            => exact Nat.le_refl 0
  | cons c _ ih      => exact ih.trans (Nat.le_add_left ..)
  | cons_cons c _ ih => exact Nat.add_le_add_left ih c.utf8Size

theorem Text.utf8Length_trim_le (t : Text) : utf8Length (trim t) ≤ utf8Length t := by
  have hstart : utf8Length (trimStart t) ≤ utf8Length t := utf8Length_le_of_sublist (List.dropWhile_sublist isBlank)
  have hend : (trim t).Sublist (trimStart t) := (List.rdropWhile_prefix isBlank (trimStart t)).sublist
  exact (utf8Length_le_of_sublist hend).trans hstart

/-! ## The line -/

namespace LineBuffer

variable {limit : Nat} {b b' : LineBuffer limit} {t : Text} {c : Char}

/-- A line that is not too long, with the cursor in it. -/
structure Sound (b : LineBuffer limit) : Prop where
  fits   : b.byteLength ≤ limit
  inside : b.cursor ≤ b.text.length

theorem sound_empty : (empty : LineBuffer limit).Sound := ⟨Nat.zero_le limit, Nat.le_refl 0⟩

/-- Leaving characters out leaves the line short enough. -/
theorem Sound.of_sublist (h : b.Sound) (hsub : t.Sublist b.text) {n : Nat} (hn : n ≤ t.length) :
    (⟨t, n⟩ : LineBuffer limit).Sound :=
  ⟨(Text.utf8Length_le_of_sublist hsub).trans h.fits, hn⟩

theorem Sound.insert? (h : b.Sound) (hb : b.insert? c = some b') : b'.Sound := by
  unfold LineBuffer.insert? at hb
  split at hb
  · rename_i hroom
    cases hb
    have hlength : Text.utf8Length b.beforeCursor + Text.utf8Length b.afterCursor = b.byteLength := by
      rw [← Text.utf8Length_append, beforeCursor, afterCursor, List.take_append_drop, byteLength]
    have hcursor := h.inside
    refine ⟨?_, ?_⟩
    · rw [byteLength, Text.utf8Length_append, Text.utf8Length_cons]
      omega
    · rw [List.length_append, List.length_cons, beforeCursor, List.length_take]
      dsimp only
      omega
  · cases hb

theorem Sound.backspace? (h : b.Sound) (hb : b.backspace? = some b') : b'.Sound := by
  unfold LineBuffer.backspace? at hb
  split at hb
  · cases hb
  · cases hb
    have hcursor := h.inside
    refine h.of_sublist (List.eraseIdx_sublist ..) ?_
    rw [List.length_eraseIdx]
    split <;> omega

theorem Sound.delete? (h : b.Sound) (hb : b.delete? = some b') : b'.Sound := by
  unfold LineBuffer.delete? at hb
  split at hb
  · rename_i hcursor
    cases hb
    refine h.of_sublist (List.eraseIdx_sublist ..) ?_
    rw [List.length_eraseIdx_of_lt hcursor]
    omega
  · cases hb

theorem Sound.deleteToStart (h : b.Sound) : b.deleteToStart.Sound := h.of_sublist (List.drop_sublist ..) (Nat.zero_le _)

theorem Sound.deleteToEnd (h : b.Sound) : b.deleteToEnd.Sound :=
  h.of_sublist (List.take_sublist ..) (Nat.le_of_eq (List.length_take_of_le h.inside).symm)

theorem Sound.moved (h : b.Sound) {n : Nat} (hn : n ≤ b.text.length) : (⟨b.text, n⟩ : LineBuffer limit).Sound :=
  h.of_sublist (List.Sublist.refl b.text) hn

theorem Sound.insertAll (h : b.Sound) : ∀ t : Text, (b.insertAll t).Sound := by
  intro t
  induction t generalizing b with
  | nil         => exact h
  | cons c t ih =>
    unfold LineBuffer.insertAll
    split
    · rename_i hb
      exact ih (h.insert? hb)
    · exact h

theorem sound_overwrite (b : LineBuffer limit) (t : Text) : (b.overwrite t).Sound := sound_empty.insertAll t

theorem sound_replaceBeforeCursor (b : LineBuffer limit) (t : Text) : (b.replaceBeforeCursor t).Sound :=
  ⟨Text.utf8Length_fitting_le .., Nat.min_le_right ..⟩

/-- The line `t` with the cursor at its end. -/
def atEnd (t : Text) : LineBuffer limit := ⟨t, t.length⟩

theorem insert?_atEnd (hfits : Text.utf8Length t + c.utf8Size ≤ limit) :
    (atEnd t : LineBuffer limit).insert? c = some (atEnd (t ++ [c])) := by
  rw [insert?, byteLength, atEnd, if_pos hfits]
  simp [beforeCursor, afterCursor, atEnd]

theorem insertAll_atEnd : ∀ {s : Text} (t : Text), Text.utf8Length s ≤ limit →
    (atEnd s : LineBuffer limit).insertAll t = atEnd (s ++ Text.fitting (limit - Text.utf8Length s) t)
  | s, [],     _     => by rw [insertAll, Text.fitting, List.append_nil]
  | s, c :: t, hfits => by
    by_cases hc : Text.utf8Length s + c.utf8Size ≤ limit
    · have hroom : Text.utf8Length (s ++ [c]) ≤ limit := by simpa using hc
      have ih : (atEnd (s ++ [c]) : LineBuffer limit).insertAll t =
          atEnd (s ++ [c] ++ Text.fitting (limit - Text.utf8Length (s ++ [c])) t) := insertAll_atEnd t hroom
      rw [insertAll, insert?_atEnd hc, Text.fitting_cons_of_le (by omega)]
      simpa [Nat.sub_sub] using ih
    · -- the first character that does not fit ends the line
      have hfull : (atEnd s : LineBuffer limit).insert? c = none := if_neg hc
      rw [insertAll, hfull, Text.fitting_cons_of_lt (by omega), List.append_nil]

/-- **As much of a text as fits takes the place of the line**, with the cursor at its end. -/
theorem overwrite_eq (b : LineBuffer limit) (t : Text) : b.overwrite t = atEnd (Text.fitting limit t) :=
  insertAll_atEnd (s := []) t (Nat.zero_le limit)

theorem overwrite_of_fits (b : LineBuffer limit) (hfits : Text.utf8Length t ≤ limit) : b.overwrite t = atEnd t := by
  rw [overwrite_eq, Text.fitting_eq_self_iff.2 hfits]

end LineBuffer

/-! ## The history -/

namespace History

variable {maxEntries maxBytes : Nat} {h : History maxEntries maxBytes} {t : Text}

/-- Entries as they are recorded, and a place among them. -/
structure Sound (h : History maxEntries maxBytes) : Prop where
  recorded : Recorded maxEntries maxBytes h.entries
  inside   : ∀ i, h.position = some i → i < h.entries.length

theorem sound_empty : (empty : History maxEntries maxBytes).Sound := ⟨recorded_nil, nofun⟩

theorem sound_open (disk : Disk) : («open» disk : History maxEntries maxBytes).Sound := by
  refine ⟨?_, nofun⟩
  unfold «open»
  dsimp only
  cases disk.text? with
  | none      => exact recorded_nil
  | some text => exact recorded_load maxEntries maxBytes text

theorem Sound.push (hs : h.Sound) (line : Text) : (h.push line).2.Sound := by
  unfold History.push
  dsimp only
  split
  · rename_i ht
    exact ⟨hs.recorded.addNewest (Text.trim_trim line) ht, nofun⟩
  · exact ⟨hs.recorded, nofun⟩

/-- Navigation has gone to one of the entries. -/
def Goes (h : History maxEntries maxBytes) (r : Option Text × History maxEntries maxBytes) : Prop :=
  ∃ i < h.entries.length, r = h.goTo i

section
variable {r : Option Text × History maxEntries maxBytes}

theorem Goes.sound (hr : h.Goes r) (hs : h.Sound) : r.2.Sound := by
  obtain ⟨i, hi, rfl⟩ := hr
  exact ⟨hs.recorded, fun j hj => by cases hj; exact hi⟩

theorem Goes.found (hr : h.Goes r) : ∃ t ∈ h.entries, r.1 = some t := by
  obtain ⟨i, hi, rfl⟩ := hr
  exact ⟨h.entries[i], List.getElem_mem hi, List.getElem?_eq_getElem hi⟩

end

theorem goes_last : h.Goes h.last ∨ (h.entries = [] ∧ h.last = (none, h)) := by
  unfold last
  split
  · rename_i hnil
    exact .inr ⟨List.isEmpty_iff.1 hnil, rfl⟩
  · rename_i hsome
    exact .inl ⟨_, Nat.sub_lt (List.length_pos_iff.2 (mt List.isEmpty_iff.2 hsome)) Nat.one_pos, rfl⟩

theorem goes_first : h.Goes h.first ∨ (h.entries = [] ∧ h.first = (none, h)) := by
  unfold first
  split
  · rename_i hnil
    exact .inr ⟨List.isEmpty_iff.1 hnil, rfl⟩
  · rename_i hsome
    exact .inl ⟨0, List.length_pos_iff.2 (mt List.isEmpty_iff.2 hsome), rfl⟩

theorem Sound.goes_older (hs : h.Sound) : h.Goes h.older ∨ (h.entries = [] ∧ h.older = (none, h)) := by
  unfold older
  split
  · rename_i i hi
    exact .inl ⟨i - 1, Nat.lt_of_le_of_lt (Nat.sub_le i 1) (hs.inside i hi), rfl⟩
  · exact goes_last

theorem goes_newer : h.Goes h.newer ∨ h.newer = (none, { h with position := none }) := by
  unfold newer
  split
  · split
    · rename_i i _ hi
      exact .inl ⟨i + 1, hi, rfl⟩
    · exact .inr rfl
  · rename_i hnone
    rw [← hnone]
    exact .inr rfl

/-- **Every step leaves a history of entries, and a place among them.** -/
theorem Sound.step (hs : h.Sound) (s : Step) : (s.apply h).Sound := by
  have back {r : Option Text × History maxEntries maxBytes} (hr : h.Goes r ∨ (h.entries = [] ∧ r = (none, h))) :
      r.2.Sound := by
    rcases hr with hr | ⟨-, rfl⟩
    · exact hr.sound hs
    · exact hs
  cases s with
  | push line => exact hs.push line
  | clear     => exact ⟨recorded_nil, nofun⟩
  | older     => exact back hs.goes_older
  | first     => exact back goes_first
  | last      => exact back goes_last
  | newer     =>
    show h.newer.2.Sound
    rcases h.goes_newer with hr | hr
    · exact hr.sound hs
    · rw [hr]
      exact ⟨hs.recorded, nofun⟩
  | reopen    =>
    show h.reopen.Sound
    unfold History.reopen
    split
    · exact sound_open _
    · exact sound_empty

/-- A line is recorded if it is not blank, not an entry and not too long, where there is room for one. -/
theorem push_eq_true_iff (hsome : 0 < maxEntries) (hfits : Text.utf8Length t ≤ maxBytes) :
    (h.push t).1 = true ↔ Text.trim t ≠ [] ∧ Text.trim t ∉ h.entries := by
  have hshort := (Text.utf8Length_trim_le t).trans hfits
  have haccepted : acceptable maxEntries maxBytes h.entries (Text.trim t) = true ↔
      Text.trim t ≠ [] ∧ Text.trim t ∉ h.entries := by
    rw [acceptable_iff]
    exact ⟨fun ⟨_, hne, hnew, _⟩ => ⟨hne, hnew⟩,
      fun ⟨hne, hnew⟩ => ⟨Nat.pos_iff_ne_zero.1 hsome, hne, hnew, hshort⟩⟩
  rw [← haccepted]
  unfold History.push
  dsimp only
  split
  · rename_i ht
    exact iff_of_true rfl ht
  · rename_i ht
    exact iff_of_false Bool.false_ne_true ht

end History

/-! ## The editor -/

namespace Editor

variable {κ : Type} [ComponentKind κ] {lineLimit historyLimit : Nat} {e : Editor lineLimit historyLimit} {k : Key} {t : Text}

structure Sound (e : Editor lineLimit historyLimit) : Prop where
  buffer  : e.buffer.Sound
  history : e.history.Sound

/-- The editors that come of keys, in any console, of lines taken and of what is done to the history meanwhile. -/
inductive Reachable (κ : Type) [ComponentKind κ] : Editor lineLimit historyLimit → Prop
  | fresh : Reachable κ (.new .empty)
  | opened (disk : Disk) : Reachable κ (.new (.open disk))
  | key {e : Editor lineLimit historyLimit} (c : Console κ) (k : Key) : Reachable κ e → Reachable κ (e.apply c k).2
  | taken {e : Editor lineLimit historyLimit} : Reachable κ e → Reachable κ e.takeLine.2
  | history {e : Editor lineLimit historyLimit} (s : History.Step) :
      Reachable κ e → Reachable κ { e with history := s.apply e.history }

theorem Sound.edit (h : e.Sound) {m : Completion} {edited : Option (LineBuffer lineLimit)}
    (hedited : ∀ b, edited = some b → b.Sound) : (edit { e with completion := m } edited).2.Sound := by
  cases edited with
  | none   => exact ⟨h.buffer, h.history⟩
  | some b => exact ⟨hedited b rfl, h.history⟩

theorem Sound.bringBack (h : e.Sound) {m : Completion} {found : Option Text × History historyLimit lineLimit}
    (hfound : found.2.Sound) : (bringBack { e with completion := m } found).2.Sound := by
  obtain ⟨_ | t, after⟩ := found
  · exact ⟨h.buffer, hfound⟩
  · exact ⟨e.buffer.sound_overwrite t, hfound⟩

theorem Sound.complete (h : e.Sound) (c : Console κ) (backwards : Bool) : (e.complete c backwards).2.Sound := by
  unfold Editor.complete
  dsimp only
  split
  · split
    · exact ⟨h.buffer, h.history⟩
    · exact ⟨LineBuffer.sound_replaceBeforeCursor .., h.history⟩
  · exact ⟨h.buffer, h.history⟩

/-- **Every key leaves a line that is not too long, and the cursor in it.** -/
theorem Sound.apply (h : e.Sound) (c : Console κ) (k : Key) : (e.apply c k).2.Sound := by
  have step (s : History.Step) : (s.apply e.history).Sound := h.history.step s
  cases k with
  | enter | insert => exact ⟨h.buffer, h.history⟩
  | tab        => exact h.complete c false
  | shiftTab   => exact h.complete c true
  | backspace  => exact h.edit fun _ hb => h.buffer.backspace? hb
  | delete     => exact h.edit fun _ hb => h.buffer.delete? hb
  | ctrlU      => exact ⟨h.buffer.deleteToStart, h.history⟩
  | ctrlK      => exact ⟨h.buffer.deleteToEnd, h.history⟩
  | ctrlD      => exact ⟨LineBuffer.sound_empty, h.history⟩
  | arrowLeft  => exact ⟨h.buffer.moved ((Nat.sub_le ..).trans h.buffer.inside), h.history⟩
  | arrowRight =>
    refine ⟨h.buffer.moved ?_, h.history⟩
    split
    · exact Nat.succ_le_of_lt ‹_›
    · exact h.buffer.inside
  | home       => exact ⟨h.buffer.moved (Nat.zero_le _), h.history⟩
  | «end»      => exact ⟨h.buffer.moved (Nat.le_refl _), h.history⟩
  | arrowUp    => exact h.bringBack (step .older)
  | pageUp     => exact h.bringBack (step .first)
  | pageDown   => exact h.bringBack (step .last)
  | arrowDown  =>
    have hnewer : e.history.newer.2.Sound := step .newer
    unfold Editor.apply
    dsimp only
    split
    · rename_i t after heq
      rw [heq] at hnewer
      exact ⟨e.buffer.sound_overwrite t, hnewer⟩
    · rename_i after heq
      rw [heq] at hnewer
      exact ⟨LineBuffer.sound_empty, hnewer⟩
  | char x     =>
    refine h.edit fun b hb => ?_
    split at hb
    · cases hb
    · exact h.buffer.insert? hb

theorem Reachable.sound (h : e.Reachable κ) : e.Sound := by
  induction h with
  | fresh           => exact ⟨LineBuffer.sound_empty, History.sound_empty⟩
  | opened disk     => exact ⟨LineBuffer.sound_empty, History.sound_open disk⟩
  | key c k _ ih    => exact ih.apply c k
  | taken _ ih      => exact ⟨LineBuffer.sound_empty, ih.history⟩
  | history s _ ih  => exact ⟨ih.buffer, ih.history.step s⟩

/-! ## Recalling -/

/-- The entry that a key recalls. -/
def recalled (e : Editor lineLimit historyLimit) : Key → Option Text
  | .arrowUp   => e.history.older.1
  | .arrowDown => e.history.newer.1
  | .pageUp    => e.history.first.1
  | .pageDown  => e.history.last.1
  | _          => none

/-- **A key that recalls an entry leaves it in the place of the line.** -/
theorem Sound.apply_of_recalled (hs : e.Sound) (c : Console κ) (h : e.recalled k = some t) :
    t ∈ e.history.entries ∧ (e.apply c k).1 = .edited ∧ (e.apply c k).2.buffer = e.buffer.overwrite t := by
  have bring {r : Option Text × History historyLimit lineLimit}
      (hr : e.history.Goes r ∨ (e.history.entries = [] ∧ r = (none, e.history))) (ht : r.1 = some t) :
      t ∈ e.history.entries ∧ (Editor.bringBack { e with completion := none } r).1 = .edited ∧
        (Editor.bringBack { e with completion := none } r).2.buffer = e.buffer.overwrite t := by
    rcases hr with hr | ⟨-, rfl⟩
    · obtain ⟨u, hu, hfound⟩ := hr.found
      obtain rfl : u = t := Option.some.inj (hfound.symm.trans ht)
      obtain ⟨_, after⟩ := r
      cases hfound
      exact ⟨hu, rfl, rfl⟩
    · cases ht
  cases k with
  | arrowUp   => exact bring hs.history.goes_older h
  | pageUp    => exact bring History.goes_first h
  | pageDown  => exact bring History.goes_last h
  | arrowDown =>
    have h : e.history.newer.1 = some t := h
    rcases e.history.goes_newer with hr | hr
    · obtain ⟨u, hu, hfound⟩ := hr.found
      obtain rfl : u = t := Option.some.inj (hfound.symm.trans h)
      unfold Editor.apply
      dsimp only
      rcases hnewer : e.history.newer with ⟨_, after⟩
      rw [hnewer] at hfound
      cases hfound
      exact ⟨hu, rfl, rfl⟩
    · rw [hr] at h
      cases h
  | _ => cases h

/-- Where there are entries, the keys that go back to one find one. -/
theorem Sound.exists_recalled (hs : e.Sound) (hsome : e.history.entries ≠ [])
    (hk : k = .arrowUp ∨ k = .pageUp ∨ k = .pageDown) : ∃ t, e.recalled k = some t := by
  have found {r : Option Text × History historyLimit lineLimit}
      (hr : e.history.Goes r ∨ (e.history.entries = [] ∧ r = (none, e.history))) : ∃ t, r.1 = some t := by
    rcases hr with hr | ⟨hnil, -⟩
    · obtain ⟨t, -, ht⟩ := hr.found
      exact ⟨t, ht⟩
    · exact absurd hnil hsome
  rcases hk with rfl | rfl | rfl
  · exact found hs.history.goes_older
  · exact found History.goes_first
  · exact found History.goes_last

/-- **The editor and the history measure a line alike.**  In every editor that can be reached, of a history with room for an
entry, the line that is taken is recorded unless it is blank or an entry already; it is never too long.  And a key that
recalls an entry leaves that entry in the line, all of it, with the cursor at its end; where there are entries, `ArrowUp`,
`PageUp` and `PageDown` recall one. -/
theorem submitted_lines_recorded (hroom : 0 < historyLimit) (h : e.Reachable κ) :
    ((e.takeLine.2.history.push e.takeLine.1).1 = true ↔
      Text.trim e.takeLine.1 ≠ [] ∧ Text.trim e.takeLine.1 ∉ e.history.entries) ∧
    (∀ (c : Console κ) (k : Key) (entry : Text), e.recalled k = some entry →
      entry ∈ e.history.entries ∧ (e.apply c k).1 = .edited ∧ (e.apply c k).2.buffer = ⟨entry, entry.length⟩) ∧
    ∀ k : Key, k = .arrowUp ∨ k = .pageUp ∨ k = .pageDown → e.history.entries ≠ [] →
      ∃ entry, e.recalled k = some entry := by
  have hs := h.sound
  refine ⟨History.push_eq_true_iff hroom hs.buffer.fits, fun c k entry hentry => ?_, fun k hk hsome => ?_⟩
  · obtain ⟨hmem, hedited, hbuffer⟩ := hs.apply_of_recalled c hentry
    have hwhole : e.buffer.overwrite entry = .atEnd entry :=
      LineBuffer.overwrite_of_fits e.buffer (hs.history.recorded.fits entry hmem)
    exact ⟨hmem, hedited, hbuffer.trans hwhole⟩
  · exact hs.exists_recalled hsome hk

/-- A console without objects and commands. -/
def idle : Console Samples.Kind := .new .empty {}

/-- An editor of four bytes and one entry, after two characters of two bytes each. -/
def full : Editor 4 1 := (((Editor.new .empty).apply idle (.char 'é')).2.apply idle (.char 'é')).2

/-- The full editor once its line has been submitted and recorded. -/
def submitted : Editor 4 1 :=
  { full.takeLine.2 with history := History.Step.apply full.takeLine.2.history (.push full.takeLine.1) }

/-- The line that fills the editor is recorded, and comes back whole. -/
theorem submitted_lines_recorded_full :
    (full.takeLine.2.history.push full.takeLine.1).1 = true ∧
      (submitted.apply idle .arrowUp).2.buffer = ⟨"éé".toList, 2⟩ := by
  have hfull : full.Reachable Samples.Kind := .key idle _ (.key idle _ .fresh)
  have hsubmitted : submitted.Reachable Samples.Kind := .history _ (.taken hfull)
  obtain ⟨hrecorded, -, -⟩ := submitted_lines_recorded Nat.one_pos hfull
  obtain ⟨-, hwhole, -⟩ := submitted_lines_recorded Nat.one_pos hsubmitted
  obtain ⟨-, -, hbuffer⟩ := hwhole idle .arrowUp "éé".toList rfl
  exact ⟨hrecorded.2 (by decide), hbuffer⟩

end Editor
end CommandConsole

import CommandConsole.Line.History
import CommandConsole.Proofs.Text.Parts
import CommandConsole.Proofs.Text.Utf8
import Mathlib.Data.List.Nodup
/-!
# HistoryFile — a history and the file it is kept on

The file of a history is only ever appended to, while the history drops its oldest entry for a new one and may be cleared.
Still the two agree: what is remembered is the end of what opening the file anew would load, and all of it if nothing has
been cleared since the last opening (`entries_follow_file`).  The loader moves a line that comes again to the end, and so
makes up for a line that was recorded, dropped and recorded again.
-/
namespace CommandConsole

/-! ## Files of lines -/

/-- The file holds this text; one that is not there holds none. -/
def Disk.Holds (t : Text) : Disk → Prop
  | .absent        => t = []
  | .regular bytes => Utf8.decode? bytes = some t
  | .unusable      => False

/-- A text of whole lines: the last of them is ended as well. -/
def Text.Lined (t : Text) : Prop := t = [] ∨ t.getLast? = some '\n'

theorem encode_line (line : Text) : Utf8.encode line ++ [0x0A] = Utf8.encode (line ++ ['\n']) := by
  have hend : [(0x0A : UInt8)] = Utf8.encode ['\n'] := by decide
  rw [hend, Utf8.encode, Utf8.encode, Utf8.encode, List.flatMap_append]

/-- **A line that is appended to a file comes after what the file holds.** -/
theorem Disk.Holds.append {disk : Disk} {t : Text} (h : disk.Holds t) (line : Text) :
    (disk.append line).Holds (t ++ (line ++ ['\n'])) := by
  have hline := Utf8.decode?_encode (line ++ ['\n'])
  cases disk with
  | absent        =>
    cases h
    rw [Disk.append, encode_line]
    exact hline
  | regular bytes =>
    rw [Disk.append, List.append_assoc, encode_line]
    exact Utf8.decode?_append h hline
  | unusable      => exact h.elim

theorem Text.Lined.append (t line : Text) : Text.Lined (t ++ (line ++ ['\n'])) := by
  refine .inr ?_
  rw [← List.append_assoc, List.getLast?_concat]

namespace History

/-! ## Entries -/

/-- What the entries of a history are: distinct lines, trimmed and not too long, for which there is room. -/
structure Recorded (maxEntries maxBytes : Nat) (entries : List Text) : Prop where
  nodup    : entries.Nodup
  room     : entries.length ≤ maxEntries
  nonempty : ∀ e ∈ entries, e ≠ []
  trimmed  : ∀ e ∈ entries, Text.trim e = e
  fits     : ∀ e ∈ entries, Text.utf8Length e ≤ maxBytes

variable {maxEntries maxBytes : Nat} {entries loaded : List Text} {t : Text}

theorem acceptable_iff : acceptable maxEntries maxBytes entries t = true ↔
    maxEntries ≠ 0 ∧ t ≠ [] ∧ t ∉ entries ∧ Text.utf8Length t ≤ maxBytes := by
  simp [acceptable, and_assoc]

theorem recorded_nil : Recorded maxEntries maxBytes [] := ⟨List.nodup_nil, Nat.zero_le _, nofun, nofun, nofun⟩

theorem Recorded.sublist (h : Recorded maxEntries maxBytes loaded) (hsub : entries.Sublist loaded) :
    Recorded maxEntries maxBytes entries where
  nodup    := h.nodup.sublist hsub
  room     := hsub.length_le.trans h.room
  nonempty := fun e he => h.nonempty e (hsub.subset he)
  trimmed  := fun e he => h.trimmed e (hsub.subset he)
  fits     := fun e he => h.fits e (hsub.subset he)

/-- A new line comes after the entries that stay, which are the newest of those there were. -/
theorem addNewest_eq (hsome : maxEntries ≠ 0) (hroom : entries.length ≤ maxEntries) (t : Text) :
    ∃ kept, addNewest maxEntries entries t = kept ++ [t] ∧ kept <:+ entries ∧ kept.length < maxEntries := by
  unfold addNewest
  by_cases hfull : maxEntries ≤ entries.length
  · refine ⟨entries.drop 1, by rw [if_pos hfull], List.drop_suffix 1 entries, ?_⟩
    rw [List.length_drop]
    omega
  · exact ⟨entries, by rw [if_neg hfull], List.suffix_refl entries, by omega⟩

theorem Recorded.addNewest (h : Recorded maxEntries maxBytes entries) (htrim : Text.trim t = t)
    (ht : acceptable maxEntries maxBytes entries t = true) :
    Recorded maxEntries maxBytes (addNewest maxEntries entries t) := by
  obtain ⟨hsome, hne, hnew, hfits⟩ := acceptable_iff.1 ht
  obtain ⟨kept, heq, hkept, hlength⟩ := addNewest_eq hsome h.room t
  have hold := h.sublist hkept.sublist
  have hmem {p : Text → Prop} (hkept : ∀ e ∈ kept, p e) (ht : p t) : ∀ e ∈ kept ++ [t], p e := by
    simpa [or_imp, forall_and] using ⟨hkept, ht⟩
  rw [heq]
  refine ⟨?_, ?_, hmem hold.nonempty hne, hmem hold.trimmed htrim, hmem hold.fits hfits⟩
  · refine List.nodup_append.2 ⟨hold.nodup, List.nodup_singleton t, fun e he u hu heu => ?_⟩
    rw [heu, List.mem_singleton.1 hu] at he
    exact hnew (hkept.subset he)
  · rw [List.length_append, List.length_singleton]
    omega

/-! ## Loading -/

theorem Recorded.loadLine (h : Recorded maxEntries maxBytes entries) (line : Text) :
    Recorded maxEntries maxBytes (loadLine maxEntries maxBytes entries line) := by
  have hothers : Recorded maxEntries maxBytes (entries.erase (Text.trim line)) := h.sublist List.erase_sublist
  unfold History.loadLine
  dsimp only
  split
  · rename_i ht
    exact hothers.addNewest (Text.trim_trim line) ht
  · exact hothers

theorem recorded_foldl (lines : List Text) : ∀ {entries : List Text}, Recorded maxEntries maxBytes entries →
    Recorded maxEntries maxBytes (lines.foldl (loadLine maxEntries maxBytes) entries) := by
  induction lines with
  | nil             => exact id
  | cons line lines ih => exact fun h => ih (h.loadLine line)

/-- **What a file leaves is entries of a history.** -/
theorem recorded_load (maxEntries maxBytes : Nat) (text : Text) :
    Recorded maxEntries maxBytes (load maxEntries maxBytes text) :=
  recorded_foldl _ recorded_nil

/-- The rest of a line that has not begun changes nothing. -/
theorem loadLine_nil (h : Recorded maxEntries maxBytes entries) : loadLine maxEntries maxBytes entries [] = entries := by
  have habsent : [] ∉ entries := fun hmem => h.nonempty [] hmem rfl
  have hrefused : acceptable maxEntries maxBytes entries [] = false := by
    rw [Bool.eq_false_iff, ne_eq, acceptable_iff]
    exact fun h => h.2.1 rfl
  have htrim : Text.trim [] = [] := rfl
  rw [loadLine, htrim, List.erase_of_not_mem habsent, hrefused, if_neg Bool.false_ne_true]

theorem load_concat (maxEntries maxBytes : Nat) (text : Text) : load maxEntries maxBytes (text ++ ['\n']) =
    (Text.splitOn '\n' text).foldl (loadLine maxEntries maxBytes) [] := by
  rw [load, Text.splitOn_append_sep, List.foldl_append]
  exact loadLine_nil (recorded_foldl _ recorded_nil)

theorem load_nil : load maxEntries maxBytes [] = [] := loadLine_nil recorded_nil

/-- **A file with one more line is loaded by loading that line last.** -/
theorem load_append_line {text line : Text} (hended : text.Lined) (hline : '\n' ∉ line) :
    load maxEntries maxBytes (text ++ (line ++ ['\n'])) =
      loadLine maxEntries maxBytes (load maxEntries maxBytes text) line := by
  rw [← List.append_assoc, load_concat]
  rcases hended with rfl | hlast
  · rw [List.nil_append, Text.splitOn_of_not_mem hline, load_nil]
    rfl
  · obtain ⟨u, rfl⟩ := List.getLast?_eq_some_iff.1 hlast
    rw [List.append_assoc, List.singleton_append, Text.splitOn_append_sep, Text.splitOn_of_not_mem hline,
      List.foldl_append, load_concat]
    rfl

/-- Adding a line keeps what is remembered the end of what is loaded: memory is full only when both are the same. -/
theorem addNewest_suffix (h : entries <:+ loaded) (hroom : loaded.length ≤ maxEntries) (t : Text) :
    addNewest maxEntries entries t <:+ addNewest maxEntries loaded t := by
  have hconcat {old new : List Text} (h : old <:+ new) : old ++ [t] <:+ new ++ [t] := by
    obtain ⟨older, rfl⟩ := h
    exact ⟨older, (List.append_assoc ..).symm⟩
  have hlength := h.length_le
  unfold addNewest
  by_cases hfull : maxEntries ≤ entries.length
  · obtain rfl : entries = loaded := h.eq_of_length (by omega)
    exact List.suffix_refl _
  · rw [if_neg hfull]
    obtain ⟨older, rfl⟩ := h
    cases older with
    | nil        =>
      rewrite [List.nil_append, if_neg hfull]
      exact List.suffix_refl _
    | cons e older =>
      split
      · exact hconcat (List.suffix_append older entries)
      · exact hconcat (List.suffix_append (e :: older) entries)

/-- **A line that is recorded is loaded to the same effect.**  The loader moves it to the end if it is still there. -/
theorem addNewest_suffix_loadLine (h : entries <:+ loaded) (hloaded : Recorded maxEntries maxBytes loaded)
    (htrim : Text.trim t = t) (ht : acceptable maxEntries maxBytes entries t = true) :
    addNewest maxEntries entries t <:+ loadLine maxEntries maxBytes loaded t := by
  obtain ⟨hsome, hne, hnew, hfits⟩ := acceptable_iff.1 ht
  have hothers : entries <:+ loaded.erase t := by
    obtain ⟨older, rfl⟩ := h
    by_cases hmem : t ∈ older
    · rw [List.erase_append_left entries hmem]
      exact List.suffix_append (older.erase t) entries
    · rw [List.erase_append_right entries hmem, List.erase_of_not_mem hnew]
      exact List.suffix_append older entries
  have haccepted : acceptable maxEntries maxBytes (loaded.erase t) t = true :=
    acceptable_iff.2 ⟨hsome, hne, hloaded.nodup.not_mem_erase, hfits⟩
  rw [loadLine, htrim, if_pos haccepted]
  exact addNewest_suffix hothers (hloaded.sublist List.erase_sublist).room t

theorem loadLine_of_acceptable (htrim : Text.trim t = t) (ht : acceptable maxEntries maxBytes entries t = true) :
    loadLine maxEntries maxBytes entries t = addNewest maxEntries entries t := by
  rw [loadLine, htrim, List.erase_of_not_mem (acceptable_iff.1 ht).2.2.1, if_pos ht]

/-! ## Steps -/

/-- What a shell does to its history. -/
inductive Step where
  | push (line : Text)
  | clear | older | newer | first | last
  /-- Opens the history anew from its file. -/
  | reopen

def Step.apply (h : History maxEntries maxBytes) : Step → History maxEntries maxBytes
  | .push line => (h.push line).2
  | .clear     => h.clear
  | .older     => h.older.2
  | .newer     => h.newer.2
  | .first     => h.first.2
  | .last      => h.last.2
  | .reopen    => h.reopen

/-- The history after a sequence of steps. -/
def after (h : History maxEntries maxBytes) (steps : List Step) : History maxEntries maxBytes := steps.foldl Step.apply h

/-- Has a history been cleared since it was last opened?  `before` says so for the time before the step. -/
def Step.cleared (before : Bool) : Step → Bool
  | .clear  => true
  | .reopen => false
  | _       => before

def clearedSinceOpening (steps : List Step) : Bool := steps.foldl Step.cleared false

/-- What is remembered is the end of what the file holds, and all of it if nothing has been cleared. -/
structure Follows (h : History maxEntries maxBytes) (cleared : Bool) (disk : Disk) (text : Text) : Prop where
  file   : h.file = some disk
  holds  : disk.Holds text
  lined  : text.Lined
  suffix : h.entries <:+ load maxEntries maxBytes text
  whole  : cleared = false → h.entries = load maxEntries maxBytes text

theorem entries_open {disk : Disk} {text : Text} (h : disk.Holds text) :
    («open» disk : History maxEntries maxBytes).entries = load maxEntries maxBytes text := by
  cases disk with
  | absent        =>
    cases h
    exact load_nil.symm
  | regular bytes =>
    have h : Utf8.decode? bytes = some text := h
    rw [«open», Disk.text?, h]
    rfl
  | unusable      => exact h.elim

theorem follows_open {disk : Disk} {text : Text} (h : disk.Holds text) (hlined : text.Lined) :
    Follows («open» disk : History maxEntries maxBytes) false disk text where
  file   := rfl
  holds  := h
  lined  := hlined
  suffix := by
    rewrite [entries_open h]
    exact List.suffix_refl _
  whole  := fun _ => entries_open h

/-- Going through the entries changes neither them nor the file. -/
theorem navigate_keeps (h : History maxEntries maxBytes) {s : Step}
    (hs : s = .older ∨ s = .newer ∨ s = .first ∨ s = .last) :
    (s.apply h).entries = h.entries ∧ (s.apply h).file = h.file := by
  rcases hs with rfl | rfl | rfl | rfl <;>
    simp only [Step.apply, older, newer, first, last, goTo] <;>
    (repeat' split) <;> exact ⟨rfl, rfl⟩

theorem Follows.push {h : History maxEntries maxBytes} {cleared : Bool} {disk : Disk} {text line : Text}
    (hf : h.Follows cleared disk text) (hline : '\n' ∉ line) :
    ∃ disk' text', (h.push line).2.Follows cleared disk' text' := by
  unfold History.push
  dsimp only
  split
  · rename_i ht
    have htrim := Text.trim_trim line
    have hsingle : '\n' ∉ Text.trim line := fun hmem => hline (Text.mem_of_mem_trim hmem)
    have hload : load maxEntries maxBytes _ = _ := load_append_line hf.lined hsingle
    refine ⟨_, _, ?_, hf.holds.append (Text.trim line), .append text _, ?_, fun hc => ?_⟩
    · rw [hf.file]
      rfl
    · rw [hload]
      exact addNewest_suffix_loadLine hf.suffix (recorded_load ..) htrim ht
    · have hwhole := hf.whole hc
      rw [hload, ← hwhole, loadLine_of_acceptable htrim ht]
  · exact ⟨disk, text, hf.file, hf.holds, hf.lined, hf.suffix, hf.whole⟩

/-- **Every step keeps memory the end of the file.** -/
theorem Follows.step {h : History maxEntries maxBytes} {cleared : Bool} {disk : Disk} {text : Text}
    (hf : h.Follows cleared disk text) (s : Step) (hs : ∀ line, s = .push line → '\n' ∉ line) :
    ∃ disk' text', (s.apply h).Follows (s.cleared cleared) disk' text' := by
  have hnavigate (hs : s = .older ∨ s = .newer ∨ s = .first ∨ s = .last) : (s.apply h).Follows cleared disk text := by
    obtain ⟨hentries, hfile⟩ := h.navigate_keeps hs
    exact ⟨hfile.trans hf.file, hf.holds, hf.lined, hentries ▸ hf.suffix, fun hc => hentries.trans (hf.whole hc)⟩
  cases s with
  | push line => exact hf.push (hs line rfl)
  | clear     => exact ⟨disk, text, hf.file, hf.holds, hf.lined, List.nil_suffix, nofun⟩
  | older     => exact ⟨disk, text, hnavigate (by simp)⟩
  | newer     => exact ⟨disk, text, hnavigate (by simp)⟩
  | first     => exact ⟨disk, text, hnavigate (by simp)⟩
  | last      => exact ⟨disk, text, hnavigate (by simp)⟩
  | reopen    =>
    refine ⟨disk, text, ?_⟩
    rw [Step.apply, reopen, hf.file]
    exact follows_open hf.holds hf.lined

theorem Follows.after : ∀ (steps : List Step) {h : History maxEntries maxBytes} {cleared : Bool} {disk : Disk} {text : Text},
    h.Follows cleared disk text → (∀ line, Step.push line ∈ steps → '\n' ∉ line) →
      ∃ disk' text', (h.after steps).Follows (steps.foldl Step.cleared cleared) disk' text'
  | [],         _, _, disk, text, hf, _ => ⟨disk, text, hf⟩
  | s :: steps, h, _, _,    _,    hf, hs => by
    obtain ⟨disk, text, hf⟩ := hf.step s (fun line heq => hs line (heq ▸ List.mem_cons_self))
    exact hf.after steps (fun line hmem => hs line (List.mem_cons_of_mem s hmem))

/-- **A history and its file never drift apart.**  After any steps from the opening of a file of lines, what is remembered
is the end of what the file as it is then would be opened with, and all of it if nothing has been cleared since the last
opening. -/
theorem entries_follow_file {disk : Disk} {text : Text} (hdisk : disk.Holds text) (hlined : text.Lined)
    (steps : List Step) (hsteps : ∀ line, Step.push line ∈ steps → '\n' ∉ line) :
    let h : History maxEntries maxBytes := after («open» disk) steps
    ∃ file, h.file = some file ∧ h.entries <:+ («open» file : History maxEntries maxBytes).entries ∧
      (clearedSinceOpening steps = false → h.entries = («open» file : History maxEntries maxBytes).entries) := by
  obtain ⟨file, after, hf⟩ := Follows.after steps (follows_open hdisk hlined) hsteps
  refine ⟨file, hf.file, ?_, ?_⟩
  · rw [entries_open hf.holds]
    exact hf.suffix
  · rw [entries_open hf.holds]
    exact hf.whole

/-- A line that was dropped is recorded again, and one that was cleared. -/
theorem entries_follow_file_refilled :
    let steps : List Step := [.push ['c'], .push [' ', 'a'], .older, .clear, .push ['c', '\r']]
    let h : History 2 8 := after («open» (.regular (Utf8.encode ['a', '\n', 'b', '\n']))) steps
    h.entries = [['c']] ∧ ∃ file, h.file = some file ∧ («open» file : History 2 8).entries = [['a'], ['c']] ∧
      h.entries <:+ («open» file : History 2 8).entries := by
  intro steps h
  have hdisk : (Disk.regular (Utf8.encode ['a', '\n', 'b', '\n'])).Holds ['a', '\n', 'b', '\n'] := Utf8.decode?_encode _
  have hsteps : ∀ line, Step.push line ∈ steps → '\n' ∉ line := by
    intro line hmem
    simp only [steps, List.mem_cons, Step.push.injEq, reduceCtorEq, List.not_mem_nil, or_false, false_or] at hmem
    rcases hmem with rfl | rfl | rfl <;> decide
  obtain ⟨file, hfile, hsuffix, -⟩ := @entries_follow_file 2 8 _ _ hdisk (.inr rfl) steps hsteps
  have hentries : h.entries = [['c']] := by decide +kernel
  have hheld : h.file = some (.regular (Utf8.encode ['a', '\n', 'b', '\n', 'c', '\n', 'a', '\n', 'c', '\n'])) := by
    decide +kernel
  refine ⟨hentries, file, hfile, ?_, hsuffix⟩
  cases hfile.symm.trans hheld
  decide +kernel

end History
end CommandConsole

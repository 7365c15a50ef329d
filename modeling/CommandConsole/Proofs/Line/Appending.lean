import CommandConsole.Proofs.Command.Words
import CommandConsole.Proofs.Line.Loading
/-!
# Appending — what a recorded line becomes in the file

A line that is recorded is written after what the file holds, with a line feed after it; how the file ends is not looked at.
A text is lines that are ended and a rest that is not (`exists_ended`).  Where there is no rest, the new line is one more line
of the file, and the newest entry once the file is opened anew.  Where there is one, the new line is run together with it
(`recorded_line_survives_iff`), and neither of the two is left as it was (`recorded_line_joins_rest`).
-/
namespace CommandConsole

namespace Text

variable {t w line : Text}

/-! ## Lines that are ended and a rest that is not -/

/-- A line without the carriage return that belongs to its end. -/
def withoutReturn (line : Text) : Text := if line.getLast? = some '\r' then line.dropLast else line

/-- The text of lines that each end in a line feed. -/
def ended (ls : List Text) : Text := ls.flatMap (· ++ ['\n'])

theorem ended_cons (l : Text) (ls : List Text) : ended (l :: ls) = l ++ '\n' :: ended ls := by
  rw [ended, List.flatMap_cons, List.append_assoc]
  rfl

theorem ended_concat (ls : List Text) (l : Text) : ended (ls ++ [l]) = ended ls ++ (l ++ ['\n']) := by
  rw [ended, List.flatMap_append, List.flatMap_singleton]
  rfl

/-- **Every text is lines that are ended, and a rest.** -/
theorem exists_ended : ∀ t : Text, ∃ ls rest, t = ended ls ++ rest ∧ (∀ l ∈ ls, '\n' ∉ l) ∧ '\n' ∉ rest
  | []     => ⟨[], [], rfl, nofun, List.not_mem_nil⟩
  | c :: t => by
    obtain ⟨ls, rest, rfl, hls, hrest⟩ := exists_ended t
    by_cases hc : c = '\n'
    · refine ⟨[] :: ls, rest, ?_, List.forall_mem_cons.2 ⟨List.not_mem_nil, hls⟩, hrest⟩
      rw [hc, ended_cons]
      rfl
    · have hopen {l : Text} (hl : '\n' ∉ l) : '\n' ∉ c :: l := by
        rw [List.mem_cons, not_or]
        exact ⟨Ne.symm hc, hl⟩
      cases ls with
      | nil       => exact ⟨[], c :: rest, rfl, nofun, hopen hrest⟩
      | cons l ls =>
        obtain ⟨hl, hls⟩ := List.forall_mem_cons.1 hls
        refine ⟨(c :: l) :: ls, rest, ?_, List.forall_mem_cons.2 ⟨hopen hl, hls⟩, hrest⟩
        rw [ended_cons, ended_cons]
        rfl

theorem lined_iff {ls : List Text} {rest : Text} (hrest : '\n' ∉ rest) : (ended ls ++ rest).Lined ↔ rest = [] := by
  constructor
  · intro h
    by_contra hne
    have hlast := List.getLast?_eq_some_getLast hne
    rcases h with hnil | hfeed
    · exact hne (List.append_eq_nil_iff.1 hnil).2
    · rw [List.getLast?_append, hlast] at hfeed
      have hlast : rest.getLast hne = '\n' := Option.some.inj hfeed
      exact hrest (hlast ▸ List.getLast_mem hne)
  · rintro rfl
    rw [List.append_nil]
    induction ls using List.reverseRecOn with
    | nil                      => exact .inl rfl
    | append_singleton ls l ih => exact ended_concat ls l ▸ .append (ended ls) l

/-! ## Reading them -/

theorem lines_cons {c : Char} {l : Text} {ls : List Text} (hfeed : c ≠ '\n') (hreturn : c = '\r' → t.head? ≠ some '\n')
    (h : lines t = l :: ls) : lines (c :: t) = (c :: l) :: ls := by
  rw [lines.eq_4 c t hfeed (fun u hc ht => hreturn hc (by rw [ht]; rfl)), h]

theorem withoutReturn_cons_cons (c d : Char) (l : Text) : withoutReturn (c :: d :: l) = c :: withoutReturn (d :: l) := by
  unfold withoutReturn
  rw [List.getLast?_cons_cons]
  split <;> rfl

/-- An ended line is read without its end, and what comes after it is read apart from it. -/
theorem lines_append_lineFeed (t : Text) : ∀ {l : Text}, '\n' ∉ l → lines (l ++ '\n' :: t) = withoutReturn l :: lines t
  | [],         _  => rfl
  | [c],        hl => by
    have hfeed : c ≠ '\n' := fun h => hl (h ▸ List.mem_singleton_self c)
    by_cases hreturn : c = '\r'
    · rw [hreturn]
      rfl
    · have hopen : withoutReturn [c] = [c] := if_neg (by simpa using hreturn)
      rw [hopen]
      exact lines_cons hfeed (fun h => absurd h hreturn) rfl
  | c :: d :: l, hl => by
    rw [List.mem_cons, not_or] at hl
    have hd : d ≠ '\n' := fun h => hl.2 (h ▸ List.mem_cons_self)
    rw [withoutReturn_cons_cons]
    exact lines_cons (Ne.symm hl.1) (fun _ h => hd (Option.some.inj h)) (lines_append_lineFeed t hl.2)

theorem lines_of_not_mem : ∀ {rest : Text}, '\n' ∉ rest → lines rest = if rest = [] then [] else [rest]
  | [],     _ => rfl
  | c :: r, h => by
    rw [List.mem_cons, not_or] at h
    have ih := lines_of_not_mem h.2
    rw [lines.eq_4 c r (Ne.symm h.1) (fun u _ hu => h.2 (hu ▸ List.mem_cons_self)), ih, if_neg (List.cons_ne_nil c r)]
    cases r <;> rfl

/-- **The lines of a text are those that are ended, without their ends, and the rest if there is one.** -/
theorem lines_ended {ls : List Text} (hls : ∀ l ∈ ls, '\n' ∉ l) (rest : Text) :
    lines (ended ls ++ rest) = ls.map withoutReturn ++ lines rest := by
  induction ls with
  | nil          => rfl
  | cons l ls ih =>
    obtain ⟨hl, hls⟩ := List.forall_mem_cons.1 hls
    rw [ended_cons, List.append_assoc, List.cons_append, lines_append_lineFeed _ hl, ih hls]
    rfl

/-! ## A trimmed line after a rest -/

theorem trimEnd_append_trim (w : Text) (hne : trim line ≠ []) : trimEnd (w ++ trim line) = w ++ trim line := by
  have hend : trimEnd (trim line) = trim line := trimEnd_trimEnd _
  have hreverse : (trim line).reverse.dropWhile isBlank = (trim line).reverse := by
    rw [← List.reverse_inj, List.reverse_reverse]
    exact hend
  rw [trimEnd, List.reverse_append, List.dropWhile_append, hreverse, if_neg (by simpa using hne), ← List.reverse_append,
    List.reverse_reverse]

/-- A trimmed line that is run together with what stands before it ends as it did. -/
theorem trim_append_trim (w : Text) (hne : trim line ≠ []) : trim (w ++ trim line) = trimStart w ++ trim line := by
  have hstart : trimStart (trim line) = trim line := by
    conv_rhs => rw [trim_eq]
    rw [trim_eq]
    exact List.dropWhile_idempotent ..
  rw [trim_eq, trimEnd_append_trim w hne, trimStart, List.dropWhile_append]
  split
  · rename_i hblank
    rw [← trimStart, hstart, trimStart, List.isEmpty_iff.1 hblank]
    rfl
  · rfl

/-- Nothing of a trimmed line belongs to the end of the line. -/
theorem withoutReturn_append_trim (w : Text) (hne : trim line ≠ []) :
    withoutReturn (w ++ trim line) = w ++ trim line := by
  have hends := endsBlank_trimEnd (w ++ trim line)
  rw [trimEnd_append_trim w hne] at hends
  refine if_neg fun hreturn => ?_
  rw [endsBlank, hreturn] at hends
  exact absurd hends (by decide)

/-- A line that is written after a text ends the rest of it, whether there is one or not. -/
theorem lines_append_line {ls : List Text} {rest : Text} (hls : ∀ l ∈ ls, '\n' ∉ l) (hrest : '\n' ∉ rest)
    (hline : '\n' ∉ trim line) (hne : trim line ≠ []) :
    lines (ended ls ++ rest ++ (trim line ++ ['\n'])) = ls.map withoutReturn ++ [rest ++ trim line] := by
  have hopen : '\n' ∉ rest ++ trim line := by
    rw [List.mem_append, not_or]
    exact ⟨hrest, hline⟩
  have hall : ∀ l ∈ ls ++ [rest ++ trim line], '\n' ∉ l :=
    List.forall_mem_append.2 ⟨hls, List.forall_mem_singleton.2 hopen⟩
  have hended : ended ls ++ rest ++ (trim line ++ ['\n']) = ended (ls ++ [rest ++ trim line]) ++ [] := by
    rw [ended_concat]
    simp only [List.append_assoc, List.append_nil]
  have hnone : lines [] = [] := rfl
  rw [hended, lines_ended hall, hnone, List.append_nil, List.map_append, List.map_singleton,
    withoutReturn_append_trim rest hne]

end Text

namespace History

variable {maxEntries maxBytes : Nat} {h : History maxEntries maxBytes} {disk : Disk} {text line : Text}

/-! ## Recording and opening anew -/

theorem push_of_accepted (haccepted : (h.push line).1 = true) :
    acceptable maxEntries maxBytes h.entries (Text.trim line) = true ∧
      (h.push line).2.file = h.file.map (Disk.append (Text.trim line)) := by
  unfold History.push at haccepted ⊢
  dsimp only at haccepted ⊢
  split at haccepted
  · rename_i ht
    rw [if_pos ht]
    exact ⟨ht, rfl⟩
  · cases haccepted

theorem entries_reopen (hfile : h.file = some disk) (hheld : disk.Holds text) :
    h.reopen.entries = load maxEntries maxBytes text := by
  rw [reopen, hfile]
  exact entries_open hheld

/-- The last line of a text is the newest entry that it leaves, if it may be an entry. -/
theorem getLast?_load {earlier : List Text} {last : Text} (hlines : Text.lines text = earlier ++ [last])
    (hsome : maxEntries ≠ 0) (hne : Text.trim last ≠ []) (hfits : Text.utf8Length (Text.trim last) ≤ maxBytes) :
    (load maxEntries maxBytes text).getLast? = some (Text.trim last) := by
  obtain ⟨n, rfl⟩ := Nat.exists_eq_succ_of_ne_zero hsome
  have hlast : recordable maxBytes [last] = [Text.trim last] := by simp [recordable, hne, hfits]
  rw [load_eq, hlines, recordable_append, hlast, dedup_concat, List.rtake_concat_succ, List.getLast?_concat]

/-- **A recorded line survives in the file just where the file ends in a line feed**, or holds nothing.  There the lines of the
file are those it had and the new one, which is the newest entry once the file is opened anew.  Anywhere else the last line of
the file and the new one become one line, and that line is the newest entry unless it is too long. -/
theorem recorded_line_survives_iff (hfile : h.file = some disk) (hheld : disk.Holds text) (hline : '\n' ∉ line)
    (haccepted : (h.push line).1 = true) :
    let after := text ++ (Text.trim line ++ ['\n'])
    let newest := (h.push line).2.reopen.entries.getLast?
    (∃ disk', (h.push line).2.file = some disk' ∧ disk'.Holds after) ∧
      (Text.lines after = Text.lines text ++ [Text.trim line] ↔ text.Lined) ∧
      (text.Lined → newest = some (Text.trim line)) ∧
      (¬ text.Lined → ∃ earlier last, Text.lines text = earlier ++ [last] ∧
        Text.lines after = earlier ++ [last ++ Text.trim line] ∧
        (Text.utf8Length (Text.trimStart last ++ Text.trim line) ≤ maxBytes →
          newest = some (Text.trimStart last ++ Text.trim line))) := by
  intro after newest
  obtain ⟨hacceptable, hpushed⟩ := push_of_accepted haccepted
  obtain ⟨hsome, hne, -, hfits⟩ := acceptable_iff.1 hacceptable
  rw [hfile, Option.map_some] at hpushed
  have hholds : (disk.append (Text.trim line)).Holds after := hheld.append (Text.trim line)
  have hload : newest = (load maxEntries maxBytes after).getLast? := congrArg List.getLast? (entries_reopen hpushed hholds)
  have hsingle : '\n' ∉ Text.trim line := fun hmem => hline (Text.mem_of_mem_trim hmem)
  obtain ⟨ls, rest, rfl, hls, hrest⟩ := Text.exists_ended text
  have hafter : Text.lines after = ls.map Text.withoutReturn ++ [rest ++ Text.trim line] :=
    Text.lines_append_line hls hrest hsingle hne
  have hnewest (hfits : Text.utf8Length (Text.trimStart rest ++ Text.trim line) ≤ maxBytes) :
      newest = some (Text.trimStart rest ++ Text.trim line) := by
    have htrim := Text.trim_append_trim rest hne
    rw [← htrim] at hfits
    rw [hload, ← htrim]
    exact getLast?_load hafter hsome (htrim ▸ List.append_ne_nil_of_right_ne_nil _ hne) hfits
  rw [Text.lined_iff hrest, hafter, Text.lines_ended hls, Text.lines_of_not_mem hrest]
  refine ⟨⟨_, hpushed, hholds⟩, ?_, ?_, fun hopen => ?_⟩
  · by_cases hopen : rest = []
    · simp [hopen]
    · -- there are as many lines as before
      refine iff_of_false (fun heq => ?_) hopen
      have hlength := congrArg List.length heq
      simp [hopen] at hlength
  · rintro rfl
    exact hnewest hfits
  · rw [if_neg hopen]
    exact ⟨_, rest, rfl, rfl, hnewest⟩

/-- After lines that end in a carriage return and a line feed, in a history that was cleared. -/
theorem recorded_line_survives_iff_cleared :
    let h : History 2 8 := (History.open (.regular (Utf8.encode "a\r\nb\r\n".toList))).clear
    (h.push " c ".toList).1 = true ∧
      Text.lines "a\r\nb\r\nc\n".toList = Text.lines "a\r\nb\r\n".toList ++ ["c".toList] ∧
      (h.push " c ".toList).2.reopen.entries.getLast? = some "c".toList := by
  intro h
  have hheld : (Disk.regular (Utf8.encode "a\r\nb\r\n".toList)).Holds "a\r\nb\r\n".toList := Utf8.decode?_encode _
  have haccepted : (h.push " c ".toList).1 = true := by decide +kernel
  obtain ⟨-, hlines, hnewest, -⟩ := recorded_line_survives_iff (h := h) rfl hheld (by decide) haccepted
  have hlined : Text.Lined "a\r\nb\r\n".toList := .inr (by decide)
  exact ⟨haccepted, hlines.2 hlined, hnewest hlined⟩

/-- **A recorded line does not survive after a line that has no end.**  The file `abc` without a line feed becomes the one line
`abcx`; once it is opened anew, neither `abc` nor `x` is an entry, though both were. -/
theorem recorded_line_joins_rest :
    let h : History 4 32 := History.open (.regular (Utf8.encode "abc".toList))
    (h.push ['x']).1 = true ∧ (h.push ['x']).2.entries = ["abc".toList, ['x']] ∧
      (h.push ['x']).2.file = some (.regular (Utf8.encode "abcx\n".toList)) ∧
      Text.lines "abcx\n".toList = ["abcx".toList] ∧ Text.lines "abc".toList ++ [['x']] = ["abc".toList, ['x']] ∧
      (h.push ['x']).2.reopen.entries = ["abcx".toList] := by
  decide +kernel

end History
end CommandConsole

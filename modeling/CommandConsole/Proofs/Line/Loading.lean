import CommandConsole.Proofs.Line.HistoryFile
import Mathlib.Data.List.Dedup
import Mathlib.Data.List.DropRight
/-!
# Loading — what a history file leaves

The loader goes through the file line by line: a line that is there already moves to the end, and the oldest entry goes when
there is no room.  What is left is told by the file as a whole: of the lines that may be entries, each at the place where it
comes last, the last ones (`load_eq`, `entries_open_eq`).
-/
namespace CommandConsole

/-! ## The lines of a text -/

/-- The lines of a text without their ends.  A line ends in a line feed, or in a carriage return and a line feed; the last
one may have no end. -/
def Text.lines : Text → List Text
  | []                => []
  | '\n' :: t         => [] :: lines t
  | '\r' :: '\n' :: t => [] :: lines t
  | c :: t            =>
    match lines t with
    | []      => [[c]]
    | l :: ls => (c :: l) :: ls

namespace Text

theorem trimEnd_congr_cons (c : Char) {p q : Text} (h : trimEnd p = trimEnd q) : trimEnd (c :: p) = trimEnd (c :: q) := by
  have h : p.reverse.dropWhile isBlank = q.reverse.dropWhile isBlank := List.reverse_injective h
  rw [trimEnd, trimEnd, List.reverse_cons, List.reverse_cons, List.dropWhile_append, List.dropWhile_append, h]

theorem trimEnd_cons_blank {c : Char} (hc : isBlank c = true) (t : Text) :
    trimEnd (c :: t) = if trimEnd t = [] then [] else c :: trimEnd t := by
  rw [trimEnd, trimEnd, List.reverse_cons, List.dropWhile_append]
  by_cases h : t.reverse.dropWhile isBlank = []
  · simp [h, hc]
  · simp [h]

/-- The blanks at the two ends may be taken away in either order. -/
theorem trim_eq (t : Text) : trim t = trimStart (trimEnd t) := by
  induction t with
  | nil         => rfl
  | cons c t ih =>
    by_cases hc : isBlank c = true
    · have hskip (u : Text) : trimStart (c :: u) = trimStart u := List.dropWhile_cons_of_pos hc
      rw [trim, hskip, trimEnd_cons_blank hc, ← trim, ih]
      split
      · rename_i hnil
        rw [hnil]
      · rw [hskip]
    · have hc : isBlank c = false := by simpa using hc
      rw [trim, trimStart_cons hc, trimEnd_cons hc, trimStart_cons hc]

theorem splitOn_cons_of_ne {sep c : Char} (hc : c ≠ sep) {t p : Text} {ps : List Text} (h : splitOn sep t = p :: ps) :
    splitOn sep (c :: t) = (c :: p) :: ps := by rw [splitOn, if_neg hc, h]

/-- The lines of a text are its pieces between line feeds, up to blanks at their ends and up to a last piece that has not
begun. -/
theorem map_trimEnd_lines (t : Text) : (splitOn '\n' t).map trimEnd = (lines t).map trimEnd ∨
    (splitOn '\n' t).map trimEnd = (lines t).map trimEnd ++ [[]] := by
  fun_induction lines t with
  | case1 => exact .inr rfl
  | case2 t ih =>
    have hsplit : splitOn '\n' ('\n' :: t) = [] :: splitOn '\n' t := if_pos rfl
    rw [hsplit]
    simpa only [List.map_cons, List.cons_append, List.cons.injEq, true_and] using ih
  | case3 t ih =>
    have hsplit : splitOn '\n' ('\r' :: '\n' :: t) = ['\r'] :: splitOn '\n' t := splitOn_append_sep '\n' t ['\r']
    have hreturn : trimEnd ['\r'] = trimEnd [] := by decide
    rw [hsplit]
    simpa only [List.map_cons, List.cons_append, List.cons.injEq, hreturn, true_and] using ih
  | case4 c t hfeed hreturn hnil ih =>
    obtain ⟨p, ps, hsplit⟩ := List.exists_cons_of_ne_nil (splitOn_ne_nil '\n' t)
    rw [splitOn_cons_of_ne hfeed hsplit]
    rw [hsplit, hnil] at ih
    rcases ih with ih | ih
    · cases ih
    · obtain ⟨hp, rfl⟩ : trimEnd p = [] ∧ ps = [] := by simpa using ih
      exact .inl (congrArg (fun q => [q]) (trimEnd_congr_cons c hp))
  | case5 c t hfeed hreturn l ls hlines ih =>
    obtain ⟨p, ps, hsplit⟩ := List.exists_cons_of_ne_nil (splitOn_ne_nil '\n' t)
    rw [splitOn_cons_of_ne hfeed hsplit]
    rw [hsplit, hlines] at ih
    simp only [List.map_cons, List.cons_append, List.cons.injEq] at ih ⊢
    exact ih.imp (.imp_left (trimEnd_congr_cons c)) (.imp_left (trimEnd_congr_cons c))

end Text

/-! ## The end of a list -/

namespace History

variable {maxEntries maxBytes n : Nat} {entries lasting : List Text} {t : Text}

theorem rtake_eq_of_suffix (h : entries <:+ lasting) (hn : min n lasting.length ≤ entries.length) :
    entries.rtake n = lasting.rtake n := by
  obtain ⟨older, rfl⟩ := h
  rw [List.length_append] at hn
  unfold List.rtake
  by_cases hle : n ≤ entries.length
  · have hdrop : (older ++ entries).length - n = older.length + (entries.length - n) := by
      rw [List.length_append]
      omega
    rw [hdrop, List.drop_length_add_append]
  · obtain rfl : older = [] := List.eq_nil_of_length_eq_zero (by omega)
    rfl

theorem erase_suffix_erase (h : entries <:+ lasting) (hnodup : lasting.Nodup) (t : Text) :
    entries.erase t <:+ lasting.erase t := by
  obtain ⟨older, rfl⟩ := h
  by_cases hmem : t ∈ older
  · have hnew : t ∉ entries := fun h => List.disjoint_of_nodup_append hnodup hmem h
    rw [List.erase_append_left entries hmem, List.erase_of_not_mem hnew]
    exact List.suffix_append ..
  · rw [List.erase_append_right entries hmem]
    exact List.suffix_append ..

/-- An entry may be taken out before the last `n` others are taken or after it, if one more is taken at first. -/
theorem rtake_erase_rtake (hnodup : lasting.Nodup) (n : Nat) (t : Text) :
    ((lasting.rtake (n + 1)).erase t).rtake n = (lasting.erase t).rtake n := by
  have hsuffix : lasting.rtake (n + 1) <:+ lasting := List.drop_suffix ..
  have hlength : (lasting.rtake (n + 1)).length = min (n + 1) lasting.length := by
    rw [List.rtake, List.length_drop]
    omega
  refine rtake_eq_of_suffix (erase_suffix_erase hsuffix hnodup t) ?_
  by_cases hmem : t ∈ lasting.rtake (n + 1)
  · rw [List.length_erase_of_mem hmem, List.length_erase_of_mem (hsuffix.subset hmem)]
    omega
  · have hle := List.length_erase_le (l := lasting) (a := t)
    rw [List.erase_of_not_mem hmem]
    omega

/-- What comes once more comes last. -/
theorem dedup_concat (t : Text) (l : List Text) : (l ++ [t]).dedup = l.dedup.erase t ++ [t] := by
  induction l with
  | nil         => rfl
  | cons e l ih =>
    rw [List.cons_append]
    by_cases he : e ∈ l
    · rw [List.dedup_cons_of_mem (List.mem_append_left _ he), List.dedup_cons_of_mem he, ih]
    · by_cases het : e = t
      · subst het
        have habsent : e ∉ l.dedup := mt List.mem_dedup.1 he
        rw [List.dedup_cons_of_mem (by simp), List.dedup_cons_of_notMem he, ih, List.erase_of_not_mem habsent,
          List.erase_cons_head]
      · rw [List.dedup_cons_of_notMem (by simp [he, het]), List.dedup_cons_of_notMem he, ih,
          List.erase_cons_tail (by simpa using het), List.cons_append]

/-! ## The loader -/

/-- Those of the lines that may be entries, trimmed. -/
def recordable (maxBytes : Nat) (lines : List Text) : List Text :=
  (lines.map Text.trim).filter fun t => decide (t ≠ [] ∧ Text.utf8Length t ≤ maxBytes)

theorem recordable_append (maxBytes : Nat) (lines others : List Text) :
    recordable maxBytes (lines ++ others) = recordable maxBytes lines ++ recordable maxBytes others := by
  rw [recordable, List.map_append, List.filter_append]
  rfl

/-- It does not matter how the ends of the lines are written. -/
theorem recordable_lines (maxBytes : Nat) (text : Text) :
    recordable maxBytes (Text.splitOn '\n' text) = recordable maxBytes (Text.lines text) := by
  have htrim (lines : List Text) : lines.map Text.trim = (lines.map Text.trimEnd).map Text.trimStart := by
    rw [List.map_map]
    exact List.map_congr_left fun t _ => Text.trim_eq t
  rw [recordable, recordable, htrim, htrim]
  rcases Text.map_trimEnd_lines text with h | h
  · rw [h]
  · rw [h, List.map_append, List.filter_append]
    exact List.append_nil _

theorem addNewest_eq_rtake (hroom : entries.length ≤ n + 1) (t : Text) :
    addNewest (n + 1) entries t = entries.rtake n ++ [t] := by
  unfold addNewest List.rtake
  by_cases hfull : n + 1 ≤ entries.length
  · have hone : entries.length - n = 1 := by omega
    rw [if_pos hfull, hone]
  · have hnone : entries.length - n = 0 := by omega
    rw [if_neg hfull, hnone, List.drop_zero]

/-- **A line that may be an entry becomes the last of the lines so far**, and the last ones stay. -/
theorem loadLine_rtake (hnodup : lasting.Nodup) {line : Text} (hne : Text.trim line ≠ [])
    (hfits : Text.utf8Length (Text.trim line) ≤ maxBytes) :
    loadLine maxEntries maxBytes (lasting.rtake maxEntries) line =
      (lasting.erase (Text.trim line) ++ [Text.trim line]).rtake maxEntries := by
  cases maxEntries with
  | zero   =>
    rw [List.rtake_zero, List.rtake_zero]
    rfl
  | succ n =>
    have hkept : (lasting.rtake (n + 1)).Nodup := hnodup.sublist (List.drop_sublist ..)
    have haccepted :
        acceptable (n + 1) maxBytes ((lasting.rtake (n + 1)).erase (Text.trim line)) (Text.trim line) = true :=
      acceptable_iff.2 ⟨Nat.succ_ne_zero n, hne, hkept.not_mem_erase, hfits⟩
    have hroom : ((lasting.rtake (n + 1)).erase (Text.trim line)).length ≤ n + 1 := by
      refine List.length_erase_le.trans ?_
      rw [List.rtake, List.length_drop]
      omega
    rw [loadLine, if_pos haccepted, addNewest_eq_rtake hroom, rtake_erase_rtake hnodup, List.rtake_concat_succ]

/-- A line that may be no entry changes nothing. -/
theorem loadLine_of_refused (h : Recorded maxEntries maxBytes entries) {line : Text}
    (hrefused : ¬ (Text.trim line ≠ [] ∧ Text.utf8Length (Text.trim line) ≤ maxBytes)) :
    loadLine maxEntries maxBytes entries line = entries := by
  have habsent : Text.trim line ∉ entries := fun hmem => hrefused ⟨h.nonempty _ hmem, h.fits _ hmem⟩
  have hacceptable : ¬ acceptable maxEntries maxBytes entries (Text.trim line) = true := by
    rw [acceptable_iff]
    exact fun ⟨_, hne, _, hfits⟩ => hrefused ⟨hne, hfits⟩
  rw [loadLine, List.erase_of_not_mem habsent, if_neg hacceptable]

theorem foldl_loadLine (maxEntries maxBytes : Nat) (lines : List Text) :
    lines.foldl (loadLine maxEntries maxBytes) [] = (recordable maxBytes lines).dedup.rtake maxEntries := by
  induction lines using List.reverseRecOn with
  | nil =>
    rw [recordable, List.map_nil, List.filter_nil, List.dedup_nil, List.rtake_nil]
    rfl
  | append_singleton lines line ih =>
    -- the entries so far are the last distinct ones of the lines before this one
    rw [List.foldl_concat, recordable_append]
    by_cases ht : Text.trim line ≠ [] ∧ Text.utf8Length (Text.trim line) ≤ maxBytes
    · have hline : recordable maxBytes [line] = [Text.trim line] := by simp [recordable, ht.1, ht.2]
      rw [hline, dedup_concat, ih, loadLine_rtake (List.nodup_dedup _) ht.1 ht.2]
    · have hline : recordable maxBytes [line] = [] := by
        rw [recordable, List.map_singleton, List.filter_cons_of_neg (by simpa using ht), List.filter_nil]
      rw [hline, List.append_nil, loadLine_of_refused (recorded_foldl lines recorded_nil) ht, ih]

theorem load_eq (maxEntries maxBytes : Nat) (text : Text) :
    load maxEntries maxBytes text = (recordable maxBytes (Text.lines text)).dedup.rtake maxEntries := by
  rw [load, foldl_loadLine, recordable_lines]

/-- **Opening a file keeps the last distinct lines of it.**  The entries are the lines of the file, trimmed, that are neither
empty nor too long; each stays only where it comes last, and of these the last `maxEntries` are taken, in the order of the
file. -/
theorem entries_open_eq (text : Text) :
    («open» (.regular (Utf8.encode text)) : History maxEntries maxBytes).entries =
      ((((Text.lines text).map Text.trim).filter fun t => decide (t ≠ [] ∧ Text.utf8Length t ≤ maxBytes)).dedup).rtake
        maxEntries := by
  have hholds : (Disk.regular (Utf8.encode text)).Holds text := Utf8.decode?_encode text
  rw [entries_open hholds, load_eq, recordable]

/-- A line that was dropped for want of room and comes again, one that is too long, and one that has no end. -/
example : («open» (.regular (Utf8.encode "a\r\nb\nc\n\n a \nlonger\nd".toList)) : History 3 4).entries =
    [['c'], ['a'], ['d']] := by decide +kernel

end History
end CommandConsole

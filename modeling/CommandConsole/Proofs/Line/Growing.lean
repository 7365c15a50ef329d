import CommandConsole.Proofs.Line.Cycling
import CommandConsole.Proofs.Line.Replacing
import CommandConsole.Proofs.Text.Case
import CommandConsole.Proofs.Text.Fitting
/-!
# Growing — a fresh press of Tab keeps what was typed

Candidates that start with the word that is typed have it in common, so whatever takes the place of the word starts with it.
The word grows to the longest start of the first candidate that all of them start with, if that is longer than the word; else a
candidate is accepted or selected (`fresh_tab_grows`).  Where that start ends can be told in bytes, candidate by candidate, and
it is always between two characters (`upToByte?_sharedBytes`).
-/
namespace CommandConsole

open Text

/-! ## Bytes in common -/

namespace Text

/-- The text up to a byte, if that is where a character ends. -/
def upToByte? : Nat → Text → Option Text
  | 0,     _      => some []
  | _ + 1, []     => none
  | n + 1, c :: t => if c.utf8Size ≤ n + 1 then (upToByte? (n + 1 - c.utf8Size) t).map (c :: ·) else none

theorem upToByte?_append (t : Text) : ∀ p : Text, upToByte? (utf8Length p) (p ++ t) = some p
  | []     => by rw [utf8Length_nil, upToByte?]
  | c :: p => by
    have hc := c.utf8Size_pos
    obtain ⟨n, hn⟩ := Nat.exists_eq_succ_of_ne_zero (show c.utf8Size + utf8Length p ≠ 0 by omega)
    have hrest : n + 1 - c.utf8Size = utf8Length p := by omega
    rw [utf8Length_cons, hn, List.cons_append, upToByte?, if_pos (by omega), hrest, upToByte?_append t p]
    rfl

/-- The characters of a text with the bytes that they start at, the first of them at `start`. -/
def charIndices (start : Nat) : Text → List (Nat × Char)
  | []     => []
  | c :: t => (start, c) :: charIndices (start + c.utf8Size) t

/-- The byte at which the last of these characters ends; `start` if there are none. -/
def lastEnd (start : Nat) (l : List ((Nat × Char) × Char)) : Nat :=
  match l.getLast? with
  | some ((i, c), _) => i + c.utf8Size
  | none             => start

theorem lastEnd_cons (start i : Nat) (a b : Char) (l : List ((Nat × Char) × Char)) :
    lastEnd start (((i, a), b) :: l) = lastEnd (i + a.utf8Size) l := by
  unfold lastEnd
  rw [List.getLast?_cons]
  cases l.getLast? <;> rfl

end Text

/-- In how many bytes of `s` does `t` agree with it, up to the case of ASCII letters? -/
def agreedBytes (s t : Text) : Nat :=
  lastEnd 0 (((charIndices 0 s).zip t).takeWhile fun p => p.1.2.toLower == p.2.toLower)

/-- In how many bytes of the first text do all agree with it? -/
def sharedBytes : List Text → Nat
  | []      => 0
  | t :: ts => ts.foldl (fun bytes u => min (agreedBytes t u) bytes) (utf8Length t)

theorem lastEnd_zip (start : Nat) : ∀ s t : Text,
    lastEnd start (((charIndices start s).zip t).takeWhile fun p => p.1.2.toLower == p.2.toLower) =
      start + utf8Length (agreeing s t)
  | [],     _      => rfl
  | _ :: _, []     => rfl
  | a :: s, b :: t => by
    rw [charIndices, List.zip_cons_cons, agreeing]
    by_cases hab : a.toLower = b.toLower
    · rw [List.takeWhile_cons_of_pos (by simpa using hab), lastEnd_cons, lastEnd_zip, if_pos hab, utf8Length_cons,
        Nat.add_assoc]
    · rw [List.takeWhile_cons_of_neg (by simpa using hab), if_neg hab]
      rfl

theorem agreedBytes_eq (s t : Text) : agreedBytes s t = utf8Length (agreeing s t) :=
  (lastEnd_zip 0 s t).trans (Nat.zero_add _)

theorem agreeing_start : ∀ s t : Text, agreeing s t <+: s
  | [],     _      => List.prefix_refl []
  | _ :: _, []     => List.nil_prefix
  | a :: s, b :: t => by
    rw [agreeing]
    split
    · exact List.cons_prefix_cons.2 ⟨rfl, agreeing_start s t⟩
    · exact List.nil_prefix

/-- A start of a text agrees with another text as far as the whole does, or to its end. -/
theorem utf8Length_agreeing (r : Text) : ∀ p u : Text,
    utf8Length (agreeing p u) = min (utf8Length (agreeing (p ++ r) u)) (utf8Length p)
  | [],     _      => (Nat.min_zero _).symm
  | _ :: _, []     => (Nat.zero_min _).symm
  | a :: p, b :: u => by
    rw [List.cons_append, agreeing, agreeing]
    split
    · rw [utf8Length_cons, utf8Length_cons, utf8Length_cons, utf8Length_agreeing r p u, Nat.add_min_add_left]
    · exact (Nat.zero_min _).symm

theorem foldl_agreeing {t : Text} : ∀ (ts : List Text) {p : Text}, p <+: t →
    ts.foldl agreeing p <+: t ∧
      ts.foldl (fun bytes u => min (agreedBytes t u) bytes) (utf8Length p) = utf8Length (ts.foldl agreeing p)
  | [],      _, hp => ⟨hp, rfl⟩
  | u :: us, p, hp => by
    have hbytes : min (agreedBytes t u) (utf8Length p) = utf8Length (agreeing p u) := by
      obtain ⟨r, rfl⟩ := hp
      rw [agreedBytes_eq, utf8Length_agreeing r p u]
    rw [List.foldl_cons, List.foldl_cons, hbytes]
    exact foldl_agreeing us ((agreeing_start p u).trans hp)

theorem commonPrefix_start (t : Text) (ts : List Text) : commonPrefix (t :: ts) <+: t :=
  (foldl_agreeing ts (List.prefix_refl t)).1

theorem sharedBytes_eq (t : Text) (ts : List Text) : sharedBytes (t :: ts) = utf8Length (commonPrefix (t :: ts)) :=
  (foldl_agreeing ts (List.prefix_refl t)).2

/-- **The bytes that all candidates share end between two characters of the first**, where what they have in common ends. -/
theorem upToByte?_sharedBytes (t : Text) (ts : List Text) :
    upToByte? (sharedBytes (t :: ts)) t = some (commonPrefix (t :: ts)) := by
  obtain ⟨r, hr⟩ := commonPrefix_start t ts
  have hcut := upToByte?_append r (commonPrefix (t :: ts))
  rwa [hr, ← sharedBytes_eq] at hcut

/-! ## The word in the line -/

/-- Of two texts that start alike the longer one has more bytes. -/
theorem utf8Length_lt_iff {p t : Text} (h : startsWithAscii p t = true) :
    utf8Length p < utf8Length t ↔ p.length < t.length := by
  obtain ⟨r, hr⟩ := startsWithAscii_iff.1 h
  have hbytes : utf8Length p + utf8Length r = utf8Length t := by
    rw [← utf8Length_asciiLower p, ← utf8Length_append, hr, utf8Length_asciiLower]
  have hchars : p.length + r.length = t.length := by
    have hlength := congrArg List.length hr
    simpa only [asciiLower, List.length_append, List.length_map] using hlength
  have hnone : utf8Length r = 0 ↔ r.length = 0 := utf8Length_eq_zero_iff.trans List.length_eq_zero_iff.symm
  omega

theorem lastWord_suffix (before : Text) : lastWord before <:+ before := by
  rw [← List.reverse_prefix, lastWord, List.reverse_reverse]
  exact List.takeWhile_prefix _

theorem completedWord_suffix (before : Text) : completedWord before <:+ before :=
  (List.dropWhile_suffix isSigilChar).trans (lastWord_suffix before)

theorem completedHead_append_completedWord (before : Text) : completedHead before ++ completedWord before = before := by
  obtain ⟨pre, hpre⟩ := completedWord_suffix before
  rw [completedHead_of_eq_append hpre.symm, hpre]

/-! ## Growing -/

/-- The longest start of the first candidate that all of them start with, up to case, where it is longer than the word. -/
structure Grown (word : Text) (candidates : List Text) (grown : Text) : Prop where
  start   : ∀ first, candidates.head? = some first → grown <+: first
  shared  : ∀ o ∈ candidates, startsWithAscii grown o = true
  longest : ∀ first, candidates.head? = some first → ∀ q, q <+: first →
    (∀ o ∈ candidates, startsWithAscii q o = true) → q <+: grown
  longer  : word.length < grown.length

/-- What all candidates start with is the longest such start of the first one. -/
theorem start_commonPrefix {t q : Text} {ts : List Text} (hq : q <+: t)
    (hshared : ∀ o ∈ t :: ts, startsWithAscii q o = true) : q <+: commonPrefix (t :: ts) := by
  have hlower := startsWithAscii_iff.1 ((startsWithAscii_commonPrefix_iff t ts).2 hshared)
  have hlength := hlower.length_le
  rw [asciiLower, asciiLower, List.length_map, List.length_map] at hlength
  exact List.prefix_of_prefix_length_le hq (commonPrefix_start t ts) hlength

theorem grown_iff {word q t : Text} {ts : List Text} :
    Grown word (t :: ts) q ↔ q = commonPrefix (t :: ts) ∧ word.length < q.length := by
  have hcommon := commonPrefix_start t ts
  have hshared : ∀ o ∈ t :: ts, startsWithAscii (commonPrefix (t :: ts)) o = true := fun o => startsWithAscii_commonPrefix
  constructor
  · intro h
    have hq := start_commonPrefix (h.start t rfl) h.shared
    exact ⟨hq.eq_of_length_le (h.longest t rfl _ hcommon hshared).length_le, h.longer⟩
  · rintro ⟨rfl, hlonger⟩
    refine ⟨?_, hshared, ?_, hlonger⟩
    · rintro _ ⟨⟩
      exact hcommon
    · rintro _ ⟨⟩ q
      exact start_commonPrefix

theorem Cycle.start_of_lt {word : Text} {candidates : List Text} (h : utf8Length word < utf8Length (commonPrefix candidates))
    (head : Text) (backwards : Bool) :
    Cycle.start head word candidates backwards = ⟨head, candidates, none, head ++ commonPrefix candidates⟩ := if_pos h

/-- Where there is nothing to grow by, a candidate is selected. -/
theorem Cycle.exists_shown {word : Text} {candidates : List Text}
    (h : ¬ utf8Length word < utf8Length (commonPrefix candidates)) (hsome : candidates ≠ []) (head : Text)
    (backwards : Bool) : ∃ o ∈ candidates, (Cycle.start head word candidates backwards).shown = head ++ (o ++ " ") := by
  have hplace := Cycle.startPlace_lt (List.length_pos_iff.2 hsome) backwards
  refine ⟨candidates[if backwards then candidates.length - 1 else 0], List.getElem_mem hplace, ?_⟩
  have hstart : Cycle.start head word candidates backwards = _ := if_neg h
  rw [hstart, ← List.append_assoc, ← List.getD_eq_getElem _ [] hplace]
  rfl

variable {m : Completion} {before : Text} {backwards : Bool} {predict : Text → List Text}

theorem startsWithAscii_append {p t : Text} (h : startsWithAscii p t = true) (u : Text) :
    startsWithAscii p (t ++ u) = true := by
  obtain ⟨r, hr⟩ := startsWithAscii_iff.1 h
  refine startsWithAscii_iff.2 ⟨r ++ asciiLower u, ?_⟩
  rw [← List.append_assoc, hr, asciiLower, asciiLower, asciiLower, List.map_append]

/-- **A fresh press of Tab keeps what was typed and grows it as far as the candidates agree.**  Where all candidates start with
the word, the text before the word stays, and what comes after it starts with the word, up to case: a candidate and a space,
or, where there are several candidates and none is selected yet, the longest start of the first that all of them start with,
which is longer than the word; it is that wherever there is one.  In bytes, too, what candidates have in common ends between
two characters. -/
theorem fresh_tab_grows (hasks : m.asks before = true) (hsome : predict before ≠ [])
    (hword : ∀ o ∈ predict before, startsWithAscii (completedWord before) o = true) :
    completedHead before ++ completedWord before = before ∧
      (∃ rest m', m.press before backwards predict = (some (completedHead before ++ rest), m') ∧
        startsWithAscii (completedWord before) rest = true ∧
        ((∃ o ∈ predict before, rest = o ++ " ") ∨
          2 ≤ (predict before).length ∧ (∃ c, m' = some c ∧ c.index = none) ∧
            Grown (completedWord before) (predict before) rest) ∧
        (2 ≤ (predict before).length → ∀ grown, Grown (completedWord before) (predict before) grown → rest = grown)) ∧
      ∀ t ts, upToByte? (sharedBytes (t :: ts)) t = some (commonPrefix (t :: ts)) := by
  refine ⟨completedHead_append_completedWord before, ?_, upToByte?_sharedBytes⟩
  rw [Completion.press_of_asks hasks]
  match hpredict : predict before, hsome, hword with
  | [only],     _, hword =>
    have hstarts := startsWithAscii_append (hword only (List.mem_singleton_self only)) " "
    refine ⟨only ++ " ", none, by rw [← List.append_assoc], hstarts, .inl ⟨only, List.mem_singleton_self only, rfl⟩, ?_⟩
    exact fun htwo => absurd htwo (by simp)
  | t :: u :: l, hsome, hword =>
    have hcommon := (startsWithAscii_commonPrefix_iff t (u :: l)).2 hword
    dsimp only
    by_cases hlonger : utf8Length (completedWord before) < utf8Length (commonPrefix (t :: u :: l))
    · have hgrown := grown_iff.2 ⟨rfl, (utf8Length_lt_iff hcommon).1 hlonger⟩
      rw [Cycle.start_of_lt hlonger]
      refine ⟨_, _, rfl, hcommon, .inr ⟨by simp, ⟨_, rfl, rfl⟩, hgrown⟩, fun _ grown h => ?_⟩
      exact (grown_iff.1 h).1.symm
    · obtain ⟨o, ho, hshown⟩ := Cycle.exists_shown hlonger hsome (completedHead before) backwards
      refine ⟨o ++ " ", _, by rw [hshown], startsWithAscii_append (hword o ho) " ", .inl ⟨o, ho, rfl⟩, ?_⟩
      rintro - grown h
      obtain ⟨rfl, hchars⟩ := grown_iff.1 h
      exact absurd ((utf8Length_lt_iff hcommon).2 hchars) hlonger

/-- A word after a mark, and candidates that differ from it and from each other in case, with characters of two bytes. -/
theorem fresh_tab_grows_accented :
    let candidates := ["äBcé1".toList, "äbCé2".toList, "äBCéx".toList]
    Completion.asks none "call @äb".toList = true ∧ Grown "äb".toList candidates "äBcé".toList ∧
      (Completion.press none "call @äb".toList true fun _ => candidates).1 = some "call @äBcé".toList := by
  intro candidates
  have hasks : Completion.asks none "call @äb".toList = true := by decide +kernel
  have hhead : completedHead "call @äb".toList = "call @".toList := by decide +kernel
  have hword : completedWord "call @äb".toList = "äb".toList := by decide +kernel
  have hgrown : Grown "äb".toList candidates "äBcé".toList := grown_iff.2 ⟨by decide +kernel, by decide⟩
  have hstarts : ∀ o ∈ candidates, startsWithAscii (completedWord "call @äb".toList) o = true := by
    rw [hword]
    decide +kernel
  obtain ⟨-, ⟨rest, m', hpress, -, -, hrest⟩, -⟩ :=
    @fresh_tab_grows none _ true (fun _ => candidates) hasks (List.cons_ne_nil _ _) hstarts
  rw [hword] at hrest
  rw [hpress, hhead, hrest (by decide) _ hgrown]
  exact ⟨hasks, hgrown, rfl⟩

end CommandConsole

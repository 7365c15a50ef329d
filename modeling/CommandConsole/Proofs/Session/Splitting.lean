import CommandConsole.Proofs.Session.Cutting
import CommandConsole.Proofs.Session.Preparation
import Mathlib.Data.List.Chain
/-!
# Splitting — a line is its tokens and the blanks around them

`Splits` says what it is to split a line into tokens with their bytes: each is a word, and is what stands in the line
between its bytes; before, between and after them there is nothing but blanks, and between two of them there is some.  The
tokens of a line are the one list of which that is true (`tokens_split_line`).  So a line that has the same words with any
blanks between them has the same tokens but for their bytes, and the word that Tab completes is the last of them.
-/
namespace CommandConsole

open Text KeyFault

/-! ## What stands between two bytes -/

theorem Text.utf8Length_of_upToByte? : ∀ {n : Nat} {s t : Text}, upToByte? n t = some s → utf8Length s = n
  | 0,     s, t,      h => by
    rw [upToByte?] at h
    cases h
    rfl
  | _ + 1, _, [],     h => by
    rw [upToByte?] at h
    cases h
  | n + 1, s, c :: t, h => by
    rw [upToByte?] at h
    split at h
    · obtain ⟨r, hr, rfl⟩ := Option.map_eq_some_iff.1 h
      rw [utf8Length_cons, utf8Length_of_upToByte? hr]
      omega
    · cases h

variable {a t w gap rest line : Text} {i j start : Nat} {ts : List Token}

theorem KeyFault.cutAt_eq_ok_iff {n : Nat} {s : Text} : cutAt n t = .ok (s, rest) ↔ t = s ++ rest ∧ n = utf8Length s := by
  constructor
  · intro h
    unfold cutAt at h
    split at h
    · rename_i r hr
      cases h
      obtain ⟨rest, rfl⟩ := upToByte?_eq_some hr
      rw [List.drop_left]
      exact ⟨rfl, (utf8Length_of_upToByte? hr).symm⟩
    · cases h
  · rintro ⟨rfl, rfl⟩
    exact cutAt_append s rest

/-- **What a slice is**, from the end of a start of the text on. -/
theorem KeyFault.slice_append_eq_ok_iff :
    slice (utf8Length a) j (a ++ t) = .ok w ↔ ∃ rest, t = w ++ rest ∧ j = utf8Length (a ++ w) := by
  constructor
  · intro h
    unfold slice at h
    rw [cutAt_append] at h
    obtain ⟨n, hn, h⟩ := except_bind_eq_ok.1 h
    rw [ok_bind] at h
    obtain ⟨⟨part, rest⟩, hpart, h⟩ := except_bind_eq_ok.1 h
    cases h
    obtain ⟨rfl, rfl⟩ := cutAt_eq_ok_iff.1 hpart
    refine ⟨rest, rfl, ?_⟩
    unfold CycleFault.minus at hn
    split at hn
    · cases hn
    · have hlength : j - utf8Length a = utf8Length part := Except.ok.inj hn
      rw [utf8Length_append]
      dsimp only
      omega
  · rintro ⟨rest, rfl, rfl⟩
    rw [utf8Length_append]
    exact slice_append a w rest

theorem KeyFault.exists_of_slice (h : slice i j t = .ok w) : ∃ a rest, t = a ++ (w ++ rest) ∧ i = utf8Length a ∧
    j = utf8Length (a ++ w) := by
  have hstart := h
  unfold slice at hstart
  obtain ⟨_, -, hstart⟩ := except_bind_eq_ok.1 hstart
  obtain ⟨⟨a, after⟩, hcut, -⟩ := except_bind_eq_ok.1 hstart
  obtain ⟨rfl, rfl⟩ := cutAt_eq_ok_iff.1 hcut
  obtain ⟨rest, rfl, hj⟩ := slice_append_eq_ok_iff.1 h
  exact ⟨a, rest, rfl, rfl, hj⟩

/-- Between two bytes of a line, both of which part its characters, there is nothing but blanks. -/
def BlankBetween (line : Text) (i j : Nat) : Prop := ∃ gap, slice i j line = .ok gap ∧ isBlankText gap = true

theorem blankBetween_iff : BlankBetween (a ++ t) (utf8Length a) j ↔
    ∃ gap rest, t = gap ++ rest ∧ isBlankText gap = true ∧ j = utf8Length (a ++ gap) := by
  constructor
  · rintro ⟨gap, hslice, hblank⟩
    obtain ⟨rest, ht, hj⟩ := slice_append_eq_ok_iff.1 hslice
    exact ⟨gap, rest, ht, hblank, hj⟩
  · rintro ⟨gap, rest, ht, hblank, hj⟩
    exact ⟨gap, slice_append_eq_ok_iff.2 ⟨rest, ht, hj⟩, hblank⟩

theorem blankBetween_end_iff : BlankBetween (a ++ t) (utf8Length a) (utf8Length (a ++ t)) ↔ isBlankText t = true := by
  rw [blankBetween_iff]
  constructor
  · rintro ⟨gap, rest, rfl, hblank, hend⟩
    have hrest : utf8Length rest = 0 := by
      rw [utf8Length_append, utf8Length_append, utf8Length_append] at hend
      omega
    rwa [utf8Length_eq_zero_iff.1 hrest, List.append_nil]
  · exact fun h => ⟨t, [], (List.append_nil t).symm, h, rfl⟩

theorem BlankBetween.append (hgap : isBlankText gap = true)
    (h : BlankBetween (a ++ gap ++ t) (utf8Length (a ++ gap)) j) : BlankBetween (a ++ gap ++ t) (utf8Length a) j := by
  obtain ⟨more, rest, rfl, hmore, rfl⟩ := blankBetween_iff.1 h
  rw [List.append_assoc, blankBetween_iff]
  refine ⟨gap ++ more, rest, (List.append_assoc ..).symm, ?_, by rw [List.append_assoc]⟩
  rw [isBlankText, List.all_append, Bool.and_eq_true]
  exact ⟨hgap, hmore⟩

/-! ## Tokens of parts of a line -/

/-- The text goes on with a blank, or not at all. -/
def Breaks (t : Text) : Prop := ∀ c, t.head? = some c → isBlank c = true

theorem breaks_afterWord (t : Text) : Breaks (afterWord t) := by
  induction t with
  | nil         => exact nofun
  | cons c t ih =>
    cases hc : isBlank c with
    | true  =>
      rw [afterWord_cons_blank hc]
      rintro d hd
      cases hd
      exact hc
    | false => rwa [afterWord_cons_letter (by simp [hc])]

theorem firstWord_append (hw : NoBlank w) (ht : Breaks t) : firstWord (w ++ t) = w := by
  cases t with
  | nil      => rw [List.append_nil, firstWord_of_noBlank hw]
  | cons b t => rw [firstWord_append_blank (ht b rfl), firstWord_of_noBlank hw]

theorem afterWord_append (hw : NoBlank w) (ht : Breaks t) : afterWord (w ++ t) = t := by
  have h := firstWord_append_afterWord (w ++ t)
  rw [firstWord_append hw ht] at h
  exact List.append_cancel_left h

theorem tokensFrom_append_blank : ∀ {gap : Text} (start : Nat), isBlankText gap = true →
    tokensFrom start (gap ++ t) = tokensFrom (start + utf8Length gap) t
  | [],       _,     _ => rfl
  | b :: gap, start, h => by
    obtain ⟨hb, hgap⟩ : isBlank b = true ∧ isBlankText gap = true := by simpa [isBlankText] using h
    rw [List.cons_append, tokensFrom, if_pos hb, tokensFrom_append_blank _ hgap, utf8Length_cons, Nat.add_assoc]

theorem tokensFrom_append_word (start : Nat) (hw : IsWord w) (ht : Breaks t) :
    tokensFrom start (w ++ t) = ⟨w, start⟩ :: tokensFrom (start + utf8Length w) t := by
  obtain ⟨c, u, rfl⟩ := List.exists_cons_of_ne_nil hw.ne_nil
  obtain ⟨hc, hu⟩ := noBlank_cons.1 hw.noBlank
  rw [List.cons_append, tokensFrom, if_neg (by simp [hc])]
  dsimp only
  rw [firstWord_append hu ht, afterWord_append hu ht]

theorem le_start_of_mem {t : Text} {u : Token} (h : u ∈ tokensFrom start t) : start ≤ u.start := by
  fun_induction tokensFrom start t with
  | case1 => cases h
  | case2 start c t hc ih =>
    have := ih h
    omega
  | case3 start c t hc word ih =>
    rcases List.mem_cons.1 h with rfl | h
    · exact Nat.le_refl _
    · have := ih h
      omega

theorem lt_start_of_mem {u : Token} (ht : Breaks t) (h : u ∈ tokensFrom start t) : start < u.start := by
  cases t with
  | nil      =>
    rw [tokensFrom] at h
    cases h
  | cons b t =>
    rw [tokensFrom, if_pos (ht b rfl)] at h
    have hle := le_start_of_mem h
    have hb := b.utf8Size_pos
    omega

/-! ## Splitting a line -/

/-- The byte at which the last of the tokens stops; `start` if there are none. -/
def lastStop (start : Nat) (ts : List Token) : Nat := (ts.getLast?.map Token.stop).getD start

theorem lastStop_cons (start : Nat) (t : Token) (ts : List Token) : lastStop start (t :: ts) = lastStop t.stop ts := by
  rw [lastStop, lastStop, List.getLast?_cons]
  cases ts.getLast? <;> rfl

/-- **A line, from a byte on, is split into tokens**: each is a word, and is what the line has between its bytes; they come
one after the other and not at once; before, between and after them there are blanks alone. -/
structure Splits (line : Text) (start : Nat) (ts : List Token) : Prop where
  word    : ∀ t ∈ ts, IsWord t.text
  cut     : ∀ t ∈ ts, slice t.start t.stop line = .ok t.text
  apart   : ts.Pairwise fun s t => s.stop < t.start
  before  : ∀ t, ts.head? = some t → BlankBetween line start t.start
  between : ts.IsChain fun s t => BlankBetween line s.stop t.start
  after   : BlankBetween line (lastStop start ts) (utf8Length line)

theorem splits_nil_iff : Splits line start [] ↔ BlankBetween line start (utf8Length line) :=
  ⟨Splits.after, fun h => ⟨nofun, nofun, .nil, nofun, .nil, h⟩⟩

theorem splits_cons_iff {t : Token} : Splits line start (t :: ts) ↔
    (BlankBetween line start t.start ∧ IsWord t.text ∧ slice t.start t.stop line = .ok t.text) ∧
      (∀ u ∈ ts, t.stop < u.start) ∧ Splits line t.stop ts := by
  constructor
  · rintro ⟨hword, hcut, hapart, hbefore, hbetween, hafter⟩
    obtain ⟨hfirst, hapart⟩ := List.pairwise_cons.1 hapart
    obtain ⟨hnext, hbetween⟩ := List.isChain_cons.1 hbetween
    rw [lastStop_cons] at hafter
    exact ⟨⟨hbefore t rfl, hword t List.mem_cons_self, hcut t List.mem_cons_self⟩, hfirst,
      fun u hu => hword u (List.mem_cons_of_mem t hu), fun u hu => hcut u (List.mem_cons_of_mem t hu), hapart,
      fun u hu => hnext u hu, hbetween, hafter⟩
  · rintro ⟨⟨hbefore, hword, hcut⟩, hfirst, h⟩
    refine ⟨List.forall_mem_cons.2 ⟨hword, h.word⟩, List.forall_mem_cons.2 ⟨hcut, h.cut⟩,
      List.pairwise_cons.2 ⟨hfirst, h.apart⟩, ?_, List.isChain_cons.2 ⟨fun u hu => h.before u hu, h.between⟩, ?_⟩
    · rintro u hu
      cases hu
      exact hbefore
    · rw [lastStop_cons]
      exact h.after

theorem Splits.append (hgap : isBlankText gap = true) (h : Splits (a ++ gap ++ t) (utf8Length (a ++ gap)) ts) :
    Splits (a ++ gap ++ t) (utf8Length a) ts := by
  cases ts with
  | nil       => exact splits_nil_iff.2 ((splits_nil_iff.1 h).append hgap)
  | cons u ts =>
    obtain ⟨⟨hbefore, hu⟩, h⟩ := splits_cons_iff.1 h
    exact splits_cons_iff.2 ⟨⟨hbefore.append hgap, hu⟩, h⟩

/-- **The scan splits what is left of a line**, wherever it has come to. -/
theorem splits_tokensFrom (t : Text) : ∀ a, Splits (a ++ t) (utf8Length a) (tokensFrom (utf8Length a) t) := by
  -- a word is scanned at once, so the induction is on how much is left
  induction hn : t.length using Nat.strongRecOn generalizing t with
  | ind n ih =>
    subst hn
    intro a
    cases t with
    | nil =>
      rw [tokensFrom, splits_nil_iff, blankBetween_end_iff]
      rfl
    | cons c t =>
      cases hc : isBlank c with
      | true =>
        have hgap : isBlankText [c] = true := by simpa [isBlankText] using hc
        have h := (ih t.length (by simp) t rfl (a ++ [c])).append hgap
        rw [utf8Length_append, ← tokensFrom_append_blank _ hgap] at h
        simpa using h
      | false =>
        have hword : IsWord (c :: firstWord t) := .cons hc (noBlank_firstWord t)
        have hsplit : c :: t = (c :: firstWord t) ++ afterWord t := by
          rw [List.cons_append, firstWord_append_afterWord]
        have hstop : Token.stop ⟨c :: firstWord t, utf8Length a⟩ = utf8Length (a ++ (c :: firstWord t)) :=
          (utf8Length_append ..).symm
        have hlater := ih _ (Nat.lt_succ_of_le (length_afterWord_le t)) _ rfl (a ++ (c :: firstWord t))
        rw [hsplit, tokensFrom_append_word _ hword (breaks_afterWord t), ← utf8Length_append, splits_cons_iff, hstop]
        refine ⟨⟨blankBetween_iff.2 ⟨[], _, rfl, rfl, by rw [List.append_nil]⟩, hword, ?_⟩, fun u hu => ?_, ?_⟩
        · exact slice_append_eq_ok_iff.2 ⟨_, rfl, rfl⟩
        · exact lt_start_of_mem (breaks_afterWord t) hu
        · rwa [← List.append_assoc]

/-- A line that does not end in a blank ends in a token. -/
theorem Splits.lastStop_eq (h : Splits line start ts) (hend : endsBlank line = false) :
    lastStop start ts = utf8Length line := by
  obtain ⟨gap, hslice, -⟩ := h.after
  obtain ⟨a, rest, rfl, hstart, -⟩ := exists_of_slice hslice
  have hafter := h.after
  rw [hstart, blankBetween_end_iff] at hafter
  rw [hstart]
  rcases List.eq_nil_or_concat (gap ++ rest) with hnil | ⟨more, b, hmore⟩
  · rw [hnil, List.append_nil]
  · have hb : isBlank b = true := List.all_eq_true.1 hafter b (by simp [hmore])
    rw [hmore, endsBlank_iff.2 ⟨a ++ more, b, by simp, hb⟩] at hend
    cases hend

/-- What follows a token of a split line breaks it off. -/
theorem breaks_of_splits (hapart : ∀ u ∈ ts, utf8Length a < u.start) (h : Splits (a ++ t) (utf8Length a) ts) :
    Breaks t := by
  have hgap : ∃ gap rest, t = gap ++ rest ∧ isBlankText gap = true ∧ (gap = [] → t = []) := by
    cases ts with
    | nil =>
      exact ⟨t, [], (List.append_nil t).symm, blankBetween_end_iff.1 (splits_nil_iff.1 h), id⟩
    | cons u ts =>
      obtain ⟨⟨hbefore, -⟩, -⟩ := splits_cons_iff.1 h
      obtain ⟨gap, rest, rfl, hblank, hstart⟩ := blankBetween_iff.1 hbefore
      have hlt := hapart u List.mem_cons_self
      refine ⟨gap, rest, rfl, hblank, fun hgap => ?_⟩
      rw [hgap, List.append_nil] at hstart
      omega
  obtain ⟨gap, rest, rfl, hblank, hnil⟩ := hgap
  cases gap with
  | nil        =>
    rw [hnil rfl]
    exact nofun
  | cons b gap =>
    rintro c hc
    cases hc
    exact List.all_eq_true.1 hblank b List.mem_cons_self

/-- **There is one way to split what is left of a line.** -/
theorem eq_tokensFrom_of_splits : ∀ {ts : List Token} {a t : Text}, Splits (a ++ t) (utf8Length a) ts →
    ts = tokensFrom (utf8Length a) t
  | [], a, t, h => by
    have hblank := blankBetween_end_iff.1 (splits_nil_iff.1 h)
    rw [← List.append_nil t, tokensFrom_append_blank _ hblank, tokensFrom]
  | ⟨w, start⟩ :: ts, a, t, h => by
    obtain ⟨⟨hbefore, hword, hcut⟩, hapart, h⟩ := splits_cons_iff.1 h
    obtain ⟨gap, rest, rfl, hblank, rfl⟩ := blankBetween_iff.1 hbefore
    rw [← List.append_assoc] at hcut h
    obtain ⟨later, rfl, hstop⟩ := slice_append_eq_ok_iff.1 hcut
    rw [← List.append_assoc] at h
    rw [hstop] at h hapart
    -- the scan passes over the blanks before the token, and stops where the token does
    rw [tokensFrom_append_blank _ hblank, ← utf8Length_append,
      tokensFrom_append_word _ hword (breaks_of_splits hapart h), ← utf8Length_append, eq_tokensFrom_of_splits h]

theorem splits_iff : Splits line 0 ts ↔ ts = tokens line := by
  constructor
  · exact fun h => eq_tokensFrom_of_splits (a := []) h
  · rintro rfl
    exact splits_tokensFrom line []

/-! ## Lines with the same words -/

/-- A text that has these words, with some blanks between neighbours. -/
inductive Spaced : List Text → Text → Prop
  | none : Spaced [] []
  | last (w : Text) : Spaced [w] w
  | cons {w gap u t : Text} {ws : List Text} (blank : isBlankText gap = true) (some : gap ≠ [])
      (rest : Spaced (u :: ws) t) : Spaced (w :: u :: ws) (w ++ gap ++ t)

theorem words_append_gap (hblank : isBlankText gap = true) (hsome : gap ≠ []) (s t : Text) :
    words (s ++ gap ++ t) = words s ++ words t := by
  obtain ⟨b, more, rfl⟩ := List.exists_cons_of_ne_nil hsome
  obtain ⟨hb, hmore⟩ : isBlank b = true ∧ isBlankText more = true := by simpa [isBlankText] using hblank
  have hskip : words (more ++ t) = words t := by
    rw [words, tokens, tokensFrom_append_blank 0 hmore, map_text_tokensFrom]
  rw [List.append_assoc, List.cons_append, words_append_blank hb, hskip]

theorem Spaced.words_eq {ws : List Text} {t : Text} (h : Spaced ws t) (hws : ∀ w ∈ ws, IsWord w) : words t = ws := by
  induction h with
  | none                    => exact words_nil
  | last _                  => exact words_of_isWord (hws _ List.mem_cons_self)
  | cons blank some _ ih =>
    rw [words_append_gap blank some, words_of_isWord (hws _ List.mem_cons_self),
      ih fun u hu => hws u (List.mem_cons_of_mem _ hu)]
    rfl

theorem spaced_join (hblank : isBlankText gap = true) (hsome : gap ≠ []) : ∀ ws : List Text, Spaced ws (Text.join gap ws)
  | []           => .none
  | [_]          => .last _
  | _ :: u :: ws => .cons hblank hsome (spaced_join hblank hsome (u :: ws))

/-! ## The last word -/

theorem lastWord_eq (line : Text) : lastWord line = if endsBlank line then [] else ((words line).getLast?).getD [] := by
  obtain ⟨head, w, rfl, hw, hhead⟩ := exists_last_word line
  rw [lastWord_append hw hhead]
  by_cases hnil : w = []
  · rw [hnil, List.append_nil]
    rcases hhead with rfl | hblank
    · rw [words_nil]
      rfl
    · rw [if_pos hblank]
  · have hword : IsWord w := ⟨hnil, hw⟩
    have hwords : words (head ++ w) = words head ++ [w] := by
      rcases hhead with rfl | hblank
      · rw [List.nil_append, words_nil, words_of_isWord hword]
        rfl
      · rw [words_append_of_endsBlank hblank, words_of_isWord hword]
    rw [endsBlank_append_word hword, if_neg Bool.false_ne_true, hwords, List.getLast?_concat]
    rfl

/-- **The tokens of a line split it, and nothing else does.**  The one scan along its characters, which cuts each word out
where a blank comes after it, makes no cut within a character; what it finds is the only list of tokens that the line is
split into (`Splits`).  So its words are found again in every text that has them in this order with some blanks between
them, be they the same everywhere or not; and the word at the end of the line, which Tab completes, is the last token, or
nothing after a blank. -/
theorem tokens_split_line (line : Text) :
    tokensByCuts line none (charIndices 0 line) = .ok (tokens line) ∧
      Splits line 0 (tokens line) ∧ (∀ ts, Splits line 0 ts → ts = tokens line) ∧
      (∀ t, Spaced (words line) t → words t = words line) ∧
      (∀ gap, isBlankText gap = true → gap ≠ [] → words (Text.join gap (words line)) = words line) ∧
      lastWord line = (if endsBlank line then [] else ((words line).getLast?).getD []) ∧
      (endsBlank line = false → lastStop 0 (tokens line) = utf8Length line) := by
  have hwords : ∀ w ∈ words line, IsWord w := fun w hw => isWord_of_mem_words hw
  have hsplits : Splits line 0 (tokens line) := splits_iff.2 rfl
  refine ⟨tokensByCuts_eq line, hsplits, fun ts => splits_iff.1, fun t h => h.words_eq hwords,
    fun gap hblank hsome => (spaced_join hblank hsome _).words_eq hwords, lastWord_eq line, hsplits.lastStop_eq⟩

/-- An accented letter after a space, a wide space of three bytes, and a letter that ends the line at its seventh byte. -/
theorem tokens_split_line_wide :
    let line : Text := [' ', 'é', '\u3000', 'x']
    Splits line 0 [⟨['é'], 1⟩, ⟨['x'], 6⟩] ∧ slice 1 3 line = .ok ['é'] ∧ words ['é', '\t', '\n', 'x'] = words line ∧
      words (Text.join [' ', '\u3000'] (words line)) = words line ∧ lastWord line = ['x'] ∧
      lastStop 0 (tokens line) = 7 := by
  intro line
  have htokens : tokens line = [⟨['é'], 1⟩, ⟨['x'], 6⟩] := by decide +kernel
  have hwords : words line = [['é'], ['x']] := by rw [words, htokens]; rfl
  obtain ⟨-, hsplits, -, hspaced, hjoin, hlast, hstop⟩ := tokens_split_line line
  rw [htokens] at hsplits
  have htwo : Spaced (words line) ['é', '\t', '\n', 'x'] := by
    rw [hwords]
    have hblank : isBlankText ['\t', '\n'] = true := rfl
    exact .cons hblank (List.cons_ne_nil _ _) (.last ['x'])
  refine ⟨hsplits, hsplits.cut _ List.mem_cons_self, hspaced _ htwo, hjoin _ rfl (List.cons_ne_nil _ _), ?_, hstop rfl⟩
  rw [hlast, hwords]
  rfl

end CommandConsole

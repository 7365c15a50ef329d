import Mathlib.Data.List.Induction
import CommandConsole.Command.Token
import CommandConsole.Proofs.Text.Parts
/-!
# Words — a line and the words it is made of

A word (`IsWord`) is a text that is not empty and has no blank in it.  The words of a line are such texts
(`isWord_of_mem_words`), and words with single spaces between them are read back as they are (`words_join_of_isWord`).
Both come from the equations of `words` at a blank and at a letter, which free it from the offsets that `tokens` counts.
-/
namespace CommandConsole

/-- A text without blanks. -/
def NoBlank (t : Text) : Prop := ∀ c ∈ t, isBlank c = false

/-- A text that is a word of some line. -/
structure IsWord (t : Text) : Prop where
  ne_nil  : t ≠ []
  noBlank : NoBlank t

instance (t : Text) : Decidable (NoBlank t) := List.decidableBAll (isBlank · = false) t

instance (t : Text) : Decidable (IsWord t) :=
  decidable_of_iff (t ≠ [] ∧ NoBlank t) ⟨fun h => ⟨h.1, h.2⟩, fun h => ⟨h.1, h.2⟩⟩

theorem noBlank_nil : NoBlank [] := fun _ hc => nomatch hc

theorem noBlank_append {s t : Text} : NoBlank (s ++ t) ↔ NoBlank s ∧ NoBlank t := by
  simp only [NoBlank, List.mem_append, or_imp, forall_and]

theorem noBlank_cons {c : Char} {t : Text} : NoBlank (c :: t) ↔ isBlank c = false ∧ NoBlank t := by
  simp only [NoBlank, List.mem_cons, forall_eq_or_imp]

theorem IsWord.cons {c : Char} {t : Text} (hc : isBlank c = false) (ht : NoBlank t) : IsWord (c :: t) :=
  ⟨List.cons_ne_nil c t, noBlank_cons.2 ⟨hc, ht⟩⟩

/-! ## The first word -/

theorem noBlank_firstWord (t : Text) : NoBlank (Text.firstWord t) := by
  induction t with
  | nil => exact noBlank_nil
  | cons c t ih =>
    unfold Text.firstWord at ih ⊢
    rw [List.takeWhile_cons]
    split
    · rename_i hc
      exact noBlank_cons.2 ⟨by simpa using hc, ih⟩
    · exact noBlank_nil

/-- The first word ends before the next blank, whatever follows that. -/
theorem firstWord_append_blank {b : Char} (hb : isBlank b = true) (t : Text) : ∀ s : Text,
    Text.firstWord (s ++ b :: t) = Text.firstWord s
  | [] => by simp [Text.firstWord, hb]
  | c :: s => by
    have ih := firstWord_append_blank hb t s
    unfold Text.firstWord at ih ⊢
    rw [List.cons_append, List.takeWhile_cons, List.takeWhile_cons, ih]

theorem afterWord_append_blank {b : Char} (hb : isBlank b = true) (s t : Text) :
    Text.afterWord (s ++ b :: t) = Text.afterWord s ++ b :: t := by
  have h := Text.firstWord_append_afterWord (s ++ b :: t)
  rw [firstWord_append_blank hb] at h
  conv at h => rhs; rw [← Text.firstWord_append_afterWord s, List.append_assoc]
  exact List.append_cancel_left h

theorem firstWord_of_noBlank {w : Text} (hw : NoBlank w) : Text.firstWord w = w := by
  induction w with
  | nil => rfl
  | cons c w ih =>
    obtain ⟨hc, hw⟩ := noBlank_cons.1 hw
    have := ih hw
    unfold Text.firstWord at this ⊢
    rw [List.takeWhile_cons, if_pos (by simp [hc]), this]

theorem afterWord_of_noBlank {w : Text} (hw : NoBlank w) : Text.afterWord w = [] := by
  have h := Text.firstWord_append_afterWord w
  rw [firstWord_of_noBlank hw] at h
  simpa using h

/-! ## The words of a line -/

/-- The words do not depend on where the line is taken to start. -/
theorem map_text_tokensFrom (offset : Nat) (t : Text) : (tokensFrom offset t).map Token.text = words t := by
  unfold words tokens
  -- both offsets move along the line at once, whatever they are
  generalize 0 = start
  fun_induction tokensFrom offset t generalizing start with
  | case1 => rw [tokensFrom]
  | case2 offset c t hc ih => rw [tokensFrom, if_pos hc]; exact ih _
  | case3 offset c t hc word ih =>
    rw [tokensFrom, if_neg hc]
    exact congrArg (word :: ·) (ih _)

@[simp] theorem words_nil : words [] = [] := by rw [words, tokens, tokensFrom]; rfl

theorem words_cons_blank {c : Char} (hc : isBlank c = true) (t : Text) : words (c :: t) = words t := by
  rw [words, tokens, tokensFrom, if_pos hc, map_text_tokensFrom]

theorem words_cons_letter {c : Char} (hc : isBlank c = false) (t : Text) :
    words (c :: t) = (c :: Text.firstWord t) :: words (Text.afterWord t) := by
  rw [words, tokens, tokensFrom, if_neg (by simp [hc])]
  simp only [List.map_cons, map_text_tokensFrom]

/-- **A line is split at a blank**: what stands before it and what stands after it are read apart. -/
theorem words_append_blank {b : Char} (hb : isBlank b = true) (s t : Text) :
    words (s ++ b :: t) = words s ++ words t := by
  induction hn : s.length using Nat.strongRecOn generalizing s with
  | ind n ih =>
    subst hn
    cases s with
    | nil => rw [List.nil_append, words_cons_blank hb, words_nil, List.nil_append]
    | cons c s =>
      rw [List.cons_append]
      cases hc : isBlank c with
      | true =>
        rw [words_cons_blank hc, words_cons_blank hc]
        exact ih s.length (by simp) s rfl
      | false =>
        rw [words_cons_letter hc, words_cons_letter hc, firstWord_append_blank hb, afterWord_append_blank hb,
          List.cons_append, ih _ (Nat.lt_succ_of_le (Text.length_afterWord_le s)) _ rfl]

theorem words_of_isWord {w : Text} (hw : IsWord w) : words w = [w] := by
  cases w with
  | nil => exact absurd rfl hw.ne_nil
  | cons c w =>
    obtain ⟨hc, hw⟩ := noBlank_cons.1 hw.noBlank
    rw [words_cons_letter hc, firstWord_of_noBlank hw, afterWord_of_noBlank hw, words_nil]

/-- **The words of a line are words.** -/
theorem isWord_of_mem_words {t w : Text} (h : w ∈ words t) : IsWord w := by
  induction hn : t.length using Nat.strongRecOn generalizing t with
  | ind n ih =>
    subst hn
    cases t with
    | nil => simp at h
    | cons c t =>
      cases hc : isBlank c with
      | true =>
        rw [words_cons_blank hc] at h
        exact ih t.length (by simp) h rfl
      | false =>
        rw [words_cons_letter hc, List.mem_cons] at h
        rcases h with rfl | h
        · exact .cons hc (noBlank_firstWord t)
        · exact ih _ (Nat.lt_succ_of_le (Text.length_afterWord_le t)) h rfl

/-- Texts with single spaces between them have the words of each, in order. -/
theorem words_join : ∀ ts : List Text, words (Text.join " " ts) = ts.flatMap words
  | [] => words_nil
  | [t] => by simp [Text.join]
  | t :: u :: ts => by
    rw [Text.join, List.append_assoc, List.flatMap_cons, ← words_join (u :: ts)]
    exact words_append_blank (b := ' ') rfl t _

theorem flatMap_words : ∀ {ws : List Text}, (∀ w ∈ ws, IsWord w) → ws.flatMap words = ws
  | [], _ => rfl
  | w :: ws, h => by
    rw [List.flatMap_cons, words_of_isWord (h w List.mem_cons_self),
      flatMap_words (fun u hu => h u (List.mem_cons_of_mem w hu))]
    rfl

/-- **Words with single spaces between them are read back as they are.** -/
theorem words_join_of_isWord {ws : List Text} (h : ∀ w ∈ ws, IsWord w) : words (Text.join " " ws) = ws :=
  (words_join ws).trans (flatMap_words h)

/-! ## Blanks around a line -/

theorem words_trimStart (t : Text) : words (Text.trimStart t) = words t := by
  induction t with
  | nil => rfl
  | cons c t ih =>
    cases hc : isBlank c with
    | true  =>
      rw [words_cons_blank hc, ← ih, Text.trimStart, Text.trimStart, List.dropWhile_cons_of_pos hc]
    | false => rw [Text.trimStart_cons hc]

theorem words_trimEnd (t : Text) : words (Text.trimEnd t) = words t := by
  induction t using List.reverseRecOn with
  | nil => rfl
  | append_singleton s c ih =>
    cases hc : isBlank c with
    | true  =>
      have hend : Text.trimEnd (s ++ [c]) = Text.trimEnd s := List.rdropWhile_concat_pos isBlank s c hc
      rw [hend, ih, words_append_blank hc, words_nil, List.append_nil]
    | false =>
      have hend : Text.trimEnd (s ++ [c]) = s ++ [c] := List.rdropWhile_concat_neg isBlank s c (by simp [hc])
      rw [hend]

/-- **Blanks around a line are in no word of it.** -/
theorem words_trim (t : Text) : words (Text.trim t) = words t := (words_trimEnd _).trans (words_trimStart t)

/-! ## A line that is being typed -/

theorem endsBlank_iff {t : Text} : Text.endsBlank t = true ↔ ∃ s b, t = s ++ [b] ∧ isBlank b = true := by
  unfold Text.endsBlank
  constructor
  · intro h
    split at h
    · rename_i b hlast
      obtain ⟨s, rfl⟩ := List.getLast?_eq_some_iff.1 hlast
      exact ⟨s, b, rfl, h⟩
    · cases h
  · rintro ⟨s, b, rfl, hb⟩
    rw [List.getLast?_concat]
    exact hb

theorem endsBlank_append_word {w : Text} (hw : IsWord w) (s : Text) : Text.endsBlank (s ++ w) = false := by
  rw [Text.endsBlank, List.getLast?_append, List.getLast?_eq_some_getLast hw.ne_nil]
  exact hw.noBlank _ (List.getLast_mem hw.ne_nil)

/-- What follows a blank is read apart from what comes before it. -/
theorem words_append_of_endsBlank {s : Text} (h : Text.endsBlank s = true) (t : Text) :
    words (s ++ t) = words s ++ words t := by
  obtain ⟨s, b, rfl, hb⟩ := endsBlank_iff.1 h
  rw [List.append_assoc, List.singleton_append, words_append_blank hb, words_append_blank hb, words_nil, List.append_nil]

/-- **The word at the end of a line is what has been typed since the last blank**, be it nothing. -/
theorem typedWords_append {head typed : Text} (hwords : words head ≠ []) (hblank : Text.endsBlank head = true)
    (htyped : NoBlank typed) : typedWords (head ++ typed) = words head ++ [typed] := by
  unfold typedWords
  dsimp only
  by_cases ht : typed = []
  · rw [ht, List.append_nil, if_pos ⟨hwords, hblank⟩]
  · have hw : IsWord typed := ⟨ht, htyped⟩
    rw [endsBlank_append_word hw, if_neg (by simp), words_append_of_endsBlank hblank, words_of_isWord hw]

/-- A line is what has been typed since its last blank, and what comes before. -/
theorem exists_last_word (line : Text) :
    ∃ head w, line = head ++ w ∧ NoBlank w ∧ (head = [] ∨ Text.endsBlank head = true) := by
  induction line using List.reverseRecOn with
  | nil => exact ⟨[], [], rfl, noBlank_nil, .inl rfl⟩
  | append_singleton s c ih =>
    cases hc : isBlank c with
    | true  => exact ⟨s ++ [c], [], by simp, noBlank_nil, .inr (endsBlank_iff.2 ⟨s, c, rfl, hc⟩)⟩
    | false =>
      obtain ⟨head, w, rfl, hw, hhead⟩ := ih
      exact ⟨head, w ++ [c], by simp, noBlank_append.2 ⟨hw, noBlank_cons.2 ⟨hc, noBlank_nil⟩⟩, hhead⟩

/-- The word at the end of a line, if it is not the only one, is what has been typed since the last blank. -/
theorem exists_head_of_typedWords {line typed : Text} {ws : List Text} (hws : ws ≠ [])
    (h : typedWords line = ws ++ [typed]) :
    ∃ head, line = head ++ typed ∧ words head = ws ∧ Text.endsBlank head = true ∧ NoBlank typed := by
  unfold typedWords at h
  dsimp only at h
  split at h
  · rename_i hline
    obtain ⟨hwords, htyped⟩ := List.append_inj' h rfl
    cases htyped
    exact ⟨line, by simp, hwords, hline.2, noBlank_nil⟩
  · rename_i hline
    obtain ⟨head, w, rfl, hw, hhead⟩ := exists_last_word line
    by_cases hnil : w = []
    · -- a line that ends in a blank has been read above; one without words is none of these
      rcases hhead with rfl | hhead
      · rw [hnil, List.append_nil, words_nil] at h
        simp at h
      · rw [hnil, List.append_nil] at h hline
        exact absurd ⟨by rw [h]; simp, hhead⟩ hline
    · have hword := words_of_isWord ⟨hnil, hw⟩
      rcases hhead with rfl | hhead
      · rw [List.nil_append, hword] at h
        obtain ⟨hnone, -⟩ := List.append_inj' (show [] ++ [w] = ws ++ [typed] from h) rfl
        exact absurd hnone.symm hws
      · rw [words_append_of_endsBlank hhead, hword] at h
        obtain ⟨hwords, htyped⟩ := List.append_inj' h rfl
        cases htyped
        exact ⟨head, rfl, hwords, hhead, hw⟩

theorem typedWords_of_not_endsBlank {line : Text} (h : Text.endsBlank line = false) : typedWords line = words line := by
  unfold typedWords
  dsimp only
  rw [h, if_neg (by simp)]

/-- After a space an empty word has begun. -/
theorem typedWords_append_space {line : Text} (h : words line ≠ []) : typedWords (line ++ " ") = words line ++ [[]] := by
  have hspace : words (line ++ [' ']) = words line := by rw [words_append_blank rfl, words_nil, List.append_nil]
  have hblank : Text.endsBlank (line ++ " ") = true := endsBlank_iff.2 ⟨line, ' ', rfl, rfl⟩
  unfold typedWords
  dsimp only
  rw [if_pos ⟨hspace ▸ h, hblank⟩]
  exact congrArg (· ++ [[]]) hspace

theorem endsBlank_trimEnd (t : Text) : Text.endsBlank (Text.trimEnd t) = false := by
  by_cases hnil : Text.trimEnd t = []
  · rw [hnil]
    rfl
  · have hlast : isBlank ((Text.trimEnd t).getLast hnil) = false :=
      Bool.eq_false_iff.2 (List.rdropWhile_last_not isBlank t hnil)
    rw [Text.endsBlank, List.getLast?_eq_some_getLast hnil]
    exact hlast

/-- A text without blanks has none to trim. -/
theorem Text.trim_of_noBlank {t : Text} (h : NoBlank t) : trim t = t := by
  have hend : ∀ {t : Text}, NoBlank t → trimEnd t = t := by
    intro t ht
    induction t with
    | nil         => rfl
    | cons c t ih => rw [trimEnd_cons (noBlank_cons.1 ht).1, ih (noBlank_cons.1 ht).2]
  cases t with
  | nil      => rfl
  | cons c t => rw [trim, trimStart_cons (noBlank_cons.1 h).1, hend h]

/-- **The first words of a line are the words of a start of it.** -/
theorem exists_prefix_of_words {rest : List Text} : ∀ {line : Text} {ws : List Text}, words line = ws ++ rest →
    ∃ head, head <+: line ∧ words head = ws ∧ Text.endsBlank head = false := by
  induction rest using List.reverseRecOn with
  | nil =>
    intro line ws h
    refine ⟨Text.trimEnd line, List.rdropWhile_prefix isBlank line, ?_, endsBlank_trimEnd line⟩
    rw [words_trimEnd, h, List.append_nil]
  | append_singleton rest w ih =>
    intro line ws h
    by_cases hnil : ws ++ rest = []
    · exact ⟨[], List.nil_prefix, by rw [words_nil, (List.append_eq_nil_iff.1 hnil).1], rfl⟩
    · have htyped : typedWords (Text.trimEnd line) = (ws ++ rest) ++ [w] := by
        rw [typedWords_of_not_endsBlank (endsBlank_trimEnd line), words_trimEnd, h, List.append_assoc]
      obtain ⟨before, hbefore, hwords, -, -⟩ := exists_head_of_typedWords hnil htyped
      obtain ⟨head, hhead, hws, hend⟩ := ih hwords
      have hprefix : before <+: line :=
        (hbefore ▸ List.prefix_append before w).trans (List.rdropWhile_prefix isBlank line)
      exact ⟨head, hhead.trans hprefix, hws, hend⟩

end CommandConsole

import CommandConsole.Proofs.Command.Grammar
import CommandConsole.Proofs.Line.Completing
/-!
# Replacing — what a candidate was compared with, and what it replaces

Candidates are compared with the last word of the line, or with what follows its sigil if it is the only one
(`comparedPart`).  What Tab replaces is the last word without the marks at its start, however many there are and whichever
word it is.  The two are the same just where the part that was compared does not start with a mark itself
(`tab_replaces_compared`).  Where it does, the mark stays in the line and comes with the candidate as well
(`tab_repeats_mark`).
-/
namespace CommandConsole

open Text

variable {before head w o : Text}

/-! ## What is compared -/

/-- A word without the sigil at its start. -/
def withoutSigil (w : Text) : Text := ((Sigil.split? w).map Prod.snd).getD w

/-- What candidates are compared with: the last word of a line that is being typed, without its sigil if it is the first. -/
def comparedPart (before : Text) : Text :=
  let ws := typedWords before
  let last := ws.getLast?.getD []
  if ws.length = 1 then withoutSigil last else last

theorem typed_of_afterSelector {targeted : Bool} {ws : List Text} {p : Position}
    (h : Position.afterSelector targeted ws = some p) : p.typed = ws.getLast?.getD [] := by
  match ws, h with
  | [w],           h => cases h; rfl
  | v :: n :: rest, h =>
    obtain ⟨verb, -, rfl⟩ := Option.map_eq_some_iff.1 h
    rw [List.getLast?_cons_cons, List.getLast?_cons]
    cases rest.getLast? <;> rfl

theorem ofWords_cons_cons (w v : Text) (rest : List Text) : Position.ofWords (w :: v :: rest) =
    if (Selector.ofText? w).isSome then Position.afterSelector true (v :: rest)
    else Position.afterSelector false (w :: v :: rest) := rfl

/-- **At every place of the grammar candidates are compared with the same part of the line.** -/
theorem typed_eq_comparedPart {p : Position} (h : Position.of before = some p) : p.typed = comparedPart before := by
  unfold Position.of at h
  unfold comparedPart
  dsimp only
  match typedWords before, h with
  | [w],           h => cases h; rfl
  | w :: v :: rest, h =>
    rw [ofWords_cons_cons] at h
    rw [if_neg (by simp)]
    split at h
    · rw [typed_of_afterSelector h, List.getLast?_cons_cons]
    · exact typed_of_afterSelector h

/-! ## The last word -/

theorem endsBlank_of_words (hhead : head = [] ∨ endsBlank head = true) (hsome : words head ≠ []) :
    endsBlank head = true := hhead.resolve_left fun hnil => hsome (by rw [hnil, words_nil])

theorem typedWords_of_words_eq_nil (hnone : words head = []) (hhead : head = [] ∨ endsBlank head = true) (hw : NoBlank w) :
    typedWords (head ++ w) = if w = [] then [] else [w] := by
  have hwords : words (head ++ w) = words w := by
    rcases hhead with rfl | hhead
    · rfl
    · rw [words_append_of_endsBlank hhead, hnone, List.nil_append]
  unfold typedWords
  dsimp only
  rw [hwords]
  by_cases hw' : w = []
  · rw [hw', words_nil]
    rfl
  · have hword : IsWord w := ⟨hw', hw⟩
    rw [endsBlank_append_word hword, words_of_isWord hword, if_neg (by simp), if_neg hw']

theorem comparedPart_append (hw : NoBlank w) (hhead : head = [] ∨ endsBlank head = true) :
    comparedPart (head ++ w) = if words head = [] then withoutSigil w else w := by
  unfold comparedPart
  dsimp only
  by_cases hnone : words head = []
  · rw [typedWords_of_words_eq_nil hnone hhead hw, if_pos hnone]
    by_cases hw' : w = []
    · rw [hw']
      rfl
    · rw [if_neg hw']
      rfl
  · have hlonger := List.length_pos_iff.2 hnone
    have htwo : (words head ++ [w]).length ≠ 1 := by
      rw [List.length_append, List.length_singleton]
      omega
    rw [typedWords_append hnone (endsBlank_of_words hhead hnone) hw, if_neg hnone, if_neg htwo, List.getLast?_concat]
    rfl

theorem lastWord_append (hw : NoBlank w) (hhead : head = [] ∨ endsBlank head = true) : lastWord (head ++ w) = w := by
  have hrest : head.reverse.takeWhile (fun c => !isBlank c) = [] := by
    rcases hhead with rfl | hhead
    · rfl
    · obtain ⟨s, b, rfl, hb⟩ := endsBlank_iff.1 hhead
      rw [List.reverse_concat, List.takeWhile_cons, hb]
      rfl
  rw [lastWord, List.reverse_append,
    List.takeWhile_append_of_pos fun c hc => by rw [hw c (List.mem_reverse.1 hc)]; rfl, hrest, List.append_nil,
    List.reverse_reverse]

/-! ## What is replaced -/

/-- The text does not start with a mark. -/
def Unmarked (t : Text) : Prop := ∀ c, t.head? = some c → isSigilChar c = false

theorem dropWhile_isSigilChar_eq_self_iff {t : Text} : t.dropWhile isSigilChar = t ↔ Unmarked t := by
  rw [List.dropWhile_eq_self_iff]
  cases t <;> simp [Unmarked]

theorem dropWhile_withoutSigil (w : Text) : (withoutSigil w).dropWhile isSigilChar = w.dropWhile isSigilChar := by
  unfold withoutSigil Sigil.split?
  split <;> rfl

/-- **Of what was compared, Tab replaces what follows the marks at its start.** -/
theorem completedWord_eq (before : Text) : completedWord before = (comparedPart before).dropWhile isSigilChar := by
  obtain ⟨head, w, rfl, hw, hhead⟩ := exists_last_word before
  rw [completedWord, lastWord_append hw hhead, comparedPart_append hw hhead]
  split
  · rw [dropWhile_withoutSigil]
  · rfl

theorem completedHead_of_eq_append {pre : Text} (h : before = pre ++ completedWord before) : completedHead before = pre := by
  have hlength := congrArg List.length h
  rw [List.length_append] at hlength
  rw [completedHead, hlength, Nat.add_sub_cancel]
  conv_lhs => rw [h]
  exact List.take_left' rfl

/-! ## A complete `select` -/

theorem exists_head_of_typedWords_eq_singleton {t : Text} (h : typedWords before = [t]) :
    ∃ head, before = head ++ t ∧ IsWord t ∧ words head = [] := by
  obtain ⟨head, w, rfl, hw, hhead⟩ := exists_last_word before
  by_cases hnone : words head = []
  · rw [typedWords_of_words_eq_nil hnone hhead hw] at h
    split at h
    · cases h
    · rename_i hsome
      cases h
      exact ⟨head, rfl, ⟨hsome, hw⟩, hnone⟩
  · -- a word before the last would be a second one
    rw [typedWords_append hnone (endsBlank_of_words hhead hnone) hw] at h
    exact absurd (List.append_inj' (show words head ++ [w] = [] ++ [t] from h) rfl).1 hnone

theorem trimStart_append (hw : IsWord w) : words head = [] → trimStart (head ++ w) = w := by
  induction head with
  | nil =>
    intro _
    obtain ⟨c, u, rfl⟩ := List.exists_cons_of_ne_nil hw.ne_nil
    exact trimStart_cons (noBlank_cons.1 hw.noBlank).1 u
  | cons c head ih =>
    -- what has no words is blanks alone
    intro hnone
    cases hc : isBlank c with
    | true  =>
      rw [words_cons_blank hc] at hnone
      rw [List.cons_append, trimStart, List.dropWhile_cons_of_pos hc]
      exact ih hnone
    | false => simp [words_cons_letter hc] at hnone

theorem not_leading_of_afterSelector {targeted : Bool} {ws : List Text} {t : Text} :
    Position.afterSelector targeted ws ≠ some (.leading t) := by
  match ws with
  | []             => exact nofun
  | [w]            => exact nofun
  | v :: n :: rest =>
    intro h
    obtain ⟨verb, -, h⟩ := Option.map_eq_some_iff.1 h
    split at h <;> cases h

theorem typedWords_of_leading {t : Text} (h : Position.of before = some (.leading t)) : typedWords before = [t] := by
  unfold Position.of at h
  match typedWords before, h with
  | [w],           h => cases h; rfl
  | w :: v :: rest, h =>
    rw [ofWords_cons_cons] at h
    split at h <;> exact absurd h not_leading_of_afterSelector

/-- Unless it is a complete `select`, a line is offered the options that start with the part that is compared. -/
theorem accepts_eq {p : Position} (hselect : isSelectWord before = false) (h : Position.of before = some p) (o : Text) :
    p.accepts o = startsWithAscii (comparedPart before) o := by
  rw [← typed_eq_comparedPart h]
  cases p with
  | leading t =>
    obtain ⟨head, heq, ht, hnone⟩ := exists_head_of_typedWords_eq_singleton (typedWords_of_leading h)
    rw [isSelectWord, heq, trimStart_append ht hnone] at hselect
    rw [Position.accepts, hselect]
    rfl
  | _ => rfl

/-! ## What stays in the line -/

/-- The part that is compared is what ends the line, but for the sigil before it if it is in the first word. -/
theorem exists_kept (before : Text) : ∃ head kept, before = head ++ kept ++ comparedPart before ∧
    (head = [] ∨ endsBlank head = true) ∧ NoBlank kept ∧ (kept = [] ∨ words head = [] ∧ ∃ s : Sigil, kept = s.text) := by
  obtain ⟨head, w, rfl, hw, hhead⟩ := exists_last_word before
  rw [comparedPart_append hw hhead]
  split
  · rename_i hnone
    unfold withoutSigil
    cases hsplit : Sigil.split? w with
    | none   => exact ⟨head, [], by simp, hhead, noBlank_nil, .inl rfl⟩
    | some p =>
      obtain ⟨rfl, -⟩ := of_split?_eq_some hw hsplit
      exact ⟨head, p.1.text, by simp, hhead, (noBlank_append.1 hw).1, .inr ⟨hnone, p.1, rfl⟩⟩
  · exact ⟨head, [], by simp, hhead, noBlank_nil, .inl rfl⟩

/-- A candidate that is a word ends the line, together with what is kept before it. -/
theorem words_completed {kept : Text} (hhead : head = [] ∨ endsBlank head = true) (hkept : NoBlank kept) (ho : IsWord o) :
    words (head ++ kept ++ o ++ " ") = words head ++ [kept ++ o] := by
  have hword : IsWord (kept ++ o) :=
    ⟨List.append_ne_nil_of_right_ne_nil kept ho.ne_nil, noBlank_append.2 ⟨hkept, ho.noBlank⟩⟩
  have hspace : words (head ++ kept ++ o ++ " ") = words (head ++ (kept ++ o)) := by
    rw [← List.append_assoc]
    exact (words_append_blank (b := ' ') rfl _ []).trans (by rw [words_nil, List.append_nil])
  rw [hspace, ← words_of_isWord hword]
  rcases hhead with rfl | hhead
  · rw [words_nil, List.nil_append, List.nil_append]
  · exact words_append_of_endsBlank hhead _

theorem Completion.press_cycle {m : Completion} {backwards : Bool} {predict : Text → List Text} {t : Text}
    {cycle : Cycle} (hasks : m.asks before = true) (h : m.press before backwards predict = (some t, some cycle)) :
    cycle.head = completedHead before ∧ cycle.candidates = predict before := by
  rw [press_of_asks hasks] at h
  split at h
  · cases h
  · cases h
  · cases h
    unfold Cycle.start
    dsimp only
    split <;> exact ⟨rfl, rfl⟩

/-- **Tab replaces what was compared, unless that starts with a mark.**  Candidates are compared with the last word of the
line, without its sigil if it is the first word; what Tab replaces is that without any marks at its start.  Where there are
none, the two are the same: the text before is kept, and so is the sigil, and the candidate that is chosen stands in the
place of the rest. -/
theorem tab_replaces_compared (hselect : isSelectWord before = false) :
    (∀ p, Position.of before = some p → ∀ o, p.accepts o = startsWithAscii (comparedPart before) o) ∧
      completedWord before = (comparedPart before).dropWhile isSigilChar ∧
      (completedWord before = comparedPart before ↔ Unmarked (comparedPart before)) ∧
      (Unmarked (comparedPart before) → ∃ head kept,
        before = head ++ kept ++ comparedPart before ∧ (kept = [] ∨ words head = [] ∧ ∃ s : Sigil, kept = s.text) ∧
        (∀ o, IsWord o → words (head ++ kept ++ o ++ " ") = words head ++ [kept ++ o]) ∧
        ∀ m backwards predict, Completion.asks m before = true →
          (∀ only, predict before = [only] →
            m.press before backwards predict = (some (head ++ kept ++ only ++ " "), none)) ∧
          ∀ t cycle, m.press before backwards predict = (some t, some cycle) →
            cycle.head = head ++ kept ∧ cycle.candidates = predict before) := by
  have hiff : completedWord before = comparedPart before ↔ Unmarked (comparedPart before) := by
    rw [completedWord_eq, dropWhile_isSigilChar_eq_self_iff]
  refine ⟨fun p hp => accepts_eq hselect hp, completedWord_eq before, hiff, fun hunmarked => ?_⟩
  obtain ⟨head, kept, heq, hhead, hkept, hsigil⟩ := exists_kept before
  have hreplaced : completedHead before = head ++ kept :=
    completedHead_of_eq_append (heq.trans (by rw [hiff.2 hunmarked]))
  refine ⟨head, kept, heq, hsigil, fun o ho => words_completed hhead hkept ho, fun m backwards predict hasks => ⟨?_, ?_⟩⟩
  · intro only honly
    rw [Completion.press_of_asks hasks, honly, hreplaced]
  · intro t cycle hpress
    obtain ⟨hcycle, hcandidates⟩ := Completion.press_cycle hasks hpress
    exact ⟨hcycle.trans hreplaced, hcandidates⟩

/-- After a tag selector of two marks, with blanks before it. -/
theorem tab_replaces_compared_tag : completedWord " ##En".toList = "En".toList ∧
    ∃ ws kept, words (" ##".toList ++ "Enemy".toList ++ " ") = ws ++ [kept ++ "Enemy".toList] := by
  have hcompared : comparedPart " ##En".toList = "En".toList := by decide +kernel
  have hunmarked : Unmarked (comparedPart " ##En".toList) := by
    rw [hcompared]
    rintro c hc
    cases hc
    rfl
  have hselect : isSelectWord " ##En".toList = false := rfl
  obtain ⟨-, -, hiff, hkept⟩ := tab_replaces_compared hselect
  obtain ⟨head, kept, heq, -, hwords, -⟩ := hkept hunmarked
  rw [hcompared] at heq
  have hpre : " ##".toList = head ++ kept :=
    List.append_cancel_right (show " ##".toList ++ "En".toList = head ++ kept ++ "En".toList from heq)
  rw [hpre]
  exact ⟨(hiff.2 hunmarked).trans hcompared, words head, kept, hwords _ (by decide)⟩

/-- A console that knows one name, which starts with a mark. -/
def Samples.numbered : Console Samples.Kind := .new ⟨[], [], ["#1".toList], []⟩ {}

theorem Samples.predict_numbered : numbered.predict "@#".toList = ["#1".toList] := by
  have hmatching : matchingOptions .empty (World.mk [] [] ["#1".toList] [] : World Kind) "@#".toList =
      ["#1".toList] := by decide +kernel
  show CommandConsole.predict .empty (World.mk [] [] ["#1".toList] [] : World Kind) 32 _ = _
  rw [predict_eq_take, hmatching, ranked_of_pairwise (List.pairwise_singleton ..)]
  rfl

/-- **Tab does not replace what was compared where that starts with a mark.**  After `@#` the name `#1` is offered for what
follows the sigil, but the mark that it goes with stays in the line, and there are two of them.  It is the same with a later
word, which is compared with its mark and replaced without it. -/
theorem tab_repeats_mark :
    (isSelectWord "@#".toList = false ∧ comparedPart "@#".toList = "#".toList ∧ completedWord "@#".toList = [] ∧
      Samples.numbered.predict "@#".toList = ["#1".toList] ∧
      Completion.press none "@#".toList false Samples.numbered.predict = (some "@##1 ".toList, none)) ∧
    comparedPart "call paint #r".toList = "#r".toList ∧ completedWord "call paint #r".toList = "r".toList := by
  refine ⟨⟨rfl, by decide +kernel, by decide +kernel, Samples.predict_numbered, ?_⟩, by decide +kernel, by decide +kernel⟩
  rw [Completion.press_of_asks rfl, Samples.predict_numbered]
  rfl

end CommandConsole

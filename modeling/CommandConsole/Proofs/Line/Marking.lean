import CommandConsole.Proofs.Line.Capacity
/-!
# Marking — how a character without room is answered

A character is refused where it would make the line too long in bytes.  Whether the answer is the marker of a full line or the
bell is judged by the number of characters, and a line that is not too long has as many of them as it may have bytes just where
it is full to the last byte and all of ASCII (`Sound.crowded_iff`).  So only there the marker is drawn
(`full_line_marked_iff`).
-/
namespace CommandConsole

open Text

/-! ## Characters of one byte -/

namespace Text

theorem utf8Size_eq_one_iff {c : Char} : c.utf8Size = 1 ↔ c.toNat < 0x80 := by
  rw [Char.utf8Size_eq_one_iff, UInt32.le_iff_toNat_le]
  exact Nat.lt_succ_iff.symm

/-- **A text has as many characters as bytes just where it is all of ASCII.** -/
theorem utf8Length_le_length_iff : ∀ {t : Text}, utf8Length t ≤ t.length ↔ ∀ c ∈ t, c.toNat < 0x80
  | []     => iff_of_true (Nat.le_refl 0) nofun
  | c :: t => by
    have ih := utf8Length_le_length_iff (t := t)
    have hlength := length_le_utf8Length t
    have hc := c.utf8Size_pos
    rw [List.forall_mem_cons, ← utf8Size_eq_one_iff, ← ih, utf8Length_cons, List.length_cons]
    omega

end Text

/-- A line that is not too long has as many characters as it may have bytes just where it is full and all of ASCII. -/
theorem LineBuffer.Sound.crowded_iff {limit : Nat} {b : LineBuffer limit} (h : b.Sound) :
    limit ≤ b.text.length ↔ b.byteLength = limit ∧ ∀ c ∈ b.text, c.toNat < 0x80 := by
  have hfits := h.fits
  have hlength : b.text.length ≤ b.byteLength := length_le_utf8Length b.text
  have hascii : b.byteLength ≤ b.text.length ↔ ∀ c ∈ b.text, c.toNat < 0x80 := utf8Length_le_length_iff
  rw [← hascii]
  omega

namespace Editor

variable {κ : Type} [ComponentKind κ] {lineLimit historyLimit : Nat} {e : Editor lineLimit historyLimit}
  {c : Console κ} {prompt : Text}

/-! ## Keys one after the other -/

theorem Reachable.press (h : e.Reachable κ) (c : Console κ) (prompt : Text) (k : Key) :
    (e.press c prompt k).editor.Reachable κ := by
  have hkey := h.key c k
  unfold Editor.press
  split <;> rename_i heq <;> rw [heq] at hkey
  · exact hkey.taken
  · exact hkey
  · exact hkey

/-- **The editor is one that can be reached, however far a line has been edited.** -/
theorem Reachable.followKeys (c : Console κ) (prompt : Text) : ∀ (ks : List Key) {e : Editor lineLimit historyLimit},
    e.Reachable κ → (e.followKeys c prompt ks).editor.Reachable κ
  | [],      _, h => h
  | k :: ks, e, h => by
    have hpressed := h.press c prompt k
    unfold Editor.followKeys
    dsimp only
    split
    · exact hpressed
    · exact hpressed.followKeys c prompt ks

theorem followKeys_of_line? {k : Key} {ks : List Key} (hline : (e.press c prompt k).line? = none) :
    e.followKeys c prompt (k :: ks) =
      let r := (e.press c prompt k).editor.followKeys c prompt ks
      { r with drawn := (e.press c prompt k).drawn ++ r.drawn } := by
  rw [followKeys]
  dsimp only
  rw [hline]

/-- **Keys after others go on from the line that these have left**, as long as none of these has submitted it. -/
theorem followKeys_append (more : List Key) : ∀ {ks : List Key} {e : Editor lineLimit historyLimit},
    (e.followKeys c prompt ks).line? = none → e.followKeys c prompt (ks ++ more) =
      let r := e.followKeys c prompt ks
      let later := r.editor.followKeys c prompt more
      { later with drawn := r.drawn ++ later.drawn }
  | [],      e, _     => rfl
  | k :: ks, e, hline => by
    cases hpress : (e.press c prompt k).line? with
    | some line =>
      rw [followKeys] at hline
      dsimp only at hline
      rw [hpress] at hline
      cases hline
    | none      =>
      rw [followKeys_of_line? hpress] at hline
      rw [List.cons_append, followKeys_of_line? hpress, followKeys_of_line? hpress, followKeys_append more hline]
      dsimp only
      rw [List.append_assoc]

/-! ## Characters that are refused -/

theorem apply_char {x : Char} (hx : isControl x = false) (c : Console κ) (e : Editor lineLimit historyLimit) :
    e.apply c (.char x) = edit { e with completion := none } (e.buffer.insert? x) := by
  unfold apply
  dsimp only
  rw [hx, if_neg Bool.false_ne_true]

/-- A character is refused just where there is no room for its bytes. -/
theorem apply_char_refused_iff {x : Char} (hx : isControl x = false) :
    (e.apply c (.char x)).1 = .refused ↔ lineLimit < e.buffer.byteLength + x.utf8Size := by
  rw [apply_char hx, LineBuffer.insert?]
  split
  · exact iff_of_false (fun hrefused => by cases hrefused) (by omega)
  · exact iff_of_true rfl (by omega)

theorem edit_of_not_edited {edited : Option (LineBuffer lineLimit)} (h : (e.edit edited).1 ≠ .edited) :
    (e.edit edited).2 = e := by
  cases edited with
  | none   => rfl
  | some b => exact absurd rfl h

theorem buffer_of_refused {x : Char} (hx : isControl x = false) (h : (e.apply c (.char x)).1 = .refused) :
    (e.apply c (.char x)).2.buffer = e.buffer := by
  rw [apply_char hx] at h ⊢
  have hkept := edit_of_not_edited (e := { e with completion := none }) (h.trans_ne Outcome.noConfusion)
  rw [hkept]

theorem press_of_edited {k : Key} (h : (e.apply c k).1 = .edited) :
    e.press c prompt k = ⟨(e.apply c k).2.draw c prompt, (e.apply c k).2, none⟩ := by
  unfold press
  split <;> rename_i heq <;> rw [heq] at h ⊢ <;> cases h

theorem press_of_refused {k : Key} (h : (e.apply c k).1 = .refused) :
    e.press c prompt k = ⟨(e.apply c k).2.refusalMark, (e.apply c k).2, none⟩ := by
  unfold press
  split <;> rename_i heq <;> rw [heq] at h ⊢ <;> cases h

/-- What is drawn for a character that is refused, after what the keys before it have drawn. -/
theorem drawn_of_refused {before : List Key} (hline : (e.readLine c prompt before).line? = none) {k : Key} :
    let s := (e.readLine c prompt before).editor
    (s.apply c k).1 = .refused → ∀ after, (e.readLine c prompt (before ++ k :: after)).drawn =
      (e.readLine c prompt before).drawn ++ (s.apply c k).2.refusalMark ++
        ((s.apply c k).2.followKeys c prompt after).drawn := by
  intro s hrefused after
  have hpress : s.press c prompt k = ⟨(s.apply c k).2.refusalMark, (s.apply c k).2, none⟩ := press_of_refused hrefused
  have hone : (s.press c prompt k).line? = none := congrArg Pressed.line? hpress
  have hrest : (s.followKeys c prompt (k :: after)).drawn =
      (s.apply c k).2.refusalMark ++ ((s.apply c k).2.followKeys c prompt after).drawn := by
    rw [followKeys_of_line? hone, hpress]
  have hall : (e.followKeys c prompt (before ++ k :: after)).drawn =
      (e.followKeys c prompt before).drawn ++ (s.followKeys c prompt (k :: after)).drawn :=
    congrArg Reading.drawn (followKeys_append _ hline)
  have hreading (ks : List Key) : (e.readLine c prompt ks).drawn = e.draw c prompt ++ (e.followKeys c prompt ks).drawn := rfl
  rw [hreading, hreading, hall, hrest]
  simp only [List.append_assoc]

/-- **The marker of a full line is drawn just where the line is full to the last byte and all of ASCII.**  However a line has been
edited, a character that is no control character is refused just where there is no room for its bytes.  What is drawn for it
then, after all that the keys before it have drawn and before all that the next keys draw, is the marker where the line has as
many bytes as it may have and each is a character, and the bell everywhere else. -/
theorem full_line_marked_iff (h : e.Reachable κ) (c : Console κ) (prompt : Text) {before : List Key}
    (hline : (e.readLine c prompt before).line? = none) {x : Char} (hx : isControl x = false) :
    let s := (e.readLine c prompt before).editor
    ((s.apply c (.char x)).1 = .refused ↔ lineLimit < s.buffer.byteLength + x.utf8Size) ∧
    ((s.apply c (.char x)).1 = .refused → ∃ mark : Text,
      (mark = Display.boundary ∧ (s.buffer.byteLength = lineLimit ∧ ∀ y ∈ s.buffer.text, y.toNat < 0x80) ∨
        mark = Display.bell ∧ ¬ (s.buffer.byteLength = lineLimit ∧ ∀ y ∈ s.buffer.text, y.toNat < 0x80)) ∧
      ∀ after, (e.readLine c prompt (before ++ .char x :: after)).drawn =
        (e.readLine c prompt before).drawn ++ mark ++ ((s.apply c (.char x)).2.followKeys c prompt after).drawn) := by
  intro s
  have hs : s.Sound := (h.followKeys c prompt before).sound
  refine ⟨apply_char_refused_iff hx, fun hrefused =>
    ⟨(s.apply c (.char x)).2.refusalMark, ?_, drawn_of_refused hline hrefused⟩⟩
  have hsame : (s.apply c (.char x)).2.buffer = s.buffer := buffer_of_refused hx hrefused
  rw [← hs.buffer.crowded_iff, refusalMark, hsame]
  by_cases hcrowded : lineLimit ≤ s.buffer.text.length
  · exact .inl ⟨if_pos hcrowded, hcrowded⟩
  · exact .inr ⟨if_neg hcrowded, hcrowded⟩

/-- An editor whose line has four bytes. -/
def narrow : Editor 4 2 := .new .empty

/-- A line of four letters is full, and the marker is drawn for a fifth character, which would need two bytes. -/
theorem full_line_marked_iff_letters :
    let typed : List Key := [.char 'a', .char 'b', .char 'c', .char 'd']
    narrow.Reachable Samples.Kind ∧ (narrow.readLine idle [] typed).line? = none ∧ isControl 'é' = false ∧
      (narrow.readLine idle [] (typed ++ [.char 'é'])).drawn =
        (narrow.readLine idle [] typed).drawn ++ Display.boundary := by
  intro typed
  have hreached : narrow.Reachable Samples.Kind := .fresh
  have hline : (narrow.readLine idle [] typed).line? = none := rfl
  have hbuffer : (narrow.readLine idle [] typed).editor.buffer = ⟨['a', 'b', 'c', 'd'], 4⟩ := rfl
  have hascii : ∀ y ∈ ['a', 'b', 'c', 'd'], y.toNat < 0x80 := by simp
  obtain ⟨hiff, hmarked⟩ := full_line_marked_iff hreached idle [] hline (show isControl 'é' = false from rfl)
  rw [hbuffer] at hiff hmarked
  obtain ⟨mark, hmark, hdrawn⟩ := hmarked (hiff.2 (by decide))
  refine ⟨hreached, hline, rfl, (hdrawn []).trans ?_⟩
  rcases hmark with ⟨rfl, -⟩ | ⟨-, hother⟩
  · exact List.append_nil _
  · exact absurd ⟨rfl, hascii⟩ hother

/-- **The bell rings on a full line.**  Two characters of two bytes fill the line; the letter after them is refused, and what is
drawn is not the marker. -/
theorem full_line_rings :
    let typed : List Key := [.char 'é', .char 'é']
    let s := (narrow.readLine idle [] typed).editor
    narrow.Reachable Samples.Kind ∧ (narrow.readLine idle [] typed).line? = none ∧ isControl 'x' = false ∧
      s.buffer = ⟨['é', 'é'], 2⟩ ∧ s.buffer.byteLength = 4 ∧ (s.apply idle (.char 'x')).1 = .refused ∧
      (narrow.readLine idle [] (typed ++ [.char 'x'])).drawn =
        (narrow.readLine idle [] typed).drawn ++ Display.bell ∧
      (narrow.readLine idle [] (typed ++ [.char 'x'])).drawn ≠
        (narrow.readLine idle [] typed).drawn ++ Display.boundary := by
  intro typed s
  have hline : (narrow.readLine idle [] typed).line? = none := rfl
  have hrefused : (s.apply idle (.char 'x')).1 = .refused := rfl
  have hdrawn : (narrow.readLine idle [] (typed ++ [.char 'x'])).drawn =
      (narrow.readLine idle [] typed).drawn ++ Display.bell :=
    (drawn_of_refused hline hrefused []).trans (List.append_nil _)
  refine ⟨.fresh, hline, rfl, rfl, rfl, hrefused, hdrawn, fun hboundary => ?_⟩
  have hsame := List.append_cancel_left (hdrawn.symm.trans hboundary)
  exact absurd hsame (by decide)

end Editor
end CommandConsole

import CommandConsole.Proofs.Line.Marking
import CommandConsole.Proofs.Line.Tail
import CommandConsole.Proofs.Session.Cutting
import CommandConsole.Proofs.Shell.Lines
/-!
# Refusing — keys that change nothing, and keys that cannot fail

A key that is refused leaves the line and the history as they were, and so does the one that submits the line
(`Sound.kept`).  What a key does can be told by its steps: accesses to the slots of the line, places among the candidates of a
completion, and cuts in the text before the cursor and in what is looked up for it (`applyByCuts`).  In an editor that can be
reached none of them is a fault, since a completion there has several candidates and shows one of them
(`Reachable.applyByCuts_eq`).
-/
namespace CommandConsole

open Text KeyFault

/-! ## Tab -/

/-- The text before the cursor, cut where the part begins that candidates replace. -/
def cutWord (before : Text) : Except KeyFault (Text × Text) := do
  let word ← places (CycleFault.minus (utf8Length before) (utf8Length (lastWord before)))
  let parts ← cutAt word before
  let sigils ← places (CycleFault.minus (utf8Length parts.2) (utf8Length (parts.2.dropWhile isSigilChar)))
  cutAt (word + sigils) before

/-- The start of the first candidate, cut at the last byte that all share. -/
def cutCommon : List Text → Except KeyFault Text
  | []      => .ok []
  | t :: ts => do
    let parts ← cutAt (sharedBytes (t :: ts)) t
    return parts.1

/-- The cycle that several candidates begin. -/
def Cycle.startByCuts (head word : Text) (candidates : List Text) (backwards : Bool) : Except KeyFault Cycle := do
  let common ← cutCommon candidates
  let c : Cycle := ⟨head, candidates, none, head ++ common⟩
  if utf8Length word < utf8Length common then return c
  let i ← (if backwards then places (CycleFault.minus candidates.length 1) else .ok 0)
  places (c.selectChecked i)

/-- Tab, or Shift+Tab if `backwards`. -/
def Completion.pressByCuts (m : Completion) (before : Text) (backwards : Bool)
    (predict : Text → Except KeyFault (List Text)) : Except KeyFault (Option Text × Completion) :=
  match m.going? before with
  | some cycle => do
    let i ← places (cycle.nextChecked backwards)
    let c ← places (cycle.selectChecked i)
    return (some c.shown, some c)
  | none       =>
    if isSelectWord before then .ok (some (before ++ " "), none)
    else do
      let candidates ← predict before
      let parts ← cutWord before
      match candidates with
      | []         => return (none, none)
      | [only]     => return (some (parts.1 ++ only ++ " "), none)
      | candidates => do
        let c ← Cycle.startByCuts parts.1 parts.2 candidates backwards
        return (some c.shown, some c)

theorem cutWord_eq (before : Text) : cutWord before = .ok (completedHead before, completedWord before) := by
  obtain ⟨kept, hkept⟩ := lastWord_suffix before
  obtain ⟨sigils, hsigils⟩ : completedWord before <:+ lastWord before := List.dropWhile_suffix isSigilChar
  have hhead : completedHead before = kept ++ sigils := completedHead_of_eq_append (by rw [List.append_assoc, hsigils, hkept])
  have hbytes := congrArg utf8Length hkept
  have hlength := congrArg utf8Length hsigils
  rw [utf8Length_append] at hbytes hlength
  have hcut := cutAt_append kept (lastWord before)
  have hwhole := cutAt_append (completedHead before) (completedWord before)
  rw [hkept] at hcut
  rw [completedHead_append_completedWord, hhead, utf8Length_append, ← hhead] at hwhole
  have hword : utf8Length before - utf8Length (lastWord before) = utf8Length kept := by omega
  have hmarks : utf8Length (lastWord before) - utf8Length (completedWord before) = utf8Length sigils := by omega
  rw [cutWord, places_minus (by omega), ok_bind, hword, hcut, ok_bind]
  dsimp only
  rw [← completedWord, places_minus (by omega), ok_bind, hmarks, hwhole]

theorem cutCommon_eq (candidates : List Text) : cutCommon candidates = .ok (commonPrefix candidates) := by
  cases candidates with
  | nil       => rfl
  | cons t ts =>
    rw [cutCommon, cutAt, upToByte?_sharedBytes]
    rfl

theorem Cycle.startByCuts_eq {candidates : List Text} (hsome : candidates ≠ []) (head word : Text) (backwards : Bool) :
    startByCuts head word candidates backwards = .ok (start head word candidates backwards) := by
  have hpos := List.length_pos_iff.2 hsome
  have hplace : (if backwards then places (CycleFault.minus candidates.length 1) else .ok 0) =
      .ok (if backwards then candidates.length - 1 else 0) := by
    split
    · exact places_minus hpos
    · rfl
  rw [startByCuts, cutCommon_eq, ok_bind, hplace, start]
  dsimp only
  split
  · rfl
  · rw [ok_bind, selectChecked_eq (startPlace_lt hpos backwards)]
    rfl

/-- **No step of a press is a fault**, wherever the completion has come to. -/
theorem Completion.pressByCuts_eq {m : Completion} (h : ∀ c, m = some c → c.Sound)
    {predict : Text → List Text} {predictByCuts : Text → Except KeyFault (List Text)}
    (hpredict : ∀ t, predictByCuts t = .ok (predict t)) (before : Text) (backwards : Bool) :
    m.pressByCuts before backwards predictByCuts = .ok (m.press before backwards predict) := by
  unfold pressByCuts press
  cases hgoing : m.going? before with
  | some cycle =>
    have hs := h cycle (going?_eq_some hgoing).1
    dsimp only
    rw [Cycle.nextChecked_eq hs, places_ok, ok_bind, Cycle.selectChecked_eq (hs.next_lt backwards)]
    rfl
  | none       =>
    dsimp only
    split
    · rfl
    · rw [hpredict, ok_bind, cutWord_eq, ok_bind]
      match predict before with
      | []          => rfl
      | [only]      => rfl
      | t :: u :: l =>
        dsimp only
        rw [Cycle.startByCuts_eq (List.cons_ne_nil t _)]
        rfl

namespace Editor

variable {κ : Type} [ComponentKind κ] {lineLimit historyLimit : Nat} {e : Editor lineLimit historyLimit}

/-! ## Keys -/

def stepOnSlots (e : Editor lineLimit historyLimit) (x : LineBuffer.Step) :
    Except KeyFault (Outcome × Editor lineLimit historyLimit) := do
  let r ← slots (x.onSlots e.buffer)
  return (if r.1 = some false then .refused else .edited, { e with buffer := r.2 })

def bringBackOnSlots (e : Editor lineLimit historyLimit) :
    Option Text × History historyLimit lineLimit → Except KeyFault (Outcome × Editor lineLimit historyLimit)
  | (some entry, h) => stepOnSlots { e with history := h } (.overwrite entry)
  | (none, h)       => .ok (.refused, { e with history := h })

def completeByCuts (c : Console κ) (backwards : Bool) (e : Editor lineLimit historyLimit) :
    Except KeyFault (Outcome × Editor lineLimit historyLimit) := do
  let before ← slots (Slots.upTo e.buffer.text e.buffer.cursor)
  let r ← e.completion.pressByCuts before backwards
    (predictByCuts c.catalog c.session.world c.options.maxCandidates)
  let e := { e with completion := r.2 }
  match r.1 with
  | some t => if t = before then return (.refused, e) else e.stepOnSlots (.replaceBeforeCursor t)
  | none   => return (.refused, e)

/-- What a key does, step by step. -/
def applyByCuts (c : Console κ) (k : Key) (e : Editor lineLimit historyLimit) :
    Except KeyFault (Outcome × Editor lineLimit historyLimit) :=
  let fresh := { e with completion := none }
  match k with
  | .enter      => .ok (.submit, fresh)
  | .tab        => e.completeByCuts c false
  | .shiftTab   => e.completeByCuts c true
  | .backspace  => fresh.stepOnSlots .backspace
  | .delete     => fresh.stepOnSlots .delete
  | .ctrlU      => fresh.stepOnSlots .deleteToStart
  | .ctrlK      => fresh.stepOnSlots .deleteToEnd
  | .ctrlD      => fresh.stepOnSlots .clear
  | .arrowLeft  => fresh.stepOnSlots .left
  | .arrowRight => fresh.stepOnSlots .right
  | .home       => fresh.stepOnSlots .home
  | .end        => fresh.stepOnSlots .toEnd
  | .arrowUp    => fresh.bringBackOnSlots e.history.older
  | .pageUp     => fresh.bringBackOnSlots e.history.first
  | .pageDown   => fresh.bringBackOnSlots e.history.last
  | .arrowDown  =>
    match e.history.newer with
    | (some entry, h) => stepOnSlots { fresh with history := h } (.overwrite entry)
    | (none, h)       => stepOnSlots { fresh with history := h } .clear
  | .char x     => if isControl x then .ok (.refused, fresh) else fresh.stepOnSlots (.insert x)
  | .insert     => .ok (.refused, fresh)

theorem stepOnSlots_eq (h : e.buffer.Sound) (x : LineBuffer.Step) : e.stepOnSlots x =
    .ok (if (x.apply e.buffer).1 = some false then .refused else .edited, { e with buffer := (x.apply e.buffer).2 }) := by
  rw [stepOnSlots, h.onSlots, slots_ok, ok_bind]
  rfl

theorem stepOnSlots_orKeep (h : e.buffer.Sound) {x : LineBuffer.Step} {r : Option (LineBuffer lineLimit)}
    (hx : x.apply e.buffer = e.buffer.orKeep r) : e.stepOnSlots x = .ok (e.edit r) := by
  rw [stepOnSlots_eq h, hx]
  cases r <;> rfl

theorem bringBackOnSlots_eq (h : e.buffer.Sound) (found : Option Text × History historyLimit lineLimit) :
    e.bringBackOnSlots found = .ok (e.bringBack found) := by
  obtain ⟨_ | entry, after⟩ := found
  · rfl
  · exact stepOnSlots_eq (e := { e with history := after }) h (.overwrite entry)

theorem completeByCuts_eq (h : e.buffer.Sound) (hcycle : ∀ m, e.completion = some m → m.Sound) (c : Console κ)
    (backwards : Bool) : e.completeByCuts c backwards = .ok (e.complete c backwards) := by
  have hbefore : Slots.upTo e.buffer.text e.buffer.cursor = .ok e.buffer.beforeCursor := Slots.upTo_of_le h.inside
  have hpress : e.completion.pressByCuts e.buffer.beforeCursor backwards _ =
      .ok (e.completion.press e.buffer.beforeCursor backwards c.predict) :=
    Completion.pressByCuts_eq hcycle (predictByCuts_eq c.catalog c.session.world c.options.maxCandidates) _ backwards
  rw [completeByCuts, hbefore, slots_ok, ok_bind, hpress, ok_bind, complete]
  rcases e.completion.press e.buffer.beforeCursor backwards c.predict with ⟨_ | t, m⟩
  · rfl
  · dsimp only
    split
    · rfl
    · exact stepOnSlots_eq (e := { e with completion := m }) h (.replaceBeforeCursor t)

theorem completion_edit (edited : Option (LineBuffer lineLimit)) : (e.edit edited).2.completion = e.completion := by
  cases edited <;> rfl

theorem completion_bringBack (found : Option Text × History historyLimit lineLimit) :
    (e.bringBack found).2.completion = e.completion := by
  obtain ⟨_ | _, _⟩ := found <;> rfl

theorem completion_complete (c : Console κ) (backwards : Bool) : (e.complete c backwards).2.completion =
    (e.completion.press e.buffer.beforeCursor backwards c.predict).2 := by
  unfold complete
  dsimp only
  split
  · split <;> rfl
  · rfl

/-- **In an editor that can be reached, a completion has several candidates and shows one of them if any is selected.** -/
theorem Reachable.cycle (h : e.Reachable κ) : ∀ m, e.completion = some m → m.Sound := by
  induction h with
  | fresh | opened | taken => exact nofun
  | history _ _ ih         => exact ih
  | @key e c k _ ih        =>
    have pressed (backwards : Bool) : ∀ m, (e.complete c backwards).2.completion = some m → m.Sound := by
      rw [completion_complete]
      exact Completion.sound_press ih
    have ended {m : Completion} (hnone : m = none) : ∀ cycle, m = some cycle → cycle.Sound := by
      rw [hnone]
      exact nofun
    cases k with
    | tab       => exact pressed false
    | shiftTab  => exact pressed true
    | enter | insert => exact ended rfl
    | arrowUp | pageUp | pageDown => exact ended (completion_bringBack _)
    | arrowDown =>
      refine ended ?_
      unfold apply
      dsimp only
      split <;> rfl
    | _         => exact ended (completion_edit _)

/-- **No step of a key is a fault.** -/
theorem Reachable.applyByCuts_eq (h : e.Reachable κ) (c : Console κ) (k : Key) :
    e.applyByCuts c k = .ok (e.apply c k) := by
  have hs : LineBuffer.Sound e.buffer := h.sound.buffer
  have step (x : LineBuffer.Step) := stepOnSlots_eq (e := { e with completion := none }) hs x
  have refusable {x : LineBuffer.Step} {r : Option (LineBuffer lineLimit)} (hx : x.apply e.buffer = e.buffer.orKeep r) :=
    stepOnSlots_orKeep (e := { e with completion := none }) hs hx
  have found (r : Option Text × History historyLimit lineLimit) :=
    bringBackOnSlots_eq (e := { e with completion := none }) hs r
  cases k with
  | enter | insert => rfl
  | tab        => exact completeByCuts_eq hs h.cycle c false
  | shiftTab   => exact completeByCuts_eq hs h.cycle c true
  | backspace  => exact refusable rfl
  | delete     => exact refusable rfl
  | ctrlU      => exact step .deleteToStart
  | ctrlK      => exact step .deleteToEnd
  | ctrlD      => exact step .clear
  | arrowLeft  => exact step .left
  | arrowRight => exact step .right
  | home       => exact step .home
  | «end»      => exact step .toEnd
  | arrowUp | pageUp | pageDown => exact found _
  | arrowDown  =>
    unfold applyByCuts apply
    rcases e.history.newer with ⟨_ | entry, after⟩
    · exact stepOnSlots_eq (e := { e with completion := none, history := after }) hs .clear
    · exact stepOnSlots_eq (e := { e with completion := none, history := after }) hs (.overwrite entry)
  | char x     =>
    unfold applyByCuts apply
    dsimp only
    split
    · rfl
    · exact refusable rfl

/-! ## Keys that change nothing -/

theorem bringBack_of_not_edited {found : Option Text × History historyLimit lineLimit}
    (hfound : e.history.Goes found ∨ (e.history.entries = [] ∧ found = (none, e.history)))
    (h : (e.bringBack found).1 ≠ .edited) : (e.bringBack found).2 = e := by
  rcases hfound with hgoes | ⟨-, rfl⟩
  · obtain ⟨t, -, ht⟩ := hgoes.found
    obtain ⟨_, after⟩ := found
    cases ht
    exact absurd rfl h
  · rfl

theorem buffer_of_complete_not_edited {c : Console κ} {backwards : Bool} (h : (e.complete c backwards).1 ≠ .edited) :
    (e.complete c backwards).2.buffer = e.buffer := by
  cases hr : e.replacement c backwards with
  | none   => exact (complete_of_no_replacement hr).2
  | some t => exact absurd (complete_of_replacement hr).1 h

/-- **A key that does not edit the line leaves it and the history as they were.** -/
theorem Sound.kept (hs : e.Sound) {c : Console κ} {k : Key} (h : (e.apply c k).1 ≠ .edited) :
    (e.apply c k).2.buffer = e.buffer ∧ (e.apply c k).2.history = e.history := by
  have fresh {after : Editor lineLimit historyLimit} (heq : after = { e with completion := none }) :
      after.buffer = e.buffer ∧ after.history = e.history := by
    rw [heq]
    exact ⟨rfl, rfl⟩
  cases k with
  | enter | insert => exact ⟨rfl, rfl⟩
  | tab       => exact ⟨buffer_of_complete_not_edited h, e.history_complete c false⟩
  | shiftTab  => exact ⟨buffer_of_complete_not_edited h, e.history_complete c true⟩
  | arrowUp   => exact fresh (bringBack_of_not_edited hs.history.goes_older h)
  | pageUp    => exact fresh (bringBack_of_not_edited History.goes_first h)
  | pageDown  => exact fresh (bringBack_of_not_edited History.goes_last h)
  | arrowDown =>
    -- never refused: past the newest entry it clears the line
    unfold Editor.apply at h
    dsimp only at h
    split at h <;> exact absurd rfl h
  | _         => exact fresh (edit_of_not_edited h)

/-- **A refused key changes nothing, and no key can fail.**  In every editor that can be reached, a key that is refused, or
submits the line, leaves the line, the cursor and the history as they were, the place in it included.  After every key the
line is not too long and the cursor in it, and none of the steps that the key takes is a fault: Tab, too, finds its
candidates, and goes round them wherever a completion has come to. -/
theorem refused_keys_keep (h : e.Reachable κ) (c : Console κ) (k : Key) :
    ((e.apply c k).1 = .refused ∨ (e.apply c k).1 = .submit →
      (e.apply c k).2.buffer.text = e.buffer.text ∧ (e.apply c k).2.buffer.cursor = e.buffer.cursor ∧
        (e.apply c k).2.history = e.history) ∧
    utf8Length (e.apply c k).2.buffer.text ≤ lineLimit ∧
    (e.apply c k).2.buffer.cursor ≤ (e.apply c k).2.buffer.text.length ∧
    e.applyByCuts c k = .ok (e.apply c k) := by
  have hafter : (e.apply c k).2.buffer.Sound := (h.sound.apply c k).buffer
  refine ⟨fun hrefused => ?_, hafter.fits, hafter.inside, h.applyByCuts_eq c k⟩
  have hother : (e.apply c k).1 ≠ .edited := fun hedited => by simp [hedited] at hrefused
  obtain ⟨hbuffer, hhistory⟩ := h.sound.kept hother
  exact ⟨congrArg LineBuffer.text hbuffer, congrArg LineBuffer.cursor hbuffer, hhistory⟩

/-- An editor of eight bytes in which a text has been typed. -/
def typed (t : Text) : Editor 8 1 := t.foldl (fun e x => (e.apply idle (.char x)).2) (.new .empty)

/-- What Tab leaves after a name of which two candidates are known. -/
def named : Editor 8 1 := ((typed "@A".toList).apply (Samples.namesakes 2) .tab).2

theorem named_eq : named = ⟨.atEnd "@Ab".toList, .empty, some Samples.namesCycle⟩ := by
  have hpress : (typed "@A".toList).completion.press (typed "@A".toList).buffer.beforeCursor false
      (Samples.namesakes 2).predict = (some "@Ab".toList, some Samples.namesCycle) := Samples.press_namesakes_two
  show ((typed "@A".toList).complete (Samples.namesakes 2) false).2 = _
  rw [complete, hpress]
  rfl

/-- Tab is refused where nothing is offered, and then changes nothing.  In the middle of a cycle it goes on to a candidate. -/
theorem refused_keys_keep_tab :
    ((typed ['x']).apply idle .tab).1 = .refused ∧ ((typed ['x']).apply idle .tab).2.buffer.text = ['x'] ∧
      (named.apply (Samples.namesakes 2) .tab).2.buffer.text = "@Ab1 ".toList ∧
      named.applyByCuts (Samples.namesakes 2) .tab = .ok (named.apply (Samples.namesakes 2) .tab) := by
  have hx : (typed ['x']).Reachable Samples.Kind := .key idle _ .fresh
  have hnamed : named.Reachable Samples.Kind := .key _ _ (.key idle _ (.key idle _ .fresh))
  have hrefused : ((typed ['x']).apply idle .tab).1 = .refused := by decide +kernel
  obtain ⟨hkept, -⟩ := refused_keys_keep hx idle .tab
  obtain ⟨-, -, -, hsteps⟩ := refused_keys_keep hnamed (Samples.namesakes 2) .tab
  refine ⟨hrefused, (hkept (.inl hrefused)).1, ?_, hsteps⟩
  rw [named_eq]
  decide

end Editor
end CommandConsole

import CommandConsole.Proofs.Line.Growing
import CommandConsole.Proofs.Line.Slots
/-!
# Cutting — prediction on the bytes of a line

A line is UTF-8, and what is looked up in it is cut out at bytes: its words, what follows a sigil, the start of an option.
Cutting within a character is a fault, as is asking for a word past the last.  Where words, positions and options are found
step by step, none of the steps is a fault (`predictByCuts_eq`): a word ends where a blank starts, a sigil and what has been
typed end between two characters, and the last word has a place among the words.
-/
namespace CommandConsole

open Text

/-! ## Cuts -/

theorem ok_bind {ε α β : Type} (a : α) (f : α → Except ε β) : ((.ok a : Except ε α) >>= f) = f a := rfl

/-- What a key can fail at: an access to the slots of the line, a place that is not there, or a cut within a character. -/
inductive KeyFault where
  | slot (f : SlotFault)
  | place (f : CycleFault)
  | cut
deriving DecidableEq

namespace KeyFault

variable {α : Type}

def slots : Except SlotFault α → Except KeyFault α := Except.mapError .slot

def places : Except CycleFault α → Except KeyFault α := Except.mapError .place

theorem slots_ok (a : α) : slots (.ok a) = .ok a := rfl

theorem places_ok (a : α) : places (.ok a) = .ok a := rfl

theorem places_minus {a b : Nat} (h : b ≤ a) : places (CycleFault.minus a b) = .ok (a - b) := by
  rw [CycleFault.minus_of_le h]
  rfl

theorem places_item {l : List Text} {i : Nat} {t : Text} (h : l[i]? = some t) : places (CycleFault.item l i) = .ok t := by
  rw [CycleFault.item, h]
  rfl

/-- The parts of a text before a byte and from it on. -/
def cutAt (n : Nat) (t : Text) : Except KeyFault (Text × Text) :=
  match upToByte? n t with
  | some s => .ok (s, t.drop s.length)
  | none   => .error .cut

/-- The part of a text from a byte up to another. -/
def slice (i j : Nat) (t : Text) : Except KeyFault Text := do
  let n ← places (CycleFault.minus j i)
  let after ← cutAt i t
  let part ← cutAt n after.2
  return part.1

theorem cutAt_append (s t : Text) : cutAt (utf8Length s) (s ++ t) = .ok (s, t) := by
  rw [cutAt, upToByte?_append]
  dsimp only
  rw [List.drop_left]

theorem slice_append (a b c : Text) :
    slice (utf8Length a) (utf8Length a + utf8Length b) (a ++ (b ++ c)) = .ok b := by
  rw [slice, places_minus (Nat.le_add_right ..), Nat.add_sub_cancel_left, ok_bind, cutAt_append, ok_bind, cutAt_append]
  rfl

/-- Keeps the items of a list that pass a test, which is no fault where none of the tests is. -/
theorem filterM_of_ok {f : Text → Except KeyFault Bool} {g : Text → Bool} (h : ∀ t, f t = .ok (g t)) (l : List Text) :
    l.filterM f = .ok (l.filter g) := by
  have haux (kept : List Text) : l.filterAuxM f kept = .ok ((l.filter g).reverse ++ kept) := by
    induction l generalizing kept with
    | nil         => rfl
    | cons t l ih =>
      rw [List.filterAuxM, h, ok_bind, ih, List.filter_cons]
      cases g t
      · rfl
      · rw [if_pos rfl, cond_true, List.reverse_cons, List.append_assoc, List.singleton_append]
  rw [List.filterM, haux, ok_bind, List.append_nil, List.reverse_reverse]
  rfl

end KeyFault

open KeyFault

/-! ## Words -/

section
variable {c : Char}

theorem firstWord_cons_blank (hc : isBlank c = true) (t : Text) : firstWord (c :: t) = [] :=
  List.takeWhile_cons_of_neg (by simp [hc])

theorem afterWord_cons_blank (hc : isBlank c = true) (t : Text) : afterWord (c :: t) = c :: t :=
  List.dropWhile_cons_of_neg (by simp [hc])

theorem firstWord_cons_letter (hc : ¬ isBlank c = true) (t : Text) : firstWord (c :: t) = c :: firstWord t :=
  List.takeWhile_cons_of_pos (by simp [hc])

theorem afterWord_cons_letter (hc : ¬ isBlank c = true) (t : Text) : afterWord (c :: t) = afterWord t :=
  List.dropWhile_cons_of_pos (by simp [hc])

end

/-- The tokens of a line, found along its characters and the bytes that these start at: a token is cut out of the line
where a blank comes after it, and the last one at the end.  `start` is the byte at which a token has started. -/
def tokensByCuts (line : Text) : Option Nat → List (Nat × Char) → Except KeyFault (List Token)
  | none,       []            => .ok []
  | some start, []            => do
    let last ← cutAt start line
    return [⟨last.2, start⟩]
  | none,       (i, c) :: rest => if isBlank c then tokensByCuts line none rest else tokensByCuts line (some i) rest
  | some start, (i, c) :: rest =>
    if isBlank c then do
      let word ← slice start i line
      let later ← tokensByCuts line none rest
      return ⟨word, start⟩ :: later
    else tokensByCuts line (some start) rest

theorem tokensByCuts_append {line : Text} (t : Text) :
    (∀ a, line = a ++ t →
      tokensByCuts line none (charIndices (utf8Length a) t) = .ok (tokensFrom (utf8Length a) t)) ∧
    (∀ a w, line = a ++ (w ++ t) →
      tokensByCuts line (some (utf8Length a)) (charIndices (utf8Length a + utf8Length w) t) =
        .ok (⟨w ++ firstWord t, utf8Length a⟩ ::
          tokensFrom (utf8Length a + utf8Length (w ++ firstWord t)) (afterWord t))) := by
  -- at every character, both where no token has started and where `w` is the start of one
  induction t with
  | nil         =>
    refine ⟨fun a ha => by rw [charIndices, tokensByCuts, tokensFrom], fun a w hw => ?_⟩
    rw [List.append_nil] at hw
    rw [charIndices, tokensByCuts, hw, cutAt_append, ok_bind, firstWord, afterWord, List.takeWhile_nil, List.dropWhile_nil,
      List.append_nil, tokensFrom]
    rfl
  | cons c t ih =>
    obtain ⟨houtside, hinside⟩ := ih
    have hone (s : Text) : utf8Length (s ++ [c]) = utf8Length s + c.utf8Size := by simp
    constructor
    · intro a ha
      rw [charIndices, tokensByCuts, tokensFrom]
      split
      · have hrest := houtside (a ++ [c]) (by rw [ha, List.append_assoc, List.singleton_append])
        rwa [hone] at hrest
      · exact hinside a [c] ha
    · intro a w hw
      have hnext : line = a ++ (w ++ [c] ++ t) := by rw [hw, List.append_assoc, List.singleton_append]
      rw [charIndices, tokensByCuts]
      split
      · rename_i hc
        have hrest := houtside (a ++ (w ++ [c])) (hnext.trans (List.append_assoc ..).symm)
        rw [utf8Length_append, hone, ← Nat.add_assoc] at hrest
        rw [hw, slice_append, ok_bind, ← hw, hrest, firstWord_cons_blank hc, afterWord_cons_blank hc, List.append_nil,
          tokensFrom, if_pos hc]
        rfl
      · rename_i hc
        have hrest := hinside a (w ++ [c]) hnext
        rw [hone, ← Nat.add_assoc, List.append_assoc, List.singleton_append] at hrest
        rw [firstWord_cons_letter hc, afterWord_cons_letter hc]
        exact hrest

/-- **No token is cut out within a character.** -/
theorem tokensByCuts_eq (line : Text) : tokensByCuts line none (charIndices 0 line) = .ok (tokens line) :=
  (tokensByCuts_append line).1 [] rfl

def typedWordsByCuts (line : Text) : Except KeyFault (List Text) := do
  let ts ← tokensByCuts line none (charIndices 0 line)
  let ws := ts.map Token.text
  return if ws ≠ [] ∧ endsBlank line then ws ++ [[]] else ws

theorem typedWordsByCuts_eq (line : Text) : typedWordsByCuts line = .ok (typedWords line) := by
  rw [typedWordsByCuts, tokensByCuts_eq]
  rfl

/-! ## Selectors -/

namespace Sigil

variable {w ident : Text} {s : Sigil}

/-- The sigil that a word starts with, a doubled mark before a single one. -/
def ofStart? (w : Text) : Option Sigil := [allNames, allTags, name, tag].find? fun s => s.text.isPrefixOf w

def cutOff (w : Text) : Except KeyFault (Option (Sigil × Text)) :=
  match ofStart? w with
  | none   => .ok none
  | some s => do
    let parts ← cutAt (utf8Length s.text) w
    return some (s, parts.2)

theorem eq_append_of_split? (h : split? w = some (s, ident)) : w = s.text ++ ident := by
  unfold split? at h
  split at h <;> cases h <;> rfl

theorem ofStart?_eq (w : Text) : ofStart? w = (split? w).map Prod.fst := by
  unfold split?
  split
  · rfl
  · rfl
  · rename_i t hsingle
    cases t with
    | nil      => rfl
    | cons c t =>
      have hc : '@' ≠ c := fun h => hsingle t (by rw [h])
      simp [ofStart?, text, List.isPrefixOf, hc]
  · rename_i t hsingle
    cases t with
    | nil      => rfl
    | cons c t =>
      have hc : '#' ≠ c := fun h => hsingle t (by rw [h])
      simp [ofStart?, text, List.isPrefixOf, hc]
  · rename_i hat hhash
    cases w with
    | nil      => rfl
    | cons c t =>
      have hname : '@' ≠ c := fun h => hat t (by rw [h])
      have htag : '#' ≠ c := fun h => hhash t (by rw [h])
      simp [ofStart?, text, hname, htag]

/-- **What follows a sigil is not cut off within a character.** -/
theorem cutOff_eq (w : Text) : cutOff w = .ok (split? w) := by
  rw [cutOff, ofStart?_eq]
  cases hsplit : split? w with
  | none   => rfl
  | some p =>
    have hcut := cutAt_append p.1.text p.2
    rw [← eq_append_of_split? hsplit] at hcut
    rw [Option.map_some]
    dsimp only
    rw [hcut]
    rfl

end Sigil

def Selector.cutOff (w : Text) : Except KeyFault (Option Selector) :=
  if sameAscii w selectWord then .ok (some .selection)
  else do
    let marked ← Sigil.cutOff w
    return marked.map fun p => .marked p.1 p.2

theorem Selector.cutOff_eq (w : Text) : cutOff w = .ok (ofText? w) := by
  rw [cutOff, Sigil.cutOff_eq, ofText?]
  split <;> rfl

/-! ## Positions -/

namespace Position

open CycleFault

/-- The place of the last word, `typed`, in a command that starts with word number `offset`; words are found by number. -/
def locateFrom (ws : List Text) (targeted : Bool) (offset : Nat) (typed : Text) : Except KeyFault (Option Position) :=
  if ws.length = offset + 1 then .ok (some (.verb typed))
  else do
    let word ← places (item ws offset)
    match Verb.ofText? word with
    | none   => return none
    | some v =>
      if ws.length = offset + 2 then return some (.commandName v targeted typed)
      let name ← places (item ws (offset + 1))
      let later ← places (minus ws.length offset)
      let index ← places (minus later 3)
      return some (.argument v name index typed)

def locate (ws : List Text) : Except KeyFault (Option Position) :=
  if ws.length = 0 then .ok none
  else do
    let first ← places (item ws 0)
    if ws.length = 1 then return some (.leading first)
    let target ← Selector.cutOff first
    let last ← places (minus ws.length 1)
    let typed ← places (item ws last)
    locateFrom ws target.isSome (if target.isSome then 1 else 0) typed

theorem locateFrom_append (pre : List Text) (targeted : Bool) {tail : List Text} {typed : Text}
    (htyped : tail.getLast? = some typed) :
    locateFrom (pre ++ tail) targeted pre.length typed = .ok (afterSelector targeted tail) := by
  match tail, htyped with
  | [u],            rfl    =>
    rw [locateFrom, List.length_append, if_pos (by rfl)]
    rfl
  | u :: n :: rest, htyped =>
    have hlength : (pre ++ u :: n :: rest).length = pre.length + (rest.length + 2) := by simp
    have hword : (pre ++ u :: n :: rest)[pre.length]? = some u := by simp
    have hname : (pre ++ u :: n :: rest)[pre.length + 1]? = some n := by simp
    rw [locateFrom, hlength, if_neg (by omega), places_item hword, ok_bind, afterSelector]
    cases Verb.ofText? u with
    | none   => rfl
    | some v =>
      rw [List.getLast?_cons_cons, List.getLast?_cons] at htyped
      dsimp only [Option.map_some]
      cases hlast : rest.getLast? with
      | none   =>
        rw [hlast] at htyped
        obtain rfl : n = typed := Option.some.inj htyped
        obtain rfl := List.getLast?_eq_none_iff.1 hlast
        rw [if_pos (by rfl)]
        rfl
      | some t =>
        rw [hlast] at htyped
        obtain rfl : t = typed := Option.some.inj htyped
        have hsome : 0 < rest.length := List.length_pos_iff.2 fun hnil => by rw [hnil] at hlast; cases hlast
        rw [if_neg (by omega), places_item hname, ok_bind, places_minus (by omega), ok_bind, places_minus (by omega), ok_bind]
        have hindex : pre.length + (rest.length + 2) - pre.length - 3 = rest.length - 1 := by omega
        rw [hindex]
        rfl

/-- **No word is asked for that is not there.** -/
theorem locate_eq (ws : List Text) : locate ws = .ok (ofWords ws) := by
  match ws with
  | []            => rfl
  | [w]           => rfl
  | w :: v :: rest =>
    obtain ⟨typed, htyped⟩ : ∃ typed, (v :: rest).getLast? = some typed := ⟨_, List.getLast?_cons⟩
    have hlast : (w :: v :: rest)[(w :: v :: rest).length - 1]? = some typed := by
      rw [← List.getLast?_eq_getElem?, List.getLast?_cons_cons, htyped]
    have hfirst : (w :: v :: rest)[0]? = some w := rfl
    rw [locate, ofWords_cons_cons, if_neg (by simp), places_item hfirst, ok_bind, if_neg (by simp), Selector.cutOff_eq,
      ok_bind, places_minus (by simp), ok_bind, places_item hlast, ok_bind]
    cases (Selector.ofText? w).isSome
    · exact locateFrom_append [] false (List.getLast?_cons_cons.trans htyped)
    · exact locateFrom_append [w] true htyped

end Position

/-! ## Options -/

/-- Does a text start with another up to the case of ASCII letters?  If it is as long and a character ends where the other
does, it is cut there. -/
def startsByCut (p t : Text) : Except KeyFault Bool :=
  if utf8Length p ≤ utf8Length t ∧ (upToByte? (utf8Length p) t).isSome then do
    let start ← cutAt (utf8Length p) t
    return sameAscii start.1 p
  else .ok false

theorem upToByte?_eq_some : ∀ {n : Nat} {s t : Text}, upToByte? n t = some s → s <+: t
  | 0,     s, t,      h => by
    rw [upToByte?] at h
    cases h
    exact List.nil_prefix
  | _ + 1, _, [],     h => by
    rw [upToByte?] at h
    cases h
  | n + 1, s, c :: t, h => by
    rw [upToByte?] at h
    split at h
    · obtain ⟨r, hr, rfl⟩ := Option.map_eq_some_iff.1 h
      exact List.cons_prefix_cons.2 ⟨rfl, upToByte?_eq_some hr⟩
    · cases h

/-- **An option is not cut within a character**, and the cut tells whether it starts with what has been typed. -/
theorem startsByCut_eq (p t : Text) : startsByCut p t = .ok (startsWithAscii p t) := by
  have hstarts : startsWithAscii p t = true ↔ ∃ s r, t = s ++ r ∧ asciiLower s = asciiLower p := by
    simp only [startsWithAscii_iff_beginsWith, BeginsWith, sameBytes_iff]
  rw [startsByCut]
  by_cases h : startsWithAscii p t = true
  · obtain ⟨s, r, rfl, hs⟩ := hstarts.1 h
    have hlength : utf8Length p = utf8Length s := by rw [← utf8Length_asciiLower p, ← hs, utf8Length_asciiLower]
    have hsame : sameAscii s p = true := by rw [sameAscii, hs, beq_self_eq_true]
    rw [hlength, if_pos ⟨by simp, by rw [upToByte?_append]; rfl⟩, cutAt_append, ok_bind, h]
    exact congrArg Except.ok hsame
  · have hfalse : startsWithAscii p t = false := Bool.eq_false_iff.2 h
    rw [hfalse]
    split
    · rename_i hcut
      obtain ⟨s, hs⟩ := Option.isSome_iff_exists.1 hcut.2
      obtain ⟨r, hr⟩ := upToByte?_eq_some hs
      have hother : sameAscii s p = false := Bool.eq_false_iff.2 fun hsame =>
        h (hstarts.2 ⟨s, r, hr.symm, by simpa [sameAscii] using hsame⟩)
      rw [cutAt, hs]
      exact congrArg Except.ok hother
    · rfl

variable {κ : Type} [ComponentKind κ] (c : Catalog κ) (w : World κ)

namespace Position

def typedByCuts : Position → Except KeyFault Text
  | .leading t => do
    let marked ← Sigil.cutOff t
    return (marked.map Prod.snd).getD t
  | .verb t | .commandName _ _ t | .argument _ _ _ t => .ok t

def acceptsByCut (p : Position) (typed option : Text) : Except KeyFault Bool :=
  match p with
  | .leading t => if sameAscii t selectWord then .ok true else startsByCut typed option
  | _          => startsByCut typed option

def matchingByCuts (p : Position) (typed : Text) : Except KeyFault (List Text) := (p.options c w).filterM (p.acceptsByCut typed)

theorem typedByCuts_eq (p : Position) : p.typedByCuts = .ok p.typed := by
  cases p with
  | leading t =>
    rw [typedByCuts, Sigil.cutOff_eq]
    rfl
  | verb | commandName | argument => rfl

theorem matchingByCuts_eq (p : Position) : p.matchingByCuts c w p.typed = .ok (p.matching c w) := by
  refine filterM_of_ok (fun o => ?_) _
  cases p with
  | leading t =>
    rw [acceptsByCut, startsByCut_eq, accepts]
    cases sameAscii t selectWord <;> rfl
  | verb | commandName | argument => exact startsByCut_eq _ o

end Position

/-- The first `limit` candidates for the word at the end of a line, found step by step. -/
def predictByCuts (limit : Nat) (line : Text) : Except KeyFault (List Text) := do
  let ws ← typedWordsByCuts line
  let place ← Position.locate ws
  match place with
  | none   => return []
  | some p =>
    let typed ← p.typedByCuts
    let candidates ← p.matchingByCuts c w typed
    return (ranked typed candidates).take limit

/-- **No step of a prediction is a fault.** -/
theorem predictByCuts_eq (limit : Nat) (line : Text) : predictByCuts c w limit line = .ok (predict c w limit line) := by
  rw [predictByCuts, typedWordsByCuts_eq, ok_bind, Position.locate_eq, ok_bind, predict, Position.of]
  cases Position.ofWords (typedWords line) with
  | none   => rfl
  | some p =>
    dsimp only
    rw [p.typedByCuts_eq, ok_bind, p.matchingByCuts_eq]
    rfl

end CommandConsole

import CommandConsole.Line.Completion
import Mathlib.Data.List.GetD
/-!
# Cycling — going round the candidates

A cycle has several candidates, and the one that it shows is among them (`Completion.Reachable.sound`).  So the places that it
goes to can be found without a fault: nothing is taken from less, nothing divided by zero, no candidate looked for past the last
(`Completion.pressChecked_eq`).  Presses of Tab and Shift+Tab add up along the candidates, modulo how many there are
(`Cycle.pressAll_eq`).
-/
namespace CommandConsole

/-! ## Steps that can fail -/

/-- What a step round the candidates can fail at. -/
inductive CycleFault where
  | underflow | zeroDivision | outside
deriving DecidableEq

namespace CycleFault

def minus (a b : Nat) : Except CycleFault Nat := if a < b then .error .underflow else .ok (a - b)

def modulo (a n : Nat) : Except CycleFault Nat := if n = 0 then .error .zeroDivision else .ok (a % n)

def item (l : List Text) (i : Nat) : Except CycleFault Text :=
  match l[i]? with
  | some t => .ok t
  | none   => .error .outside

theorem minus_of_le {a b : Nat} (h : b ≤ a) : minus a b = .ok (a - b) := if_neg (Nat.not_lt.2 h)

theorem modulo_of_pos {n : Nat} (h : 0 < n) (a : Nat) : modulo a n = .ok (a % n) := if_neg (Nat.pos_iff_ne_zero.1 h)

theorem item_of_lt {l : List Text} {i : Nat} (h : i < l.length) : item l i = .ok (l.getD i []) := by
  rw [item, List.getElem?_eq_getElem h, List.getD_eq_getElem l [] h]

end CycleFault

open CycleFault

namespace Cycle

/-- The place of the next candidate, or of the one before it, found step by step. -/
def nextChecked (c : Cycle) (backwards : Bool) : Except CycleFault Nat :=
  let n := c.candidates.length
  match c.index, backwards with
  | none,   false => .ok 0
  | none,   true  => minus n 1
  | some i, false => modulo (i + 1) n
  | some i, true  => minus (i + n) 1 >>= fun j => modulo j n

/-- Looks for the candidate at a place and puts it into the line. -/
def selectChecked (c : Cycle) (i : Nat) : Except CycleFault Cycle :=
  item c.candidates i >>= fun t => .ok { c with index := some i, shown := c.head ++ t ++ " " }

/-- The cycle that several candidates begin, found step by step. -/
def startChecked (head word : Text) (candidates : List Text) (backwards : Bool) : Except CycleFault Cycle :=
  let common := commonPrefix candidates
  let c : Cycle := ⟨head, candidates, none, head ++ common⟩
  if Text.utf8Length word < Text.utf8Length common then .ok c
  else (if backwards then minus candidates.length 1 else .ok 0) >>= c.selectChecked

end Cycle

/-- Tab, or Shift+Tab if `backwards`, with each place found step by step. -/
def Completion.pressChecked (m : Completion) (before : Text) (backwards : Bool) (predict : Text → List Text) :
    Except CycleFault (Option Text × Completion) :=
  match m.going? before with
  | some cycle => cycle.nextChecked backwards >>= cycle.selectChecked >>= fun c => .ok (some c.shown, some c)
  | none       =>
    if isSelectWord before then .ok (some (before ++ " "), none)
    else
      match predict before with
      | []         => .ok (none, none)
      | [only]     => .ok (some (completedHead before ++ only ++ " "), none)
      | candidates =>
        Cycle.startChecked (completedHead before) (completedWord before) candidates backwards >>= fun c =>
          .ok (some c.shown, some c)

/-! ## What a cycle is -/

/-- There are several candidates, and the one that is selected is among them and shown. -/
structure Cycle.Sound (c : Cycle) : Prop where
  several : 2 ≤ c.candidates.length
  inside  : ∀ i, c.index = some i → i < c.candidates.length
  shows   : ∀ i, c.index = some i → c.shown = c.showing i

namespace Cycle

variable {c : Cycle} {backwards : Bool} {i : Nat}

theorem Sound.pos (h : c.Sound) : 0 < c.candidates.length := Nat.lt_of_lt_of_le Nat.two_pos h.several

theorem Sound.select (h : c.Sound) (hi : i < c.candidates.length) : (c.select i).Sound := by
  refine ⟨h.several, fun j hj => ?_, fun j hj => ?_⟩ <;> cases hj
  · exact hi
  · rfl

theorem Sound.next_lt (h : c.Sound) (backwards : Bool) : c.next backwards < c.candidates.length := by
  have hpos := h.pos
  unfold next
  dsimp only
  split
  · exact hpos
  · omega
  · exact Nat.mod_lt _ hpos
  · exact Nat.mod_lt _ hpos

/-- Where nothing has grown, the first candidate is selected, or the last. -/
theorem startPlace_lt {n : Nat} (h : 0 < n) (backwards : Bool) : (if backwards then n - 1 else 0) < n := by
  split <;> omega

theorem sound_start {candidates : List Text} (hseveral : 2 ≤ candidates.length) (head word : Text) (backwards : Bool) :
    (start head word candidates backwards).Sound := by
  have hgrown : (⟨head, candidates, none, head ++ commonPrefix candidates⟩ : Cycle).Sound := ⟨hseveral, nofun, nofun⟩
  unfold start
  dsimp only
  split
  · exact hgrown
  · exact hgrown.select (startPlace_lt hgrown.pos backwards)

theorem nextChecked_eq (h : c.Sound) (backwards : Bool) : c.nextChecked backwards = .ok (c.next backwards) := by
  have hpos := h.pos
  cases hindex : c.index with
  | none   =>
    cases backwards with
    | false => simp only [nextChecked, next, hindex]
    | true  =>
      simp only [nextChecked, next, hindex]
      exact minus_of_le hpos
  | some i =>
    cases backwards with
    | false =>
      simp only [nextChecked, next, hindex]
      exact modulo_of_pos hpos _
    | true  =>
      simp only [nextChecked, next, hindex]
      rw [minus_of_le (by omega)]
      exact modulo_of_pos hpos _

theorem selectChecked_eq (hi : i < c.candidates.length) : c.selectChecked i = .ok (c.select i) := by
  rw [selectChecked, item_of_lt hi]
  rfl

theorem startChecked_eq {candidates : List Text} (hsome : candidates ≠ []) (head word : Text) (backwards : Bool) :
    startChecked head word candidates backwards = .ok (start head word candidates backwards) := by
  have hpos := List.length_pos_iff.2 hsome
  have hplace : (if backwards then minus candidates.length 1 else .ok 0) =
      .ok (if backwards then candidates.length - 1 else 0) := by
    split
    · exact minus_of_le hpos
    · rfl
  unfold startChecked start
  dsimp only
  rw [hplace]
  split
  · rfl
  · exact selectChecked_eq (startPlace_lt hpos backwards)

end Cycle

namespace Completion

variable {m : Completion} {c : Cycle} {before : Text} {backwards : Bool} {predict : Text → List Text}

/-- The completions that come of pressing Tab and Shift+Tab.  Every other key leaves none. -/
inductive Reachable : Completion → Prop
  | idle : Reachable none
  | press {m : Completion} (before : Text) (backwards : Bool) (predict : Text → List Text) :
      Reachable m → Reachable (m.press before backwards predict).2

theorem going?_eq_some (h : m.going? before = some c) : m = some c ∧ c.shown = before := by
  obtain ⟨hm, hshown⟩ := Option.filter_eq_some_iff.1 h
  exact ⟨hm, of_decide_eq_true hshown⟩

theorem sound_press (h : ∀ c, m = some c → c.Sound) : ∀ c, (m.press before backwards predict).2 = some c → c.Sound := by
  intro c hc
  unfold press at hc
  split at hc
  · rename_i cycle hgoing
    have hs := h cycle (going?_eq_some hgoing).1
    cases hc
    exact hs.select (hs.next_lt backwards)
  · split at hc
    · cases hc
    · split at hc
      · cases hc
      · cases hc
      · rename_i hnone hone
        cases hc
        refine Cycle.sound_start ?_ _ _ _
        match predict before, hnone, hone with
        | [],         hnone, _    => exact absurd rfl hnone
        | [only],     _,     hone => exact absurd rfl (hone only)
        | _ :: _ :: _, _,    _    => simp

/-- **A cycle has several candidates, and shows one of them if any is selected.** -/
theorem Reachable.sound (hm : m.Reachable) : ∀ c, m = some c → c.Sound := by
  induction hm with
  | idle             => exact nofun
  | press _ _ _ _ ih => exact sound_press ih

/-- **No step of a press is a fault**, wherever the completion has come to. -/
theorem pressChecked_eq (h : ∀ c, m = some c → c.Sound) (before : Text) (backwards : Bool) (predict : Text → List Text) :
    m.pressChecked before backwards predict = .ok (m.press before backwards predict) := by
  unfold pressChecked press
  cases hgoing : m.going? before with
  | some cycle =>
    have hs := h cycle (going?_eq_some hgoing).1
    dsimp only
    rw [Cycle.nextChecked_eq hs]
    show cycle.selectChecked _ >>= _ = _
    rw [Cycle.selectChecked_eq (hs.next_lt backwards)]
    rfl
  | none       =>
    dsimp only
    split
    · rfl
    · match predict before with
      | []          => rfl
      | [only]      => rfl
      | t :: u :: l =>
        dsimp only
        rw [Cycle.startChecked_eq (List.cons_ne_nil t _)]
        rfl

end Completion

/-! ## Presses that follow each other -/

/-- A press of Tab, or of Shift+Tab if `backwards`, and where candidates would be found for it. -/
structure Press where
  backwards : Bool
  predict   : Text → List Text

/-- One candidate on, or one back. -/
def Press.step (p : Press) : Int := if p.backwards then -1 else 1

/-- How far presses go along the candidates. -/
def Press.steps : List Press → Int
  | []      => 0
  | p :: ps => p.step + steps ps

/-- The text and the completion after presses, each of them after the text that the one before it left; nothing once there is no
text to leave. -/
def Completion.pressAll (m : Completion) (before : Text) : List Press → Option (Text × Completion)
  | []      => some (before, m)
  | p :: ps =>
    match m.press before p.backwards p.predict with
    | (some t, m) => m.pressAll t ps
    | (none, _)   => none

namespace Cycle

variable {c : Cycle} {i : Nat}

/-- The place that the first press starts from: the candidate that is selected; where none is, the one before the first for
Tab, and the one after the last for Shift+Tab. -/
def origin (c : Cycle) (backwards : Bool) : Int :=
  match c.index with
  | some i => i
  | none   => if backwards then c.candidates.length else -1

/-- The place of the candidate that presses lead to. -/
def placeAfter (c : Cycle) (p : Press) (ps : List Press) : Nat :=
  ((c.origin p.backwards + Press.steps (p :: ps)) % c.candidates.length).toNat

theorem next_eq (h : c.Sound) (p : Press) :
    (c.next p.backwards : Int) = (c.origin p.backwards + p.step) % c.candidates.length := by
  have hpos := h.pos
  rcases p with ⟨backwards, predict⟩
  cases hindex : c.index with
  | none   =>
    cases backwards with
    | false => simp [next, origin, Press.step, hindex]
    | true  =>
      have hlast : ((c.candidates.length - 1 : Nat) : Int) = c.candidates.length + -1 := by omega
      simp only [next, origin, Press.step, hindex, if_true, hlast]
      exact (Int.emod_eq_of_lt (by omega) (by omega)).symm
  | some i =>
    cases backwards with
    | false => simp [next, origin, Press.step, hindex]
    | true  =>
      have hback : ((i + c.candidates.length - 1 : Nat) : Int) = i + -1 + c.candidates.length := by omega
      simp only [next, origin, Press.step, hindex, if_true, Int.natCast_emod, hback, Int.add_emod_right]

theorem pressAll_cons (c : Cycle) (p : Press) (ps : List Press) :
    Completion.pressAll (some c) c.shown (p :: ps) =
      let c' := c.select (c.next p.backwards)
      Completion.pressAll (some c') c'.shown ps := by
  have hgoing : Completion.going? (some c) c.shown = some c := by simp [Completion.going?]
  rw [Completion.pressAll, Completion.press, hgoing]

theorem placeAfter_nil (h : c.Sound) (p : Press) : c.placeAfter p [] = c.next p.backwards := by
  have hsum : Press.steps [p] = p.step := Int.add_zero _
  rw [placeAfter, hsum, ← next_eq h, Int.toNat_natCast]

theorem placeAfter_cons (h : c.Sound) (p q : Press) (ps : List Press) :
    (c.select (c.next p.backwards)).placeAfter q ps = c.placeAfter p (q :: ps) := by
  have hsum : Press.steps (p :: q :: ps) = p.step + Press.steps (q :: ps) := rfl
  show (((c.next p.backwards : Int) + Press.steps (q :: ps)) % c.candidates.length).toNat = _
  rw [placeAfter, next_eq h, hsum, Int.emod_add_emod, Int.add_assoc]

/-- **Presses add up along the candidates**, whatever candidates would be found meanwhile. -/
theorem pressAll_eq : ∀ {c : Cycle}, c.Sound → ∀ (p : Press) (ps : List Press),
    Completion.pressAll (some c) c.shown (p :: ps) =
      some (c.showing (c.placeAfter p ps), some (c.select (c.placeAfter p ps)))
  | c, h, p, []      => by
    rw [pressAll_cons, placeAfter_nil h]
    rfl
  | c, h, p, q :: ps => by
    have ih := pressAll_eq (h.select (h.next_lt p.backwards)) q ps
    rw [placeAfter_cons h] at ih
    rw [pressAll_cons]
    exact ih

theorem placeAfter_lt (h : c.Sound) (p : Press) (ps : List Press) : c.placeAfter p ps < c.candidates.length := by
  have hpos := h.pos
  have hlt := Int.emod_lt_of_pos (c.origin p.backwards + Press.steps (p :: ps)) (by omega : (0 : Int) < c.candidates.length)
  unfold placeAfter
  omega

/-- Presses that come back to the candidate that is selected leave the cycle as it was. -/
theorem pressAll_of_dvd (h : c.Sound) (hindex : c.index = some i) (p : Press) (ps : List Press)
    (hdvd : (c.candidates.length : Int) ∣ Press.steps (p :: ps)) :
    Completion.pressAll (some c) c.shown (p :: ps) = some (c.shown, some c) := by
  have hi := h.inside i hindex
  have hplace : c.placeAfter p ps = i := by
    have horigin : c.origin p.backwards = i := by rw [origin, hindex]
    have hmod : ((i : Int) + Press.steps (p :: ps)) % c.candidates.length = i := by
      rw [Int.add_emod, Int.emod_eq_zero_of_dvd hdvd, Int.add_zero, Int.emod_emod]
      exact Int.emod_eq_of_lt (by omega) (by omega)
    rw [placeAfter, horigin, hmod, Int.toNat_natCast]
  have hselect : c.select i = c := by
    rw [select, ← h.shows i hindex, ← hindex]
  rw [pressAll_eq h, hplace, hselect, ← h.shows i hindex]

end Cycle

theorem Press.steps_of_forall {backwards : Bool} {ps : List Press} (h : ∀ p ∈ ps, p.backwards = backwards) :
    steps ps = ps.length * (if backwards then -1 else 1) := by
  induction ps with
  | nil          => simp [steps]
  | cons p ps ih =>
    rw [steps, ih (fun q hq => h q (List.mem_cons_of_mem p hq)), step, h p List.mem_cons_self, List.length_cons]
    push_cast
    rw [Int.add_mul, Int.one_mul, Int.add_comm]

namespace Completion

variable {m : Completion}

theorem asks_shown (c : Cycle) : asks (some c) c.shown = false := by simp [asks, going?]

/-- **Tab and Shift+Tab go round the candidates.**  Wherever completion has come to, no step of a press is a fault, and a cycle
has several candidates, of which one may be selected.  Any presses after each other lead to the candidate that their steps add
up to, modulo how many there are; from a word that has grown, Tab goes to the first and Shift+Tab to the last.  The candidates
and the text before the word stay, and no others are asked for.  Once a candidate is selected, a press one way undoes one the
other way, and as many presses one way as there are candidates lead back. -/
theorem presses_go_round (hm : m.Reachable) :
    (∀ before backwards predict, m.pressChecked before backwards predict = .ok (m.press before backwards predict)) ∧
    ∀ c, m = some c →
      2 ≤ c.candidates.length ∧ (∀ i, c.index = some i → i < c.candidates.length) ∧
      (∀ p ps, ∃ candidate, c.candidates[c.placeAfter p ps]? = some candidate ∧
        m.pressAll c.shown (p :: ps) = some (c.head ++ candidate ++ " ", some (c.select (c.placeAfter p ps)))) ∧
      (∀ i, (c.select i).head = c.head ∧ (c.select i).candidates = c.candidates) ∧
      (c.index = none → ∀ p, c.placeAfter p [] = if p.backwards then c.candidates.length - 1 else 0) ∧
      (∀ ps, ∃ t m', m.pressAll c.shown ps = some (t, m') ∧ m'.asks t = false) ∧
      (∀ i, c.index = some i →
        (∀ p q, q.backwards = !p.backwards → m.pressAll c.shown [p, q] = some (c.shown, m)) ∧
        ∀ backwards ps, ps.length = c.candidates.length → (∀ p ∈ ps, p.backwards = backwards) →
          m.pressAll c.shown ps = some (c.shown, m)) := by
  refine ⟨pressChecked_eq hm.sound, fun c hc => ?_⟩
  have hs := hm.sound c hc
  subst hc
  refine ⟨hs.several, hs.inside, fun p ps => ?_, fun i => ⟨rfl, rfl⟩, fun hindex p => ?_, fun ps => ?_, fun i hindex => ⟨?_, ?_⟩⟩
  · have hplace := Cycle.placeAfter_lt hs p ps
    refine ⟨c.candidates[c.placeAfter p ps], List.getElem?_eq_getElem hplace, ?_⟩
    rw [Cycle.pressAll_eq hs, Cycle.showing, List.getD_eq_getElem _ _ hplace]
  · rw [Cycle.placeAfter_nil hs]
    unfold Cycle.next
    rw [hindex]
    cases p.backwards <;> rfl
  · cases ps with
    | nil       => exact ⟨c.shown, some c, rfl, asks_shown c⟩
    | cons p ps => exact ⟨_, _, Cycle.pressAll_eq hs p ps, asks_shown (c.select _)⟩
  · intro p q hq
    refine Cycle.pressAll_of_dvd hs hindex p [q] ?_
    have hsum : Press.steps [p, q] = 0 := by
      simp only [Press.steps, Press.step, hq]
      cases p.backwards <;> rfl
    exact hsum ▸ Int.dvd_zero _
  · intro backwards ps hlength hps
    have hpos := hs.pos
    cases ps with
    | nil       => exact absurd hlength (Nat.ne_of_lt hpos)
    | cons p ps =>
      refine Cycle.pressAll_of_dvd hs hindex p ps ?_
      rw [Press.steps_of_forall hps, hlength]
      exact Int.dvd_mul_right _ _

/-- Three candidates for a word that has grown to what they have in common. -/
def grownWord : Cycle := ⟨"@".toList, ["Player1".toList, "player2".toList, "Player3".toList], none, "@Player".toList⟩

/-- Back from the grown word to the last candidate and forward from there, past it to the first and on to the second, where
candidates that are no longer offered do not matter. -/
theorem presses_go_round_grown : Reachable (some grownWord) ∧
    pressAll (some grownWord) "@Player".toList [⟨true, fun _ => []⟩, ⟨false, fun _ => []⟩, ⟨false, fun _ => []⟩] =
      some ("@player2 ".toList, some (grownWord.select 1)) := by
  have hreached : Reachable (some grownWord) := .press "@P".toList false (fun _ => grownWord.candidates) .idle
  obtain ⟨-, hcycle⟩ := presses_go_round hreached
  obtain ⟨-, -, hpresses, -⟩ := hcycle grownWord rfl
  obtain ⟨candidate, hcandidate, hpressed⟩ := hpresses ⟨true, fun _ => []⟩ [⟨false, fun _ => []⟩, ⟨false, fun _ => []⟩]
  have hplace : grownWord.placeAfter ⟨true, fun _ => []⟩ [⟨false, fun _ => []⟩, ⟨false, fun _ => []⟩] = 1 := rfl
  rw [hplace] at hcandidate hpressed
  cases hcandidate
  exact ⟨hreached, hpressed⟩

end Completion
end CommandConsole

import CommandConsole.Command.Line
import CommandConsole.Proofs.Text.Lowercase
/-!
# Grammar — the commands that lines stand for

`Command.WellFormed` says which commands some line is read as: its identifier is one that its sigil can carry, its name
is a word in lowercase, its arguments are words, and the value of a `set` is words with single spaces between them.  A
line that is read is read as such a command (`wellFormed_of_parse`), and a command of that kind is read back from the line
it is written as (`parse_render`), so that writing what was read is a normal form of the line.
-/
namespace CommandConsole

/-! ## Well-formed commands -/

/-- An identifier that a sigil can carry: without blanks, and not one that makes a single mark a doubled one. -/
def Sigil.Carries (s : Sigil) (ident : Text) : Prop :=
  NoBlank ident ∧
    match s with
    | .name                => ident.head? ≠ some '@'
    | .tag                 => ident.head? ≠ some '#'
    | .allNames | .allTags => True

def Selector.WellFormed : Selector → Prop
  | .marked s ident => s.Carries ident
  | .selection      => True

/-- The arguments that the words after a name can stand for. -/
def Verb.Takes (v : Verb) (args : List Text) : Prop :=
  match v with
  | .set        => args = [] ∨ ∃ pieces, pieces ≠ [] ∧ (∀ w ∈ pieces, IsWord w) ∧ args = [Text.join " " pieces]
  | .get | .call => ∀ a ∈ args, IsWord a

structure Command.WellFormed (c : Command) : Prop where
  target  : ∀ s, c.target = some s → s.WellFormed
  name    : IsWord c.name
  lowered : Text.lower c.name = c.name
  args    : c.verb.Takes c.args

/-! ## Selectors -/

/-- A sigil and an identifier that it can carry are told apart again. -/
theorem split?_text_append {s : Sigil} {ident : Text} (h : s.Carries ident) :
    Sigil.split? (s.text ++ ident) = some (s, ident) := by
  obtain ⟨-, h⟩ := h
  cases s with
  | allNames => rfl
  | allTags  => rfl
  | name     =>
    cases ident with
    | nil => rfl
    | cons c t =>
      have hc : c ≠ '@' := by simpa using h
      simp [Sigil.split?, Sigil.text, hc]
  | tag      =>
    cases ident with
    | nil => rfl
    | cons c t =>
      have hc : c ≠ '#' := by simpa using h
      simp [Sigil.split?, Sigil.text, hc]

/-- A word is the sigil it starts with and an identifier that the sigil can carry. -/
theorem of_split?_eq_some {w ident : Text} {s : Sigil} (hw : NoBlank w) (h : Sigil.split? w = some (s, ident)) :
    w = s.text ++ ident ∧ s.Carries ident := by
  unfold Sigil.split? at h
  split at h
  · cases h
    exact ⟨rfl, (noBlank_cons.1 (noBlank_cons.1 hw).2).2, trivial⟩
  · cases h
    exact ⟨rfl, (noBlank_cons.1 (noBlank_cons.1 hw).2).2, trivial⟩
  · rename_i t hsingle
    cases h
    refine ⟨rfl, (noBlank_cons.1 hw).2, fun hhead => ?_⟩
    obtain ⟨r, rfl⟩ := List.head?_eq_some_iff.1 hhead
    exact hsingle r rfl
  · rename_i t _ hsingle
    cases h
    refine ⟨rfl, (noBlank_cons.1 hw).2, fun hhead => ?_⟩
    obtain ⟨r, rfl⟩ := List.head?_eq_some_iff.1 hhead
    exact hsingle r rfl
  · cases h

theorem ofText?_text {s : Selector} (h : s.WellFormed) : Selector.ofText? s.text = some s := by
  cases s with
  | selection      => rfl
  | marked s ident =>
    have hkeyword : Text.sameAscii (s.text ++ ident) selectWord = false := by cases s <;> rfl
    rw [Selector.text, Selector.ofText?, if_neg (by simp [hkeyword]), split?_text_append h]
    rfl

theorem wellFormed_of_ofText? {w : Text} {s : Selector} (hw : NoBlank w) (h : Selector.ofText? w = some s) :
    s.WellFormed := by
  unfold Selector.ofText? at h
  split at h
  · cases h; trivial
  · obtain ⟨⟨g, ident⟩, hsplit, rfl⟩ := Option.map_eq_some_iff.1 h
    exact (of_split?_eq_some hw hsplit).2

theorem isWord_selectorText {s : Selector} (h : s.WellFormed) : IsWord s.text := by
  cases s with
  | selection      => decide
  | marked s ident =>
    have hmark : IsWord s.text := by cases s <;> decide
    exact ⟨List.append_ne_nil_of_left_ne_nil hmark.ne_nil ident, noBlank_append.2 ⟨hmark.noBlank, h.1⟩⟩

/-! ## Verbs and arguments -/

theorem isWord_verbText (v : Verb) : IsWord v.text := by cases v <;> decide

@[simp] theorem verb_ofText?_text (v : Verb) : Verb.ofText? v.text = some v := by cases v <;> rfl

@[simp] theorem selector_ofText?_verbText (v : Verb) : Selector.ofText? v.text = none := by cases v <;> rfl

/-- **A verb takes what it makes of words**, and makes the same of the words of what it takes. -/
theorem takes_argsOf (v : Verb) {ws : List Text} (h : ∀ w ∈ ws, IsWord w) : v.Takes (v.argsOf ws) := by
  cases v with
  | get  => exact h
  | call => exact h
  | set  =>
    cases ws with
    | nil       => exact .inl rfl
    | cons w ws => exact .inr ⟨w :: ws, List.cons_ne_nil w ws, h, rfl⟩

theorem argsOf_flatMap_words {v : Verb} {args : List Text} (h : v.Takes args) : v.argsOf (args.flatMap words) = args := by
  cases v with
  | get  => exact flatMap_words h
  | call => exact flatMap_words h
  | set  =>
    rcases h with rfl | ⟨pieces, hne, hp, rfl⟩
    · rfl
    · rw [List.flatMap_singleton, words_join_of_isWord hp]
      cases pieces with
      | nil       => exact absurd rfl hne
      | cons w ws => rfl

/-! ## Reading and writing -/

theorem wellFormed_of_ofVerb {target : Option Selector} {ws : List Text} {c : Command}
    (htarget : ∀ s, target = some s → s.WellFormed) (hws : ∀ w ∈ ws, IsWord w) (h : Command.ofVerb target ws = .ok c) :
    c.WellFormed := by
  unfold Command.ofVerb at h
  split at h
  · cases h
  · split at h
    · cases h
    · rename_i w rest _ v hv
      split at h
      · cases h
      · rename_i n args
        cases h
        have hn : IsWord n := hws n (by simp)
        refine ⟨htarget, hn.lower, Text.lower_lower n, takes_argsOf v (fun a ha => hws a ?_)⟩
        exact List.mem_cons_of_mem w (List.mem_cons_of_mem n ha)

/-- **A line is read as a well-formed command.** -/
theorem wellFormed_of_parse {line : Text} {c : Command} (h : Command.parse line = .ok c) : c.WellFormed := by
  have hws : ∀ w ∈ words line, IsWord w := fun w hw => isWord_of_mem_words hw
  unfold Command.parse Command.ofWords at h
  split at h
  · cases h
  · rename_i w rest hline
    rw [hline] at hws
    split at h
    · rename_i s hs
      have hsel := wellFormed_of_ofText? (hws w List.mem_cons_self).noBlank hs
      exact wellFormed_of_ofVerb (fun t ht => by cases ht; exact hsel) (fun u hu => hws u (List.mem_cons_of_mem w hu)) h
    · exact wellFormed_of_ofVerb (fun t ht => by cases ht) hws h

/-- The words of a command as it is written are those of its parts. -/
theorem words_render {c : Command} (h : c.WellFormed) :
    words c.render = (c.target.map Selector.text).toList ++ c.verb.text :: c.name :: c.args.flatMap words := by
  have htarget : (c.target.map Selector.text).toList.flatMap words = (c.target.map Selector.text).toList := by
    refine flatMap_words (fun w hw => ?_)
    obtain ⟨s, hs, rfl⟩ := Option.map_eq_some_iff.1 (Option.mem_toList.1 hw)
    exact isWord_selectorText (h.target s hs)
  rw [Command.render, words_join, Command.words, List.flatMap_append, htarget, List.flatMap_cons, List.flatMap_cons,
    words_of_isWord (isWord_verbText c.verb), words_of_isWord h.name]
  rfl

theorem ofVerb_verbText {c : Command} (h : c.WellFormed) :
    Command.ofVerb c.target (c.verb.text :: c.name :: c.args.flatMap words) = .ok c := by
  rw [Command.ofVerb, verb_ofText?_text]
  simp only [h.lowered, argsOf_flatMap_words h.args]

/-- **A well-formed command is read back from the line it is written as.** -/
theorem parse_render {c : Command} (h : c.WellFormed) : Command.parse c.render = .ok c := by
  rw [Command.parse, words_render h]
  cases ht : c.target with
  | none   =>
    have := ofVerb_verbText h
    rw [ht] at this
    simpa [Command.ofWords] using this
  | some s =>
    have := ofVerb_verbText h
    rw [ht] at this
    simpa [Command.ofWords, ofText?_text (h.target s ht)] using this

/-- Two lines of the same words are read alike. -/
theorem parse_congr {line line' : Text} (h : words line = words line') : Command.parse line = Command.parse line' :=
  congrArg Command.ofWords h

theorem parse_join_words (line : Text) : Command.parse (Text.join " " (words line)) = Command.parse line :=
  parse_congr (words_join_of_isWord (fun _ hw => isWord_of_mem_words hw))

/-- **The commands that some line stands for are the well-formed ones.**  What a line is read as is written as a line that
is read the same, and a line counts by its words alone. -/
theorem parse_recognizes_wellFormed (line : Text) (c : Command) :
    (Command.parse line = .ok c → c.WellFormed ∧ Command.parse c.render = .ok c) ∧
      (c.WellFormed → Command.parse c.render = .ok c) ∧
      Command.parse (Text.join " " (words line)) = Command.parse line ∧
      (∀ line', words line' = words line → Command.parse line' = Command.parse line) := by
  refine ⟨fun h => ?_, parse_render, parse_join_words line, fun line' h => parse_congr h⟩
  have hwf := wellFormed_of_parse h
  exact ⟨hwf, parse_render hwf⟩

/-- A value typed with uneven blanks, after a verb and a name in capitals. -/
theorem parse_recognizes_wellFormed_set :
    Command.parse ("@A  SET ΣPΣ 1,   2 " : String) =
        .ok ⟨some (.marked .name ("A" : String)), .set, ("σpς" : String), [("1, 2" : String)]⟩ ∧
      Command.parse ("@A set σpς 1, 2" : String) =
        .ok ⟨some (.marked .name ("A" : String)), .set, ("σpς" : String), [("1, 2" : String)]⟩ := by
  have hwords : words ("@A  SET ΣPΣ 1,   2 " : String) =
      [['@', 'A'], ['S', 'E', 'T'], ['Σ', 'P', 'Σ'], ['1', ','], ['2']] := by decide +kernel
  have hname : Text.lower ['Σ', 'P', 'Σ'] = ['σ', 'p', 'ς'] := by decide +kernel
  have h : Command.parse ("@A  SET ΣPΣ 1,   2 " : String) =
      .ok ⟨some (.marked .name ['A']), .set, Text.lower ['Σ', 'P', 'Σ'], [Text.join " " [['1', ','], ['2']]]⟩ := by
    rw [Command.parse, hwords]
    rfl
  rw [hname] at h
  exact ⟨h, ((parse_recognizes_wellFormed _ _).1 h).2⟩

end CommandConsole

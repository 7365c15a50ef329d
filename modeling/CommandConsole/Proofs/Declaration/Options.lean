import CommandConsole.Declaration.Marker
import CommandConsole.Proofs.Session.Preparation
/-!
# Options — what a marker says

A marker lists options between commas: words, each of which raises a flag, and names.  It is read if every part of the list
is an option, then a flag is raised just if its word is listed, and of several names the last one counts
(`marker_eq_ok_iff`).
-/
namespace CommandConsole
namespace Declaration

/-! ## Flags -/

/-- The options that are only a word. -/
inductive Flag where
  | force | get | set | readonly | callback
deriving DecidableEq

def Flag.word : Flag → Text
  | .force    => "force"
  | .get      => "get"
  | .set      => "set"
  | .readonly => "readonly"
  | .callback => "callback"

namespace Marker

/-- Is the flag raised? -/
def has (m : Marker) : Flag → Bool
  | .force    => m.force
  | .get      => m.get
  | .set      => m.set
  | .readonly => m.readonly
  | .callback => m.callback

/-- The marker with one more flag raised. -/
def raise (m : Marker) : Flag → Marker
  | .force    => { m with force := true }
  | .get      => { m with get := true }
  | .set      => { m with set := true }
  | .readonly => { m with readonly := true }
  | .callback => { m with callback := true }

variable {m m' : Marker} {f g : Flag} {w : Text} {ts rest : List Tree} {last : Bool}

@[simp] theorem has_raise : (m.raise f).has g = (m.has g || decide (f = g)) := by
  cases f <;> cases g <;> simp [raise, has]

@[simp] theorem name_raise : (m.raise f).name = m.name := by cases f <;> rfl

/-- A marker is its name and its flags. -/
theorem ext_has (hname : m.name = m'.name) (hflags : ∀ f, m.has f = m'.has f) : m = m' := by
  obtain ⟨name, force, get, set, readonly, callback⟩ := m
  obtain ⟨name', force', get', set', readonly', callback'⟩ := m'
  obtain rfl : name = name' := hname
  obtain rfl : force = force' := hflags .force
  obtain rfl : get = get' := hflags .get
  obtain rfl : set = set' := hflags .set
  obtain rfl : readonly = readonly' := hflags .readonly
  obtain rfl : callback = callback' := hflags .callback
  rfl

theorem withWord?_eq_some_iff : m.withWord? w = some m' ↔ ∃ f : Flag, w = f.word ∧ m' = m.raise f := by
  constructor
  · intro h
    unfold withWord? at h
    split at h
    · cases h; exact ⟨.force, ‹_›, rfl⟩
    · split at h
      · cases h; exact ⟨.get, ‹_›, rfl⟩
      · split at h
        · cases h; exact ⟨.set, ‹_›, rfl⟩
        · split at h
          · cases h; exact ⟨.readonly, ‹_›, rfl⟩
          · split at h
            · cases h; exact ⟨.callback, ‹_›, rfl⟩
            · cases h
  · rintro ⟨f, rfl, rfl⟩
    cases f <;> rfl

/-! ## One option -/

/-- An option, and what it makes of a marker. -/
inductive Adds (m : Marker) : List Tree → Marker → Prop
  | flag (f : Flag) : Adds m [.word f.word] (m.raise f)
  | name (written : Text) {value : Text} (given : Text.isBlankText value = false) :
    Adds m [.word "name", .sign ['='], .quoted written value] { m with name := some value }

/-- A path ends where no further segment follows. -/
theorem optionPath_eq_ok_iff : optionPath last ts = .ok (false, rest) ↔
    ts = rest ∧ ∀ l, rest ≠ .sign [':', ':'] :: l := by
  constructor
  · intro h
    unfold optionPath at h
    split at h
    · obtain ⟨p, -, hp⟩ := except_map_eq_ok.1 h
      cases hp
    · cases h
    · cases h
    · rename_i hsign
      cases h
      exact ⟨rfl, fun l hl => hsign l hl⟩
  · rintro ⟨rfl, hsign⟩
    unfold optionPath
    split
    · exact absurd rfl (hsign _)
    · exact absurd rfl (hsign _)
    · exact absurd rfl (hsign _)
    · rfl

theorem optionName_eq_ok_iff : optionName last ts = .ok (some w, rest) ↔
    ts = .word w :: rest ∧ ∀ l, rest ≠ .sign [':', ':'] :: l := by
  constructor
  · intro h
    unfold optionName at h
    split at h
    rename_i outermost ts' hstart
    split at h
    · obtain ⟨⟨long, rest'⟩, hpath, h⟩ := except_bind_eq_ok.1 h
      -- a longer path is no name
      cases outermost with
      | true  => cases h
      | false =>
        cases long with
        | true  => cases h
        | false =>
          cases h
          obtain ⟨rfl, hsign⟩ := optionPath_eq_ok_iff.1 hpath
          refine ⟨?_, hsign⟩
          split at hstart
          · cases hstart
          · cases hstart; rfl
    all_goals cases h
  · rintro ⟨rfl, hsign⟩
    exact except_bind_eq_ok.2 ⟨(false, rest), optionPath_eq_ok_iff.2 ⟨rfl, hsign⟩, rfl⟩

theorem optionText_eq_ok_iff {value : Text} : optionText last ts = .ok (value, rest) ↔
    ∃ written, ts = .sign ['='] :: .quoted written value :: rest := by
  constructor
  · intro h
    unfold optionText at h
    split at h
    · cases h; exact ⟨_, rfl⟩
    · cases h
    · cases h
    · cases h
  · rintro ⟨written, rfl⟩
    rfl

theorem word_ne_name (f : Flag) : f.word ≠ "name".toList := by cases f <;> decide

/-- A word is the name of an option, and what follows it belongs to the option. -/
theorem withOption_eq_ok_iff : m.withOption last w rest = .ok (m', []) ↔ m.Adds (.word w :: rest) m' := by
  unfold withOption
  by_cases hname : w = "name".toList
  · subst hname
    rw [if_pos rfl]
    constructor
    · intro h
      obtain ⟨⟨value, rest'⟩, htext, hgiven⟩ := except_bind_eq_ok.1 h
      obtain ⟨written, rfl⟩ := optionText_eq_ok_iff.1 htext
      dsimp only at hgiven
      split at hgiven
      · cases hgiven
      · rename_i hblank
        cases hgiven
        exact .name written (Bool.eq_false_iff.2 hblank)
    · intro h
      generalize hw : ("name".toList : Text) = w at h
      cases h with
      | flag f             => exact absurd hw.symm (word_ne_name f)
      | name written given =>
        refine except_bind_eq_ok.2 ⟨_, optionText_eq_ok_iff.2 ⟨written, rfl⟩, ?_⟩
        dsimp only
        rw [given]
        rfl
  · rw [if_neg hname]
    constructor
    · intro h
      cases hword : m.withWord? w with
      | none    => rw [hword] at h; cases h
      | some m₁ =>
        rw [hword] at h
        cases h
        obtain ⟨f, rfl, rfl⟩ := withWord?_eq_some_iff.1 hword
        exact .flag f
    · intro h
      cases h with
      | flag f => rw [withWord?_eq_some_iff.2 ⟨f, rfl, rfl⟩]
      | name   => exact absurd rfl hname

/-- **An option is a word for a flag, or a name that is not blank.** -/
theorem option_eq_ok_iff : m.option last ts = .ok m' ↔ m.Adds ts m' := by
  constructor
  · intro h
    obtain ⟨⟨_ | w, rest⟩, hname, h⟩ := except_bind_eq_ok.1 h
    · cases h
    · obtain ⟨⟨m₁, rest'⟩, hoption, h⟩ := except_bind_eq_ok.1 h
      obtain ⟨rfl, -⟩ := optionName_eq_ok_iff.1 hname
      cases rest' with
      | nil       => cases h; exact withOption_eq_ok_iff.1 hoption
      | cons t ts => cases h
  · intro h
    have hsplit : ∃ w rest, ts = .word w :: rest ∧ ∀ l, rest ≠ .sign [':', ':'] :: l := by
      cases h with
      | flag f => exact ⟨f.word, [], rfl, nofun⟩
      | name   => exact ⟨_, _, rfl, nofun⟩
    obtain ⟨w, rest, rfl, hsign⟩ := hsplit
    exact except_bind_eq_ok.2 ⟨(some w, rest), optionName_eq_ok_iff.2 ⟨rfl, hsign⟩,
      except_bind_eq_ok.2 ⟨(m', []), withOption_eq_ok_iff.2 h, rfl⟩⟩

/-! ## All options -/

/-- A part of a list that is an option. -/
inductive IsOption : List Tree → Prop
  | flag (f : Flag) : IsOption [.word f.word]
  | name (written : Text) {value : Text} (given : Text.isBlankText value = false) :
    IsOption [.word "name", .sign ['='], .quoted written value]

/-- The name that an option gives, if it gives one. -/
def named? : List Tree → Option Text
  | [.word _, .sign _, .quoted _ value] => some value
  | _                                   => none

/-- What options make of a marker: each raises the flag of its word, and of several names the last one counts. -/
structure Gathers (m : Marker) (parts : List (List Tree)) (m' : Marker) : Prop where
  option : ∀ ts ∈ parts, IsOption ts
  flag   : ∀ f, m'.has f = true ↔ m.has f = true ∨ [Tree.word f.word] ∈ parts
  name   : m'.name = (parts.filterMap named?).getLast?.or m.name

variable {parts l : List (List Tree)}

theorem word_inj (h : f.word = g.word) : f = g := by cases f <;> cases g <;> first | rfl | (exact absurd h (by decide))

theorem word_eq_iff : ([Tree.word f.word] : List Tree) = [.word g.word] ↔ f = g :=
  ⟨fun h => word_inj (Tree.word.inj (List.head_eq_of_cons_eq h)), fun h => by rw [h]⟩

theorem adds_iff : m.Adds ts m' ↔
    IsOption ts ∧ (∀ f, m'.has f = true ↔ m.has f = true ∨ ts = [.word f.word]) ∧ m'.name = (named? ts).or m.name := by
  constructor
  · intro h
    cases h with
    | flag f             =>
      refine ⟨.flag f, fun g => ?_, name_raise⟩
      rw [has_raise, Bool.or_eq_true, decide_eq_true_eq, word_eq_iff]
    | name written given =>
      exact ⟨.name written given, fun g => by cases g <;> simp [has], rfl⟩
  · rintro ⟨hoption, hflags, hname⟩
    cases hoption with
    | flag f             =>
      have hraise : m' = m.raise f := by
        refine ext_has (hname.trans name_raise.symm) fun g => Bool.eq_iff_iff.2 ?_
        rw [hflags, has_raise, Bool.or_eq_true, decide_eq_true_eq, word_eq_iff]
      rw [hraise]
      exact .flag f
    | @name written value given =>
      have hnamed : m' = { m with name := some value } := by
        refine ext_has hname fun g => Bool.eq_iff_iff.2 ((hflags g).trans ?_)
        cases g <;> simp [has]
      rw [hnamed]
      exact .name written given

theorem gathers_nil : m.Gathers [] m' ↔ m' = m := by
  constructor
  · intro h
    refine ext_has h.name fun f => Bool.eq_iff_iff.2 ?_
    rw [h.flag]
    simp
  · rintro rfl
    exact ⟨nofun, fun f => by simp, rfl⟩

theorem getLast?_filterMap_named? :
    ((ts :: parts).filterMap named?).getLast? = (parts.filterMap named?).getLast?.or (named? ts) := by
  rw [List.filterMap_cons]
  cases named? ts with
  | none   => simp
  | some w =>
    rw [List.getLast?_cons]
    cases (parts.filterMap named?).getLast? <;> rfl

/-- Options are read one after the other. -/
theorem gathers_cons : m.Gathers (ts :: parts) m' ↔ ∃ m₁, m.Adds ts m₁ ∧ m₁.Gathers parts m' := by
  constructor
  · intro h
    obtain ⟨hoption, hoptions⟩ := List.forall_mem_cons.1 h.option
    have hadds : ∃ m₁, m.Adds ts m₁ := by
      cases hoption with
      | flag f             => exact ⟨_, .flag f⟩
      | name written given => exact ⟨_, .name written given⟩
    obtain ⟨m₁, hadds⟩ := hadds
    obtain ⟨-, hflags, hname⟩ := adds_iff.1 hadds
    refine ⟨m₁, hadds, hoptions, fun f => ?_, ?_⟩
    · rw [h.flag, hflags, List.mem_cons, @eq_comm _ ts, or_assoc]
    · rw [h.name, getLast?_filterMap_named?, hname, Option.or_assoc]
  · rintro ⟨m₁, hadds, h⟩
    obtain ⟨hoption, hflags, hname⟩ := adds_iff.1 hadds
    refine ⟨List.forall_mem_cons.2 ⟨hoption, h.option⟩, fun f => ?_, ?_⟩
    · rw [h.flag, hflags, List.mem_cons, @eq_comm _ ts, or_assoc]
    · rw [h.name, getLast?_filterMap_named?, hname, Option.or_assoc]

/-- The parts of a list of options; after a closing comma there is one more, which is empty. -/
def Closes (parts l : List (List Tree)) : Prop := l = parts ∨ l = parts ++ [[]]

theorem not_isOption_nil : ¬ IsOption [] := nofun

/-- Only the last part may be left out. -/
theorem closes_cons {u : List Tree} :
    Closes parts (ts :: u :: l) ↔ ∃ parts', parts = ts :: parts' ∧ Closes parts' (u :: l) := by
  constructor
  · rintro (rfl | h)
    · exact ⟨u :: l, rfl, .inl rfl⟩
    · cases parts with
      | nil             => cases h
      | cons p parts    =>
        obtain ⟨rfl, hrest⟩ := List.cons.inj h
        exact ⟨parts, rfl, .inr hrest⟩
  · rintro ⟨parts', rfl, h | h⟩
    · exact .inl (congrArg _ h)
    · exact .inr (congrArg _ h)

/-- **A list is read if all its parts are options**, and then as what they say together. -/
theorem options_eq_ok_iff : ∀ {m : Marker} {l : List (List Tree)},
    m.options l = .ok m' ↔ ∃ parts, Closes parts l ∧ m.Gathers parts m'
  | m, []           => by
    constructor
    · rintro h
      cases h
      exact ⟨[], .inl rfl, gathers_nil.2 rfl⟩
    · rintro ⟨parts, rfl | h, hgathers⟩
      · rw [gathers_nil.1 hgathers]; rfl
      · exact absurd h.symm (by simp)
  | m, [[]]         => by
    constructor
    · rintro h
      cases h
      exact ⟨[], .inr rfl, gathers_nil.2 rfl⟩
    · rintro ⟨parts, rfl | h, hgathers⟩
      · exact absurd (hgathers.option [] (by simp)) not_isOption_nil
      · have hnil : parts = [] := by simpa using congrArg List.length h
        rw [hnil] at hgathers
        rw [gathers_nil.1 hgathers]; rfl
  | m, [t :: ts]    => by
    have hlast : m.options [t :: ts] = m.option true (t :: ts) := rfl
    rw [hlast, option_eq_ok_iff]
    constructor
    · intro h
      exact ⟨[t :: ts], .inl rfl, gathers_cons.2 ⟨m', h, gathers_nil.2 rfl⟩⟩
    · rintro ⟨parts, rfl | h, hgathers⟩
      · obtain ⟨m₁, hadds, hgathers⟩ := gathers_cons.1 hgathers
        rwa [gathers_nil.1 hgathers]
      · cases parts with
        | nil         => cases h
        | cons p rest => exact absurd (List.cons.inj h).2.symm (by simp)
  | m, ts :: u :: l => by
    have hfirst : m.options (ts :: u :: l) = .ok m' ↔ ∃ m₁, m.option false ts = .ok m₁ ∧ m₁.options (u :: l) = .ok m' := by
      rw [options, except_bind_eq_ok]
    rw [hfirst]
    constructor
    · rintro ⟨m₁, hoption, hrest⟩
      obtain ⟨parts, hcloses, hgathers⟩ := options_eq_ok_iff.1 hrest
      exact ⟨ts :: parts, closes_cons.2 ⟨parts, rfl, hcloses⟩, gathers_cons.2 ⟨m₁, option_eq_ok_iff.1 hoption, hgathers⟩⟩
    · rintro ⟨parts, hcloses, hgathers⟩
      obtain ⟨rest, rfl, hrest⟩ := closes_cons.1 hcloses
      obtain ⟨m₁, hadds, hgathers⟩ := gathers_cons.1 hgathers
      exact ⟨m₁, option_eq_ok_iff.2 hadds, options_eq_ok_iff.2 ⟨rest, hrest, hgathers⟩⟩

end Marker

/-! ## Markers -/

/-- The parts between the commas of a marker. -/
inductive Attribute.Lists (a : Attribute) : List (List Tree) → Prop
  | bare (body : a.body = .bare) : Lists a []
  | list {trees : List Tree} {parts : List (List Tree)} (body : a.body = .list trees)
    (closes : Marker.Closes parts (splitCommas trees)) : Lists a parts

/-- The marker says this: all its parts are options, the flags are those whose words are listed, the name is the last one
that is given, and the member is not both a getter and a setter. -/
structure Attribute.Says (a : Attribute) (m : Marker) : Prop where
  options : ∃ parts, a.Lists parts ∧ (∀ ts ∈ parts, Marker.IsOption ts) ∧
    (∀ f, m.has f = true ↔ [Tree.word f.word] ∈ parts) ∧ m.name = (parts.filterMap Marker.named?).getLast?
  either : ¬ (m.get = true ∧ m.set = true)

theorem Marker.gathers_plain {parts : List (List Tree)} {m : Marker} : Marker.plain.Gathers parts m ↔
    (∀ ts ∈ parts, Marker.IsOption ts) ∧ (∀ f, m.has f = true ↔ [Tree.word f.word] ∈ parts) ∧
      m.name = (parts.filterMap Marker.named?).getLast? := by
  have hplain (f : Flag) : Marker.plain.has f = false := by cases f <;> rfl
  constructor
  · intro h
    refine ⟨h.option, fun f => ?_, by simpa [Marker.plain] using h.name⟩
    simpa [hplain] using h.flag f
  · rintro ⟨hoption, hflag, hname⟩
    exact ⟨hoption, fun f => by simpa [hplain] using hflag f, by simpa [Marker.plain] using hname⟩

/-- **A marker is read as what it says**, and if it says nothing it is rejected. -/
theorem Attribute.marker_eq_ok_iff {a : Attribute} {m : Marker} : a.marker = .ok m ↔ a.Says m := by
  have hsaid : a.Says m ↔ (∃ parts, a.Lists parts ∧ Marker.plain.Gathers parts m) ∧ ¬ (m.get = true ∧ m.set = true) := by
    simp only [Marker.gathers_plain]
    exact ⟨fun h => ⟨h.options, h.either⟩, fun h => ⟨h.1, h.2⟩⟩
  rw [hsaid]
  unfold marker
  cases hbody : a.body with
  | bare       =>
    constructor
    · rintro h
      cases h
      exact ⟨⟨[], .bare hbody, Marker.gathers_nil.2 rfl⟩, nofun⟩
    · rintro ⟨⟨parts, hlists, hgathers⟩, -⟩
      cases hlists with
      | bare      => rw [Marker.gathers_nil.1 hgathers]
      | list body => cases hbody.symm.trans body
  | value      =>
    refine iff_of_false nofun ?_
    rintro ⟨⟨parts, hlists, -⟩, -⟩
    cases hlists with
    | bare body => cases hbody.symm.trans body
    | list body => cases hbody.symm.trans body
  | list trees =>
    have hread : (∃ parts, a.Lists parts ∧ Marker.plain.Gathers parts m) ↔
        Marker.plain.options (splitCommas trees) = .ok m := by
      rw [Marker.options_eq_ok_iff]
      refine exists_congr fun parts => and_congr_left fun _ => ⟨fun h => ?_, fun h => .list hbody h⟩
      cases h with
      | bare body        => cases hbody.symm.trans body
      | list body closes => cases hbody.symm.trans body; exact closes
    rw [hread]
    dsimp only
    cases hoptions : Marker.plain.options (splitCommas trees) with
    | error e => simp [bind, Except.bind]
    | ok m₁   =>
      have hstep : (do let m ← Except.ok m₁; if m.get && m.set then .error .getAndSet else return m) =
          if m₁.get && m₁.set then Except.error Rejection.getAndSet else .ok m₁ := rfl
      rw [hstep, ← Bool.and_eq_true]
      split
      · rename_i hboth
        refine iff_of_false nofun ?_
        rintro ⟨h, heither⟩
        cases h
        exact heither hboth
      · rename_i heither
        refine ⟨fun h => ?_, And.left⟩
        cases h
        exact ⟨rfl, heither⟩

end Declaration
end CommandConsole

import CommandConsole.Declaration.Reading
import CommandConsole.Proofs.Declaration.Options
import CommandConsole.Proofs.Declaration.Signatures
/-!
# Members — a declaration yields one command for each marked member

The command of a method follows from its marker and its signature (`Method.Yields`), those of a field from its marker and
its type (`Field.Yields`).  A block of methods has one command for each marked method, in order, and is rejected as a whole
if one of these is at fault; a type with fields has the commands of each marked field, in order (`declarations_yield`).
-/
namespace CommandConsole
namespace Declaration

theorem exists_of_forall₂ {α β : Type} {R : α → β → Prop} {l : List α} {u : List β} (h : List.Forall₂ R l u) {a : α}
    (ha : a ∈ l) : ∃ b, R a b := by
  have hboth : List.Forall₂ (fun a b => (∃ b, R a b) ∧ R a b) l u := h.imp fun _ b hab => ⟨⟨b, hab⟩, hab⟩
  exact ((List.forall₂_and_left l u).1 hboth).1 a ha

/-! ## Methods -/

/-- How a method is reached by the receiver that it declares; one that is not borrowed cannot be. -/
inductive Method.Reached : Option Receiver → Access → Prop
  | static : Reached none .static
  | shared : Reached (some ⟨true, false⟩) .shared
  | exclusive : Reached (some ⟨true, true⟩) .exclusive

theorem Method.access_eq_ok_iff {m : Method} {access : Access} : m.access = .ok access ↔ Reached m.receiver access := by
  unfold Method.access
  split
  · rename_i h
    rw [h]
    exact ⟨fun h => by cases h; exact .static, fun h => by cases h; rfl⟩
  · rename_i h
    rw [h]
    exact ⟨nofun, nofun⟩
  · rename_i h
    rw [h]
    exact ⟨fun h => by cases h; exact .exclusive, fun h => by cases h; rfl⟩
  · rename_i h
    rw [h]
    exact ⟨fun h => by cases h; exact .shared, fun h => by cases h; rfl⟩

/-- What the command of a method is for, as its marker says: a getter shows what the method gives, a setter takes its one
input, any other is called. -/
inductive Method.Serves (m : Method) (marker : Marker) (output : Output) (d : Member) : Prop
  | getter (get : marker.get = true) (verb : d.verb = .get) (none : d.inputs = []) (value : output.type ≠ .unit)
    (type : d.type = output.type) (name : marker.Names m.name (some "get_".toList) d.name)
  | setter {input : Input} (get : marker.get = false) (set : marker.set = true) (verb : d.verb = .set)
    (one : d.inputs = [input]) (type : d.type = input.type) (name : marker.Names m.name (some "set_".toList) d.name)
  | callable (get : marker.get = false) (set : marker.set = false) (verb : d.verb = .call) (type : d.type = output.type)
    (name : marker.Names m.name none d.name)

/-- The command that a method yields under what its marker says. -/
structure Method.Yields (m : Method) (owner : Text) (marker : Marker) (d : Member) : Prop where
  owner     : d.owner = owner
  kind      : d.kind = none
  reached   : Reached m.receiver d.access
  isPrivate : d.isPrivate = !m.isPublic
  forced    : d.forced = marker.force
  inputs    : Takes 0 m.typed d.inputs
  output    : ∃ output, Output.Gives m.output output ∧ d.fallible = output.fallible ∧ m.Serves marker output d

theorem Method.member_eq_ok_iff {m : Method} {owner : Text} {marker : Marker} {d : Member} :
    m.member owner marker = .ok d ↔ m.Yields owner marker d := by
  constructor
  · intro h
    obtain ⟨access, haccess, h⟩ := except_bind_eq_ok.1 h
    obtain ⟨inputs, hinputs, h⟩ := except_bind_eq_ok.1 h
    obtain ⟨output, houtput, h⟩ := except_bind_eq_ok.1 h
    rw [access_eq_ok_iff] at haccess
    rw [declareInputs_eq_ok_iff] at hinputs
    rw [Output.declare_eq_ok_iff] at houtput
    dsimp only at h
    split at h
    · rename_i hget
      split at h
      · cases h
      · rename_i hsignature
        cases h
        rw [Bool.or_eq_true, not_or, Bool.not_eq_true', Bool.not_eq_false, List.isEmpty_iff, Output.isVoid_iff] at hsignature
        exact ⟨rfl, rfl, haccess, rfl, rfl, hinputs, output, houtput, rfl,
          .getter hget rfl hsignature.1 hsignature.2 rfl (Marker.names_iff.2 rfl)⟩
    · rename_i hget
      split at h
      · rename_i hset
        split at h
        · rename_i input
          cases h
          exact ⟨rfl, rfl, haccess, rfl, rfl, hinputs, output, houtput, rfl,
            .setter (Bool.eq_false_iff.2 hget) hset rfl rfl rfl (Marker.names_iff.2 rfl)⟩
        · cases h
      · rename_i hset
        cases h
        exact ⟨rfl, rfl, haccess, rfl, rfl, hinputs, output, houtput, rfl,
          .callable (Bool.eq_false_iff.2 hget) (Bool.eq_false_iff.2 hset) rfl rfl (Marker.names_iff.2 rfl)⟩
  · intro h
    obtain ⟨verb, name, owner', inputs, type, kind, access, fallible, isPrivate, forced⟩ := d
    obtain ⟨rfl, rfl, hreached, rfl, rfl, htakes, output, hgives, rfl, hserves⟩ := h
    refine except_bind_eq_ok.2 ⟨access, access_eq_ok_iff.2 hreached, except_bind_eq_ok.2
      ⟨inputs, declareInputs_eq_ok_iff.2 htakes, except_bind_eq_ok.2 ⟨output, Output.declare_eq_ok_iff.2 hgives, ?_⟩⟩⟩
    dsimp only
    cases hserves with
    | getter get verb none value type name =>
      dsimp only at verb none type name
      have hvoid : output.isVoid = false := Bool.eq_false_iff.2 (mt Output.isVoid_iff.1 value)
      rw [if_pos get, none, hvoid, verb, type, Marker.names_iff.1 name]
      rfl
    | setter get set verb one type name    =>
      dsimp only at verb one type name
      rw [get, if_neg Bool.false_ne_true, if_pos set, one, verb, type, Marker.names_iff.1 name]
      rfl
    | callable get set verb type name      =>
      dsimp only at verb type name
      rw [get, if_neg Bool.false_ne_true, set, if_neg Bool.false_ne_true, verb, type, Marker.names_iff.1 name]
      rfl

/-- A command is static just if its method has no receiver. -/
theorem Method.Yields.isStatic_iff {m : Method} {owner : Text} {marker : Marker} {d : Member} (h : m.Yields owner marker d) :
    d.isStatic = true ↔ m.receiver = none := by
  have hreached := h.reached
  rw [Member.isStatic, decide_eq_true_eq]
  generalize m.receiver = receiver at hreached
  generalize d.access = access at hreached
  cases hreached <;> simp

theorem Method.Yields.named {m : Method} {owner : Text} {marker : Marker} {d : Member} (h : m.Yields owner marker d) :
    ∃ lead, marker.Names m.name lead d.name := by
  obtain ⟨output, -, -, hserves⟩ := h.output
  cases hserves with
  | getter _ _ _ _ _ name   => exact ⟨_, name⟩
  | setter _ _ _ _ _ name   => exact ⟨_, name⟩
  | callable _ _ _ _ name   => exact ⟨_, name⟩

/-- A getter takes nothing and gives something. -/
theorem Method.Serves.of_get {m : Method} {marker : Marker} {output : Output} {d : Member} (h : m.Serves marker output d)
    (get : marker.get = true) : d.inputs = [] ∧ output.type ≠ .unit := by
  cases h with
  | getter _ _ none value => exact ⟨none, value⟩
  | setter get'           => exact absurd (get'.symm.trans get) Bool.false_ne_true
  | callable get'         => exact absurd (get'.symm.trans get) Bool.false_ne_true

/-- A setter takes one input. -/
theorem Method.Serves.of_set {m : Method} {marker : Marker} {output : Output} {d : Member} (h : m.Serves marker output d)
    (set : marker.set = true) (either : ¬ (marker.get = true ∧ marker.set = true)) : d.inputs.length = 1 := by
  cases h with
  | getter get       => exact absurd ⟨get, set⟩ either
  | setter _ _ _ one => rw [one]; rfl
  | callable _ set'  => exact absurd (set'.symm.trans set) Bool.false_ne_true

/-- What keeps a marked method from becoming a command. -/
inductive Method.Faulty (m : Method) (marker : Marker) : Prop
  | byValue {exclusive : Bool} (receiver : m.receiver = some ⟨false, exclusive⟩)
  | exclusiveInput {name : Option Text} {written : Text} {target : TypeExpr}
    (input : (name, .reference written true target) ∈ m.typed)
  | anonymousInput {name : Option Text} {written : Text} (input : (name, .anonymous written) ∈ m.typed)
  | getWithInputs (get : marker.get = true) (inputs : m.typed ≠ [])
  | getWithoutValue {output : Output} (get : marker.get = true) (gives : Output.Gives m.output output)
    (unit : output.type = .unit)
  | setWithoutOne (set : marker.set = true) (inputs : m.typed.length ≠ 1)

/-- **A faulty method yields nothing.** -/
theorem Method.Faulty.not_yields {m : Method} {owner : Text} {a : Attribute} {marker : Marker} {d : Member}
    (h : m.Faulty marker) (hsaid : a.Says marker) : ¬ m.Yields owner marker d := by
  intro hyields
  obtain ⟨output', hgives, -, hserves⟩ := hyields.output
  have hlength := hyields.inputs.length
  cases h with
  | byValue receiver                =>
    have hreached := hyields.reached
    rw [receiver] at hreached
    cases hreached
  | exclusiveInput input            =>
    obtain ⟨_, _, hdeclares⟩ := hyields.inputs.exists_declares input
    cases hdeclares with
    | owned reference => exact reference _ _ _ rfl
  | anonymousInput input            =>
    obtain ⟨_, _, hdeclares⟩ := hyields.inputs.exists_declares input
    cases hdeclares with
    | owned _ anonymous => exact anonymous _ rfl
  | getWithInputs get inputs        =>
    rw [(hserves.of_get get).1] at hlength
    exact inputs (List.length_eq_zero_iff.1 hlength.symm)
  | getWithoutValue get gives unit  =>
    have hsame := (Output.declare_eq_ok_iff.2 gives).symm.trans (Output.declare_eq_ok_iff.2 hgives)
    exact (hserves.of_get get).2 (Except.ok.inj hsame ▸ unit)
  | setWithoutOne set inputs        =>
    rw [hserves.of_set set hsaid.either] at hlength
    exact inputs hlength.symm

/-! ## Blocks of methods -/

/-- Has it a marker? -/
def Method.isMarked (m : Method) : Bool := (findMarker m.attributes).isSome

/-- The command of a marked method. -/
def Method.Becomes (owner : Text) (m : Method) (d : Member) : Prop :=
  ∃ a marker, findMarker m.attributes = some a ∧ a.Says marker ∧ m.Yields owner marker d

theorem Method.member?_eq_ok_iff {m : Method} {owner : Text} {o : Option Member} :
    m.member? owner = .ok o ↔ (m.isMarked = false ∧ o = none) ∨ ∃ d, o = some d ∧ m.Becomes owner d := by
  unfold Method.member? isMarked Becomes
  cases hmarker : findMarker m.attributes with
  | none   => simp [eq_comm]
  | some a =>
    dsimp only
    constructor
    · intro h
      obtain ⟨marker, hmarker, h⟩ := except_bind_eq_ok.1 h
      obtain ⟨d, hd, h⟩ := except_bind_eq_ok.1 h
      cases h
      exact .inr ⟨d, rfl, a, marker, rfl, Attribute.marker_eq_ok_iff.1 hmarker, member_eq_ok_iff.1 hd⟩
    · rintro (⟨h, -⟩ | ⟨d, rfl, a', marker, ha, hsaid, hyields⟩)
      · cases h
      · cases ha
        exact except_bind_eq_ok.2 ⟨marker, Attribute.marker_eq_ok_iff.2 hsaid,
          except_bind_eq_ok.2 ⟨d, member_eq_ok_iff.2 hyields, rfl⟩⟩

theorem Method.Becomes.isMarked {owner : Text} {m : Method} {d : Member} (h : m.Becomes owner d) : m.isMarked = true := by
  obtain ⟨a, -, ha, -⟩ := h
  rw [Method.isMarked, ha]
  rfl

/-- **The marked methods become one command each, in order.** -/
theorem methodMembers_eq_ok_iff {owner : Text} : ∀ {l : List Method} {ms : List Member},
    methodMembers owner l = .ok ms ↔ List.Forall₂ (Method.Becomes owner) (l.filter Method.isMarked) ms
  | [], ms => by
    rw [methodMembers, List.filter_nil, List.forall₂_nil_left_iff, Except.ok.injEq, eq_comm]
  | m :: l, ms => by
    rw [methodMembers, except_bind_eq_ok]
    constructor
    · rintro ⟨o, ho, h⟩
      obtain ⟨rest, hrest, h⟩ := except_bind_eq_ok.1 h
      cases h
      rcases Method.member?_eq_ok_iff.1 ho with ⟨hmarked, rfl⟩ | ⟨d, rfl, hd⟩
      · rw [List.filter_cons_of_neg (by simp [hmarked])]
        exact methodMembers_eq_ok_iff.1 hrest
      · rw [List.filter_cons_of_pos hd.isMarked]
        exact .cons hd (methodMembers_eq_ok_iff.1 hrest)
    · intro h
      cases hmarked : m.isMarked with
      | false =>
        rw [List.filter_cons_of_neg (by simp [hmarked])] at h
        exact ⟨none, Method.member?_eq_ok_iff.2 (.inl ⟨hmarked, rfl⟩),
          except_bind_eq_ok.2 ⟨ms, methodMembers_eq_ok_iff.2 h, rfl⟩⟩
      | true  =>
        rw [List.filter_cons_of_pos hmarked, List.forall₂_cons_left_iff] at h
        obtain ⟨d, rest, hd, hrest, rfl⟩ := h
        exact ⟨some d, Method.member?_eq_ok_iff.2 (.inr ⟨d, rfl, hd⟩),
          except_bind_eq_ok.2 ⟨rest, methodMembers_eq_ok_iff.2 hrest, rfl⟩⟩

theorem MethodBlock.members_eq_ok_iff {b : MethodBlock} {ms : List Member} : b.members = .ok ms ↔
    b.forTrait = false ∧ List.Forall₂ (Method.Becomes b.owner) (b.methods.filter Method.isMarked) ms := by
  unfold members
  cases b.forTrait with
  | true  => simp
  | false => simp [methodMembers_eq_ok_iff]

/-- **One faulty method rejects the whole block.** -/
theorem MethodBlock.rejected_of_faulty {b : MethodBlock} {m : Method} {a : Attribute} {marker : Marker} (hm : m ∈ b.methods)
    (ha : findMarker m.attributes = some a) (hsaid : a.Says marker) (h : m.Faulty marker) : ∃ e, b.members = .error e := by
  cases hmembers : b.members with
  | error e => exact ⟨e, rfl⟩
  | ok ms   =>
    obtain ⟨-, hforall⟩ := members_eq_ok_iff.1 hmembers
    have hmarked : m.isMarked = true := by rw [Method.isMarked, ha]; rfl
    obtain ⟨d, a', marker', ha', hsaid', hyields⟩ := exists_of_forall₂ hforall (List.mem_filter.2 ⟨hm, hmarked⟩)
    cases ha.symm.trans ha'
    have hsame := (Attribute.marker_eq_ok_iff.2 hsaid).symm.trans (Attribute.marker_eq_ok_iff.2 hsaid')
    exact absurd hyields (Except.ok.inj hsame ▸ h.not_yields hsaid)

/-! ## Fields -/

/-- The commands that a field yields under what its marker says: one that calls what it holds, or one that shows it and,
unless it can only be read, one of the same name, type, owner and visibility that changes it. -/
inductive Field.Yields (f : Field) (owner : Text) (marker : Marker) : List Member → Prop
  | callback {name : Text} {inputs : List Input} {output : Output} (callback : marker.callback = true)
    (called : Called f.type inputs output) (named : marker.Names f.name none name) :
    Yields f owner marker [{
      verb := .call, name, owner, inputs, type := output.type, kind := some .callback, access := .shared
      fallible := output.fallible, isPrivate := !f.isPublic, forced := marker.force }]
  | property {name : Text} {getter setter : Member} (callback : marker.callback = false)
    (named : marker.Names f.name none name)
    (shows : getter = {
      verb := .get, name, owner, inputs := [], type := f.type, kind := some .field, access := .shared
      fallible := false, isPrivate := !f.isPublic, forced := marker.force })
    (changes : setter = { getter with verb := .set, access := .exclusive }) :
    Yields f owner marker (getter :: if marker.readonly then [] else [setter])

theorem Field.members_eq_ok_iff {f : Field} {owner : Text} {marker : Marker} {ms : List Member} :
    f.members owner marker = .ok ms ↔ f.Yields owner marker ms := by
  constructor
  · intro h
    unfold members at h
    dsimp only at h
    split at h
    · rename_i hcallback
      obtain ⟨⟨inputs, output⟩, hcalled, h⟩ := except_bind_eq_ok.1 h
      cases h
      exact .callback hcallback (callback_eq_ok_iff.1 hcalled) (Marker.names_iff.2 rfl)
    · rename_i hcallback
      have hyields : f.Yields owner marker _ := .property (Bool.eq_false_iff.2 hcallback) (Marker.names_iff.2 rfl) rfl rfl
      cases hreadonly : marker.readonly with
      | true  => rw [hreadonly] at h hyields; cases h; exact hyields
      | false => rw [hreadonly] at h hyields; cases h; exact hyields
  · intro h
    unfold members
    cases h with
    | callback hcallback called named              =>
      rw [if_pos hcallback, Marker.names_iff.1 named]
      exact except_bind_eq_ok.2 ⟨_, callback_eq_ok_iff.2 called, rfl⟩
    | property hcallback named shows changes =>
      subst changes shows
      rw [hcallback, if_neg Bool.false_ne_true, Marker.names_iff.1 named]
      cases marker.readonly <;> rfl

theorem Field.Yields.named {f : Field} {owner : Text} {marker : Marker} {ms : List Member} (h : f.Yields owner marker ms)
    {d : Member} (hd : d ∈ ms) : marker.Names f.name none d.name := by
  cases h with
  | callback _ _ named             =>
    cases List.mem_singleton.1 hd
    exact named
  | property _ named shows changes =>
    subst changes shows
    rcases List.mem_cons.1 hd with rfl | hd
    · exact named
    · split at hd
      · cases hd
      · cases List.mem_singleton.1 hd
        exact named

/-! ## Types with fields -/

/-- Has it a marker? -/
def Field.isMarked (f : Field) : Bool := (findMarker f.attributes).isSome

/-- The commands of a marked field, whose marker does not make it a getter or a setter. -/
def Field.Becomes (owner : Text) (f : Field) (ms : List Member) : Prop :=
  ∃ a marker, findMarker f.attributes = some a ∧ a.Says marker ∧ marker.get = false ∧ marker.set = false ∧
    f.Yields owner marker ms

theorem Field.declared_eq_ok_iff {f : Field} {owner : Text} {ms : List Member} :
    f.declared owner = .ok ms ↔ (f.isMarked = false ∧ ms = []) ∨ f.Becomes owner ms := by
  unfold declared isMarked Becomes
  cases ha : findMarker f.attributes with
  | none   => simp [@eq_comm _ []]
  | some a =>
    dsimp only
    constructor
    · intro h
      obtain ⟨marker, hmarker, h⟩ := except_bind_eq_ok.1 h
      split at h
      · cases h
      · rename_i hproperty
        rw [Bool.or_eq_true, not_or, Bool.not_eq_true, Bool.not_eq_true] at hproperty
        exact .inr ⟨a, marker, rfl, Attribute.marker_eq_ok_iff.1 hmarker, hproperty.1, hproperty.2, members_eq_ok_iff.1 h⟩
    · rintro (⟨h, -⟩ | ⟨a', marker, ha', hsaid, hget, hset, hyields⟩)
      · cases h
      · cases ha'
        refine except_bind_eq_ok.2 ⟨marker, Attribute.marker_eq_ok_iff.2 hsaid, ?_⟩
        rw [hget, hset, Bool.or_false, if_neg Bool.false_ne_true]
        exact members_eq_ok_iff.2 hyields

theorem Field.Becomes.isMarked {owner : Text} {f : Field} {ms : List Member} (h : f.Becomes owner ms) :
    f.isMarked = true := by
  obtain ⟨a, -, ha, -⟩ := h
  rw [Field.isMarked, ha]
  rfl

/-- **The marked fields become their commands, in order.** -/
theorem fieldMembers_eq_ok_iff {owner : Text} : ∀ {l : List Field} {ms : List Member},
    fieldMembers owner l = .ok ms ↔
      ∃ groups, List.Forall₂ (Field.Becomes owner) (l.filter Field.isMarked) groups ∧ ms = groups.flatten
  | [], ms => by
    rw [fieldMembers, List.filter_nil]
    simp only [List.forall₂_nil_left_iff, exists_eq_left, List.flatten_nil, Except.ok.injEq, eq_comm]
  | f :: l, ms => by
    rw [fieldMembers, except_bind_eq_ok]
    constructor
    · rintro ⟨group, hgroup, h⟩
      obtain ⟨rest, hrest, h⟩ := except_bind_eq_ok.1 h
      cases h
      obtain ⟨groups, hgroups, rfl⟩ := fieldMembers_eq_ok_iff.1 hrest
      rcases Field.declared_eq_ok_iff.1 hgroup with ⟨hmarked, rfl⟩ | hbecomes
      · exact ⟨groups, by rwa [List.filter_cons_of_neg (by simp [hmarked])], rfl⟩
      · exact ⟨group :: groups, by rw [List.filter_cons_of_pos hbecomes.isMarked]; exact .cons hbecomes hgroups, rfl⟩
    · rintro ⟨groups, h, rfl⟩
      cases hmarked : f.isMarked with
      | false =>
        rw [List.filter_cons_of_neg (by simp [hmarked])] at h
        exact ⟨[], Field.declared_eq_ok_iff.2 (.inl ⟨hmarked, rfl⟩),
          except_bind_eq_ok.2 ⟨groups.flatten, fieldMembers_eq_ok_iff.2 ⟨groups, h, rfl⟩, rfl⟩⟩
      | true  =>
        rw [List.filter_cons_of_pos hmarked, List.forall₂_cons_left_iff] at h
        obtain ⟨group, rest, hgroup, hrest, rfl⟩ := h
        exact ⟨group, Field.declared_eq_ok_iff.2 (.inr hgroup),
          except_bind_eq_ok.2 ⟨rest.flatten, fieldMembers_eq_ok_iff.2 ⟨rest, hrest, rfl⟩, rfl⟩⟩

theorem DataType.members_eq_ok_iff {t : DataType} {ms : List Member} : t.members = .ok ms ↔
    ∃ fields groups, t.shape = .named fields ∧
      List.Forall₂ (Field.Becomes t.name) (fields.filter Field.isMarked) groups ∧ ms = groups.flatten := by
  unfold members
  cases hshape : t.shape with
  | named fields => simp [fieldMembers_eq_ok_iff]
  | _            => simp

/-! ## Visibility -/

/-- **A member is public just if its visibility is `pub` and nothing narrower.** -/
theorem publicOf_eq_true_iff {t : Text} : publicOf t = some true ↔
    ∃ rest, trees t = some (.word "pub" :: rest) ∧ ∀ inner rest', rest ≠ .group .round inner :: rest' := by
  unfold publicOf
  cases trees t with
  | none    => simp
  | some ts =>
    rw [Option.bind_eq_bind, Option.bind_some]
    split
    · rename_i inner rest
      refine iff_of_false nofun ?_
      rintro ⟨rest', h, hround⟩
      cases h
      exact hround inner rest rfl
    · rename_i w rest hround
      constructor
      · intro h
        have hw : w = "pub".toList := by simpa [pure] using h
        exact ⟨rest, by rw [hw], fun inner rest' hrest => hround inner rest' (by rw [hrest])⟩
      · rintro ⟨rest', h, -⟩
        cases h
        rfl
    · rename_i hword
      refine iff_of_false nofun ?_
      rintro ⟨rest, h, -⟩
      cases h
      exact hword _ _ rfl

/-! ## The whole -/

/-- **Declarations and commands correspond one to one.**  A block of methods is accepted just if it is no trait's and each
of its marked methods becomes a command; then it lists these commands, in order.  A command is static just if its method
has no receiver.  One marked method at fault rejects the whole block.  A type is accepted just if its fields have names
and each marked field becomes its commands; then it lists these, field by field.  A member is private unless its
visibility is plainly `pub`, and a command keeps its name when it is listed. -/
theorem declarations_yield :
    (∀ (b : MethodBlock) (ms : List Member), b.members = .ok ms ↔
      b.forTrait = false ∧ List.Forall₂ (Method.Becomes b.owner) (b.methods.filter Method.isMarked) ms) ∧
    (∀ (m : Method) (owner : Text) (marker : Marker) (d : Member), m.Yields owner marker d →
      (d.isStatic = true ↔ m.receiver = none) ∧ (NoBlank m.name → canonicalName d.name = d.name)) ∧
    (∀ (b : MethodBlock), ∀ m ∈ b.methods, ∀ a marker, findMarker m.attributes = some a → a.Says marker →
      m.Faulty marker → ∃ e, b.members = .error e) ∧
    (∀ (t : DataType) (ms : List Member), t.members = .ok ms ↔ ∃ fields groups, t.shape = .named fields ∧
      List.Forall₂ (Field.Becomes t.name) (fields.filter Field.isMarked) groups ∧ ms = groups.flatten) ∧
    (∀ (f : Field) (owner : Text) (marker : Marker) (ms : List Member), f.Yields owner marker ms →
      NoBlank f.name → ∀ d ∈ ms, canonicalName d.name = d.name) ∧
    (∀ t : Text, publicOf t = some true ↔
      ∃ rest, trees t = some (.word "pub" :: rest) ∧ ∀ inner rest', rest ≠ .group .round inner :: rest') := by
  refine ⟨fun b ms => MethodBlock.members_eq_ok_iff, fun m owner marker d h => ⟨h.isStatic_iff, fun hm => ?_⟩,
    fun b m hm a marker ha hsaid hfault => MethodBlock.rejected_of_faulty hm ha hsaid hfault,
    fun t ms => DataType.members_eq_ok_iff, fun f owner marker ms h hf d hd => (h.named hd).canonical hf,
    fun t => publicOf_eq_true_iff⟩
  obtain ⟨lead, hname⟩ := h.named
  exact hname.canonical hm

/-- A type whose name says it all. -/
def plainType (name : Text) : TypeExpr := .path name (.plain name)

/-- Methods of a turret: one that reads its ammunition, one without a marker, one that aims it under a name of its own,
and one that needs no turret. -/
def turretMethods : List Method :=
  [ ⟨[⟨"command", .list [.word "get"]⟩], true, "get_ammo", [.receiver ⟨true, false⟩], some (plainType "i32")⟩,
    ⟨[], true, "helper", [.receiver ⟨true, true⟩], none⟩,
    ⟨[⟨"command", .list [.word "set", .sign [','], .word "name", .sign ['='], .quoted "\" Aim \"" " Aim ", .sign [',']]⟩],
      false, "set_target", [.receiver ⟨true, true⟩, .typed (some "_x") (plainType "f32")], none⟩,
    ⟨[⟨"command", .bare⟩], true, "Reload", [], none⟩ ]

/-- Fields of a turret: one that can be changed and one that is only read. -/
def turretFields : List Field :=
  [ ⟨[⟨"command", .bare⟩], true, "Heat", plainType "f32"⟩,
    ⟨[⟨"command", .list [.word "readonly", .sign [','], .word "force"]⟩], false, "serial", plainType "u64"⟩ ]

/-- A method that takes its turret by value. -/
def scrap : Method := ⟨[⟨"command", .bare⟩], true, "scrap", [.receiver ⟨false, false⟩], none⟩

/-- The turret has three commands from its methods, none with the method that consumes it, and three from its fields. -/
theorem declarations_yield_turret :
    (∃ ms, (MethodBlock.mk "Turret" false turretMethods).members = .ok ms ∧
      ms.map Member.name = [("ammo" : Text), ("aim" : Text), ("reload" : Text)] ∧
      List.Forall₂ (Method.Becomes "Turret") (turretMethods.filter Method.isMarked) ms) ∧
    (∃ e, (MethodBlock.mk "Turret" false (turretMethods ++ [scrap])).members = .error e) ∧
    ∃ ms groups, (DataType.mk "Turret" false (.named turretFields)).members = .ok ms ∧
      ms.map Member.name = [("heat" : Text), ("heat" : Text), ("serial" : Text)] ∧
      List.Forall₂ (Field.Becomes "Turret") (turretFields.filter Field.isMarked) groups ∧ ms = groups.flatten := by
  obtain ⟨hblock, -, hfaulty, htype, -⟩ := declarations_yield
  have hmethods : (MethodBlock.mk "Turret" false turretMethods).members.map (List.map Member.name) =
      .ok [("ammo" : Text), ("aim" : Text), ("reload" : Text)] := by decide +kernel
  have hfields : (DataType.mk "Turret" false (.named turretFields)).members.map (List.map Member.name) =
      .ok [("heat" : Text), ("heat" : Text), ("serial" : Text)] := by decide +kernel
  refine ⟨?_, ?_, ?_⟩
  · obtain ⟨ms, hms, hnames⟩ := except_map_eq_ok.1 hmethods
    exact ⟨ms, hms, hnames, ((hblock _ ms).1 hms).2⟩
  · exact hfaulty ⟨"Turret", false, turretMethods ++ [scrap]⟩ scrap (List.mem_append_right _ (List.mem_singleton_self _))
      ⟨"command", .bare⟩ .plain rfl (Attribute.marker_eq_ok_iff.1 rfl) (.byValue rfl)
  · obtain ⟨ms, hms, hnames⟩ := except_map_eq_ok.1 hfields
    obtain ⟨fields, groups, hshape, hgroups, hflat⟩ := (htype _ ms).1 hms
    cases hshape
    exact ⟨ms, groups, hms, hnames, hgroups, hflat⟩

end Declaration
end CommandConsole

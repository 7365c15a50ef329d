import CommandConsole.Catalog.Descriptor
import CommandConsole.Declaration.Signature
import CommandConsole.Proofs.Session.Preparation
import CommandConsole.Proofs.Text.Lowercase
import Mathlib.Data.List.Forall2
/-!
# Signatures — what a member takes and gives, and what it is called

A relation for each part of a signature: what a declared type is taken as (`Input.Declares`), what is given for a declared
result (`Output.Gives`), what is taken and given by a field that is called (`Called`), and the name of the command
(`Marker.Names`).  Each is what its reader computes, so that a signature has one reading or is rejected.
-/
namespace CommandConsole
namespace Declaration

/-! ## Inputs -/

/-- What a member that declares a type takes: what is borrowed is taken by value and lent, borrowed text as owned text. -/
inductive Input.Declares (name : Text) : TypeExpr → Input → Prop
  | text {written : Text} {target : TypeExpr} (str : target.isStr = true) :
    Declares name (.reference written false target) ⟨name, .string, true⟩
  | lent {written : Text} {target : TypeExpr} (other : target.isStr = false) :
    Declares name (.reference written false target) ⟨name, target, true⟩
  | owned {type : TypeExpr} (reference : ∀ written exclusive target, type ≠ .reference written exclusive target)
    (anonymous : ∀ written, type ≠ .anonymous written) : Declares name type ⟨name, type, false⟩

theorem Input.declare_eq_ok_iff {name : Text} {type : TypeExpr} {i : Input} :
    Input.declare name type = .ok i ↔ Input.Declares name type i := by
  constructor
  · intro h
    unfold Input.declare at h
    split at h
    · cases h
    · cases h
      cases hstr : TypeExpr.isStr _ with
      | true  => exact .text hstr
      | false => exact .lent hstr
    · cases h
    · rename_i hexclusive hshared hanonymous
      cases h
      refine .owned (fun written exclusive target htype => ?_) hanonymous
      cases exclusive with
      | true  => exact hexclusive written target htype
      | false => exact hshared written target htype
  · intro h
    cases h with
    | text str  => simp [Input.declare, str]
    | lent other => simp [Input.declare, other]
    | owned reference anonymous =>
      unfold Input.declare
      split
      · exact absurd rfl (reference _ _ _)
      · exact absurd rfl (reference _ _ _)
      · exact absurd rfl (anonymous _)
      · rfl

/-- The inputs are the declared ones in order; one without a name is called by its position, which is counted from `i`. -/
def Takes (i : Nat) (declared : List (Option Text × TypeExpr)) (inputs : List Input) : Prop :=
  List.Forall₂ (fun entry input => Input.Declares (entry.1.1.getD (positional entry.2)) entry.1.2 input)
    (declared.zipIdx i) inputs

theorem declareInputs_eq_ok_iff : ∀ {i : Nat} {declared : List (Option Text × TypeExpr)} {inputs : List Input},
    declareInputs i declared = .ok inputs ↔ Takes i declared inputs
  | i, [], inputs => by
    rw [Takes, List.zipIdx_nil, List.forall₂_nil_left_iff, declareInputs, Except.ok.injEq, eq_comm]
  | i, (name, type) :: l, inputs => by
    rw [Takes, List.zipIdx_cons, List.forall₂_cons_left_iff, declareInputs, except_bind_eq_ok]
    constructor
    · rintro ⟨input, hinput, h⟩
      obtain ⟨rest, hrest, h⟩ := except_bind_eq_ok.1 h
      cases h
      exact ⟨input, rest, Input.declare_eq_ok_iff.1 hinput, declareInputs_eq_ok_iff.1 hrest, rfl⟩
    · rintro ⟨input, rest, hinput, hrest, rfl⟩
      exact ⟨input, Input.declare_eq_ok_iff.2 hinput, except_bind_eq_ok.2 ⟨rest, declareInputs_eq_ok_iff.2 hrest, rfl⟩⟩

theorem Takes.length {i : Nat} {declared : List (Option Text × TypeExpr)} {inputs : List Input}
    (h : Takes i declared inputs) : inputs.length = declared.length := by
  have := List.Forall₂.length_eq h
  rwa [List.length_zipIdx, eq_comm] at this

/-- Each declared type is one that an input can have. -/
theorem Takes.exists_declares {name : Option Text} {type : TypeExpr} :
    ∀ {declared : List (Option Text × TypeExpr)} {i : Nat} {inputs : List Input}, Takes i declared inputs →
      (name, type) ∈ declared → ∃ shown input, Input.Declares shown type input
  | (name', type') :: l, i, inputs, h, hmem => by
    rw [Takes, List.zipIdx_cons, List.forall₂_cons_left_iff] at h
    obtain ⟨input, rest, hinput, hrest, rfl⟩ := h
    rcases List.mem_cons.1 hmem with heq | hmem
    · cases heq
      exact ⟨_, input, hinput⟩
    · exact Takes.exists_declares hrest hmem

/-! ## Outputs -/

/-- What a member that declares a type, or nothing, gives: of a result what it is on success. -/
inductive Output.Gives : Option TypeExpr → Output → Prop
  | nothing : Gives none ⟨.unit, false⟩
  | success {type success : TypeExpr} (result : type.success? = some success) : Gives (some type) ⟨success, true⟩
  | plain {type : TypeExpr} (reference : ∀ written exclusive target, type ≠ .reference written exclusive target)
    (result : type.success? = none) : Gives (some type) ⟨type, false⟩

theorem Output.declare_eq_ok_iff {declared : Option TypeExpr} {o : Output} :
    Output.declare declared = .ok o ↔ Output.Gives declared o := by
  cases declared with
  | none      =>
    constructor
    · rintro h
      cases h
      exact .nothing
    · rintro ⟨⟩
      rfl
  | some type =>
    constructor
    · intro h
      unfold Output.declare at h
      dsimp only at h
      split at h
      · cases h
      · rename_i hreference
        split at h
        · cases h; exact .success ‹_›
        · cases h; exact .plain hreference ‹_›
    · intro h
      cases h with
      | success result        =>
        cases type with
        | path written last => simp [Output.declare, result]
        | _                 => cases result
      | plain reference result =>
        unfold Output.declare
        dsimp only
        split
        · exact absurd rfl (reference _ _ _)
        · rw [result]

theorem Output.isVoid_iff {o : Output} : o.isVoid = true ↔ o.type = .unit := by
  unfold Output.isVoid
  split
  · rename_i h; simp [h]
  · rename_i h; simpa using h

/-! ## Callbacks -/

/-- What a field takes and gives that is called: a pointer to a function, or something held that can be called any number of
times. -/
inductive Called : TypeExpr → List Input → Output → Prop
  | pointer {written : Text} {declared : List (Option Text × TypeExpr)} {result : Option TypeExpr} {inputs : List Input}
    {output : Output} (takes : Takes 0 declared inputs) (gives : Output.Gives result output) :
    Called (.function written declared result) inputs output
  | held {written written' holder name : Text} {bounds : List Segment} {rest : List (Option TypeExpr)}
    {declared : List TypeExpr} {result : Option TypeExpr} {inputs : List Input} {output : Output} (holds : holder ∈ holders)
    (bound : (bounds.find? fun bound => bound.name == "Fn".toList) = some (.call name declared result))
    (takes : Takes 0 (declared.map (none, ·)) inputs) (gives : Output.Gives result output) :
    Called (.path written (.generic holder (some (.object written' bounds) :: rest))) inputs output

theorem callback_eq_ok_iff {type : TypeExpr} {inputs : List Input} {output : Output} :
    callback type = .ok (inputs, output) ↔ Called type inputs output := by
  constructor
  · intro h
    unfold callback at h
    split at h
    · obtain ⟨is, htakes, h⟩ := except_bind_eq_ok.1 h
      obtain ⟨o, hgives, h⟩ := except_bind_eq_ok.1 h
      cases h
      exact .pointer (declareInputs_eq_ok_iff.1 htakes) (Output.declare_eq_ok_iff.1 hgives)
    · split at h
      · rename_i hholds
        split at h
        · rename_i hbound
          obtain ⟨is, htakes, h⟩ := except_bind_eq_ok.1 h
          obtain ⟨o, hgives, h⟩ := except_bind_eq_ok.1 h
          cases h
          exact .held (List.contains_iff_mem.1 hholds) hbound (declareInputs_eq_ok_iff.1 htakes)
            (Output.declare_eq_ok_iff.1 hgives)
        · cases h
      · cases h
    · cases h
  · intro h
    cases h with
    | pointer takes gives          =>
      exact except_bind_eq_ok.2 ⟨inputs, declareInputs_eq_ok_iff.2 takes,
        except_bind_eq_ok.2 ⟨output, Output.declare_eq_ok_iff.2 gives, rfl⟩⟩
    | held holds bound takes gives =>
      unfold callback
      dsimp only
      rw [if_pos (List.contains_iff_mem.2 holds), bound]
      exact except_bind_eq_ok.2 ⟨inputs, declareInputs_eq_ok_iff.2 takes,
        except_bind_eq_ok.2 ⟨output, Output.declare_eq_ok_iff.2 gives, rfl⟩⟩

/-! ## Names -/

/-- The name of a command: the one that its marker gives, or else the member's own, without what it leads with if
something is left of it. -/
inductive Marker.Names (m : Marker) (member : Text) (lead : Option Text) : Text → Prop
  | given {name : Text} (given : m.name = some name) : Names m member lead (Text.lower (Text.trim name))
  | rest {first rest : Text} (none : m.name = none) (leads : lead = some first) (split : member = first ++ rest)
    (left : rest ≠ []) : Names m member lead (Text.lower rest)
  | whole (none : m.name = none) (nothing : ∀ first rest, lead = some first → member = first ++ rest → rest = []) :
    Names m member lead (Text.lower member)

theorem withoutLead_of_append {first rest : Text} (h : rest ≠ []) : withoutLead (some first) (first ++ rest) = rest := by
  rw [withoutLead, Option.bind_some, Text.afterPrefix?_eq_some_iff.2 rfl]
  cases rest with
  | nil       => exact absurd rfl h
  | cons c cs => rfl

theorem withoutLead_of_nothing {lead : Option Text} {member : Text}
    (h : ∀ first rest, lead = some first → member = first ++ rest → rest = []) : withoutLead lead member = member := by
  unfold withoutLead
  split
  · rename_i c rest hrest
    obtain ⟨first, hfirst, hprefix⟩ := Option.bind_eq_some_iff.1 hrest
    exact absurd (h first _ hfirst (Text.afterPrefix?_eq_some_iff.1 hprefix)) (List.cons_ne_nil c rest)
  · rfl

theorem Marker.names_iff {m : Marker} {member name : Text} {lead : Option Text} :
    m.Names member lead name ↔ m.commandName member lead = name := by
  constructor
  · intro h
    unfold commandName
    cases h with
    | given given              => rw [given]
    | rest none leads split left => rw [none, leads, split, withoutLead_of_append left]
    | whole none nothing       => rw [none, withoutLead_of_nothing nothing]
  · rintro rfl
    unfold commandName
    cases hname : m.name with
    | some name => exact .given hname
    | none      =>
      dsimp only
      by_cases h : ∃ first rest, lead = some first ∧ member = first ++ rest ∧ rest ≠ []
      · obtain ⟨first, rest, rfl, rfl, hrest⟩ := h
        rw [withoutLead_of_append hrest]
        exact .rest hname rfl rfl hrest
      · have hnothing : ∀ first rest, lead = some first → member = first ++ rest → rest = [] :=
          fun first rest hlead hmember => Classical.byContradiction fun hrest => h ⟨first, rest, hlead, hmember, hrest⟩
        rw [withoutLead_of_nothing hnothing]
        exact .whole hname hnothing

theorem canonicalName_canonicalName (name : Text) : canonicalName (canonicalName name) = canonicalName name := by
  rw [canonicalName, canonicalName, Text.trim_lower_trim, Text.lower_lower]

theorem canonicalName_lower {t : Text} (h : NoBlank t) : canonicalName (Text.lower t) = Text.lower t := by
  have htrim : Text.trim (Text.lower t) = Text.lower t := Text.trim_of_noBlank (Text.noBlank_lowerAfter [] h)
  rw [canonicalName, htrim, Text.lower_lower]

/-- **The name of a command is the name under which it is listed**, if the member's own has no blanks. -/
theorem Marker.Names.canonical {m : Marker} {member name : Text} {lead : Option Text} (h : m.Names member lead name)
    (hmember : NoBlank member) : canonicalName name = name := by
  cases h with
  | given                      => exact canonicalName_canonicalName _
  | rest none leads split left =>
    rw [split] at hmember
    exact canonicalName_lower (noBlank_append.1 hmember).2
  | whole                      => exact canonicalName_lower hmember

end Declaration
end CommandConsole

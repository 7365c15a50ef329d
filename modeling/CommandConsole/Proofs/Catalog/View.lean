import CommandConsole.Proofs.Catalog.Contents
import CommandConsole.Proofs.Text.Lowercase
import CommandConsole.Samples.Kind
import Mathlib.Data.Finset.Card
/-!
# View — the maps of a catalog are one view of a list

A catalog keeps five maps, each filled on its own while the list of commands is gone through.  Each is filled by the same
rule: the last command under a name counts (`find?_insertAll`).  So all five say the same of the list of commands that are
offered (`maps_follow_list`): what a name and a verb find, who owns a name, and how many commands there are.
-/
namespace CommandConsole

theorem isSome_getLast?_filter {β : Type} {p : β → Bool} {l : List β} :
    (l.filter p).getLast?.isSome ↔ ∃ b ∈ l, p b = true := by
  rw [List.getLast?_isSome, ne_eq, List.filter_eq_nil_iff]
  simp only [not_forall, not_not, exists_prop]

/-! ## Maps filled from a list -/

namespace NameMap

variable {α β : Type} {m : NameMap α} {name : Text}

/-- The map with an entry for each of a list, one after the other. -/
def insertAll (key : β → Text) (value : β → α) (m : NameMap α) (l : List β) : NameMap α :=
  l.foldl (fun m b => m.insert (key b) (value b)) m

variable {key : β → Text} {value : β → α}

theorem insertAll_cons (m : NameMap α) (b : β) (l : List β) :
    m.insertAll key value (b :: l) = (m.insert (key b) (value b)).insertAll key value l := rfl

/-- **The last entry under a name counts**; where there is none, the map answers as before. -/
theorem find?_insertAll (l : List β) : ∀ m : NameMap α, (m.insertAll key value l).find? name =
    (((l.filter (fun b => key b = name)).getLast?).map value).or (m.find? name) := by
  induction l with
  | nil => exact fun _ => rfl
  | cons b l ih =>
    intro m
    rw [insertAll_cons, ih, find?_insert]
    by_cases hb : key b = name
    · rw [if_pos hb, List.filter_cons_of_pos (by simpa using hb), List.getLast?_cons]
      cases (l.filter (fun b => key b = name)).getLast? <;> rfl
    · rw [if_neg hb, List.filter_cons_of_neg (by simpa using hb)]

theorem mem_names_iff : name ∈ m.names ↔ (m.find? name).isSome := by
  obtain ⟨entries⟩ := m
  unfold names find?
  induction entries with
  | nil => simp [findEntry]
  | cons e l ih =>
    rw [List.map_cons, List.mem_cons, ih, findEntry]
    by_cases he : e.1 = name
    · simp [he]
    · simp [he, Ne.symm he]

theorem Ascending.names (h : m.Ascending) : Text.Ascending m.names := List.pairwise_map.2 h

theorem find?_empty : (empty : NameMap α).find? name = none := rfl

theorem mem_names_insertAll {l : List β} : name ∈ ((empty : NameMap α).insertAll key value l).names ↔
    ∃ b ∈ l, key b = name := by
  rw [mem_names_iff, find?_insertAll, find?_empty, Option.or_none, Option.isSome_map, isSome_getLast?_filter]
  simp only [decide_eq_true_eq]

end NameMap

/-! ## Catalogs -/

variable {κ : Type} [ComponentKind κ]

theorem Descriptor.Declared.lower_name {d : Descriptor κ} (h : d.Declared) : Text.lower d.name = d.name := by
  obtain ⟨name, hname⟩ := h
  rw [hname, canonicalName, Text.lower_lower]

namespace Catalog

variable {c : Catalog κ} {includePrivate : Bool} {ds : List (Descriptor κ)} {name : Text} {v : Verb}

/-- Those of the declared commands that a catalog offers. -/
def offered (includePrivate : Bool) (ds : List (Descriptor κ)) : List (Descriptor κ) :=
  ds.filter (·.visible includePrivate)

/-- The last of the commands that are offered with some property. -/
def latest? (includePrivate : Bool) (ds : List (Descriptor κ)) (p : Descriptor κ → Bool) : Option (Descriptor κ) :=
  ((offered includePrivate ds).filter p).getLast?

theorem owners_insert (c : Catalog κ) (d : Descriptor κ) : (c.insert d).owners = c.owners.insert d.name d.owner := by
  unfold insert
  cases d.verb <;> rfl

theorem statics_insert (c : Catalog κ) (d : Descriptor κ) : (c.insert d).statics = c.statics.insert d.name d.isStatic := by
  unfold insert
  cases d.verb <;> rfl

theorem owners_foldl_insert (ds : List (Descriptor κ)) : ∀ c : Catalog κ,
    (ds.foldl insert c).owners = c.owners.insertAll Descriptor.name Descriptor.owner ds := by
  induction ds with
  | nil          => exact fun _ => rfl
  | cons d ds ih => exact fun c => by rw [List.foldl_cons, ih, owners_insert, NameMap.insertAll_cons]

theorem statics_foldl_insert (ds : List (Descriptor κ)) : ∀ c : Catalog κ,
    (ds.foldl insert c).statics = c.statics.insertAll Descriptor.name Descriptor.isStatic ds := by
  induction ds with
  | nil          => exact fun _ => rfl
  | cons d ds ih => exact fun c => by rw [List.foldl_cons, ih, statics_insert, NameMap.insertAll_cons]

theorem forVerb_foldl_insert (v : Verb) (ds : List (Descriptor κ)) : ∀ c : Catalog κ,
    (ds.foldl insert c).forVerb v = (c.forVerb v).insertAll Descriptor.name id (ds.filter (fun d => d.verb = v)) := by
  induction ds with
  | nil          => exact fun _ => rfl
  | cons d ds ih =>
    intro c
    rw [List.foldl_cons, ih, forVerb_insert]
    by_cases hd : d.verb = v
    · rw [if_pos hd, List.filter_cons_of_pos (by simpa using hd), NameMap.insertAll_cons]
      rfl
    · rw [if_neg hd, List.filter_cons_of_neg (by simpa using hd)]

theorem forVerb_ofDescriptors (v : Verb) : (ofDescriptors includePrivate ds).forVerb v =
    NameMap.empty.insertAll Descriptor.name id ((offered includePrivate ds).filter (fun d => d.verb = v)) := by
  rw [ofDescriptors, forVerb_foldl_insert]
  cases v <;> rfl

theorem find?_forVerb : ((ofDescriptors includePrivate ds).forVerb v).find? name =
    latest? includePrivate ds (fun d => d.verb = v ∧ d.name = name) := by
  rw [forVerb_ofDescriptors, NameMap.find?_insertAll, NameMap.find?_empty, Option.or_none, Option.map_id, id, latest?,
    List.filter_filter]
  simp only [Bool.decide_and, Bool.and_comm]

theorem ownerOf?_ofDescriptors : (ofDescriptors includePrivate ds).ownerOf? name =
    (latest? includePrivate ds (fun d => d.name = name)).map Descriptor.owner := by
  rw [ownerOf?, ofDescriptors, owners_foldl_insert, NameMap.find?_insertAll]
  exact Option.or_none

theorem isStatic?_ofDescriptors : (ofDescriptors includePrivate ds).isStatic? name =
    (latest? includePrivate ds (fun d => d.name = name)).map Descriptor.isStatic := by
  rw [isStatic?, ofDescriptors, statics_foldl_insert, NameMap.find?_insertAll]
  exact Option.or_none

/-- **A command is found by its name in any case.**  A name that is not in lowercase is the name of no declared command, so
looking for it as it is typed does not come in the way. -/
theorem lookup_ofDescriptors (hdeclared : ∀ d ∈ ds, d.Declared) : (ofDescriptors includePrivate ds).lookup name v =
    latest? includePrivate ds (fun d => d.verb = v ∧ d.name = Text.lower name) := by
  rw [lookup, find?_forVerb, find?_forVerb]
  cases hfound : latest? includePrivate ds (fun d => d.verb = v ∧ d.name = name) with
  | none   => rfl
  | some d =>
    obtain ⟨hoffered, hd⟩ := List.mem_filter.1 (List.mem_of_getLast? hfound)
    have hname : d.name = name := (of_decide_eq_true hd).2
    have hlower := (hdeclared d (List.mem_filter.1 hoffered).1).lower_name
    rw [hname] at hlower
    rw [hlower, hfound]

theorem mem_names_forVerb : name ∈ ((ofDescriptors includePrivate ds).forVerb v).names ↔
    ∃ d ∈ offered includePrivate ds, d.verb = v ∧ d.name = name := by
  rw [forVerb_ofDescriptors, NameMap.mem_names_insertAll]
  simp only [List.mem_filter, decide_eq_true_eq, and_assoc]

theorem mem_names_ofDescriptors : name ∈ (ofDescriptors includePrivate ds).names ↔
    ∃ d ∈ offered includePrivate ds, d.name = name := by
  rw [mem_names]
  constructor
  · rintro ⟨v, h⟩
    obtain ⟨d, hd, -, hname⟩ := mem_names_forVerb.1 h
    exact ⟨d, hd, hname⟩
  · rintro ⟨d, hd, hname⟩
    exact ⟨d.verb, mem_names_forVerb.2 ⟨d, hd, rfl, hname⟩⟩

/-- What tells commands apart: the verb that reaches them and their name. -/
def keys (c : Catalog κ) : List (Verb × Text) := Verb.all.flatMap (fun v => (c.forVerb v).names.map (v, ·))

theorem mem_keys : (v, name) ∈ c.keys ↔ name ∈ (c.forVerb v).names := by
  cases v <;> simp [keys, Verb.all]

theorem length_keys (c : Catalog κ) : c.keys.length = c.size := by
  simp [keys, Verb.all, forVerb, size, NameMap.size, NameMap.names]
  omega

theorem nodup_keys (h : ∀ v, (c.forVerb v).Ascending) : c.keys.Nodup := by
  refine List.nodup_flatMap.2 ⟨fun v _ => ?_, ?_⟩
  · exact (h v).names.nodup.map (fun _ _ heq => (Prod.mk.inj heq).2)
  · have hverbs : Verb.all.Nodup := by decide
    refine hverbs.imp fun {v w} hne k hv hw => ?_
    obtain ⟨_, -, rfl⟩ := List.mem_map.1 hv
    obtain ⟨_, -, heq⟩ := List.mem_map.1 hw
    exact hne (Prod.mk.inj heq).1.symm

/-- **A catalog has as many commands as there are pairs of a verb and a name among those offered.** -/
theorem size_ofDescriptors : (ofDescriptors includePrivate ds).size =
    ((offered includePrivate ds).map (fun d => (d.verb, d.name))).toFinset.card := by
  have hmem : ((offered includePrivate ds).map (fun d => (d.verb, d.name))).toFinset =
      (ofDescriptors includePrivate ds).keys.toFinset := by
    ext ⟨v, name⟩
    rw [List.mem_toFinset, List.mem_toFinset, mem_keys, mem_names_forVerb, List.mem_map]
    simp only [Prod.mk.injEq]
  have hnodup := nodup_keys (lists_ofDescriptors includePrivate ds).ascending
  rw [hmem, List.toFinset_card_of_nodup hnodup, length_keys]

/-- **The maps of a catalog are one view of the list it is built from.**  A verb and a name in any case find the last command
offered under them.  The names of a verb and those of all verbs ascend, each once; the latter are the former taken together,
and just they have an owner and tell whether an instance is needed: as the last command does that is offered under the
name, whatever its verb.  And there are as many commands as there are pairs of a verb and a name. -/
theorem maps_follow_list (includePrivate : Bool) {ds : List (Descriptor κ)} (hdeclared : ∀ d ∈ ds, d.Declared) :
    let c := ofDescriptors includePrivate ds
    let seen := offered includePrivate ds
    (∀ name v, c.lookup name v = latest? includePrivate ds (fun d => d.verb = v ∧ d.name = Text.lower name)) ∧
      (∀ v, Text.Ascending (c.forVerb v).names ∧
        ∀ name, name ∈ (c.forVerb v).names ↔ ∃ d ∈ seen, d.verb = v ∧ d.name = name) ∧
      Text.Ascending c.names ∧ (∀ name, name ∈ c.names ↔ ∃ v, name ∈ (c.forVerb v).names) ∧
      (∀ name, (name ∈ c.names ↔ (c.ownerOf? name).isSome) ∧ ((c.ownerOf? name).isSome ↔ (c.isStatic? name).isSome)) ∧
      (∀ name, c.ownerOf? name = (latest? includePrivate ds (fun d => d.name = name)).map Descriptor.owner ∧
        c.isStatic? name = (latest? includePrivate ds (fun d => d.name = name)).map Descriptor.isStatic) ∧
      c.size = (seen.map (fun d => (d.verb, d.name))).toFinset.card := by
  intro c seen
  refine ⟨fun name v => lookup_ofDescriptors hdeclared, fun v => ⟨?_, fun name => mem_names_forVerb⟩,
    Text.ascending_sortedDistinct _, fun name => mem_names, fun name => ?_,
    fun name => ⟨ownerOf?_ofDescriptors, isStatic?_ofDescriptors⟩, size_ofDescriptors⟩
  · exact ((lists_ofDescriptors includePrivate ds).ascending v).names
  · rw [mem_names_ofDescriptors, ownerOf?_ofDescriptors, isStatic?_ofDescriptors, Option.isSome_map, Option.isSome_map,
      latest?, isSome_getLast?_filter]
    simp only [decide_eq_true_eq, and_self]

/-- Four commands under one name: a getter, a setter that needs no instance, a private callable and another getter. -/
def shadowing : List (Descriptor Samples.Kind) :=
  [.getter ['H', 'P'] .health .single (Access.pure .unit),
    .static (.setter [' ', 'h', 'p'] .player .single (fun _ => Access.pure ())),
    .hidden (.callable ['h', 'p'] .transform [] .void (fun _ => Access.pure .unit)),
    .getter ['h', 'P', ' '] .vitals .single (Access.pure .unit)]

/-- The last getter is found, and owns the name; the private callable is not there. -/
theorem maps_follow_list_shadowing :
    (∀ d ∈ shadowing, d.Declared) ∧
      ((ofDescriptors false shadowing).lookup ['H', 'p'] .get).map Descriptor.owner = some .vitals ∧
      ((ofDescriptors false shadowing).lookup ['H', 'p'] .call).map Descriptor.owner = none ∧
      (ofDescriptors false shadowing).ownerOf? ['h', 'p'] = some .vitals ∧
      (ofDescriptors false shadowing).isStatic? ['h', 'p'] = some false ∧ (ofDescriptors false shadowing).size = 2 := by
  have hdeclared : ∀ d ∈ shadowing, d.Declared := by
    intro d hd
    simp only [shadowing, List.mem_cons, List.not_mem_nil, or_false] at hd
    rcases hd with rfl | rfl | rfl | rfl <;> exact ⟨_, rfl⟩
  obtain ⟨hlookup, -, -, -, -, howner, hsize⟩ := maps_follow_list false hdeclared
  refine ⟨hdeclared, ?_, ?_, ?_, ?_, ?_⟩
  · rw [hlookup]
    decide +kernel
  · rw [hlookup]
    decide +kernel
  · rw [(howner _).1]
    decide +kernel
  · rw [(howner _).2]
    decide +kernel
  · rw [hsize]
    decide +kernel

end Catalog
end CommandConsole

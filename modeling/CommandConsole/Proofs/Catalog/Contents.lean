import CommandConsole.Catalog.Basic
import CommandConsole.Proofs.Text.Order
/-!
# Contents — what a catalog holds

The maps of a catalog ascend by name, and each command stands under its own name in the map of its own verb
(`lists_ofDescriptors`).  So the command that is listed is the command that is found (`lookup_of_mem_values`).
-/
namespace CommandConsole

namespace NameMap

variable {α : Type} {name : Text} {a : α} {l : List (Text × α)} {m : NameMap α}

/-- The entries ascend strictly by name. -/
def Ascends (l : List (Text × α)) : Prop := l.Pairwise (fun e f => Text.le e.1 f.1 = true ∧ e.1 ≠ f.1)

def Ascending (m : NameMap α) : Prop := Ascends m.entries

theorem mem_insertEntry {e : Text × α} (h : e ∈ insertEntry name a l) : e = (name, a) ∨ e ∈ l := by
  induction l with
  | nil => exact .inl (List.mem_singleton.1 h)
  | cons f l ih =>
    unfold insertEntry at h
    split at h
    · exact (List.mem_cons.1 h).imp_right (List.mem_cons_of_mem f)
    · split at h
      · exact List.mem_cons.1 h
      · rcases List.mem_cons.1 h with rfl | h
        · exact .inr List.mem_cons_self
        · exact (ih h).imp_right (List.mem_cons_of_mem f)

theorem ascends_insertEntry (h : Ascends l) : Ascends (insertEntry name a l) := by
  induction l with
  | nil => exact List.pairwise_singleton _ _
  | cons f l ih =>
    obtain ⟨hf, hl⟩ := List.pairwise_cons.1 h
    unfold insertEntry
    split
    · rename_i heq
      refine List.pairwise_cons.2 ⟨fun g hg => ?_, hl⟩
      rw [← heq]
      exact hf g hg
    · rename_i hne
      split
      · rename_i hle
        refine List.pairwise_cons.2 ⟨fun g hg => ?_, h⟩
        rcases List.mem_cons.1 hg with rfl | hg
        · exact ⟨hle, Ne.symm hne⟩
        · obtain ⟨hfg, -⟩ := hf g hg
          refine ⟨Text.le_trans _ _ _ hle hfg, fun heq => hne ?_⟩
          rw [← heq] at hfg
          exact Text.le_antisymm _ _ hfg hle
      · rename_i hlt
        refine List.pairwise_cons.2 ⟨fun g hg => ?_, ih hl⟩
        rcases mem_insertEntry hg with rfl | hg
        · have htotal := Text.le_total f.1 name
          rw [Bool.or_eq_true] at htotal
          exact ⟨htotal.resolve_right hlt, hne⟩
        · exact hf g hg

theorem findEntry_of_mem (hl : Ascends l) (h : (name, a) ∈ l) : findEntry name l = some a := by
  induction l with
  | nil => cases h
  | cons f l ih =>
    obtain ⟨hf, hl⟩ := List.pairwise_cons.1 hl
    rw [findEntry]
    rcases List.mem_cons.1 h with rfl | h
    · exact if_pos rfl
    · rw [if_neg (hf _ h).2, ih hl h]

theorem ascending_insert (h : m.Ascending) (name : Text) (a : α) : (m.insert name a).Ascending := ascends_insertEntry h

theorem find?_of_mem (hm : m.Ascending) (h : (name, a) ∈ m.entries) : m.find? name = some a := findEntry_of_mem hm h

end NameMap

variable {κ : Type} [ComponentKind κ]

/-- The name of a command that was declared under some name: that name trimmed and in lowercase. -/
def Descriptor.Declared (d : Descriptor κ) : Prop := ∃ name, d.name = canonicalName name

namespace Catalog

theorem forVerb_insert (c : Catalog κ) (d : Descriptor κ) (v : Verb) :
    (c.insert d).forVerb v = if d.verb = v then (c.forVerb v).insert d.name d else c.forVerb v := by
  unfold insert
  cases hd : d.verb <;> cases v <;> rfl

/-- The commands of the catalog come from a list, each under its own name and verb. -/
structure Lists (c : Catalog κ) (ds : List (Descriptor κ)) : Prop where
  ascending : ∀ v, (c.forVerb v).Ascending
  entry     : ∀ {v : Verb} {name : Text} {d : Descriptor κ}, (name, d) ∈ (c.forVerb v).entries →
    d.name = name ∧ d.verb = v ∧ d ∈ ds

theorem lists_empty (ds : List (Descriptor κ)) : (empty : Catalog κ).Lists ds where
  ascending := fun v => by cases v <;> exact List.Pairwise.nil
  entry     := fun {v _ _} h => by cases v <;> cases h

theorem Lists.insert {c : Catalog κ} {ds : List (Descriptor κ)} (h : c.Lists ds) {d : Descriptor κ} (hd : d ∈ ds) :
    (c.insert d).Lists ds := by
  refine ⟨fun v => ?_, fun {v name e} he => ?_⟩
  · rw [forVerb_insert]
    split
    · exact NameMap.ascending_insert (h.ascending v) _ _
    · exact h.ascending v
  · rw [forVerb_insert] at he
    split at he
    · rename_i hv
      rcases NameMap.mem_insertEntry he with heq | he
      · cases heq
        exact ⟨rfl, hv, hd⟩
      · exact h.entry he
    · exact h.entry he

theorem Lists.foldl_insert {ds l : List (Descriptor κ)} : ∀ {c : Catalog κ}, c.Lists ds → (∀ d ∈ l, d ∈ ds) →
    (l.foldl Catalog.insert c).Lists ds := by
  induction l with
  | nil => exact fun h _ => h
  | cons d l ih =>
    intro c h hsub
    exact ih (h.insert (hsub d List.mem_cons_self)) (fun e he => hsub e (List.mem_cons_of_mem d he))

/-- **Each command of a catalog stands under its own name and verb.** -/
theorem lists_ofDescriptors (includePrivate : Bool) (ds : List (Descriptor κ)) :
    (ofDescriptors includePrivate ds).Lists ds :=
  (lists_empty ds).foldl_insert (fun _ hd => (List.mem_filter.1 hd).1)

/-- **A command that is listed is found** under its name. -/
theorem Lists.lookup_of_mem_values {c : Catalog κ} {ds : List (Descriptor κ)} (h : c.Lists ds) {d : Descriptor κ} {v : Verb}
    (hd : d ∈ (c.forVerb v).values) : c.lookup d.name v = some d ∧ d.verb = v ∧ d ∈ ds := by
  obtain ⟨⟨name, e⟩, he, rfl⟩ := List.mem_map.1 hd
  obtain ⟨rfl, hv, hmem⟩ := h.entry he
  refine ⟨?_, hv, hmem⟩
  rw [lookup, NameMap.find?_of_mem (h.ascending v) he]

theorem mem_names {c : Catalog κ} {name : Text} : name ∈ c.names ↔ ∃ v, name ∈ (c.forVerb v).names := by
  rw [names, Text.mem_sortedDistinct, List.mem_append, List.mem_append]
  constructor
  · rintro ((h | h) | h)
    · exact ⟨.call, h⟩
    · exact ⟨.get, h⟩
    · exact ⟨.set, h⟩
  · rintro ⟨v, h⟩
    cases v with
    | call => exact .inl (.inl h)
    | get  => exact .inl (.inr h)
    | set  => exact .inr h

theorem name_mem_names {c : Catalog κ} {ds : List (Descriptor κ)} (h : c.Lists ds) {d : Descriptor κ} {v : Verb}
    (hd : d ∈ (c.forVerb v).values) : d.name ∈ c.names := by
  obtain ⟨⟨name, e⟩, he, rfl⟩ := List.mem_map.1 hd
  obtain ⟨rfl, -, -⟩ := h.entry he
  exact mem_names.2 ⟨v, List.mem_map.2 ⟨_, he, rfl⟩⟩

end Catalog
end CommandConsole

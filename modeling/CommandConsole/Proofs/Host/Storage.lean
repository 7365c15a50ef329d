import CommandConsole.Proofs.Host.Frame
import CommandConsole.Samples.Kind
import Mathlib.Data.Finset.Card
import Mathlib.Data.Finset.Dedup
/-!
# Storage — a set of components is a finite map from kinds to cells

Inserting keeps the kinds of a set apart (`kinds_put`), so that after any insertions there is one slot for each kind inserted
and it holds what was inserted last (`find?_insertAll`).

A `ComponentSet` cannot hold a cell under a kind it is not of.  Storage that knows no kinds can: it keeps boxes, each with
whatever kind of cell is in it, under labels of their own, and only the box is replaced when a label is met again
(`LabelledSet.put`).  Insertions take both kinds of storage through the same slots (`ComponentSet.labelled_put`), so that
every box opens as the kind it is found under.
-/
namespace CommandConsole

variable {κ : Type} [ComponentKind κ]

/-- A component as it is inserted: its kind, and what it holds. -/
abbrev Component (κ : Type) [ComponentKind κ] : Type := (k : κ) × State k

/-- Of the components `added`, in the order of adding, `s` is the last one of kind `k`. -/
def IsLast (added : List (Component κ)) (k : κ) (s : State k) : Prop :=
  ∃ before after, added = before ++ ⟨k, s⟩ :: after ∧ ∀ a ∈ after, a.1 ≠ k

theorem not_isLast_nil (k : κ) (s : State k) : ¬ IsLast [] k s := by
  rintro ⟨before, after, h, -⟩
  exact absurd h.symm (List.append_ne_nil_of_right_ne_nil _ (List.cons_ne_nil _ _))

theorem isLast_concat {added : List (Component κ)} {a : Component κ} {k : κ} {s : State k} :
    IsLast (added ++ [a]) k s ↔ a = ⟨k, s⟩ ∨ a.1 ≠ k ∧ IsLast added k s := by
  -- the component that was added at the end is the last one of kind `k`, or stands behind it
  constructor
  · rintro ⟨before, after, h, hafter⟩
    rcases List.eq_nil_or_concat after with rfl | ⟨after, b, rfl⟩
    · exact .inl (List.singleton_inj.1 (List.append_inj' h rfl).2)
    · rw [List.concat_eq_append, ← List.cons_append, ← List.append_assoc] at h
      obtain ⟨rfl, hb⟩ := List.append_inj' h rfl
      cases hb
      exact .inr ⟨hafter a (by simp), before, after, rfl, fun b hb => hafter b (by simp [hb])⟩
  · rintro (rfl | ⟨hne, before, after, rfl, hafter⟩)
    · exact ⟨added, [], rfl, nofun⟩
    · refine ⟨before, after ++ [a], by simp, fun b hb => ?_⟩
      rcases List.mem_append.1 hb with hb | hb
      · exact hafter b hb
      · rwa [List.mem_singleton.1 hb]

/-! ## One slot for each kind -/

namespace ComponentSet

def kinds (c : ComponentSet κ) : List κ := c.slots.map Sigma.fst

theorem isEmpty_iff {c : ComponentSet κ} : c.isEmpty = true ↔ c.size = 0 := by
  rw [isEmpty, List.isEmpty_iff_length_eq_zero, size]

variable [DecidableEq κ] {j k : κ}

theorem map_fst_putSlot (cell : Cell (State k)) : ∀ l : List ((k : κ) × Cell (State k)),
    (putSlot k cell l).map Sigma.fst = if k ∈ l.map Sigma.fst then l.map Sigma.fst else l.map Sigma.fst ++ [k]
  | []      => rfl
  | s :: ss => by
    by_cases hs : s.1 = k
    · rw [putSlot, if_pos hs, List.map_cons, List.map_cons, if_pos (hs ▸ List.mem_cons_self), hs]
    · rw [putSlot, if_neg hs, List.map_cons, map_fst_putSlot cell ss, List.map_cons]
      simp only [List.mem_cons, Ne.symm hs, false_or]
      split <;> rfl

/-- **A cell that is put into a set takes the slot of its kind, or a new one behind the others.** -/
theorem kinds_put (c : ComponentSet κ) (cell : Cell (State k)) :
    (c.put k cell).kinds = if k ∈ c.kinds then c.kinds else c.kinds ++ [k] :=
  map_fst_putSlot cell c.slots

theorem nodup_kinds_put {c : ComponentSet κ} (h : c.kinds.Nodup) (cell : Cell (State k)) : (c.put k cell).kinds.Nodup := by
  rw [kinds_put]
  split
  · exact h
  · rename_i hk
    exact List.nodup_append.2 ⟨h, List.nodup_singleton k, fun a ha b hb => by
      rw [List.mem_singleton.1 hb]
      exact fun heq => hk (heq ▸ ha)⟩

theorem mem_kinds_put {c : ComponentSet κ} {cell : Cell (State j)} : k ∈ (c.put j cell).kinds ↔ k ∈ c.kinds ∨ k = j := by
  rw [kinds_put]
  split
  · exact ⟨.inl, fun h => h.elim id (· ▸ ‹_›)⟩
  · rw [List.mem_append, List.mem_singleton]

theorem contains_iff {c : ComponentSet κ} : c.contains k = true ↔ k ∈ c.kinds := by
  simp [contains, kinds]

/-! ## After any insertions -/

/-- The set that comes of inserting `added` into an empty one, in order. -/
def insertAll (added : List (Component κ)) : ComponentSet κ := added.foldl (fun c a => c.insert a.1 a.2) .empty

theorem insertAll_concat (added : List (Component κ)) (a : Component κ) :
    insertAll (added ++ [a]) = (insertAll added).insert a.1 a.2 :=
  List.foldl_concat ..

theorem nodup_kinds_insertAll (added : List (Component κ)) : (insertAll added).kinds.Nodup := by
  induction added using List.reverseRecOn with
  | nil             => exact List.nodup_nil
  | append_singleton added a ih =>
    rw [insertAll_concat]
    exact nodup_kinds_put ih _

theorem mem_kinds_insertAll {added : List (Component κ)} : k ∈ (insertAll added).kinds ↔ k ∈ added.map Sigma.fst := by
  induction added using List.reverseRecOn with
  | nil             => rfl
  | append_singleton added a ih =>
    rw [insertAll_concat, insert, mem_kinds_put, ih, List.map_append, List.mem_append, List.map_singleton, List.mem_singleton]

theorem size_insertAll (added : List (Component κ)) :
    (insertAll added).size = (added.map Sigma.fst).toFinset.card := by
  have hkinds : (insertAll added).kinds.toFinset = (added.map Sigma.fst).toFinset := by
    ext k
    rw [List.mem_toFinset, List.mem_toFinset, mem_kinds_insertAll]
  rw [← hkinds, List.toFinset_card_of_nodup (nodup_kinds_insertAll added), kinds, List.length_map, size]

/-- **After any insertions, the component of a kind is the last one of its kind that was inserted.** -/
theorem find?_insertAll {added : List (Component κ)} {cell : Cell (State k)} :
    (insertAll added).find? k = some cell ↔ ∃ s, IsLast added k s ∧ cell = Cell.ofContent s := by
  induction added using List.reverseRecOn with
  | nil                         => exact ⟨nofun, fun ⟨s, h, _⟩ => absurd h (not_isLast_nil k s)⟩
  | append_singleton added a ih =>
    obtain ⟨j, s⟩ := a
    rw [insertAll_concat, insert]
    by_cases h : j = k
    · subst h
      simp only [find?_put, isLast_concat, ne_eq, not_true_eq_false, false_and, or_false, Option.some.injEq,
        Sigma.mk.injEq, heq_eq_eq, true_and, exists_eq_left']
      exact eq_comm
    · simp only [find?_put_of_ne h, ih, isLast_concat, ne_eq, h, not_false_eq_true, true_and, Sigma.mk.injEq, false_and,
        false_or]

theorem isSome_findSlot : ∀ l : List ((k : κ) × Cell (State k)), (findSlot k l).isSome = true ↔ k ∈ l.map Sigma.fst
  | []      => ⟨nofun, nofun⟩
  | s :: ss => by
    by_cases hs : s.1 = k
    · simp [findSlot, hs]
    · simp [findSlot, hs, Ne.symm hs, isSome_findSlot ss]

theorem isSome_find? {c : ComponentSet κ} : (c.find? k).isSome = true ↔ k ∈ c.kinds := isSome_findSlot c.slots

end ComponentSet

/-! ## Storage that knows no kinds -/

/-- A cell of any kind, handed on as such: it knows what it is, and those who hold it do not. -/
abbrev Box (κ : Type) [ComponentKind κ] : Type := (k : κ) × Cell (State k)

/-- What is in the box, for one who takes it to be of kind `k` and is right. -/
def Box.open? [DecidableEq κ] (k : κ) (b : Box κ) : Option (Cell (State k)) :=
  if h : b.1 = k then some (h ▸ b.2) else none

theorem Box.open?_mk [DecidableEq κ] {k : κ} (cell : Cell (State k)) : Box.open? k ⟨k, cell⟩ = some cell := dif_pos rfl

/-- Boxes under labels.  Nothing in it says that a label is the kind of the box. -/
structure LabelledSet (κ : Type) [ComponentKind κ] where
  slots : List (κ × Box κ)

namespace LabelledSet

def empty : LabelledSet κ := ⟨[]⟩

def labels (l : LabelledSet κ) : List κ := l.slots.map Prod.fst

variable [DecidableEq κ] {j k : κ}

/-- Replaces the box under the first label `k`, and leaves the label; a label that is not there comes last. -/
def putBox (k : κ) (b : Box κ) (slots : List (κ × Box κ)) : List (κ × Box κ) :=
  match slots.findIdx? (fun slot => slot.1 = k) with
  | some i => slots.modify i (fun slot => (slot.1, b))
  | none   => slots ++ [(k, b)]

def put (k : κ) (b : Box κ) (l : LabelledSet κ) : LabelledSet κ := ⟨putBox k b l.slots⟩

def insert (k : κ) (s : State k) (l : LabelledSet κ) : LabelledSet κ := l.put k ⟨k, Cell.ofContent s⟩

def get (k : κ) (l : LabelledSet κ) : Option (Box κ) := (l.slots.find? (fun slot => slot.1 = k)).map Prod.snd

def cell (k : κ) (l : LabelledSet κ) : Option (Cell (State k)) := (l.get k).bind (Box.open? k)

def insertAll (added : List (Component κ)) : LabelledSet κ := added.foldl (fun l a => l.insert a.1 a.2) .empty

theorem insertAll_concat (added : List (Component κ)) (a : Component κ) :
    insertAll (added ++ [a]) = (insertAll added).insert a.1 a.2 :=
  List.foldl_concat ..

theorem putBox_cons_of_eq (b : Box κ) (slot : κ × Box κ) (slots : List (κ × Box κ)) (h : slot.1 = k) :
    putBox k b (slot :: slots) = (slot.1, b) :: slots := by
  simp [putBox, List.findIdx?_cons, h]

theorem putBox_cons_of_ne (b : Box κ) (slot : κ × Box κ) (slots : List (κ × Box κ)) (h : slot.1 ≠ k) :
    putBox k b (slot :: slots) = slot :: putBox k b slots := by
  unfold putBox
  rw [List.findIdx?_cons, if_neg (by simpa using h)]
  cases slots.findIdx? (fun slot => decide (slot.1 = k)) with
  | none   => rfl
  | some i => rfl

end LabelledSet

namespace ComponentSet

/-- The slots of a set, each box under the kind it is of. -/
def labelled (c : ComponentSet κ) : LabelledSet κ := ⟨c.slots.map (fun s => (s.1, s))⟩

theorem labels_labelled (c : ComponentSet κ) : c.labelled.labels = c.kinds := by
  simp [labelled, LabelledSet.labels, kinds, Function.comp_def]

variable [DecidableEq κ] {j k : κ}

theorem putBox_map_self (cell : Cell (State k)) : ∀ l : List (Box κ),
    LabelledSet.putBox k ⟨k, cell⟩ (l.map fun b => (b.1, b)) = (putSlot k cell l).map fun b => (b.1, b)
  | []      => rfl
  | b :: bs => by
    by_cases hb : b.1 = k
    · rw [List.map_cons, LabelledSet.putBox_cons_of_eq _ _ _ hb, putSlot, if_pos hb, List.map_cons, hb]
    · rw [List.map_cons, LabelledSet.putBox_cons_of_ne _ _ _ hb, putBox_map_self cell bs, putSlot, if_neg hb, List.map_cons]

/-- **A box of kind `k` that is put under the label `k` leaves every box under its own kind.** -/
theorem labelled_put (c : ComponentSet κ) (cell : Cell (State k)) :
    (c.put k cell).labelled = c.labelled.put k ⟨k, cell⟩ :=
  congrArg LabelledSet.mk (putBox_map_self cell c.slots).symm

theorem labelled_insertAll (added : List (Component κ)) : (insertAll added).labelled = LabelledSet.insertAll added := by
  induction added using List.reverseRecOn with
  | nil                         => rfl
  | append_singleton added a ih =>
    rw [insertAll_concat, LabelledSet.insertAll_concat, insert, labelled_put, ih]
    rfl

theorem find?_map_self : ∀ l : List (Box κ),
    ((l.map fun b => (b.1, b)).find? fun slot => slot.1 = k).map Prod.snd = (findSlot k l).map (Sigma.mk k)
  | []      => rfl
  | b :: bs => by
    by_cases hb : b.1 = k
    · subst hb
      simp [findSlot]
    · rw [List.map_cons, List.find?_cons_of_neg (by simpa using hb), find?_map_self bs, findSlot, dif_neg hb]

/-- **What is under a kind's label is a box of that kind.** -/
theorem get_labelled (c : ComponentSet κ) : c.labelled.get k = (c.find? k).map (Sigma.mk k) := find?_map_self c.slots

theorem cell_labelled (c : ComponentSet κ) : c.labelled.cell k = c.find? k := by
  rw [LabelledSet.cell, get_labelled]
  cases c.find? k with
  | none      => rfl
  | some cell => exact Box.open?_mk cell

theorem exists_of_get_labelled {c : ComponentSet κ} {b : Box κ} (h : c.labelled.get k = some b) : ∃ cell, b = ⟨k, cell⟩ := by
  rw [get_labelled, Option.map_eq_some_iff] at h
  obtain ⟨cell, -, rfl⟩ := h
  exact ⟨cell, rfl⟩

theorem isSome_get_labelled {c : ComponentSet κ} : (c.labelled.get k).isSome = true ↔ k ∈ c.kinds := by
  rw [get_labelled, Option.isSome_map, isSome_find?]

theorem get_insert_labelled_of_ne (h : j ≠ k) (s : State j) (c : ComponentSet κ) :
    (c.labelled.insert j s).get k = c.labelled.get k := by
  rw [LabelledSet.insert, ← labelled_put, get_labelled, get_labelled, find?_put_of_ne h]

end ComponentSet

/-! ## Reaching a component of one's own kind -/

variable [DecidableEq κ] {α : Type}

theorem Access.borrow_ne_wrongOwner (use : Borrow) (allowed : Borrow → Bool) {k : κ} {body : State k → Access κ α}
    {name : Text} (hbody : ∀ s n j t, (body s n j t).1 ≠ .error (.wrongOwner name)) (n : Nat) (cell : Cell (State k)) :
    (Access.borrow use allowed k body n k (some cell)).1 ≠ .error (.wrongOwner name) := by
  unfold Access.borrow
  dsimp only
  rw [dif_pos rfl]
  split
  · exact hbody _ n k _
  · exact nofun

/-- **After any insertions, storage that knows no kinds is a finite map from kinds to cells.**  It has the slots of the
`ComponentSet` with the same insertions, each box under its own kind; no kind has two, and there are as many as kinds
inserted.  A kind is there exactly if it was inserted, with what was inserted last, and code for that kind is never told
that it has the wrong owner.  Inserting a component of one kind leaves those of the others. -/
theorem storage_is_finite_map (added : List (Component κ)) :
    let c := ComponentSet.insertAll added
    let l := LabelledSet.insertAll added
    (l.slots = c.slots.map fun b => (b.1, b)) ∧ l.labels.Nodup ∧
    (c.size = (added.map Sigma.fst).toFinset.card ∧ (c.isEmpty = true ↔ (added.map Sigma.fst).toFinset = ∅)) ∧
    (∀ k, (c.contains k = true ↔ k ∈ added.map Sigma.fst) ∧ ((l.get k).isSome = true ↔ k ∈ added.map Sigma.fst) ∧
      ((l.cell k).isSome = true ↔ k ∈ added.map Sigma.fst)) ∧
    (∀ k, l.get k = (c.find? k).map (Sigma.mk k) ∧ l.cell k = c.find? k ∧
      ∀ cell, c.find? k = some cell ↔ ∃ s, IsLast added k s ∧ cell = Cell.ofContent s) ∧
    (∀ k b, l.get k = some b → (b.open? k).isSome = true ∧
      ∀ (α : Type) (body : State k → Access κ α) (name : Text),
        (∀ s n j t, (body s n j t).1 ≠ .error (.wrongOwner name)) → ∀ (n : Nat) (cell : Cell (State b.1)),
          (Access.withRef k body n b.1 (some cell)).1 ≠ .error (.wrongOwner name) ∧
          (Access.withMut k body n b.1 (some cell)).1 ≠ .error (.wrongOwner name)) ∧
    ∀ (j : κ) (s : State j) (k : κ), j ≠ k →
      (c.insert j s).find? k = c.find? k ∧ (l.insert j s).get k = l.get k ∧ (l.insert j s).cell k = l.cell k := by
  intro c l
  have hl : l = c.labelled := (ComponentSet.labelled_insertAll added).symm
  have hkinds (k : κ) : k ∈ c.kinds ↔ k ∈ added.map Sigma.fst := ComponentSet.mem_kinds_insertAll
  have hcell (k : κ) : l.cell k = c.find? k := hl ▸ c.cell_labelled
  refine ⟨congrArg LabelledSet.slots hl, ?nodup, ⟨ComponentSet.size_insertAll added, ?empty⟩,
    fun k => ⟨?there, ?got, ?celled⟩, fun k => ⟨hl ▸ c.get_labelled, hcell k, fun cell => ComponentSet.find?_insertAll⟩,
    fun k b hb => ?opens, fun j s k hne => ?others⟩
  case nodup =>
    rw [hl, ComponentSet.labels_labelled]
    exact ComponentSet.nodup_kinds_insertAll added
  case empty => rw [ComponentSet.isEmpty_iff, ComponentSet.size_insertAll, Finset.card_eq_zero]
  case there => rw [ComponentSet.contains_iff, hkinds]
  case got => rw [hl, ComponentSet.isSome_get_labelled, hkinds]
  case celled => rw [hcell, ComponentSet.isSome_find?, hkinds]
  case opens =>
    obtain ⟨_, rfl⟩ := ComponentSet.exists_of_get_labelled (hl ▸ hb)
    refine ⟨by rw [Box.open?_mk]; rfl, fun α body name hbody n cell => ⟨?_, ?_⟩⟩
    · exact Access.borrow_ne_wrongOwner .shared _ hbody n cell
    · exact Access.borrow_ne_wrongOwner .exclusive _ hbody n cell
  case others =>
    have hget : (l.insert j s).get k = l.get k := hl ▸ ComponentSet.get_insert_labelled_of_ne hne s c
    exact ⟨ComponentSet.find?_put_of_ne hne _ c, hget, congrArg (·.bind (Box.open? k)) hget⟩

/-- Two records, the first of which is replaced: there are two slots, and the first one has the later content. -/
theorem storage_is_finite_map_records :
    let r : Samples.Kind := .record ['R']
    let last : Samples.Record := ⟨[(['x'], .unit)]⟩
    let added : List (Component Samples.Kind) :=
      [⟨r, (NameMap.empty : Samples.Record)⟩, ⟨.record ['S'], (NameMap.empty : Samples.Record)⟩, ⟨r, last⟩]
    let l := LabelledSet.insertAll added
    l.labels.Nodup ∧ (ComponentSet.insertAll added).size = 2 ∧ l.get r = some ⟨r, Cell.ofContent last⟩ ∧
      (l.get .vitals).isSome = false ∧
      (Access.withMut r (fun s => Access.pure s) 0 r (some (Cell.ofContent last))).1 ≠ .error (.wrongOwner ['R']) := by
  intro r last added l
  obtain ⟨-, hnodup, ⟨hsize, -⟩, hthere, hlast, hopens, -⟩ := storage_is_finite_map added
  have hfind : (ComponentSet.insertAll added).find? r = some (Cell.ofContent last) :=
    ((hlast r).2.2 _).2 ⟨last, ⟨added.take 2, [], rfl, nofun⟩, rfl⟩
  have hget : l.get r = some ⟨r, Cell.ofContent last⟩ := by rw [(hlast r).1, hfind]; rfl
  have hvitals : ¬ (l.get .vitals).isSome = true := fun h => by simpa [added, r] using (hthere .vitals).2.1.1 h
  exact ⟨hnodup, hsize, hget, by simpa using hvitals,
    ((hopens r _ hget).2 _ (fun s => Access.pure s) ['R'] (fun _ _ _ _ => nofun) 0 (Cell.ofContent last)).2⟩

end CommandConsole

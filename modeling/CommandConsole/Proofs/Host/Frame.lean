import CommandConsole.Host.World
/-!
# Frame — what stays when a cell is put back

Putting a cell back changes the component of one kind of one object.  Every other component stays
(`component?_putComponent_of_ne`), and so does all that selectors and arguments are read against: the world without its
components (`World.bare`).  Cells of different objects or kinds can be put back in either order, but for a kind that an
object has not yet: that one would come last among its components (`putComponent_comm`).
-/
namespace CommandConsole

variable {κ : Type} [ComponentKind κ]

/-! ## The components of one object -/

namespace ComponentSet

variable [DecidableEq κ] {j k : κ}

theorem findSlot_putSlot (cell : Cell (State k)) : ∀ l : List ((k : κ) × Cell (State k)),
    findSlot k (putSlot k cell l) = some cell
  | [] => by simp [putSlot, findSlot]
  | s :: ss => by
    unfold putSlot
    split
    · simp [findSlot]
    · rename_i hs
      rw [findSlot, dif_neg hs, findSlot_putSlot cell ss]

theorem findSlot_putSlot_of_ne (h : j ≠ k) (cell : Cell (State j)) : ∀ l : List ((k : κ) × Cell (State k)),
    findSlot k (putSlot j cell l) = findSlot k l
  | [] => dif_neg h
  | s :: ss => by
    unfold putSlot
    split
    · rename_i hs
      rw [findSlot, findSlot, dif_neg h, dif_neg (hs ▸ h)]
    · rw [findSlot, findSlot, findSlot_putSlot_of_ne h cell ss]

theorem putSlot_comm (hne : j ≠ k) (c : Cell (State j)) (d : Cell (State k)) : ∀ {l : List ((k : κ) × Cell (State k))},
    findSlot j l ≠ none → putSlot k d (putSlot j c l) =
      putSlot j c (putSlot k d l)
  | [], h => absurd rfl h
  | s :: ss, h => by
    by_cases hj : s.1 = j
    · have hk : s.1 ≠ k := hj ▸ hne
      simp only [putSlot, if_pos hj, if_neg hk, if_neg hne]
    · rw [findSlot, dif_neg hj] at h
      by_cases hk : s.1 = k
      · simp only [putSlot, if_neg hj, if_pos hk, if_neg hne.symm]
      · simp only [putSlot, if_neg hj, if_neg hk, putSlot_comm hne c d h]

theorem find?_put (cell : Cell (State k)) (c : ComponentSet κ) : (c.put k cell).find? k = some cell :=
  findSlot_putSlot cell c.slots

theorem find?_put_of_ne (h : j ≠ k) (cell : Cell (State j)) (c : ComponentSet κ) : (c.put j cell).find? k = c.find? k :=
  findSlot_putSlot_of_ne h cell c.slots

theorem put_comm (hne : j ≠ k) {c : ComponentSet κ} (hfound : c.find? j ≠ none) (cell : Cell (State j))
    (cell' : Cell (State k)) : (c.put j cell).put k cell' = (c.put k cell').put j cell :=
  congrArg ComponentSet.mk (putSlot_comm hne cell cell' hfound)

end ComponentSet

/-! ## The world without its components -/

def Entity.bare (e : Entity κ) : Entity κ := { e with components := .empty }

namespace World

/-- The world with nothing in its objects. -/
def bare (w : World κ) : World κ := { w with entities := w.entities.map Entity.bare }

theorem places_bare (w : World κ) {p : Entity κ → Bool} (h : ∀ e, p e.bare = p e) : w.bare.places p = w.places p := by
  have hp : (fun e : Entity κ × Nat => p e.1) ∘ Prod.map Entity.bare id = fun e => p e.1 := funext fun e => h e.1
  rw [places, bare, List.zipIdx_map, List.filter_map, List.map_map, hp]
  rfl

theorem named_bare (w : World κ) (name : Text) : w.bare.named name = w.named name := w.places_bare fun _ => rfl

theorem tagged_bare (w : World κ) (tag : Text) : w.bare.tagged tag = w.tagged tag := w.places_bare fun _ => rfl

theorem selection_bare (w : World κ) : w.bare.selection = w.selection := by
  rw [selection, selection, bare, List.length_map]

theorem nameAt_bare (w : World κ) (i : Nat) : w.bare.nameAt i = w.nameAt i := by
  rw [nameAt, nameAt, bare, List.getElem?_map, Option.map_map]
  rfl

theorem lookup_bare (w : World κ) : w.bare.lookup = w.lookup := by
  funext name
  rw [lookup, lookup, named_bare]

theorem resolve_bare (w : World κ) (context : Context) (s : Selector) : s.resolve w.bare context = s.resolve w context := by
  cases s with
  | marked sigil n => cases sigil <;> simp only [Selector.resolve, named_bare, tagged_bare]
  | selection      => cases context <;> simp only [Selector.resolve, selection_bare]

/-! ## Putting cells back -/

variable [DecidableEq κ] {w : World κ} {i j : Nat} {k l : κ}

@[simp] theorem bare_putComponent (w : World κ) (i : Nat) (k : κ) (cell : Cell (State k)) :
    (w.putComponent i k cell).bare = w.bare := by
  have hmap : (w.entities.modify i fun e => { e with components := e.components.put k cell }).map Entity.bare =
      w.entities.map Entity.bare := by
    refine List.ext_getElem? fun n => ?_
    rw [List.getElem?_map, List.getElem?_map, List.getElem?_modify]
    cases w.entities[n]? with
    | none   => rfl
    | some e => by_cases h : i = n <;> simp [h, Entity.bare]
  rw [bare, putComponent, hmap]
  rfl

theorem component?_putComponent (h : w.component? i k ≠ none) (cell : Cell (State k)) :
    (w.putComponent i k cell).component? i k = some cell := by
  cases he : w.entities[i]? with
  | none   => exact absurd (by rw [component?, he]; rfl) h
  | some e =>
    rw [component?, putComponent, List.getElem?_modify, he]
    simpa using ComponentSet.find?_put cell e.components

theorem component?_putComponent_of_ne (h : i = j → k ≠ l) (cell : Cell (State k)) :
    (w.putComponent i k cell).component? j l = w.component? j l := by
  rw [component?, component?, putComponent, List.getElem?_modify]
  cases w.entities[j]? with
  | none   => rfl
  | some e =>
    by_cases hij : i = j
    · simpa [hij] using ComponentSet.find?_put_of_ne (h hij) cell e.components
    · simp [hij]

/-- **Cells are put back in either order**, if the first is put back where there was one. -/
theorem putComponent_comm (h : i = j → k ≠ l) (hfound : w.component? i k ≠ none) (c : Cell (State k)) (d : Cell (State l)) :
    (w.putComponent i k c).putComponent j l d = (w.putComponent j l d).putComponent i k c := by
  simp only [putComponent]
  congr 1
  refine List.ext_getElem? fun n => ?_
  simp only [List.getElem?_modify]
  cases he : w.entities[n]? with
  | none   => rfl
  | some e =>
    by_cases hi : i = n <;> by_cases hj : j = n
    · rw [component?, hi, he] at hfound
      simp [hi, hj, ComponentSet.put_comm (h (hi.trans hj.symm)) hfound c d]
    · simp [hi, hj]
    · simp [hi, hj]
    · simp [hi, hj]

/-- The world with a cell put back, if there is one to put. -/
def restore (w : World κ) (i : Nat) (k : κ) : Target k → World κ
  | none      => w
  | some cell => w.putComponent i k cell

@[simp] theorem bare_restore (w : World κ) (i : Nat) (k : κ) (t : Target k) : (w.restore i k t).bare = w.bare := by
  cases t with
  | none      => rfl
  | some cell => exact bare_putComponent w i k cell

theorem component?_restore_of_ne (h : i = j → k ≠ l) (t : Target k) :
    (w.restore i k t).component? j l = w.component? j l := by
  cases t with
  | none      => rfl
  | some cell => exact component?_putComponent_of_ne h cell

theorem restore_comm (h : i = j → k ≠ l) {t : Target k} (hfound : w.component? i k = none → t = none) (u : Target l) :
    (w.restore i k t).restore j l u = (w.restore j l u).restore i k t := by
  cases t with
  | none   => rfl
  | some c =>
    cases u with
    | none   => rfl
    | some d => exact putComponent_comm h (fun hnone => nomatch hfound hnone) c d

end World
end CommandConsole

import CommandConsole.Text.Basic
/-!
# Fitting — the start of a text that a number of bytes has room for

A text that is cut to a number of bytes is cut between two characters, at the last place that leaves it short enough
(`longestFitting_fitting`).  Of two texts one after the other the first is kept as long as any of the second is
(`fitting_append_of_le`, `fitting_append_of_lt`).
-/
namespace CommandConsole.Text

variable {limit : Nat} {c : Char} {s t : Text}

theorem length_le_utf8Length : ∀ t : Text, t.length ≤ utf8Length t
  | []     => Nat.le_refl 0
  | c :: t => by
    have hc : 0 < c.utf8Size := c.utf8Size_pos
    have ih := length_le_utf8Length t
    rw [List.length_cons, utf8Length_cons]
    omega

theorem utf8Length_eq_zero_iff : utf8Length t = 0 ↔ t = [] := by
  have hlength := length_le_utf8Length t
  constructor
  · intro h
    exact List.length_eq_zero_iff.1 (by omega)
  · rintro rfl
    rfl

theorem fitting_cons_of_le (hc : c.utf8Size ≤ limit) : fitting limit (c :: t) = c :: fitting (limit - c.utf8Size) t :=
  if_pos hc

theorem fitting_cons_of_lt (hc : limit < c.utf8Size) : fitting limit (c :: t) = [] := if_neg (Nat.not_le.2 hc)

/-! ## The longest start that fits -/

/-- Of the starts of `t` that take at most `limit` bytes, `p` is the longest. -/
structure LongestFitting (limit : Nat) (t p : Text) : Prop where
  start   : p <+: t
  fits    : utf8Length p ≤ limit
  longest : ∀ q, q <+: t → utf8Length q ≤ limit → q <+: p

theorem longestFitting_fitting : ∀ (limit : Nat) (t : Text), LongestFitting limit t (fitting limit t)
  | limit, []     => ⟨List.prefix_refl [], Nat.zero_le limit, fun _ hq _ => hq⟩
  | limit, c :: t => by
    by_cases hc : c.utf8Size ≤ limit
    · obtain ⟨hstart, hfits, hlongest⟩ := longestFitting_fitting (limit - c.utf8Size) t
      rw [fitting_cons_of_le hc]
      refine ⟨List.cons_prefix_cons.2 ⟨rfl, hstart⟩, ?_, fun q hq hqfits => ?_⟩
      · rw [utf8Length_cons]
        omega
      · cases q with
        | nil      => exact List.nil_prefix
        | cons d q =>
          obtain ⟨hd, hq⟩ := List.cons_prefix_cons.1 hq
          rw [hd, utf8Length_cons] at hqfits
          exact List.cons_prefix_cons.2 ⟨hd, hlongest q hq (by omega)⟩
    · -- not even the first character fits
      rw [fitting_cons_of_lt (Nat.lt_of_not_le hc)]
      refine ⟨List.nil_prefix, Nat.zero_le limit, fun q hq hqfits => ?_⟩
      cases q with
      | nil      => exact List.nil_prefix
      | cons d q =>
        obtain ⟨hd, -⟩ := List.cons_prefix_cons.1 hq
        rw [hd, utf8Length_cons] at hqfits
        omega

theorem utf8Length_fitting_le (limit : Nat) (t : Text) : utf8Length (fitting limit t) ≤ limit :=
  (longestFitting_fitting limit t).fits

theorem fitting_eq_self_iff : fitting limit t = t ↔ utf8Length t ≤ limit := by
  have h := longestFitting_fitting limit t
  constructor
  · intro heq
    have hfits := h.fits
    rwa [heq] at hfits
  · intro hfits
    exact h.start.eq_of_length_le (h.longest t (List.prefix_refl t) hfits).length_le

/-! ## Two texts -/

theorem fitting_append_of_le : ∀ {limit : Nat} {s : Text} (t : Text), utf8Length s ≤ limit →
    fitting limit (s ++ t) = s ++ fitting (limit - utf8Length s) t
  | limit, [],     t, _ => rfl
  | limit, c :: s, t, h => by
    rw [utf8Length_cons] at h
    have ih : fitting (limit - c.utf8Size) (s ++ t) = s ++ fitting (limit - c.utf8Size - utf8Length s) t :=
      fitting_append_of_le t (by omega)
    rw [List.cons_append, fitting_cons_of_le (by omega), ih, utf8Length_cons, Nat.sub_sub, List.cons_append]

/-- **Where the first of two texts does not fit, nothing of the second is kept.** -/
theorem fitting_append_of_lt : ∀ {limit : Nat} {s : Text} (t : Text), limit < utf8Length s →
    fitting limit (s ++ t) = fitting limit s
  | limit, [],     t, h => absurd h (Nat.not_lt_zero limit)
  | limit, c :: s, t, h => by
    rw [utf8Length_cons] at h
    rw [List.cons_append]
    by_cases hc : c.utf8Size ≤ limit
    · have ih : fitting (limit - c.utf8Size) (s ++ t) = fitting (limit - c.utf8Size) s :=
        fitting_append_of_lt t (by omega)
      rw [fitting_cons_of_le hc, fitting_cons_of_le hc, ih]
    · rw [fitting_cons_of_lt (Nat.lt_of_not_le hc), fitting_cons_of_lt (Nat.lt_of_not_le hc)]

end CommandConsole.Text

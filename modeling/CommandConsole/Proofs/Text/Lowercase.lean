import CommandConsole.Proofs.Command.Words
import CommandConsole.Text.Lowercase
/-!
# Lowercase — what lowercasing leaves alone

Lowercasing twice is lowercasing once (`lower_lower`), a trimmed text stays trimmed (`trim_lower_trim`) and a word stays a
word (`IsWord.lower`).  All of it is read off the case table in one pass over its pairs of runs (`tableSettled`): no
lowercase form lies in a run again, is a capital that is treated apart, or is blank.
-/
namespace CommandConsole

/-! ## The table -/

namespace CaseTable

/-- Is `n` outside the numbers from `lo` to `hi`? -/
def outside (n lo hi : Nat) : Bool := decide (n < lo) || decide (hi < n)

/-- The last of the lowercase forms of a run; the first is `r.lower`. -/
def Run.top (r : Run) : Nat := r.lower + (r.last - r.first)

/-- No lowercase form of `r` lies in the run `s`: they lie apart, or alternate. -/
def Run.apart (r s : Run) : Bool :=
  decide (r.top < s.first) || decide (s.last < r.lower) ||
    ((r.step == 2 || r.first == r.last) && s.step == 2 && decide ((r.lower + s.first) % 2 = 1))

/-- The lowercase forms of `r` are characters, no blanks, and neither of the two capitals that are treated apart. -/
def Run.proper (r : Run) : Bool :=
  decide (32 < r.lower) && (decide (r.top < 0xD800) || (decide (0xDFFF < r.lower) && decide (r.top < 0x110000))) &&
    [0x85, 0xA0, 0x130, 0x3A3, 0x1680, 0x2028, 0x2029, 0x202F, 0x205F, 0x3000].all (outside · r.lower r.top) &&
    (decide (r.top < 0x2000) || decide (0x200A < r.lower))

/-- Every form of every run is proper and lies apart from every run. -/
def tableSettled : Bool := lowercaseRuns.all (fun r => r.proper && lowercaseRuns.all r.apart)

theorem tableSettled_eq_true : tableSettled = true := by decide +kernel

theorem Run.contains_iff (r : Run) (n : Nat) :
    r.contains n = true ↔ r.first ≤ n ∧ n ≤ r.last ∧ (n - r.first) % r.step = 0 := by
  simp [Run.contains, and_assoc]

theorem Run.apart_iff (r s : Run) :
    r.apart s = true ↔ r.top < s.first ∨ s.last < r.lower ∨
      ((r.step = 2 ∨ r.first = r.last) ∧ s.step = 2 ∧ (r.lower + s.first) % 2 = 1) := by
  simp [Run.apart, or_assoc, and_assoc]

/-- A lowercase form of `r` is in no run that lies apart from it. -/
theorem Run.contains_form {r s : Run} (h : r.apart s = true) {n : Nat} (hn : r.contains n = true) :
    s.contains (r.lower + (n - r.first)) = false := by
  rw [Bool.eq_false_iff, ne_eq, Run.contains_iff]
  rintro ⟨hlo, hhi, hs⟩
  obtain ⟨h1, h2, h3⟩ := (r.contains_iff n).1 hn
  rcases (r.apart_iff s).1 h with h | h | ⟨hr, hstep, hodd⟩
  · unfold Run.top at h; omega
  · omega
  · rw [hstep] at hs
    rcases hr with hr | hr
    · rw [hr] at h3; omega
    · omega

theorem of_tableSettled {r : Run} (hr : r ∈ lowercaseRuns) :
    r.proper = true ∧ ∀ s ∈ lowercaseRuns, r.apart s = true := by
  have h := tableSettled_eq_true
  simp only [tableSettled, List.all_eq_true, Bool.and_eq_true] at h
  exact h r hr

end CaseTable

open CaseTable

/-! ## Characters -/

/-- Lowercasing a character on its own leaves it as it is, wherever it stands. -/
structure Settled (c : Char) : Prop where
  ne_sigma : c ≠ 'Σ'
  ne_dotI  : c ≠ 'İ'
  noRun    : ∀ r ∈ lowercaseRuns, r.contains c.toNat = false

/-- **A lowercase form is settled and no blank.** -/
theorem settled_form {r : Run} (hr : r ∈ lowercaseRuns) {n : Nat} (hn : r.contains n = true) :
    Settled (Char.ofNat (r.lower + (n - r.first))) ∧ isBlank (Char.ofNat (r.lower + (n - r.first))) = false := by
  obtain ⟨hproper, hapart⟩ := of_tableSettled hr
  obtain ⟨h1, h2, -⟩ := (r.contains_iff n).1 hn
  simp only [Run.proper, outside, Bool.and_eq_true, Bool.or_eq_true, decide_eq_true_eq, List.all_cons, List.all_nil]
    at hproper
  have htop : r.top = r.lower + (r.last - r.first) := rfl
  have hm : (Char.ofNat (r.lower + (n - r.first))).toNat = r.lower + (n - r.first) := by
    have hv : (r.lower + (n - r.first)).isValidChar := by unfold Nat.isValidChar; omega
    rw [Char.ofNat, dif_pos hv]
    rfl
  refine ⟨⟨fun h => ?_, fun h => ?_, fun s hs => ?_⟩, ?_⟩
  · have : r.lower + (n - r.first) = 0x3A3 := hm.symm.trans (congrArg Char.toNat h)
    omega
  · have : r.lower + (n - r.first) = 0x130 := hm.symm.trans (congrArg Char.toNat h)
    omega
  · rw [hm]; exact Run.contains_form (hapart s hs) hn
  · simp only [isBlank, hm, Bool.or_eq_false_iff, Bool.and_eq_false_iff, decide_eq_false_iff_not, beq_eq_false_iff_ne]
    omega

/-- A character has the form that its run gives it, or is its own form. -/
theorem lowerChar_cases (c : Char) :
    (∃ r ∈ lowercaseRuns, r.contains c.toNat = true ∧ lowerChar c = Char.ofNat (r.lower + (c.toNat - r.first))) ∨
      ((∀ r ∈ lowercaseRuns, r.contains c.toNat = false) ∧ lowerChar c = c) := by
  unfold lowerChar
  cases h : lowercaseRuns.find? (·.contains c.toNat) with
  | some r =>
    have hr : r.contains c.toNat = true := by simpa using List.find?_some h
    exact .inl ⟨r, List.mem_of_find?_eq_some h, hr, rfl⟩
  | none   => exact .inr ⟨fun r hr => by simpa using List.find?_eq_none.1 h r hr, rfl⟩

theorem Settled.lowerChar {c : Char} (h : Settled c) : lowerChar c = c := by
  rcases lowerChar_cases c with ⟨r, hr, hc, -⟩ | ⟨-, hc⟩
  · rw [h.noRun r hr] at hc; cases hc
  · exact hc

theorem Settled.lowerOne {c : Char} (h : Settled c) : lowerOne c = [c] := by
  rw [CommandConsole.lowerOne, if_neg h.ne_dotI, h.lowerChar]

theorem settled_of_mem_lowerOne {c d : Char} (hc : c ≠ 'Σ') (hd : d ∈ lowerOne c) : Settled d := by
  unfold lowerOne at hd
  split at hd
  · simp only [List.mem_cons, List.not_mem_nil, or_false] at hd
    rcases hd with rfl | rfl
    · exact ⟨by decide, by decide, by decide +kernel⟩
    · exact ⟨by decide, by decide, by decide +kernel⟩
  · rename_i hI
    rw [List.mem_singleton] at hd
    subst hd
    rcases lowerChar_cases c with ⟨r, hr, hcr, hform⟩ | ⟨hno, hform⟩
    · rw [hform]; exact (settled_form hr hcr).1
    · rw [hform]; exact ⟨hc, hI, hno⟩

theorem noBlank_lowerOne {c : Char} (hc : isBlank c = false) : NoBlank (lowerOne c) := by
  unfold lowerOne
  split
  · decide
  · rcases lowerChar_cases c with ⟨r, hr, hcr, hform⟩ | ⟨-, hform⟩
    · simpa [NoBlank, hform] using (settled_form hr hcr).2
    · simpa [NoBlank, hform] using hc

theorem lowerOne_ne_nil (c : Char) : lowerOne c ≠ [] := by
  unfold lowerOne; split <;> exact List.cons_ne_nil _ _

/-! ## Texts -/

namespace Text

/-- The form of one character of a text, at its place after the characters `before`. -/
def lowerAt (before : Text) (c : Char) (t : Text) : Text :=
  if c = 'Σ' then [if reachesCased before && !reachesCased t then 'ς' else 'σ'] else lowerOne c

theorem lowerAfter_cons (before : Text) (c : Char) (t : Text) :
    lowerAfter before (c :: t) = lowerAt before c t ++ lowerAfter (c :: before) t := rfl

/-- The form of a sigma is one of the two small sigmas. -/
theorem mem_lowerAt {before : Text} {c d : Char} {t : Text} (h : d ∈ lowerAt before c t) :
    (c ≠ 'Σ' ∧ d ∈ lowerOne c) ∨ d = 'ς' ∨ d = 'σ' := by
  unfold lowerAt at h
  split at h
  · rw [List.mem_singleton] at h
    split at h
    · exact .inr (.inl h)
    · exact .inr (.inr h)
  · rename_i hc
    exact .inl ⟨hc, h⟩

theorem settled_of_mem_lowerAfter {d : Char} : ∀ {before t : Text}, d ∈ lowerAfter before t → Settled d
  | _, [], h => nomatch h
  | before, c :: t, h => by
    rw [lowerAfter_cons, List.mem_append] at h
    rcases h with h | h
    · rcases mem_lowerAt h with ⟨hc, hd⟩ | rfl | rfl
      · exact settled_of_mem_lowerOne hc hd
      · exact ⟨by decide, by decide, by decide +kernel⟩
      · exact ⟨by decide, by decide, by decide +kernel⟩
    · exact settled_of_mem_lowerAfter h

theorem lowerAfter_of_settled : ∀ (before : Text) {t : Text}, (∀ c ∈ t, Settled c) → lowerAfter before t = t
  | _, [], _ => rfl
  | before, c :: t, h => by
    have hc := h c List.mem_cons_self
    rw [lowerAfter_cons, lowerAt, if_neg hc.ne_sigma, hc.lowerOne,
      lowerAfter_of_settled _ (fun d hd => h d (List.mem_cons_of_mem c hd))]
    rfl

/-- **Lowercasing twice is lowercasing once.** -/
@[simp] theorem lower_lower (t : Text) : lower (lower t) = lower t :=
  lowerAfter_of_settled [] (fun _ h => settled_of_mem_lowerAfter h)

theorem noBlank_lowerAt {before t : Text} {c : Char} (hc : isBlank c = false) : NoBlank (lowerAt before c t) :=
  fun d hd => by
    rcases mem_lowerAt hd with ⟨-, hd⟩ | rfl | rfl
    · exact noBlank_lowerOne hc d hd
    · rfl
    · rfl

theorem lowerAt_ne_nil (before : Text) (c : Char) (t : Text) : lowerAt before c t ≠ [] := by
  unfold lowerAt
  split
  · exact List.cons_ne_nil _ _
  · exact lowerOne_ne_nil c

theorem noBlank_lowerAfter : ∀ (before : Text) {t : Text}, NoBlank t → NoBlank (lowerAfter before t)
  | _, [], h => h
  | before, c :: t, h => by
    obtain ⟨hc, ht⟩ := noBlank_cons.1 h
    rw [lowerAfter_cons, noBlank_append]
    exact ⟨noBlank_lowerAt hc, noBlank_lowerAfter _ ht⟩

theorem exists_lowerAfter_concat (c : Char) : ∀ t before : Text,
    ∃ s before', lowerAfter before (t ++ [c]) = s ++ lowerAt before' c []
  | [],     before => ⟨[], before, by rw [List.nil_append, lowerAfter_cons]; simp [lowerAfter]⟩
  | d :: t, before => by
    obtain ⟨s, before', h⟩ := exists_lowerAfter_concat c t (d :: before)
    exact ⟨lowerAt before d (t ++ [c]) ++ s, before', by rw [List.cons_append, lowerAfter_cons, h, List.append_assoc]⟩

/-- **What is trimmed stays so in lowercase**: the forms of the characters at its ends are no blanks. -/
theorem trim_lower_trim (t : Text) : trim (lower (trim t)) = lower (trim t) := by
  obtain ⟨hfirst, hlast⟩ := isBlank_ends_trim t
  generalize trim t = u at hfirst hlast
  refine trim_eq_self (fun c v h => ?_) fun h => ?_
  · cases u with
    | nil      => cases h
    | cons d u =>
      rw [lower, lowerAfter_cons] at h
      have hd : NoBlank (lowerAt [] d u) := noBlank_lowerAt (hfirst d u rfl)
      cases hform : lowerAt [] d u with
      | nil         => exact absurd hform (lowerAt_ne_nil [] d u)
      | cons e rest =>
        rw [hform] at h hd
        cases h
        exact (noBlank_cons.1 hd).1
  · rcases List.eq_nil_or_concat u with rfl | ⟨v, c, rfl⟩
    · exact absurd rfl h
    · obtain ⟨s, before, hs⟩ := exists_lowerAfter_concat c v []
      have hc : isBlank c = false := by simpa using hlast (by simp)
      have hlower : lower (v.concat c) = s ++ lowerAt before c [] := by rw [List.concat_eq_append]; exact hs
      have hne := lowerAt_ne_nil before c []
      have hend : (lower (v.concat c)).getLast h = (lowerAt before c []).getLast hne := by
        simp only [hlower]
        exact List.getLast_append_of_ne_nil _ hne
      rw [hend]
      exact noBlank_lowerAt hc _ (List.getLast_mem hne)

end Text

/-- **A word stays a word in lowercase.** -/
theorem IsWord.lower {w : Text} (hw : IsWord w) : IsWord (Text.lower w) := by
  refine ⟨?_, Text.noBlank_lowerAfter [] hw.noBlank⟩
  cases w with
  | nil => exact absurd rfl hw.ne_nil
  | cons c w =>
    intro h
    rw [Text.lower, Text.lowerAfter_cons] at h
    exact Text.lowerAt_ne_nil [] c w (List.append_eq_nil_iff.1 h).1

end CommandConsole

import CommandConsole.Text.Utf8
/-!
# Utf8 — bytes that are read back

What `Utf8.encode` writes is read back as it was (`decode?_encode`), and bytes that are read as a text are read so whatever
comes after them (`decode?_append`): a text appended to a readable file is appended to what the file is read as.
-/
namespace CommandConsole.Utf8

/-! ## One step -/

/-- A character that is complete stays complete when more bytes come after it. -/
theorem finish_append {c : Char} (more : List UInt8) : ∀ {k bits : Nat} {r after : List UInt8},
    finish bits k r = (some c, after) → finish bits k (r ++ more) = (some c, after ++ more)
  | 0,     bits, r,      after, h => by
    cases h
    rfl
  | k + 1, bits, [],     after, h => by cases h
  | k + 1, bits, s :: r, after, h => by
    rw [List.cons_append]
    unfold finish at h ⊢
    split at h
    · rename_i hs
      rw [if_pos hs]
      exact finish_append more h
    · cases h

theorem next_append {b : UInt8} {r after : List UInt8} {c : Char} (more : List UInt8) (h : next b r = (some c, after)) :
    next b (r ++ more) = (some c, after ++ more) := by
  unfold next at h ⊢
  cases hlead : lead? b with
  | none   => rw [hlead] at h; cases h
  | some p =>
    obtain ⟨bits, k⟩ := p
    rw [hlead] at h
    cases r with
    | nil =>
      -- nothing is left for continuation bytes, so there are none
      cases k with
      | zero   =>
        cases h
        cases more <;> simp [finish]
      | succ k => cases h
    | cons s r =>
      rw [List.cons_append]
      dsimp only at h ⊢
      split at h
      · cases h
      · rename_i hs
        rw [if_neg hs, ← List.cons_append]
        exact finish_append more h

/-! ## Many steps -/

theorem mapM_id_eq_some_iff : ∀ {l : List (Option Char)} {t : Text}, l.mapM id = some t ↔ l = t.map some
  | [],          []     => by simp
  | [],          c :: t => by simp
  | none :: l,   t      => by cases t <;> simp
  | some c :: l, t      => by
    have ih (u : Text) : l.mapM id = some u ↔ l = u.map some := mapM_id_eq_some_iff
    cases t with
    | nil      => simp [Option.bind_eq_some_iff]
    | cons d t =>
      simp only [List.mapM_cons, id_eq, Option.pure_def, Option.bind_eq_bind, Option.bind_some, Option.bind_eq_some_iff,
        ih, Option.some.injEq, List.cons.injEq, exists_eq_right_right, List.map_cons]
      exact and_comm

theorem decode?_eq_some_iff {bytes : List UInt8} {t : Text} : decode? bytes = some t ↔ scan bytes = t.map some :=
  mapM_id_eq_some_iff

theorem scan_append (more : List UInt8) {bytes : List UInt8} {t : Text} (h : scan bytes = t.map some) :
    scan (bytes ++ more) = t.map some ++ scan more := by
  induction t generalizing bytes with
  | nil =>
    cases bytes with
    | nil      => rfl
    | cons b r => rw [scan] at h; cases h
  | cons c t ih =>
    cases bytes with
    | nil      => rw [scan] at h; cases h
    | cons b r =>
      rw [scan, List.map_cons, List.cons.injEq] at h
      have hnext : next b (r ++ more) = (some c, (next b r).2 ++ more) := next_append more (Prod.ext h.1 rfl)
      rw [List.cons_append, scan, hnext, ih h.2]
      rfl

/-- **What comes after readable bytes is read apart from them.** -/
theorem decode?_append {bytes : List UInt8} {t : Text} (h : decode? bytes = some t) {more : List UInt8} {u : Text}
    (hmore : decode? more = some u) : decode? (bytes ++ more) = some (t ++ u) := by
  rw [decode?_eq_some_iff] at h hmore ⊢
  rw [scan_append more h, hmore, List.map_append]

/-! ## Bytes that were written -/

theorem toNat_toUInt8 {n : Nat} (h : n < 256) : n.toUInt8.toNat = n := by
  simp [Nat.mod_eq_of_lt h]

theorem isTail_toUInt8 {n : Nat} (h : n < 64) : isTail (0x80 + n).toUInt8 = true := by
  rw [isTail, toNat_toUInt8 (by omega), Bool.and_eq_true, decide_eq_true_eq, decide_eq_true_eq]
  omega

theorem payload_toUInt8 {n : Nat} (h : n < 64) : payload (0x80 + n).toUInt8 = n := by
  rw [payload, toNat_toUInt8 (by omega)]
  omega

theorem finish_tail {bits k n : Nat} (h : n < 64) (r : List UInt8) :
    finish bits (k + 1) ((0x80 + n).toUInt8 :: r) = finish (bits * 64 + n) k r := by
  rw [finish, if_pos (isTail_toUInt8 h), payload_toUInt8 h]

theorem secondOk_iff {b s : UInt8} : secondOk b s = true ↔ isTail s = true ∧ (b.toNat = 0xE0 → 0xA0 ≤ s.toNat) ∧
    (b.toNat = 0xED → s.toNat < 0xA0) ∧ (b.toNat = 0xF0 → 0x90 ≤ s.toNat) ∧ (b.toNat = 0xF4 → s.toNat < 0x90) := by
  simp [secondOk, ← UInt8.toNat_inj, and_assoc, Decidable.imp_iff_not_or]

/-- A continuation byte may come second unless the first byte asks for a larger or a smaller one. -/
theorem secondOk_toUInt8 {l n : Nat} (hl : l < 256) (hn : n < 64) (hE0 : l = 0xE0 → 0x20 ≤ n) (hED : l = 0xED → n < 0x20)
    (hF0 : l = 0xF0 → 0x10 ≤ n) (hF4 : l = 0xF4 → n < 0x10) : secondOk l.toUInt8 (0x80 + n).toUInt8 = true := by
  rw [secondOk_iff, toNat_toUInt8 hl, toNat_toUInt8 (by omega)]
  exact ⟨isTail_toUInt8 hn, by omega, by omega, by omega, by omega⟩

theorem next_of_lead {b : UInt8} {bits : Nat} (h : lead? b = some (bits, 0)) (r : List UInt8) :
    next b r = (some (Char.ofNat bits), r) := by
  unfold next
  rw [h]
  cases r <;> rfl

theorem next_of_leads {b s : UInt8} {bits k : Nat} (h : lead? b = some (bits, k + 1)) (hs : secondOk b s = true)
    (r : List UInt8) : next b (s :: r) = finish bits (k + 1) (s :: r) := by
  unfold next
  rw [h]
  simp [hs]

theorem lead?_one {n : Nat} (h : n < 0x80) : lead? n.toUInt8 = some (n, 0) := by
  simp only [lead?, toNat_toUInt8 (show n < 256 by omega)]
  rw [if_pos h]

theorem lead?_two {n : Nat} (hlo : 2 ≤ n) (hhi : n < 0x20) : lead? (0xC0 + n).toUInt8 = some (n, 1) := by
  simp only [lead?, toNat_toUInt8 (show 0xC0 + n < 256 by omega)]
  rw [if_neg (by omega), if_neg (by omega), if_pos (by omega)]
  congr 2
  omega

theorem lead?_three {n : Nat} (h : n < 0x10) : lead? (0xE0 + n).toUInt8 = some (n, 2) := by
  simp only [lead?, toNat_toUInt8 (show 0xE0 + n < 256 by omega)]
  rw [if_neg (by omega), if_neg (by omega), if_neg (by omega), if_pos (by omega)]
  congr 2
  omega

theorem lead?_four {n : Nat} (h : n < 5) : lead? (0xF0 + n).toUInt8 = some (n, 3) := by
  simp only [lead?, toNat_toUInt8 (show 0xF0 + n < 256 by omega)]
  rw [if_neg (by omega), if_neg (by omega), if_neg (by omega), if_neg (by omega), if_pos (by omega)]
  congr 2
  omega

/-- **The bytes of a character are read as that character**, whatever comes after them. -/
theorem scan_encodeChar (c : Char) (more : List UInt8) : scan (encodeChar c ++ more) = some c :: scan more := by
  have hvalid : c.toNat < 0xD800 ∨ 0xDFFF < c.toNat ∧ c.toNat < 0x110000 := c.valid
  have hc := Char.ofNat_toNat c
  unfold encodeChar
  generalize c.toNat = n at hvalid hc
  dsimp only
  split
  · rename_i h
    rw [List.cons_append, scan, next_of_lead (lead?_one h), hc]
    rfl
  split
  · have hs : secondOk (0xC0 + n / 0x40).toUInt8 (0x80 + n % 0x40).toUInt8 = true :=
      secondOk_toUInt8 (by omega) (by omega) (by omega) (by omega) (by omega) (by omega)
    have hn : n / 0x40 * 64 + n % 0x40 = n := by omega
    rw [List.cons_append, List.cons_append, scan, next_of_leads (lead?_two (by omega) (by omega)) hs,
      finish_tail (by omega), finish, hn, hc]
    rfl
  split
  · have hs : secondOk (0xE0 + n / 0x1000).toUInt8 (0x80 + n / 0x40 % 0x40).toUInt8 = true :=
      secondOk_toUInt8 (by omega) (by omega) (by omega) (by omega) (by omega) (by omega)
    have hn : (n / 0x1000 * 64 + n / 0x40 % 0x40) * 64 + n % 0x40 = n := by omega
    rw [List.cons_append, List.cons_append, scan, next_of_leads (lead?_three (by omega)) hs, finish_tail (by omega),
      List.cons_append, finish_tail (by omega), finish, hn, hc]
    rfl
  · have hs : secondOk (0xF0 + n / 0x40000).toUInt8 (0x80 + n / 0x1000 % 0x40).toUInt8 = true :=
      secondOk_toUInt8 (by omega) (by omega) (by omega) (by omega) (by omega) (by omega)
    have hn : ((n / 0x40000 * 64 + n / 0x1000 % 0x40) * 64 + n / 0x40 % 0x40) * 64 + n % 0x40 = n := by omega
    rw [List.cons_append, List.cons_append, scan, next_of_leads (lead?_four (by omega)) hs, finish_tail (by omega),
      List.cons_append, finish_tail (by omega), List.cons_append, finish_tail (by omega), finish, hn, hc]
    rfl

/-- The bytes of a character, apart from any other, are read as that character. -/
theorem char?_encodeChar (c : Char) : char? (encodeChar c) = some c := by
  have hscan := scan_encodeChar c []
  rw [List.append_nil, scan] at hscan
  cases hbytes : encodeChar c with
  | nil      => rw [hbytes, scan] at hscan; cases hscan
  | cons b t =>
    rw [hbytes, scan, List.cons.injEq] at hscan
    obtain ⟨hchar, hrest⟩ := hscan
    have hnone : (next b t).2 = [] := by
      cases hafter : (next b t).2 with
      | nil       => rfl
      | cons s rs => rw [hafter, scan] at hrest; cases hrest
    have hnext : next b t = (some c, []) := Prod.ext hchar hnone
    rw [char?, hnext]

/-- **What is written is read back.** -/
theorem decode?_encode (t : Text) : decode? (encode t) = some t := by
  rw [decode?_eq_some_iff]
  induction t with
  | nil => rw [encode, List.flatMap_nil, scan]; rfl
  | cons c t ih =>
    rw [encode, List.flatMap_cons, scan_encodeChar]
    exact congrArg (some c :: ·) ih

end CommandConsole.Utf8

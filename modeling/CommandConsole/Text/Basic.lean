/-!
# Text

Everything the console reads or writes is a list of characters.  This module holds what the rest of the library asks of
such a list: its length in bytes, comparison and search that ignore the case of `A`-`Z`, the order of names, prefixes,
splitting and joining.

Lengths and offsets that a user sees are counted in UTF-8 bytes; positions of a cursor are counted in characters.
-/
namespace CommandConsole

/-- A text is its characters, first to last. -/
abbrev Text := List Char

instance : Coe String Text := ⟨String.toList⟩

namespace Text

/-! ## Measures -/

/-- How many bytes the text takes in UTF-8. -/
def utf8Length : Text → Nat
  | []     => 0
  | c :: t => c.utf8Size + utf8Length t

@[simp] theorem utf8Length_nil : utf8Length [] = 0 := rfl

@[simp] theorem utf8Length_cons (c : Char) (t : Text) : utf8Length (c :: t) = c.utf8Size + utf8Length t := rfl

@[simp] theorem utf8Length_append (s t : Text) : utf8Length (s ++ t) = utf8Length s + utf8Length t := by
  induction s with
  | nil => simp
  | cons c s ih => simp [ih, Nat.add_assoc]

/-- The longest run of whole characters at the start of `t` that fits in `limit` bytes. -/
def fitting : Nat → Text → Text
  | _,     []     => []
  | limit, c :: t => if c.utf8Size ≤ limit then c :: fitting (limit - c.utf8Size) t else []

/-! ## Comparison that ignores the case of ASCII letters -/

/-- The letters `A`-`Z` become `a`-`z`; every other character stays. -/
def asciiLower (t : Text) : Text := t.map Char.toLower

/-- Equal up to the case of ASCII letters. -/
def sameAscii (s t : Text) : Bool := asciiLower s == asciiLower t

/-- Whether `t` starts with `p`, up to the case of ASCII letters. -/
def startsWithAscii (p t : Text) : Bool := (asciiLower p).isPrefixOf (asciiLower t)

/-! ## Order

Names are sorted by the code points of their characters, a proper prefix first. -/

def le : Text → Text → Bool
  | [],     _      => true
  | _ :: _, []     => false
  | a :: s, b :: t => decide (a.toNat < b.toNat) || (a == b && le s t)

theorem le_refl : ∀ t, le t t = true
  | []     => rfl
  | a :: t => by simp [le, le_refl t]

theorem le_total : ∀ s t, (le s t || le t s) = true
  | [],     _      => rfl
  | _ :: _, []     => rfl
  | a :: s, b :: t => by
    have ih := le_total s t
    simp only [le, Bool.or_eq_true, Bool.and_eq_true, decide_eq_true_eq, beq_iff_eq] at ih ⊢
    rcases Nat.lt_trichotomy a.toNat b.toNat with h | h | h
    · exact .inl (.inl h)
    · have hab : a = b := Char.toNat_inj.1 h
      subst hab
      rcases ih with ih | ih
      · exact .inl (.inr ⟨rfl, ih⟩)
      · exact .inr (.inr ⟨rfl, ih⟩)
    · exact .inr (.inl h)

theorem le_trans : ∀ r s t, le r s = true → le s t = true → le r t = true
  | [],     _,      _,      _,  _  => rfl
  | _ :: _, [],     _,      h,  _  => by simp [le] at h
  | _ :: _, _ :: _, [],     _,  h  => by simp [le] at h
  | a :: r, b :: s, c :: t, h₁, h₂ => by
    simp only [le, Bool.or_eq_true, Bool.and_eq_true, decide_eq_true_eq, beq_iff_eq] at h₁ h₂ ⊢
    rcases h₁ with h₁ | ⟨rfl, h₁⟩
    · rcases h₂ with h₂ | ⟨rfl, h₂⟩
      · exact .inl (Nat.lt_trans h₁ h₂)
      · exact .inl h₁
    · rcases h₂ with h₂ | ⟨rfl, h₂⟩
      · exact .inl h₂
      · exact .inr ⟨rfl, le_trans r s t h₁ h₂⟩

theorem le_antisymm : ∀ s t, le s t = true → le t s = true → s = t
  | [],     [],     _,  _  => rfl
  | [],     _ :: _, _,  h  => by simp [le] at h
  | _ :: _, [],     h,  _  => by simp [le] at h
  | a :: s, b :: t, h₁, h₂ => by
    simp only [le, Bool.or_eq_true, Bool.and_eq_true, decide_eq_true_eq, beq_iff_eq] at h₁ h₂
    rcases h₁ with h₁ | ⟨rfl, h₁⟩
    · rcases h₂ with h₂ | ⟨rfl, _⟩ <;> omega
    · rcases h₂ with h₂ | ⟨_, h₂⟩
      · omega
      · rw [le_antisymm s t h₁ h₂]

/-- Sorted, and each text once: neighbours that are equal are merged after sorting. -/
def mergeEqual : List Text → List Text
  | []     => []
  | a :: l =>
    match mergeEqual l with
    | []     => [a]
    | b :: m => if a = b then b :: m else a :: b :: m

/-- The distinct texts of `l` in ascending order. -/
def sortedDistinct (l : List Text) : List Text := mergeEqual (l.mergeSort le)

/-! ## Parts -/

/-- What follows `p` in `t`, if `t` starts with `p`. -/
def afterPrefix? : Text → Text → Option Text
  | [],     t      => some t
  | _ :: _, []     => none
  | a :: p, b :: t => if a = b then afterPrefix? p t else none

theorem afterPrefix?_eq_some_iff {p t r : Text} : afterPrefix? p t = some r ↔ t = p ++ r := by
  induction p generalizing t with
  | nil => simp [afterPrefix?]
  | cons a p ih =>
    cases t with
    | nil => simp [afterPrefix?]
    | cons b t =>
      by_cases h : a = b
      · simp [afterPrefix?, h, ih]
      · simp [afterPrefix?, h, Ne.symm h]

/-- The pieces of `t` between occurrences of `sep`: one more piece than there are separators. -/
def splitOn (sep : Char) : Text → List Text
  | []     => [[]]
  | c :: t =>
    if c = sep then [] :: splitOn sep t
    else match splitOn sep t with
      | []      => [[c]]
      | p :: ps => (c :: p) :: ps

/-- The texts one after the other, `sep` between neighbours. -/
def join (sep : Text) : List Text → Text
  | []          => []
  | [t]         => t
  | t :: u :: l => t ++ sep ++ join sep (u :: l)

/-- Decimal digits of a number. -/
def ofNat (n : Nat) : Text := Nat.toDigits 10 n

/-- Decimal digits of a number, after a minus sign if it is negative. -/
def ofInt (i : Int) : Text := if i < 0 then '-' :: ofNat i.natAbs else ofNat i.natAbs

/-- The text `t` with spaces added on the left up to `width` characters. -/
def padLeft (width : Nat) (t : Text) : Text := List.replicate (width - t.length) ' ' ++ t

/-- The text `t` with spaces added on the right up to `width` characters. -/
def padRight (width : Nat) (t : Text) : Text := t ++ List.replicate (width - t.length) ' '

end Text
end CommandConsole

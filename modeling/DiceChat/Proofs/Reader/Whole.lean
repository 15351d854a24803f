import DiceChat.Reader.Digits

/-!
# Whole numbers in a text

What a whole number looks like, and that reading one takes exactly that off the front of a text. A
number ends where no digit follows; only a zero ends by itself. Its digits are those of its value.
-/

namespace DiceChat.Reader

variable {ε : Type}

inductive Whole : List Char → Prop
  | zero : Whole ['0']
  | digits {c : Char} {ds : List Char} :
      isLeadingDigit c = true → (∀ d ∈ ds, d.isDigit = true) → Whole (c :: ds)

def DigitRow (w : List Char) : Prop := w ≠ [] ∧ ∀ d ∈ w, d.isDigit = true

def NoDigitNext (rest : List Char) : Prop := ∀ c ∈ rest.head?, c.isDigit = false

theorem noDigitNext_cons {c : Char} (h : c.isDigit = false) (rest : List Char) :
    NoDigitNext (c :: rest) := by
  rintro d ⟨⟩
  exact h

theorem Whole.digitRow {w : List Char} (h : Whole w) : DigitRow w := by
  cases h with
  | zero => exact ⟨by simp, by simp⟩
  | digits hc hds =>
    refine ⟨by simp, ?_⟩
    simp only [isLeadingDigit, Bool.and_eq_true] at hc
    simpa [hc.1] using hds

theorem takeWhile_digits {ds rest : List Char} (h : ∀ d ∈ ds, d.isDigit = true)
    (hr : NoDigitNext rest) : (ds ++ rest).takeWhile Char.isDigit = ds := by
  rw [List.takeWhile_append_of_pos h]
  cases rest with
  | nil => simp
  | cons c rest => simp [hr c rfl]

theorem dropWhile_digits {ds rest : List Char} (h : ∀ d ∈ ds, d.isDigit = true)
    (hr : NoDigitNext rest) : (ds ++ rest).dropWhile Char.isDigit = rest := by
  rw [List.dropWhile_append_of_pos h]
  cases rest with
  | nil => rfl
  | cons c rest => simp [hr c rfl]

theorem wholeNumber_of_not_digit {s : List Char} (h : NoDigitNext s) :
    (wholeNumber : Reader ε (List Char)).run? s = none := by
  cases s with
  | nil => simp [wholeNumber]
  | cons c s =>
    have hc : c.isDigit = false := h c rfl
    have : c ≠ '0' := by rintro rfl; exact absurd hc (by decide)
    simp [wholeNumber, isLeadingDigit, hc, this]

theorem wholeNumber_complete {w rest : List Char} (h : Whole w) (hr : NoDigitNext rest) :
    (wholeNumber : Reader ε (List Char)).run? (w ++ rest) = some (w, rest) := by
  cases h with
  | zero => simp [wholeNumber, isLeadingDigit]
  | digits hc hds =>
    simp [wholeNumber, hc, takeWhile_digits hds hr, dropWhile_digits hds hr]

theorem wholeNumber_sound {s w rest : List Char}
    (h : (wholeNumber : Reader ε (List Char)).run? s = some (w, rest)) :
    s = w ++ rest ∧ Whole w := by
  cases s with
  | nil => simp [wholeNumber] at h
  | cons c s =>
    by_cases hc : isLeadingDigit c
    · simp [wholeNumber, hc] at h
      obtain ⟨rfl, rfl⟩ := h
      exact ⟨by simp, .digits hc (List.all_eq_true.mp List.all_takeWhile)⟩
    · by_cases hz : c = '0'
      · subst hz
        simp [wholeNumber, hc] at h
        obtain ⟨rfl, rfl⟩ := h
        exact ⟨rfl, .zero⟩
      · simp [wholeNumber, hc, hz] at h

theorem digits_complete {w rest : List Char} (h : DigitRow w) (hr : NoDigitNext rest) :
    (digits : Reader ε (List Char)).run? (w ++ rest) = some (w, rest) := by
  obtain ⟨hne, hw⟩ := h
  cases w with
  | nil => exact absurd rfl hne
  | cons c ds =>
    have hds : ∀ d ∈ ds, d.isDigit = true := fun d hd => hw d (List.mem_cons_of_mem _ hd)
    simp [hw c List.mem_cons_self, takeWhile_digits hds hr, dropWhile_digits hds hr]

theorem digits_sound {s w rest : List Char}
    (h : (digits : Reader ε (List Char)).run? s = some (w, rest)) :
    s = w ++ rest ∧ DigitRow w := by
  cases s with
  | nil => simp at h
  | cons c s =>
    by_cases hc : c.isDigit
    · simp [hc] at h
      obtain ⟨rfl, rfl⟩ := h
      refine ⟨by simp, by simp, fun d hd => ?_⟩
      rcases List.mem_cons.mp hd with rfl | hd
      · exact hc
      · exact List.all_eq_true.mp List.all_takeWhile d hd
    · simp [hc] at h

-- ---------------------------------------------------------------------------
-- Digits and values
-- ---------------------------------------------------------------------------

theorem digitChar_of_isDigit {c : Char} (h : c.isDigit = true) :
    c.toNat - '0'.toNat < 10 ∧ Nat.digitChar (c.toNat - '0'.toNat) = c := by
  obtain ⟨low, high⟩ : 48 ≤ c.toNat ∧ c.toNat ≤ 57 := Char.isDigit_iff_toNat.mp h
  have small : c.toNat - 48 < 10 := by omega
  refine ⟨small, Char.toNat_inj.mp ?_⟩
  rw [show '0'.toNat = 48 from rfl, Nat.toNat_digitChar_of_lt_ten small]
  omega

/-- Digits that follow a number which is not zero are the last digits of what they make of it. -/
theorem toDigits_ofDigitChars {n : Nat} (pos : 0 < n) {ds : List Char}
    (hds : ∀ d ∈ ds, d.isDigit = true) :
    Nat.toDigits 10 (Nat.ofDigitChars 10 ds n) = Nat.toDigits 10 n ++ ds := by
  induction ds generalizing n with
  | nil => simp
  | cons d ds ih =>
    obtain ⟨digit, others⟩ := List.forall_mem_cons.mp hds
    obtain ⟨small, same⟩ := digitChar_of_isDigit digit
    rw [Nat.ofDigitChars_cons, ih (by omega) others,
      ← Nat.toDigits_append_toDigits (by decide) pos small, Nat.toDigits_of_lt_base small, same,
      List.append_assoc, List.singleton_append]

theorem Whole.toDigits_eq {w : List Char} (h : Whole w) :
    Nat.toDigits 10 (Nat.ofDigitChars 10 w 0) = w := by
  cases h with
  | zero => rfl
  | @digits c ds hc hds =>
    simp only [isLeadingDigit, Bool.and_eq_true, bne_iff_ne] at hc
    obtain ⟨small, same⟩ := digitChar_of_isDigit hc.1
    have pos : 0 < c.toNat - '0'.toNat := by
      rcases Nat.eq_zero_or_pos (c.toNat - '0'.toNat) with zero | pos
      · rw [zero] at same
        exact absurd same.symm hc.2
      · exact pos
    rw [Nat.ofDigitChars_cons, Nat.mul_zero, Nat.zero_add, toDigits_ofDigitChars pos hds,
      Nat.toDigits_of_lt_base small, same, List.singleton_append]

end DiceChat.Reader

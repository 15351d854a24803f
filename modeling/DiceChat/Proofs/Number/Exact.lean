import DiceChat.Number.Basic

/-!
# Exact values round to themselves

The last place of a ratio is told by its leading bit, which the estimate from the logarithms of its
parts may miss by one. The number nearest to a ratio whose value is `m * 2 ^ e` in canonical form is
the number with that mantissa and exponent: the last place of the ratio is `e`, and rounding there
has nothing to drop.
-/

namespace DiceChat

-- ---------------------------------------------------------------------------
-- Powers of two
-- ---------------------------------------------------------------------------

theorem shiftLeft_pos {n : Nat} (h : 0 < n) (k : Nat) : 0 < n <<< k := by
  rw [Nat.shiftLeft_eq]
  exact Nat.mul_pos h (Nat.two_pow_pos k)

theorem one_shiftLeft_log2_le {n : Nat} (h : 0 < n) : 1 <<< n.log2 ≤ n := by
  rw [Nat.one_shiftLeft]
  exact Nat.log2_self_le (Nat.ne_of_gt h)

theorem lt_one_shiftLeft_log2 (n : Nat) : n < 1 <<< (n.log2 + 1) := by
  rw [Nat.one_shiftLeft]
  exact Nat.lt_log2_self

theorem shiftLeft_eq_mul (n k : Nat) : n <<< k = n * 1 <<< k := by
  rw [Nat.one_shiftLeft, Nat.shiftLeft_eq]

namespace Number

-- ---------------------------------------------------------------------------
-- The leading bit of a ratio
-- ---------------------------------------------------------------------------

def Below (num den : Nat) (top : Int) : Prop := num <<< (-top).toNat < den <<< top.toNat

instance (num den : Nat) (top : Int) : Decidable (Below num den top) :=
  inferInstanceAs (Decidable (_ < _))

section leading

variable {num den k : Nat} {top : Int}

theorem below_iff (h : -top ≤ k) : Below num den top ↔ num <<< k < den <<< (top + k).toNat := by
  have common : 0 < 1 <<< (k - (-top).toNat) := shiftLeft_pos Nat.one_pos _
  have left : num <<< k = num <<< (-top).toNat * 1 <<< (k - (-top).toNat) := by
    rw [← shiftLeft_eq_mul, ← Nat.shiftLeft_add]
    congr 1
    omega
  have right : den <<< (top + k).toNat = den <<< top.toNat * 1 <<< (k - (-top).toNat) := by
    rw [← shiftLeft_eq_mul, ← Nat.shiftLeft_add]
    congr 1
    omega
  rw [Below, left, right, Nat.mul_lt_mul_right common]

theorem Below.mono {top' : Int} (h : Below num den top) (hle : top ≤ top') :
    Below num den top' := by
  rw [below_iff (k := (-top).toNat) (by omega)] at h ⊢
  refine Nat.lt_of_lt_of_le h ?_
  rw [Nat.shiftLeft_eq, Nat.shiftLeft_eq]
  exact Nat.mul_le_mul_left _ (Nat.pow_le_pow_right (by decide) (by omega))

/-- The logarithms of the parts tell the leading bit of the ratio, but for one place. -/
theorem below_estimate (num : Nat) (hd : 0 < den) :
    Below num den ((num.log2 : Int) - den.log2 + 1) := by
  have top : ((num.log2 : Int) - den.log2 + 1 + den.log2).toNat = num.log2 + 1 := by omega
  rw [below_iff (k := den.log2) (by omega), top, shiftLeft_eq_mul, shiftLeft_eq_mul den,
    Nat.mul_comm]
  calc 1 <<< den.log2 * num
      < 1 <<< den.log2 * 1 <<< (num.log2 + 1) :=
        Nat.mul_lt_mul_of_pos_left (lt_one_shiftLeft_log2 num) (shiftLeft_pos Nat.one_pos _)
    _ ≤ den * 1 <<< (num.log2 + 1) := Nat.mul_le_mul_right _ (one_shiftLeft_log2_le hd)

theorem not_below_estimate (hn : 0 < num) (den : Nat) :
    ¬ Below num den ((num.log2 : Int) - den.log2 - 1) := by
  have top : ((num.log2 : Int) - den.log2 - 1 + (den.log2 + 1 : Nat)).toNat = num.log2 := by omega
  rw [below_iff (k := den.log2 + 1) (by omega), top, shiftLeft_eq_mul, shiftLeft_eq_mul den,
    Nat.not_lt]
  calc den * 1 <<< num.log2
      ≤ 1 <<< (den.log2 + 1) * 1 <<< num.log2 :=
        Nat.mul_le_mul_right _ (Nat.le_of_lt (lt_one_shiftLeft_log2 den))
    _ ≤ 1 <<< (den.log2 + 1) * num := Nat.mul_le_mul_left _ (one_shiftLeft_log2_le hn)
    _ = num * 1 <<< (den.log2 + 1) := Nat.mul_comm _ _

theorem exists_leading (hn : 0 < num) (hd : 0 < den) :
    ∃ top, ¬ Below num den top ∧ Below num den (top + 1) := by
  by_cases h : Below num den ((num.log2 : Int) - den.log2)
  · exact ⟨_, not_below_estimate hn den, by rwa [Int.sub_add_cancel]⟩
  · exact ⟨_, h, below_estimate num hd⟩

theorem lastPlace_of_leading (hn : 0 < num) (hd : 0 < den) (low : ¬ Below num den top)
    (high : Below num den (top + 1)) : lastPlace num den = max (-1074) (top - 52) := by
  have least : (num.log2 : Int) - den.log2 - 1 < top + 1 :=
    Int.not_le.mp fun h => not_below_estimate hn den (high.mono h)
  have greatest : top < (num.log2 : Int) - den.log2 + 1 :=
    Int.not_le.mp fun h => low ((below_estimate num hd).mono h)
  have leading : (if Below num den ((num.log2 : Int) - den.log2)
      then (num.log2 : Int) - den.log2 - 1 else (num.log2 : Int) - den.log2) = top := by
    split
    · next h =>
      have : (num.log2 : Int) - den.log2 ≠ top := fun same => low (same ▸ h)
      omega
    · next h =>
      have : (num.log2 : Int) - den.log2 ≠ top + 1 := fun same => h (same ▸ high)
      omega
  rw [← leading]
  rfl

end leading

-- ---------------------------------------------------------------------------
-- Ratios with the value of a number
-- ---------------------------------------------------------------------------

section exact

variable {m num den : Nat} {e : Int}

theorem below_iff_of_eq (hd : 0 < den) (heq : num <<< (-e).toNat = m * den <<< e.toNat)
    (k : Nat) : Below num den (e + k) ↔ m < 1 <<< k := by
  have places : (e + k + (-e).toNat).toNat = e.toNat + k := by omega
  have right : den <<< (e.toNat + k) = 1 <<< k * den <<< e.toNat := by
    rw [Nat.shiftLeft_add, shiftLeft_eq_mul, Nat.mul_comm]
  rw [below_iff (k := (-e).toNat) (by omega), places, heq, right,
    Nat.mul_lt_mul_right (shiftLeft_pos hd _)]

theorem lastPlace_of_eq (h : Canonical m e) (hm : 0 < m) (hn : 0 < num) (hd : 0 < den)
    (heq : num <<< (-e).toNat = m * den <<< e.toNat) : lastPlace num den = e := by
  have low : ¬ Below num den (e + m.log2) := by
    rw [below_iff_of_eq hd heq]
    exact Nat.not_lt.mpr (one_shiftLeft_log2_le hm)
  have high : Below num den (e + m.log2 + 1) := by
    rw [Int.add_assoc]
    exact (below_iff_of_eq hd heq (m.log2 + 1)).mpr (lt_one_shiftLeft_log2 m)
  obtain ⟨hbits, hleast, -, hleading⟩ := h
  have few : m.log2 < 53 :=
    (Nat.log2_lt (Nat.ne_of_gt hm)).mpr (by rwa [← Nat.one_shiftLeft])
  have many : 52 ≤ m.log2 ∨ e = -1074 := by
    refine hleading.imp_left fun h => (Nat.le_log2 (Nat.ne_of_gt hm)).mpr ?_
    rwa [← Nat.one_shiftLeft]
  rw [lastPlace_of_leading hn hd low high]
  omega

theorem roundHalfEven_mul (hd : 0 < den) : roundHalfEven (m * den) den = m := by
  simp only [roundHalfEven, Nat.mul_mod_left, Nat.mul_div_cancel _ hd]
  rw [if_pos (by omega)]

theorem nearest_of_eq (h : Canonical m e) (hm : 0 < m) (hd : 0 < den)
    (heq : num <<< (-e).toNat = m * den <<< e.toNat) (negative : Bool) :
    nearest negative num den = pack negative m e := by
  have hn : 0 < num := by
    refine Nat.pos_of_ne_zero ?_
    rintro rfl
    rw [Nat.zero_shiftLeft] at heq
    exact absurd heq.symm (Nat.ne_of_gt (Nat.mul_pos hm (shiftLeft_pos hd _)))
  simp only [nearest, Nat.ne_of_gt hn, if_false, lastPlace_of_eq h hm hn hd heq, heq,
    roundHalfEven_mul (shiftLeft_pos hd _)]

theorem pack_of_canonical (h : Canonical m e) (negative : Bool) :
    pack negative m e = .finite negative m e h := by
  rw [pack, dif_pos h]

end exact

end Number

theorem Canonical.least {e : Int} (h : Canonical 0 e) : e = -1074 := by
  obtain ⟨-, -, -, h | h⟩ := h
  · exact absurd h (by decide)
  · exact h

end DiceChat

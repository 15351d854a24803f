import DiceChat.Proofs.Number.ReadBack

/-!
# Numbers of equal ratios

The number nearest to a ratio rests on its value alone: a factor common to both of its parts does
not change it, and its sign only goes along. So a decimal keeps its number when zeros are written
behind it.
-/

namespace DiceChat

namespace Number

-- ---------------------------------------------------------------------------
-- Common factors
-- ---------------------------------------------------------------------------

section factors

variable {num den k : Nat} {top : Int}

theorem below_mul (hk : 0 < k) : Below (k * num) (k * den) top ↔ Below num den top := by
  simp only [Below, Nat.shiftLeft_eq, Nat.mul_assoc]
  exact Nat.mul_lt_mul_left hk

theorem lastPlace_mul (hk : 0 < k) (hn : 0 < num) (hd : 0 < den) :
    lastPlace (k * num) (k * den) = lastPlace num den := by
  obtain ⟨top, low, high⟩ := exists_leading hn hd
  rw [lastPlace_of_leading hn hd low high]
  exact lastPlace_of_leading (Nat.mul_pos hk hn) (Nat.mul_pos hk hd)
    (mt (below_mul hk).mp low) ((below_mul hk).mpr high)

theorem roundHalfEven_mul_mul (hk : 0 < k) :
    roundHalfEven (k * num) (k * den) = roundHalfEven num den := by
  have double : 2 * (k * (num % den)) = k * (2 * (num % den)) := Nat.mul_left_comm _ _ _
  simp only [roundHalfEven, Nat.mul_div_mul_left _ _ hk, Nat.mul_mod_mul_left, double,
    Nat.mul_lt_mul_left hk]

theorem nearest_mul (negative : Bool) (hk : 0 < k) (hd : 0 < den) :
    nearest negative (k * num) (k * den) = nearest negative num den := by
  rcases Nat.eq_zero_or_pos num with rfl | hn
  · rw [Nat.mul_zero]
    simp only [nearest, if_true]
  · have hshift (n i : Nat) : (k * n) <<< i = k * n <<< i := by
      simp only [Nat.shiftLeft_eq, Nat.mul_assoc]
    simp only [nearest, Nat.ne_of_gt hn, Nat.ne_of_gt (Nat.mul_pos hk hn), if_false,
      lastPlace_mul hk hn hd, hshift, roundHalfEven_mul_mul hk]

end factors

-- ---------------------------------------------------------------------------
-- Signs
-- ---------------------------------------------------------------------------

theorem pack_true (m : Nat) (e : Int) : pack true m e = (pack false m e).neg := by
  unfold pack
  split
  · rfl
  · split <;> rfl

theorem nearest_true (num den : Nat) : nearest true num den = (nearest false num den).neg := by
  unfold nearest
  split
  · rfl
  · exact pack_true _ _

end Number

namespace Decimal

theorem toNumber_true (d : Decimal) : d.toNumber true = (d.toNumber false).neg := by
  unfold toNumber
  split
  · rfl
  · split
    · rfl
    · split
      · rfl
      · exact Number.nearest_true _ _

theorem toNumber_pointZero (n : Nat) (negative : Bool) :
    toNumber negative ⟨10 * n, -1⟩ = toNumber negative ⟨n, 0⟩ := by
  rcases Nat.eq_zero_or_pos n with rfl | hn
  · rfl
  · have bits : 1 ≤ (10 * n).log2 := (Nat.le_log2 (by omega)).mpr (by omega)
    rw [toNumber_of_nearest (by dsimp only; omega) (by simp) (by dsimp only; omega),
      toNumber_of_nearest hn (by simp) (by simp)]
    have scaled : Number.nearest negative (10 * n) (10 * 1) = Number.nearest negative n 1 :=
      Number.nearest_mul negative (by decide) Nat.one_pos
    simpa using scaled

end Decimal
end DiceChat

import DiceChat.Proofs.Dice.Totals
import DiceChat.Proofs.Source.Falling
import Mathlib.Data.List.Forall2

/-!
# Higher dice total more

If every die falls at least as high as another roll of it, other dice may be dropped or kept, so
what is summed cannot be compared die by die. But the sorted rows compare place by place, and a
rule sums the beginning or the end of the sorted row. So raising dice never lowers a total, and no
roll within the sides of its dice totals more than the one in which all dice show their highest.
-/

namespace DiceChat

-- ---------------------------------------------------------------------------
-- Sorted rows
-- ---------------------------------------------------------------------------

section raised

open Marks

variable {low high : List UInt16}

/-- The value at a place of a sorted row is below a limit if more values are than lie before it. -/
theorem getElem_lt_iff {sorted : List UInt16} (h : sorted.Pairwise (· ≤ ·)) (limit : Nat) {i : Nat}
    (hi : i < sorted.length) : sorted[i].toNat < limit ↔ i < countBelow limit sorted := by
  induction sorted generalizing i with
  | nil => cases hi
  | cons v rest ih =>
    obtain ⟨least, h⟩ := List.pairwise_cons.mp h
    rw [countBelow_cons]
    by_cases hv : v.toNat < limit
    · cases i with
      | zero => simp [hv]
      | succ i => simpa [hv] using ih h (Nat.lt_of_succ_lt_succ hi)
    · -- Where the least value is not below the limit, no value is.
      have nothing : countBelow limit rest = 0 := by
        refine List.countP_eq_zero.mpr fun w hw => ?_
        have le := UInt16.le_iff_toNat_le.mp (least w hw)
        simp only [decide_eq_true_eq]
        omega
      have above : limit ≤ (v :: rest)[i].toNat := by
        rcases List.mem_cons.mp (List.getElem_mem hi) with same | member
        · rw [same]
          exact Nat.le_of_not_lt hv
        · have le := UInt16.le_iff_toNat_le.mp (least _ member)
          omega
      simp [hv, nothing, Nat.not_lt_of_le above]

theorem countBelow_le_of_raised (h : List.Forall₂ (· ≤ ·) low high) (limit : Nat) :
    countBelow limit high ≤ countBelow limit low := by
  induction h with
  | nil => exact Nat.le_refl _
  | cons le _ ih =>
    rw [countBelow_cons, countBelow_cons]
    have := UInt16.le_iff_toNat_le.mp le
    split <;> split <;> omega

theorem countBelow_mergeSort (limit : Nat) (values : List UInt16) :
    countBelow limit values.mergeSort = countBelow limit values :=
  (List.mergeSort_perm _ _).countP_eq _

theorem raised_mergeSort (h : List.Forall₂ (· ≤ ·) low high) :
    List.Forall₂ (· ≤ ·) low.mergeSort high.mergeSort := by
  refine List.forall₂_iff_get.mpr ⟨by simp [h.length_eq], fun i hlow hhigh => ?_⟩
  refine UInt16.le_iff_toNat_le.mpr (Nat.le_of_not_lt fun less => ?_)
  -- Then more values than `i` of the raised row would be below the value at `i` of the other.
  have more := (getElem_lt_iff (pairwise_mergeSort_word high) _ hhigh).mp less
  have fewer := countBelow_le_of_raised h low.mergeSort[i].toNat
  rw [countBelow_mergeSort] at more
  have itself := (getElem_lt_iff (pairwise_mergeSort_word low) low.mergeSort[i].toNat hlow).mpr
  rw [countBelow_mergeSort] at itself
  exact Nat.lt_irrefl _ (itself (Nat.lt_of_lt_of_le more fewer))

theorem Rule.raised_counted (rule : Rule) (n : Nat) (h : List.Forall₂ (· ≤ ·) low high) :
    List.Forall₂ (· ≤ ·) (rule.counted n low) (rule.counted n high) := by
  cases rule with
  | dropLowest => exact List.forall₂_drop n h
  | keepLowest => exact List.forall₂_take n h
  | dropHighest | keepHighest =>
    simp only [counted, h.length_eq]
    exact List.forall₂_drop _ h

theorem valueSum_le_of_raised (h : List.Forall₂ (· ≤ ·) low high) :
    valueSum low ≤ valueSum high := by
  induction h with
  | nil => exact Nat.le_refl _
  | cons le _ ih => exact Nat.add_le_add (UInt16.le_iff_toNat_le.mp le) ih

end raised

-- ---------------------------------------------------------------------------
-- Totals
-- ---------------------------------------------------------------------------

namespace Rolled

theorem valueSum_summed_le {r raised : Rolled} (same : r.dice.selection = raised.dice.selection)
    (h : List.Forall₂ (· ≤ ·) r.values raised.values) :
    valueSum r.summed ≤ valueSum raised.summed := by
  unfold summed
  rw [← same]
  cases r.dice.selection with
  | none => exact valueSum_le_of_raised h
  | some s =>
    have sorted (values : List UInt16) := valueSum_perm (s.rule.summed_perm s.count.toNat values)
    simp only [sorted]
    exact valueSum_le_of_raised (s.rule.raised_counted _ (raised_mergeSort h))

theorem total?_le {r raised : Rolled} (same : r.dice.selection = raised.dice.selection)
    (h : List.Forall₂ (· ≤ ·) r.values raised.values) {low high : Nat}
    (hlow : r.total? = some low) (hhigh : raised.total? = some high) : low ≤ high := by
  rw [(total?_eq_some_iff.mp hlow).1, (total?_eq_some_iff.mp hhigh).1]
  exact valueSum_summed_le same h

end Rolled

-- ---------------------------------------------------------------------------
-- The highest roll
-- ---------------------------------------------------------------------------

theorem Draw.fall_maximum (row : List UInt16) :
    (fall row).Gives Roller.maximum row .maximum := by
  induction row with
  | nil => rfl
  | cons sides row ih =>
    exact gives_bind.mpr ⟨sides, .maximum, rfl, gives_bind.mpr ⟨row, .maximum, ih, rfl⟩⟩

theorem Draw.selected_maximum {d : Dice} (valid : d.isValid = true) :
    (selected d).Gives Roller.maximum
      (.ok (Rolled.ofValues d (List.replicate d.count.toNat d.sides)).applySelection) .maximum := by
  rw [selected_eq_fall valid, gives_map]
  exact ⟨_, fall_maximum _, rfl⟩

theorem forall₂_replicate (values : List UInt16) (top : UInt16) (h : ∀ v ∈ values, v ≤ top) :
    List.Forall₂ (· ≤ ·) values (List.replicate values.length top) := by
  induction values with
  | nil => exact .nil
  | cons v values ih =>
    exact .cons (h v List.mem_cons_self) (ih fun w hw => h w (List.mem_cons_of_mem v hw))

theorem valueSum_replicate (n : Nat) (v : UInt16) :
    valueSum (List.replicate n v) = n * v.toNat := by
  induction n with
  | zero => simp [valueSum]
  | succ n ih =>
    rw [Nat.succ_mul, ← ih, Nat.add_comm (valueSum _)]
    rfl

/-- Raising dice never lowers their total, and a total that has more than 32 bits still has more.
Dice that fall within their sides, however they do, total at most what the highest roller gives. -/
theorem Rolled.total?_raised :
    (∀ r raised : Rolled, r.dice.selection = raised.dice.selection →
      List.Forall₂ (· ≤ ·) r.values raised.values →
      (∀ low high, r.total? = some low → raised.total? = some high → low ≤ high) ∧
      (r.total? = none → raised.total? = none)) ∧
    ∀ r : Rolled, r.dice.isValid = true → r.values.length = r.dice.count.toNat →
      (∀ v ∈ r.values, v ≤ r.dice.sides) →
      ∃ top total highest,
        (Draw.selected r.dice).Gives Roller.maximum (.ok top) .maximum ∧
        r.total? = some total ∧ top.total? = some highest ∧ total ≤ highest := by
  refine ⟨fun r raised same h => ⟨fun low high => total?_le same h, fun exceeds => ?_⟩, ?_⟩
  · unfold total? at exceeds ⊢
    rw [total?_eq_none_iff] at exceeds ⊢
    exact exceeds.trans (valueSum_summed_le same h)
  · intro r valid length within
    let top := (ofValues r.dice (List.replicate r.dice.count.toNat r.dice.sides)).applySelection
    have same : top.dice = r.dice := by simp [top]
    have highest : top.values = List.replicate r.values.length r.dice.sides := by
      simp [top, length]
    obtain ⟨total, htotal⟩ := Option.isSome_iff_exists.mp (total?_isSome length)
    obtain ⟨highestTotal, hhighest⟩ := Option.isSome_iff_exists.mp
      (total?_isSome (r := top) (by rw [highest, same, List.length_replicate, length]))
    refine ⟨top, total, highestTotal, Draw.selected_maximum valid, htotal, hhighest, ?_⟩
    exact total?_le (by rw [same]) (highest ▸ forall₂_replicate _ _ within) htotal hhighest

/-- When the lowest of three dice overtakes the others, another one is dropped for it. Too many dice
have no total, and raising them gives them none. -/
theorem Rolled.total?_raised_overtaking :
    let dice : Dice := ⟨3, 6, some ⟨.dropLowest, 1⟩⟩
    let long (v : UInt16) := ofValues ⟨1, 1, none⟩ (List.replicate 65539 v)
    ((ofValues dice [1, 5, 2]).total? = some 7 ∧ (ofValues dice [6, 5, 2]).total? = some 11 ∧
      7 ≤ 11) ∧
    ((long 65534).total? = none ∧ (long 65535).total? = none) ∧
    ∃ top total highest,
      (Draw.selected dice).Gives Roller.maximum (.ok top) .maximum ∧
      (ofValues dice [1, 5, 2]).total? = some total ∧ top.total? = some highest ∧
      total ≤ highest := by
  intro dice long
  obtain ⟨raises, within⟩ := total?_raised
  have low : (ofValues dice [1, 5, 2]).total? = some 7 := by decide
  have high : (ofValues dice [6, 5, 2]).total? = some 11 := by decide
  have exceeds : (long 65534).total? = none := by
    rw [total?, total?_eq_none_iff,
      show (long 65534).summed = List.replicate 65539 65534 from values_ofValues _ _,
      valueSum_replicate]
    decide
  refine ⟨⟨low, high, ?_⟩, ⟨exceeds, ?_⟩, ?_⟩
  · obtain ⟨le, -⟩ := raises (ofValues dice [1, 5, 2]) (ofValues dice [6, 5, 2]) rfl (by decide)
    exact le 7 11 low high
  · refine (raises (long 65534) (long 65535) rfl ?_).2 exceeds
    rw [values_ofValues, values_ofValues]
    have inside : ∀ v ∈ List.replicate 65539 (65534 : UInt16), v ≤ 65535 := by
      intro v hv
      obtain rfl := List.eq_of_mem_replicate hv
      decide
    have le := forall₂_replicate _ _ inside
    rwa [List.length_replicate] at le
  · refine within (ofValues dice [1, 5, 2]) (by decide) (by decide) ?_
    rw [values_ofValues]
    simp only [List.forall_mem_cons]
    exact ⟨by decide, by decide, by decide, by simp⟩

end DiceChat

import DiceChat.Dice.Rolled
import DiceChat.Proofs.Dice.Ranks
import Mathlib.Data.List.Sort

/-!
# Totals of dice

What a rule sums is, in another order, the beginning or the end of the sorted row, so a total
depends only on which values fell and not on their order. It is missing just when the sum has more
than 32 bits, which takes more than 65537 dice.
-/

namespace DiceChat

-- ---------------------------------------------------------------------------
-- Selected values
-- ---------------------------------------------------------------------------

namespace Marks

theorem select_sublist (marks : Marks) (values : List UInt16) :
    (marks.select values).Sublist values := by
  induction values generalizing marks with
  | nil => cases marks <;> exact .slnil
  | cons v values ih =>
    cases marks with
    | nil => exact List.nil_sublist _
    | cons mark marks =>
      cases mark with
      | false => exact (ih marks).cons v
      | true => exact (ih marks).cons_cons v

theorem length_select (marks : Marks) (values : List UInt16) (h : marks.length = values.length) :
    (marks.select values).length = marks.count true := by
  induction values generalizing marks with
  | nil => simp_all [select]
  | cons v values ih =>
    cases marks with
    | nil => cases h
    | cons mark marks =>
      have rest := ih marks (Nat.succ.inj h)
      cases mark <;> simp [select, rest]

theorem select_perm (marks : Marks) (values : List UInt16) (h : marks.length = values.length) :
    (marks.select values ++ marks.complement.select values).Perm values := by
  induction values generalizing marks with
  | nil => cases marks <;> exact .nil
  | cons v values ih =>
    cases marks with
    | nil => cases h
    | cons mark marks =>
      have rest := ih marks (Nat.succ.inj h)
      cases mark with
      | false => exact List.perm_middle.trans (rest.cons v)
      | true => exact rest.cons v

theorem le_of_mem_select_below {limit n : Nat} {values : List UInt16} {a : UInt16}
    (h : a ∈ (below limit n values).1.select values) : a.toNat ≤ limit := by
  induction values with
  | nil => simp [below, select] at h
  | cons v values ih =>
    simp only [below] at h
    split at h
    · next less =>
      rcases List.mem_cons.mp h with rfl | h
      · exact less.le
      · exact ih h
    · split at h
      · next same =>
        rcases List.mem_cons.mp h with rfl | h
        · exact same.1.le
        · exact ih h
      · exact ih h

theorem le_of_mem_select_complement_below {limit n : Nat} {values : List UInt16} {a : UInt16}
    (h : a ∈ (below limit n values).1.complement.select values) : limit ≤ a.toNat := by
  induction values with
  | nil => simp [below, complement, select] at h
  | cons v values ih =>
    simp only [below] at h
    split at h
    · exact ih h
    · next notLess =>
      split at h
      · exact ih h
      · rcases List.mem_cons.mp h with rfl | h
        · exact Nat.le_of_not_lt notLess
        · exact ih h

end Marks

-- ---------------------------------------------------------------------------
-- Sorted rows
-- ---------------------------------------------------------------------------

section sorted

open Marks

theorem pairwise_mergeSort_word (values : List UInt16) : values.mergeSort.Pairwise (· ≤ ·) := by
  have h := @List.pairwise_mergeSort UInt16 (fun a b => decide (a ≤ b))
    (fun _ _ _ => by simpa using UInt16.le_trans) (fun a b => by simpa using UInt16.le_total a b)
    values
  simpa using h

theorem eq_of_perm_of_pairwise {a b : List UInt16} (h : a.Perm b) (ha : a.Pairwise (· ≤ ·))
    (hb : b.Pairwise (· ≤ ·)) : a = b :=
  h.eq_of_pairwise (fun _ _ _ _ => UInt16.le_antisymm) ha hb

/-- A row that falls into low and high values is sorted by sorting both. -/
theorem mergeSort_eq_append {values low high : List UInt16} (h : (low ++ high).Perm values)
    (le : ∀ a ∈ low, ∀ b ∈ high, a ≤ b) :
    values.mergeSort = low.mergeSort ++ high.mergeSort := by
  refine eq_of_perm_of_pairwise ?_ (pairwise_mergeSort_word _) ?_
  · exact (List.mergeSort_perm _ _).trans
      (h.symm.trans ((List.mergeSort_perm _ _).append (List.mergeSort_perm _ _)).symm)
  · refine List.pairwise_append.mpr ⟨pairwise_mergeSort_word _, pairwise_mergeSort_word _, ?_⟩
    intro a ha b hb
    exact le a (List.mem_mergeSort.mp ha) b (List.mem_mergeSort.mp hb)

variable (n : Nat) (values : List UInt16)

theorem mergeSort_eq_lowest : values.mergeSort =
    ((lowest n values).select values).mergeSort ++
      ((lowest n values).complement.select values).mergeSort := by
  refine mergeSort_eq_append (select_perm _ _ (length_lowest n values)) ?_
  intro a ha b hb
  exact UInt16.le_iff_toNat_le.mpr
    ((le_of_mem_select_below ha).trans (le_of_mem_select_complement_below hb))

theorem length_select_lowest :
    ((lowest n values).select values).length = min n values.length := by
  rw [length_select _ _ (length_lowest n values), ← length_places, length_places_lowest]

theorem take_append_of_length {low high : List UInt16}
    (h : low.length = min n (low ++ high).length) :
    (low ++ high).take n = low ∧ (low ++ high).drop n = high := by
  rcases Nat.le_total n (low ++ high).length with enough | short
  · rw [Nat.min_eq_left enough] at h
    exact ⟨List.take_left' h, List.drop_left' h⟩
  · have nothing : high = [] := by
      simp only [List.length_append] at h short
      exact List.eq_nil_of_length_eq_zero (by omega)
    simp_all

theorem take_drop_mergeSort :
    values.mergeSort.take n = ((lowest n values).select values).mergeSort ∧
      values.mergeSort.drop n = ((lowest n values).complement.select values).mergeSort := by
  have both := mergeSort_eq_lowest n values
  rw [both]
  apply take_append_of_length
  rw [← both, List.length_mergeSort, List.length_mergeSort, length_select_lowest]

end sorted

def Rule.counted (rule : Rule) (n : Nat) (sorted : List UInt16) : List UInt16 :=
  match rule with
  | .dropLowest => sorted.drop n
  | .keepLowest => sorted.take n
  | .dropHighest | .keepHighest => sorted.drop (sorted.length - n)

theorem Rule.summed_perm (rule : Rule) (n : Nat) (values : List UInt16) :
    (rule.summed n values).Perm (rule.counted n values.mergeSort) := by
  have low (n : Nat) : ((Marks.lowest n values).select values).Perm (values.mergeSort.take n) := by
    rw [(take_drop_mergeSort n values).1]
    exact (List.mergeSort_perm _ _).symm
  have high (n : Nat) :
      ((Marks.lowest n values).complement.select values).Perm (values.mergeSort.drop n) := by
    rw [(take_drop_mergeSort n values).2]
    exact (List.mergeSort_perm _ _).symm
  cases rule with
  | dropLowest => exact high n
  | dropHighest => simpa [counted, summed, crossedOut, Marks.highest] using high (values.length - n)
  | keepHighest => simpa [counted, summed, crossedOut] using high (values.length - n)
  | keepLowest =>
    have all : values.mergeSort.take (values.length - (values.length - n)) =
        values.mergeSort.take n := by
      refine List.take_eq_take_iff.mpr ?_
      rw [List.length_mergeSort]
      omega
    have kept := low (values.length - (values.length - n))
    rw [all] at kept
    simpa [counted, summed, crossedOut, Marks.highest] using kept

-- ---------------------------------------------------------------------------
-- Totals
-- ---------------------------------------------------------------------------

def valueSum (values : List UInt16) : Nat := values.foldr (fun v sum => v.toNat + sum) 0

/-- Adds one value after the other, and gives up at a sum that has more than 32 bits. -/
def addUp? (values : List UInt16) : Option Nat :=
  values.foldlM (fun sum v =>
    if sum + v.toNat < UInt32.size then some (sum + v.toNat) else none) 0

theorem valueSum_perm {a b : List UInt16} (h : a.Perm b) : valueSum a = valueSum b := by
  induction h with
  | nil => rfl
  | cons v _ ih => simp_all [valueSum]
  | swap v w values =>
    simp only [valueSum, List.foldr_cons]
    omega
  | trans _ _ ih ih' => exact ih.trans ih'

theorem valueSum_le (values : List UInt16) : valueSum values ≤ 65535 * values.length := by
  induction values with
  | nil => exact Nat.le_refl 0
  | cons v values ih =>
    have := v.toNat_lt
    simp only [valueSum, List.foldr_cons, List.length_cons] at ih ⊢
    omega

theorem total?_eq_some_iff {values : List UInt16} {total : Nat} :
    total? values = some total ↔ total = valueSum values ∧ valueSum values < UInt32.size := by
  simp only [total?, valueSum]
  split
  · simp_all [eq_comm]
  · simp_all

theorem total?_eq_none_iff {values : List UInt16} :
    total? values = none ↔ UInt32.size ≤ valueSum values := by
  simp only [total?, valueSum]
  split
  · simp_all
  · simp_all

/-- A sum can only grow, so it has too many bits at the end if it ever has. -/
theorem addUp?_eq_total? (values : List UInt16) : addUp? values = total? values := by
  suffices ∀ start < UInt32.size, values.foldlM (fun sum v =>
      if sum + v.toNat < UInt32.size then some (sum + v.toNat) else none) start =
        if start + valueSum values < UInt32.size then some (start + valueSum values) else none by
    simpa [addUp?, total?, valueSum] using this 0 (by decide)
  intro start fits
  induction values generalizing start with
  | nil => simp [valueSum, fits]
  | cons v values ih =>
    have whole : start + valueSum (v :: values) = start + v.toNat + valueSum values := by
      simp only [valueSum, List.foldr_cons]
      omega
    simp only [List.foldlM_cons, whole]
    split
    · next fits => exact ih _ fits
    · next exceeds => simp [if_neg (show ¬start + v.toNat + valueSum values < UInt32.size by omega)]

theorem total?_perm {a b : List UInt16} (h : a.Perm b) : total? a = total? b := by
  have same : valueSum a = valueSum b := valueSum_perm h
  simp only [valueSum] at same
  simp only [total?, same]

theorem Rule.length_summed_le (rule : Rule) (n : Nat) (values : List UInt16) :
    (rule.summed n values).length ≤ values.length := by
  simp only [summed]
  exact (Marks.select_sublist _ _).length_le

/-- 65537 dice cannot fall so high that their sum has more than 32 bits. -/
theorem total?_isSome {values : List UInt16} (few : values.length ≤ 65537) :
    (total? values).isSome = true := by
  have sum := valueSum_le values
  have fits : valueSum values < UInt32.size := by
    rw [UInt32.size]
    omega
  rw [total?_eq_some_iff.mpr ⟨rfl, fits⟩]
  rfl

theorem Rolled.total?_isSome {r : Rolled} (h : r.values.length = r.dice.count.toNat) :
    r.total?.isSome = true := by
  have few : r.values.length ≤ 65537 := by
    have := r.dice.count.toNat_lt
    omega
  unfold total? summed
  cases r.dice.selection with
  | none => exact DiceChat.total?_isSome few
  | some s => exact DiceChat.total?_isSome ((s.rule.length_summed_le _ _).trans few)

/-- A rule totals a part of the sorted row, if the sum has at most 32 bits, whether the sum is
looked at in the end or after every value. The order in which the dice fell does not matter. -/
theorem Rule.total?_summed (rule : Rule) (n : Nat) (values : List UInt16) :
    (∀ total, total? (rule.summed n values) = some total ↔
      total = valueSum (rule.counted n values.mergeSort) ∧ total ≤ 4294967295) ∧
    (total? (rule.summed n values) = none ↔
      4294967295 < valueSum (rule.counted n values.mergeSort)) ∧
    addUp? (rule.summed n values) = total? (rule.summed n values) ∧
    (∀ others : List UInt16, others.Perm values →
      total? (rule.summed n others) = total? (rule.summed n values)) ∧
    (values.length ≤ 65537 → (total? (rule.summed n values)).isSome = true) := by
  have sorted (values : List UInt16) :
      total? (rule.summed n values) = total? (rule.counted n values.mergeSort) :=
    total?_perm (rule.summed_perm n values)
  refine ⟨?_, ?_, addUp?_eq_total? _, ?_, ?_⟩
  · intro total
    rw [sorted, total?_eq_some_iff, UInt32.size]
    omega
  · rw [sorted, total?_eq_none_iff, UInt32.size]
    omega
  · intro others perm
    rw [sorted, sorted, eq_of_perm_of_pairwise
      ((List.mergeSort_perm _ _).trans (perm.trans (List.mergeSort_perm _ _).symm))
      (pairwise_mergeSort_word _) (pairwise_mergeSort_word _)]
  · intro few
    exact total?_isSome ((rule.length_summed_le n values).trans few)

theorem Rule.total?_summed_tie :
    total? (dropHighest.summed 2 [2, 5, 5, 3]) = some 10 ∧
      total? (dropHighest.summed 2 [5, 3, 2, 5]) = total? (dropHighest.summed 2 [2, 5, 5, 3]) ∧
      [2, 5, 5, 3].length ≤ 65537 ∧
      (total? (dropHighest.summed 2 [2, 5, 5, 3])).isSome = true := by
  obtain ⟨-, -, -, order, few⟩ := total?_summed dropHighest 2 [2, 5, 5, 3]
  exact ⟨by decide, order [5, 3, 2, 5] (by decide), by decide, few (by decide)⟩

end DiceChat

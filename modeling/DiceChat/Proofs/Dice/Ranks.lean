import DiceChat.Dice.Marks
import Mathlib.Data.Fintype.Card
import Mathlib.Data.Fintype.Fin

/-!
# Ranks of dice

The values of a row are put in one order: lower values before higher ones, and of equal values the
later one first. The rank of a value is the number of those before it. Every rule crosses out the
values whose rank, counted from one end, is below its count, or all but those.
-/

namespace DiceChat

namespace Marks

/-- The places of all that is lower than what lies at `i`. -/
def lower (values : List UInt16) (i : Fin values.length) : Finset (Fin values.length) :=
  Finset.univ.filter fun j => values[j] < values[i] ∨ (values[j] = values[i] ∧ i < j)

/-- The places of all that is higher than what lies at `i`. -/
def higher (values : List UInt16) (i : Fin values.length) : Finset (Fin values.length) :=
  Finset.univ.filter fun j => values[i] < values[j] ∨ (values[j] = values[i] ∧ j < i)

-- ---------------------------------------------------------------------------
-- Places
-- ---------------------------------------------------------------------------

theorem places_cons (mark : Bool) (marks : Marks) :
    places (mark :: marks) = (if mark then [0] else []) ++ (places marks).map (· + 1) := by
  simp only [places, List.zipIdx_cons, List.zipIdx_succ, List.filterMap_cons, List.filterMap_map,
    List.map_filterMap]
  cases mark <;> simp

theorem mem_places (marks : Marks) (i : Nat) : i ∈ places marks ↔ marks[i]? = some true := by
  simp [places, List.mem_zipIdx_iff_getElem?]

theorem length_places (marks : Marks) : (places marks).length = marks.count true := by
  induction marks with
  | nil => rfl
  | cons mark marks ih => cases mark <;> simp [places_cons, ih]

theorem places_sublist (marks : Marks) : (places marks).Sublist (List.range marks.length) := by
  induction marks with
  | nil => exact .slnil
  | cons mark marks ih =>
    simp only [places_cons, List.length_cons, List.range_succ_eq_map]
    cases mark with
    | false => exact (ih.map _).cons 0
    | true => exact (ih.map _).cons_cons 0

theorem mem_places_complement (marks : Marks) (i : Nat) (h : i < marks.length) :
    i ∈ places marks.complement ↔ i ∉ places marks := by
  simp [mem_places, complement, h]

@[simp] theorem complement_complement (marks : Marks) : marks.complement.complement = marks := by
  simp [complement, Function.comp_def]

theorem length_places_complement (marks : Marks) :
    (places marks.complement).length = marks.length - (places marks).length := by
  simp only [length_places]
  induction marks with
  | nil => rfl
  | cons mark marks ih =>
    have := List.count_le_length (a := true) (l := marks)
    cases mark
    · simp_all [complement]
      omega
    · simp_all [complement]

-- ---------------------------------------------------------------------------
-- Marks below a limit
-- ---------------------------------------------------------------------------

def countAt (limit : Nat) (values : List UInt16) : Nat := values.countP (·.toNat = limit)

theorem countAt_cons (limit : Nat) (v : UInt16) (values : List UInt16) :
    countAt limit (v :: values) = countAt limit values + if v.toNat = limit then 1 else 0 := by
  simp [countAt, List.countP_cons]

theorem countBelow_cons (limit : Nat) (v : UInt16) (values : List UInt16) :
    countBelow limit (v :: values) =
      countBelow limit values + if v.toNat < limit then 1 else 0 := by
  simp [countBelow, List.countP_cons]

theorem countBelow_succ (limit : Nat) (values : List UInt16) :
    countBelow (limit + 1) values = countBelow limit values + countAt limit values := by
  induction values with
  | nil => rfl
  | cons v values ih =>
    simp only [countBelow_cons, countAt_cons, ih]
    split <;> split <;> split <;> omega

theorem countBelow_mono {limit top : Nat} (h : limit ≤ top) (values : List UInt16) :
    countBelow limit values ≤ countBelow top values := by
  apply List.countP_mono_left
  intro v _ below
  simp only [decide_eq_true_eq] at below ⊢
  omega

theorem countBelow_of_top (values : List UInt16) :
    countBelow UInt16.size values = values.length :=
  List.countP_eq_length.mpr fun v _ => by simpa using v.toNat_lt

theorem countAt_drop (values : List UInt16) (i : Nat) (h : i < values.length) :
    countAt values[i].toNat (values.drop (i + 1)) < countAt values[i].toNat values := by
  have all := (List.drop_sublist i values).countP_le (p := (·.toNat = values[i].toNat))
  rw [List.drop_eq_getElem_cons h] at all
  simp only [List.countP_cons, decide_true, if_true] at all
  exact all

theorem snd_below (limit n : Nat) (values : List UInt16) :
    (below limit n values).2 = n - countAt limit values := by
  induction values with
  | nil => rfl
  | cons v values ih =>
    rcases Nat.lt_trichotomy v.toNat limit with h | h | h
    · simp [below, countAt_cons, h, h.ne, ih]
    · simp only [below, h, Nat.lt_irrefl, countAt_cons, ih, true_and, if_true, if_false]
      split <;> omega
    · simp [below, countAt_cons, Nat.not_lt_of_gt h, h.ne', ih]

theorem count_below (limit n : Nat) (values : List UInt16) :
    (below limit n values).1.count true =
      countBelow limit values + min n (countAt limit values) := by
  induction values with
  | nil => simp [below, countBelow, countAt]
  | cons v values ih =>
    have left := snd_below limit n values
    rcases Nat.lt_trichotomy v.toNat limit with h | h | h
    · simp [below, countBelow_cons, countAt_cons, h, h.ne, ih]
      omega
    · simp only [below, h, Nat.lt_irrefl, countBelow_cons, countAt_cons, left, true_and, if_true,
        if_false]
      split
      · simp [ih]
        omega
      · simp [ih]
        omega
    · simp [below, countBelow_cons, countAt_cons, Nat.not_lt_of_gt h, h.ne', ih]

theorem getElem?_below (limit n : Nat) (values : List UInt16) (i : Nat) (h : i < values.length) :
    (below limit n values).1[i]? = some true ↔ values[i].toNat < limit ∨
      (values[i].toNat = limit ∧ countAt limit (values.drop (i + 1)) < n) := by
  induction values generalizing i with
  | nil => cases h
  | cons v values ih =>
    cases i with
    | zero =>
      have left := snd_below limit n values
      rcases Nat.lt_trichotomy v.toNat limit with h | h | h
      · simp [below, h]
      · simp only [below, h, Nat.lt_irrefl, left, true_and, if_false, Nat.sub_pos_iff_lt]
        split
        · simp_all
        · simp_all
      · simp [below, Nat.not_lt_of_gt h, h.ne']
    | succ i =>
      have := ih i (Nat.lt_of_succ_lt_succ h)
      simp only [below]
      split
      · simpa using this
      · split <;> simpa using this

-- ---------------------------------------------------------------------------
-- The lowest and the highest
-- ---------------------------------------------------------------------------

section ranks

variable (n : Nat) (values : List UInt16)

theorem limit_bounds :
    (countBelow (nthLowest n values 16 0) values < n ∨ nthLowest n values 16 0 = 0) ∧
      (n ≤ countBelow (nthLowest n values 16 0 + 1) values ∨
        nthLowest n values 16 0 = 65535) := by
  simpa using countBelow_nthLowest n values 16 0

theorem card_from (p : UInt16 → Prop) [DecidablePred p] (start : Nat) :
    (Finset.univ.filter fun j : Fin values.length => p values[j] ∧ start ≤ j.val).card =
      (values.drop start).countP (p ·) := by
  induction values generalizing start with
  | nil => simp
  | cons v values ih =>
    refine (Fin.card_filter_univ_succ _).trans ?_
    cases start with
    | zero =>
      have rest := ih 0
      by_cases h : p v
      · simp_all
      · simp_all
    | succ start =>
      have rest := ih start
      simp_all

variable {values} (i : Fin values.length)

theorem card_lower : (lower values i).card =
    countBelow values[i].toNat values + countAt values[i].toNat (values.drop (i + 1)) := by
  have less := card_from values (· < values[i]) 0
  have later := card_from values (· = values[i]) (i + 1)
  have apart : Disjoint
      (Finset.univ.filter fun j : Fin values.length => values[j] < values[i] ∧ 0 ≤ j.val)
      (Finset.univ.filter fun j : Fin values.length => values[j] = values[i] ∧ i + 1 ≤ j.val) := by
    simp only [Finset.disjoint_filter]
    rintro j - ⟨less, -⟩ ⟨same, -⟩
    exact UInt16.lt_irrefl _ (same ▸ less)
  have both := Finset.card_union_of_disjoint apart
  rw [less, later, ← Finset.filter_or] at both
  simpa [lower, countBelow, countAt, UInt16.lt_iff_toNat_lt, UInt16.toNat_inj,
    Nat.succ_le_iff] using both

theorem card_higher : (higher values i).card = values.length - 1 - (lower values i).card := by
  have split : higher values i = (insert i (lower values i))ᶜ := by
    ext j
    simp only [higher, lower, Finset.mem_filter, Finset.mem_univ, true_and, Finset.mem_compl,
      Finset.mem_insert, UInt16.lt_iff_toNat_lt, ← UInt16.toNat_inj, Fin.ext_iff, Fin.lt_def]
    have same : j.val = i.val → values[j].toNat = values[i].toNat := by
      intro h
      simp [Fin.ext h]
    omega
  have fresh : i ∉ lower values i := by simp [lower]
  rw [split, Finset.card_compl, Finset.card_insert_of_notMem fresh, Fintype.card_fin]
  omega

theorem card_lower_lt : (lower values i).card < values.length := by
  have fresh : i ∉ lower values i := by simp [lower]
  have := Finset.card_lt_univ_of_notMem fresh
  simpa using this

theorem mem_places_lowest : i.val ∈ places (lowest n values) ↔ (lower values i).card < n := by
  rw [mem_places, lowest, getElem?_below _ _ _ _ i.isLt, card_lower, Fin.getElem_fin]
  obtain ⟨least, greatest⟩ := limit_bounds n values
  generalize nthLowest n values 16 0 = limit at least greatest ⊢
  have later := countAt_drop values i i.isLt
  have succ := countBelow_succ values[i.val].toNat values
  have bound := values[i.val].toNat_lt
  rcases Nat.lt_trichotomy values[i.val].toNat limit with h | h | h
  · have before : countBelow (values[i.val].toNat + 1) values ≤ countBelow limit values :=
      countBelow_mono h values
    have fewer := least.resolve_right (Nat.ne_of_gt (Nat.zero_lt_of_lt h))
    exact iff_of_true (.inl h) (by omega)
  · subst h
    simp only [Nat.lt_irrefl, false_or, true_and]
    omega
  · have before : countBelow (limit + 1) values ≤ countBelow values[i.val].toNat values :=
      countBelow_mono h values
    have enough := greatest.resolve_right (by omega)
    exact iff_of_false (by omega) (by omega)

/-- The highest are those that are not among the lowest of the others. -/
theorem mem_places_highest : i.val ∈ places (highest n values) ↔ (higher values i).card < n := by
  have inside := card_lower_lt i
  rw [highest, mem_places_complement _ _ (by simp), mem_places_lowest, card_higher]
  omega

theorem length_places_lowest :
    (places (lowest n values)).length = min n values.length := by
  rw [length_places, lowest, count_below]
  obtain ⟨least, greatest⟩ := limit_bounds n values
  generalize nthLowest n values 16 0 = limit at least greatest ⊢
  have succ := countBelow_succ limit values
  have top := countBelow_of_top values
  have inside : countBelow (limit + 1) values ≤ values.length := List.countP_le_length
  have short : countBelow limit values ≤ n := by
    rcases least with fewer | rfl
    · exact fewer.le
    · simp [countBelow]
  rcases greatest with enough | rfl
  · omega
  · have : countBelow (65535 + 1) values = values.length := top
    omega

end ranks

end Marks

open Marks in
/-- Dropping crosses out the values of the lowest ranks from one end, and keeping crosses out all
that dropping would not. The places of what is crossed out come in order and without repetition. -/
theorem Rule.crossedOut_by_rank (n : Nat) (values : List UInt16) :
    (∀ i : Fin values.length,
      (i.val ∈ places (dropLowest.crossedOut n values) ↔ (lower values i).card < n) ∧
      (i.val ∈ places (dropHighest.crossedOut n values) ↔ (higher values i).card < n) ∧
      (i.val ∈ places (keepHighest.crossedOut n values) ↔
        i.val ∉ places (dropHighest.crossedOut n values)) ∧
      (i.val ∈ places (keepLowest.crossedOut n values) ↔
        i.val ∉ places (dropLowest.crossedOut n values))) ∧
    (∀ rule : Rule,
      (places (rule.crossedOut n values)).Sublist (List.range values.length)) ∧
    (places (dropLowest.crossedOut n values)).length = min n values.length ∧
    (places (dropHighest.crossedOut n values)).length = min n values.length ∧
    (places (keepHighest.crossedOut n values)).length = values.length - min n values.length ∧
    (places (keepLowest.crossedOut n values)).length = values.length - min n values.length := by
  refine ⟨fun i => ⟨mem_places_lowest n i, mem_places_highest n i, ?_, ?_⟩, fun rule => ?_,
    length_places_lowest n, ?_, ?_, ?_⟩
  · have inside := card_lower_lt i
    simp only [crossedOut, mem_places_highest, mem_places_lowest, card_higher]
    omega
  · have inside := card_lower_lt i
    simp only [crossedOut, mem_places_highest, mem_places_lowest, card_higher]
    omega
  · simpa using places_sublist (rule.crossedOut n values)
  · simp only [crossedOut, highest, length_places_complement, length_places_lowest, length_lowest]
    omega
  · simp only [crossedOut, length_places_lowest]
    omega
  · simp only [crossedOut, highest, length_places_complement, length_places_lowest, length_lowest]
    omega

example : Marks.places (Rule.dropLowest.crossedOut 2 [4, 1, 4, 4]) = [1, 3] ∧
    Marks.places (Rule.dropHighest.crossedOut 2 [4, 1, 4, 4]) = [0, 2] := by decide

end DiceChat

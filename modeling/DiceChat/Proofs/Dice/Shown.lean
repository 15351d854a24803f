import DiceChat.Proofs.Dice.Crossing
import DiceChat.Proofs.Dice.Totals

/-!
# What the marks show

The total of dice is computed from their values, and the marks on them are made for the reader.
Both speak of the same dice: what is summed lies at the places of the dice that are kept, or of
those that are crossed out if the highest are dropped. It is never some other die of equal value.
-/

namespace DiceChat

-- ---------------------------------------------------------------------------
-- Marks and places
-- ---------------------------------------------------------------------------

namespace Marks

def others (length : Nat) (places : List Nat) : List Nat :=
  (List.range length).filter (· ∉ places)

theorem places_eq_filter (marks : Marks) :
    places marks = (List.range marks.length).filter (marks[·]? = some true) := by
  induction marks with
  | nil => rfl
  | cons mark marks ih =>
    rw [places_cons, ih, List.length_cons, List.range_succ_eq_map, List.filter_cons,
      List.filter_map]
    cases mark <;> simp [Function.comp_def]

theorem places_complement (marks : Marks) :
    places marks.complement = others marks.length (places marks) := by
  rw [places_eq_filter marks.complement, length_complement]
  refine List.filter_congr fun i hi => ?_
  have inside := List.mem_range.mp hi
  simp [mem_places, complement, inside]

theorem select_eq_filterMap (marks : Marks) (values : List UInt16)
    (h : marks.length = values.length) :
    marks.select values = marks.places.filterMap (values[·]?) := by
  induction values generalizing marks with
  | nil => cases marks <;> simp_all [select]
  | cons v values ih =>
    cases marks with
    | nil => cases h
    | cons mark marks =>
      have rest := ih marks (Nat.succ.inj h)
      cases mark <;> simp [select, places_cons, rest, List.filterMap_map]

theorem places_none (length : Nat) : places (List.replicate length false) = [] := by
  simp [places_eq_filter, List.getElem?_replicate]

theorem select_all (values : List UInt16) :
    (complement (List.replicate values.length false)).select values = values := by
  induction values with
  | nil => rfl
  | cons v values ih => simpa [complement, List.replicate_succ, select] using ih

end Marks

/-- The places that a rule sums, found from the values alone. -/
def Rule.summedPlaces (rule : Rule) (n : Nat) (values : List UInt16) : List Nat :=
  match rule with
  | .dropLowest => Marks.others values.length (Marks.lowest n values).places
  | .dropHighest => (Marks.highest n values).places
  | .keepHighest =>
    Marks.others values.length (Marks.lowest (values.length - n) values).places
  | .keepLowest =>
    Marks.others values.length (Marks.highest (values.length - n) values).places

def Rolled.summedPlaces (r : Rolled) : List Nat :=
  match r.dice.selection with
  | none => List.range r.values.length
  | some s => s.rule.summedPlaces s.count.toNat r.values

-- ---------------------------------------------------------------------------
-- Fresh dice with their selection applied
-- ---------------------------------------------------------------------------

namespace Dice

/-- Dropping the highest counts what it crosses out. -/
def countsCrossedOut (d : Dice) : Bool :=
  match d.selection with
  | some s => s.rule = .dropHighest
  | none => false

def marks (d : Dice) (values : List UInt16) : Marks :=
  match d.selection with
  | none => List.replicate values.length false
  | some s => s.rule.crossedOut s.count.toNat values

/-- Which of the values the selection counts. -/
def countedMarks (d : Dice) (values : List UInt16) : Marks :=
  if d.countsCrossedOut then d.marks values else (d.marks values).complement

@[simp] theorem length_marks (d : Dice) (values : List UInt16) :
    (d.marks values).length = values.length := by
  unfold marks
  split <;> simp

@[simp] theorem length_countedMarks (d : Dice) (values : List UInt16) :
    (d.countedMarks values).length = values.length := by
  unfold countedMarks
  split <;> simp

end Dice

namespace Rolled

/-- The values of the dice that are crossed out, or of those that are kept. -/
def marked (r : Rolled) (crossedOut : Bool) : List UInt16 :=
  (r.rolls.filter (·.crossedOut = crossedOut)).map Die.value

theorem map_crossedOut_zipWith (values : List UInt16) (marks : Marks)
    (h : marks.length = values.length) :
    (values.zipWith Die.mk marks).map Die.crossedOut = marks := by
  induction values generalizing marks with
  | nil => simp_all
  | cons v values ih =>
    cases marks with
    | nil => cases h
    | cons mark marks => simp [ih marks (Nat.succ.inj h)]

theorem filter_zipWith (values : List UInt16) (marks : Marks)
    (h : marks.length = values.length) (crossedOut : Bool) :
    ((values.zipWith Die.mk marks).filter (·.crossedOut = crossedOut)).map Die.value =
      (if crossedOut then marks else marks.complement).select values := by
  induction values generalizing marks with
  | nil => cases crossedOut <;> simp [Marks.select]
  | cons v values ih =>
    cases marks with
    | nil => cases h
    | cons mark marks =>
      have rest := ih marks (Nat.succ.inj h)
      cases mark <;> cases crossedOut <;> simp_all [Marks.complement, Marks.select]

variable (d : Dice) (values : List UInt16)

theorem applySelection_ofValues :
    (ofValues d values).applySelection = ⟨d, values.zipWith Die.mk (d.marks values)⟩ := by
  unfold applySelection Dice.marks
  rw [dice_ofValues, values_ofValues]
  cases d.selection with
  | none =>
    have fresh : values.map Die.fresh = values.zipWith Die.mk (.replicate values.length false) := by
      induction values with
      | nil => rfl
      | cons v values ih => simp [List.replicate_succ, ih, Die.fresh]
    exact congrArg (Rolled.mk d) fresh
  | some s => simp [ofValues, List.zipWith_map_left, Die.mark, Die.fresh]

theorem crossedOut_applySelection :
    (ofValues d values).applySelection.crossedOut = (d.marks values).places := by
  rw [applySelection_ofValues, crossedOut, map_crossedOut_zipWith _ _ (d.length_marks values)]

theorem marked_applySelection :
    (ofValues d values).applySelection.marked d.countsCrossedOut =
      (d.countedMarks values).select values := by
  rw [applySelection_ofValues, marked, filter_zipWith _ _ (d.length_marks values),
    Dice.countedMarks]

theorem summed_eq_select :
    (ofValues d values).applySelection.summed = (d.countedMarks values).select values := by
  unfold summed Dice.countedMarks Dice.countsCrossedOut Dice.marks
  rw [dice_applySelection, values_applySelection, dice_ofValues, values_ofValues]
  cases d.selection with
  | none => exact (Marks.select_all values).symm
  | some s => simp [Rule.summed]

theorem summedPlaces_eq_places :
    (ofValues d values).applySelection.summedPlaces = (d.countedMarks values).places := by
  unfold summedPlaces Dice.countedMarks Dice.countsCrossedOut Dice.marks
  rw [dice_applySelection, values_applySelection, dice_ofValues, values_ofValues]
  cases d.selection with
  | none => simp [Marks.places_complement, Marks.places_none, Marks.others]
  | some s =>
    obtain ⟨rule, count⟩ := s
    cases rule <;> simp [Rule.summedPlaces, Rule.crossedOut, Marks.places_complement]

theorem total?_eq_marked :
    (ofValues d values).applySelection.total? =
      DiceChat.total? ((ofValues d values).applySelection.marked d.countsCrossedOut) := by
  rw [total?, summed_eq_select, marked_applySelection]

/-- Dice with their selection applied total what they show: the sum of the dice that are kept, or
of those that are crossed out if the highest are dropped, just if it has at most 32 bits. The marks
are those of crossing out die by die. The places that are summed are found again from the values
alone, but they are those of the same dice. -/
theorem total?_shown (d : Dice) (values : List UInt16) :
    ∃ r, r = (ofValues d values).applySelection ∧
      (ofValues d values).crossOutExcluded? = some r ∧
      (∀ total, r.total? = some total ↔
        total = valueSum (r.marked d.countsCrossedOut) ∧ total ≤ 4294967295) ∧
      r.summedPlaces = (if d.countsCrossedOut then r.crossedOut
        else Marks.others values.length r.crossedOut) ∧
      addUp? (r.summedPlaces.filterMap (values[·]?)) = r.total? := by
  refine ⟨_, rfl, crossOutExcluded?_ofValues d values, fun total => ?_, ?_, ?_⟩
  · rw [total?_eq_marked, total?_eq_some_iff, UInt32.size]
    omega
  · rw [summedPlaces_eq_places, crossedOut_applySelection, Dice.countedMarks]
    split
    · rfl
    · rw [Marks.places_complement, Dice.length_marks]
  · rw [addUp?_eq_total?, summedPlaces_eq_places,
      ← Marks.select_eq_filterMap _ _ (d.length_countedMarks values), ← summed_eq_select, total?]

example :
    (ofValues ⟨3, 6, some ⟨.keepLowest, 1⟩⟩ [5, 5, 5]).applySelection.crossedOut = [0, 1] ∧
      (ofValues ⟨2, 6, some ⟨.dropHighest, 1⟩⟩ [5, 5]).applySelection.marked true = [5] := by
  decide

end Rolled

end DiceChat

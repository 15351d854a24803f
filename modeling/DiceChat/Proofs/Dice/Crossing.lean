import DiceChat.Dice.Rolled
import DiceChat.Proofs.Dice.Ranks

/-!
# Crossing out die by die

A selection names the dice that it excludes by their places. Crossing them out one after the other
never meets a die that is crossed out already, and leaves the dice just as they are when all are
marked at once. Dice that were crossed out before, for whatever reason, are passed over: then any
dice can be gone through, and as often as one likes.
-/

namespace DiceChat.Rolled

/-- The places of the dice that the selection excludes. -/
def excluded (r : Rolled) : List Nat :=
  match r.dice.selection with
  | none => []
  | some s => (s.rule.crossedOut s.count.toNat r.values).places

/-- Crosses out the excluded dice without looking whether they are still kept. It comes to nothing
if one of them is missing or crossed out already. -/
def crossOutExcluded? (r : Rolled) : Option Rolled := r.excluded.foldlM crossOut? r

/-- Crosses out one die if it is there and still kept, and passes over it if not. -/
def crossOutKept? (r : Rolled) (place : Nat) : Option Rolled :=
  match r.rolls[place]? with
  | some die => if die.crossedOut then some r else r.crossOut? place
  | none => some r

-- ---------------------------------------------------------------------------
-- One place after another
-- ---------------------------------------------------------------------------

def cons (die : Die) (r : Rolled) : Rolled := { r with rolls := die :: r.rolls }

/-- A step that crosses out the die at a place, if it is one that `P` admits, and does not look at
the others. -/
structure CrossesOut (step : Rolled → Nat → Option Rolled) (P : Die → Prop) : Prop where
  first : ∀ (r : Rolled) (die : Die), P die → step (r.cons die) 0 = some (r.cons (die.mark true))
  later : ∀ (r : Rolled) (die : Die) (place : Nat),
    step (r.cons die) (place + 1) = (step r place).map (cons die)

section

variable {step : Rolled → Nat → Option Rolled} {P : Die → Prop}

theorem CrossesOut.foldlM_cons (h : CrossesOut step P) (r : Rolled) (die : Die)
    (places : List Nat) :
    (places.map (· + 1)).foldlM step (r.cons die) = (places.foldlM step r).map (cons die) := by
  induction places generalizing r with
  | nil => rfl
  | cons place places ih =>
    rw [List.map_cons, List.foldlM_cons, List.foldlM_cons, h.later]
    cases step r place with
    | none => rfl
    | some next => exact ih next

/-- All places of a mark are crossed out, each of them once. -/
theorem CrossesOut.foldlM_places (h : CrossesOut step P) (dice : Dice) {rolls : List Die}
    {marks : Marks} (length : marks.length = rolls.length) (all : ∀ die ∈ rolls, P die) :
    marks.places.foldlM step ⟨dice, rolls⟩ = some ⟨dice, rolls.zipWith Die.mark marks⟩ := by
  induction rolls generalizing marks with
  | nil =>
    cases marks with
    | nil => rfl
    | cons mark marks => cases length
  | cons die rolls ih =>
    cases marks with
    | nil => cases length
    | cons mark marks =>
      -- The places behind the first are those of the other marks, each one further on.
      obtain ⟨hdie, others⟩ := List.forall_mem_cons.mp all
      have rest (first : Die) :
          ((Marks.places marks).map (· + 1)).foldlM step (Rolled.cons first ⟨dice, rolls⟩) =
            some ⟨dice, first :: rolls.zipWith Die.mark marks⟩ := by
        rw [h.foldlM_cons, ih (Nat.succ.inj length) others]
        rfl
      rw [Marks.places_cons]
      cases mark with
      | false =>
        have kept : die.mark false = die := by simp [Die.mark]
        rw [List.zipWith_cons_cons, kept]
        exact rest die
      | true =>
        have crossed := h.first ⟨dice, rolls⟩ die hdie
        rw [if_pos rfl, List.singleton_append, List.foldlM_cons]
        show step (Rolled.cons die ⟨dice, rolls⟩) 0 >>= _ = _
        rw [crossed]
        exact rest (die.mark true)

end

theorem crossesOut_crossOut? : CrossesOut crossOut? fun die => die.crossedOut = false where
  first r die kept := by simp [crossOut?, cons, Die.crossOut?, Die.mark, kept]
  later r die place := by
    simp only [crossOut?, cons, List.getElem?_cons_succ, List.set_cons_succ]
    cases r.rolls[place]? with
    | none => rfl
    | some found => cases h : found.crossOut? <;> simp [h, cons]

theorem crossesOut_crossOutKept? : CrossesOut crossOutKept? fun _ => True where
  first r die _ := by
    cases h : die.crossedOut with
    | false =>
      have crossed := crossesOut_crossOut?.first r die h
      simpa [crossOutKept?, cons, h] using crossed
    | true =>
      have same : die.mark true = die := by simp [Die.mark, ← h]
      simp [crossOutKept?, cons, h, same]
  later r die place := by
    have crossed := crossesOut_crossOut?.later r die place
    simp only [crossOutKept?, cons, List.getElem?_cons_succ] at crossed ⊢
    cases r.rolls[place]? with
    | none => rfl
    | some found =>
      cases h : found.crossedOut with
      | false => simpa [h] using crossed
      | true => simp [h, cons]

-- ---------------------------------------------------------------------------
-- Selections
-- ---------------------------------------------------------------------------

theorem crossOutExcluded?_ofValues (dice : Dice) (values : List UInt16) :
    (ofValues dice values).crossOutExcluded? = some (ofValues dice values).applySelection := by
  unfold crossOutExcluded? excluded applySelection
  rw [dice_ofValues, values_ofValues]
  cases dice.selection with
  | none => rfl
  | some s =>
    exact crossesOut_crossOut?.foldlM_places dice (by simp) (by simp [Die.fresh])

theorem excluded_applySelection (r : Rolled) : r.applySelection.excluded = r.excluded := by
  simp only [excluded, dice_applySelection, values_applySelection]

theorem zipWith_mark_eq_mapIdx (rolls : List Die) (marks : Marks)
    (h : marks.length = rolls.length) :
    rolls.zipWith Die.mark marks = rolls.mapIdx fun place die =>
      ⟨die.value, die.crossedOut || decide (place ∈ marks.places)⟩ := by
  refine List.ext_getElem (by simp [h]) fun place _ inside => ?_
  have found : place < marks.length := by
    rw [List.length_mapIdx] at inside
    omega
  simp [Die.mark, Marks.mem_places, found]

theorem rolls_applySelection (r : Rolled) :
    r.applySelection.rolls = r.rolls.mapIdx fun place die =>
      ⟨die.value, die.crossedOut || decide (place ∈ r.excluded)⟩ := by
  unfold applySelection excluded
  cases r.dice.selection with
  | none => exact List.ext_getElem (by simp) (by simp)
  | some s => exact zipWith_mark_eq_mapIdx _ _ (by simp [values])

/-- Dice that are in any state, with any of them crossed out before, can have their selection
applied. Crossing out what it excludes, one die after the other, gets through. The dice, their
values and their order stay, and more dice may be crossed out. A second time changes nothing, and
the total is the same all along. -/
theorem applySelection_crosses_out (r : Rolled) :
    r.excluded.foldlM crossOutKept? r = some r.applySelection ∧
    r.applySelection.dice = r.dice ∧
    r.applySelection.values = r.values ∧
    r.applySelection.rolls.length = r.rolls.length ∧
    (r.applySelection.rolls = r.rolls.mapIdx fun place die =>
      ⟨die.value, die.crossedOut || decide (place ∈ r.excluded)⟩) ∧
    r.applySelection.applySelection = r.applySelection ∧
    r.applySelection.total? = r.total? := by
  have rolls := rolls_applySelection r
  refine ⟨?_, dice_applySelection r, values_applySelection r, by simp [rolls], rolls, ?_,
    total?_applySelection r⟩
  · unfold excluded applySelection
    cases r.dice.selection with
    | none => rfl
    | some s =>
      exact crossesOut_crossOutKept?.foldlM_places r.dice (by simp [values]) fun _ _ => trivial
  · have again : r.applySelection.applySelection.rolls = r.applySelection.rolls := by
      rw [rolls_applySelection r.applySelection, excluded_applySelection, rolls, List.mapIdx_mapIdx]
      simp only [Function.comp_def, Bool.or_assoc, Bool.or_self]
    exact congrArg₂ mk (dice_applySelection r.applySelection) again

example :
    let r : Rolled := ⟨⟨2, 6, some ⟨.dropLowest, 2⟩⟩, [⟨4, false⟩, ⟨6, true⟩, ⟨4, false⟩]⟩
    r.applySelection.rolls = [⟨4, true⟩, ⟨6, true⟩, ⟨4, true⟩] := by
  decide

end DiceChat.Rolled

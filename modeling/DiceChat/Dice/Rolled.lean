import DiceChat.Dice.Marks

/-!
# Rolled dice

Dice together with what they fell to, in the order in which they were rolled. The dice that do
not count are crossed out for the reader; totals are computed from the values alone.
-/

namespace DiceChat

structure Die where
  value : UInt16
  crossedOut : Bool
deriving DecidableEq, Repr

namespace Die

def fresh (value : UInt16) : Die := ⟨value, false⟩

def crossOut? (d : Die) : Option Die :=
  if d.crossedOut then none else some { d with crossedOut := true }

def mark (d : Die) (mark : Bool) : Die := { d with crossedOut := d.crossedOut || mark }

def text (d : Die) : String :=
  d.value.toNat.repr ++ if d.crossedOut then " (x)" else ""

end Die

structure Rolled where
  dice : Dice
  rolls : List Die
deriving DecidableEq, Repr

namespace Rolled

def ofValues (dice : Dice) (values : List UInt16) : Rolled := ⟨dice, values.map .fresh⟩

def values (r : Rolled) : List UInt16 := r.rolls.map Die.value

def kept (r : Rolled) : Nat := r.rolls.countP (!·.crossedOut)

def crossedOut (r : Rolled) : List Nat := Marks.places (r.rolls.map Die.crossedOut)

/-- Crosses out what the selection excludes; a die that is crossed out stays so. -/
def applySelection (r : Rolled) : Rolled :=
  match r.dice.selection with
  | none => r
  | some s => { r with rolls := r.rolls.zipWith Die.mark (s.rule.crossedOut s.count.toNat r.values) }

def crossOut? (r : Rolled) (place : Nat) : Option Rolled := do
  let die ← r.rolls[place]?
  return { r with rolls := r.rolls.set place (← die.crossOut?) }

def summed (r : Rolled) : List UInt16 :=
  match r.dice.selection with
  | none => r.values
  | some s => s.rule.summed s.count.toNat r.values

def total? (r : Rolled) : Option Nat := DiceChat.total? r.summed

def overflowText : String := "integer overflow"

def describe (limit : Option Nat) (r : Rolled) : String :=
  let shown := match limit with
    | some n => r.rolls.take n
    | none => r.rolls
  let hidden := r.rolls.length - shown.length
  r.dice.text ++ "[" ++ ", ".intercalate (shown.map Die.text) ++
    (if 0 < hidden then ", " ++ hidden.repr ++ " more..." else "") ++ "]"

def text (r : Rolled) : String := r.describe none

theorem map_value_zipWith_mark (rolls : List Die) (marks : Marks)
    (h : marks.length = rolls.length) :
    (rolls.zipWith Die.mark marks).map Die.value = rolls.map Die.value := by
  induction rolls generalizing marks with
  | nil => simp
  | cons die rolls ih =>
    cases marks with
    | nil => simp at h
    | cons mark marks => simp [Die.mark, ih marks (by simpa using h)]

@[simp] theorem values_applySelection (r : Rolled) : r.applySelection.values = r.values := by
  simp only [applySelection]
  split
  · rfl
  · exact map_value_zipWith_mark _ _ (by simp [values])

@[simp] theorem dice_applySelection (r : Rolled) : r.applySelection.dice = r.dice := by
  simp only [applySelection]
  split <;> rfl

@[simp] theorem total?_applySelection (r : Rolled) : r.applySelection.total? = r.total? := by
  simp [total?, summed]

@[simp] theorem dice_ofValues (dice : Dice) (values : List UInt16) :
    (ofValues dice values).dice = dice := rfl

@[simp] theorem values_ofValues (dice : Dice) (values : List UInt16) :
    (ofValues dice values).values = values := by
  simp [ofValues, Rolled.values, Die.fresh, Function.comp_def]

end Rolled
end DiceChat

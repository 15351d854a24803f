import DiceChat.Dice.Rolled

/-!
# Sources of rolls

A source gives the value of one die after another, each for the number of sides that is asked
for. It may run dry; then it gives nothing, and what it was asked for is not completed.
-/

namespace DiceChat

class Source (σ : Type) where
  /-- Gives the value of a fresh die: a roller has no part in what is crossed out afterwards. -/
  rollDie (sides : UInt16) : σ → Option UInt16 × σ

abbrev Draw (σ : Type) := OptionT (StateM σ)

namespace Draw

variable {σ : Type} [Source σ]

/-- Draws `n` more values after those in `drawn`, which are in reverse. -/
def valuesAfter (sides : UInt16) : Nat → List UInt16 → σ → Option (List UInt16) × σ
  | 0, drawn, s => (some drawn.reverse, s)
  | n + 1, drawn, s =>
    match Source.rollDie sides s with
    | (some v, s) => valuesAfter sides n (v :: drawn) s
    | (none, s) => (none, s)

def values (sides : UInt16) (n : Nat) : Draw σ (List UInt16) := valuesAfter sides n []

/-- Rolls dice without looking at their selection. Dice that are not valid are given back, and
nothing is drawn for them. -/
def rolled (dice : Dice) : Draw σ (Except Dice Rolled) := do
  if dice.isValid then
    return .ok (.ofValues dice (← values dice.sides dice.count.toNat))
  else return .error dice

def selected (dice : Dice) : Draw σ (Except Dice Rolled) := do
  return (← rolled dice).map Rolled.applySelection

end Draw
end DiceChat

import DiceChat.Source.Basic
import DiceChat.Source.Generator

/-!
# Rollers

The sources of rolls that are at hand: given values, one value for ever, the highest value that
dice can show, and a generator.
-/

namespace DiceChat

inductive Roller where
  | sequence (values : List UInt16)
  | constant (value : UInt16)
  | maximum
  | generator (g : Generator)
deriving DecidableEq, Repr

namespace Roller

def ofSeed (seed : UInt64) : Roller := .generator ⟨seed⟩

def rollDie (sides : UInt16) : Roller → Option UInt16 × Roller
  | .sequence [] => (none, .sequence [])
  | .sequence (v :: rest) => (some v, .sequence rest)
  | .constant v => (some v, .constant v)
  | .maximum => (some sides, .maximum)
  | .generator g =>
    let (v, g) := g.rollDie sides
    (some v, .generator g)

instance : Source Roller := ⟨rollDie⟩

/-- Whether a sequence has values left; the other rollers never run dry. -/
def canRoll : Roller → Option Bool
  | .sequence values => some !values.isEmpty
  | _ => none

end Roller
end DiceChat

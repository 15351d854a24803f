import DiceChat.Expr.Text
import DiceChat.Source.Basic

/-!
# Evaluated expressions

Evaluation rolls the dice of an expression in written order and keeps its shape. Calculation
takes the sums and products of what was rolled; it fails at the innermost part that has no finite
value, the leftmost of those.
-/

namespace DiceChat

abbrev Evaluated := Formula Rolled

/-- Rolls the dice, from left to right. The first dice that are not valid end it. -/
def Expr.eval {σ : Type} [Source σ] : Expr → ExceptT Dice (Draw σ) Evaluated
  | .number x => return .number x
  | .dice d => return .dice (← Draw.selected d)
  | .group f => return .group (← eval f)
  | .neg f => return .neg (← eval f)
  | .binary op a b => do
    let a ← eval a
    let b ← eval b
    return .binary op a b

/-- Why a part has no finite value: a total of dice has too many bits, the value itself is infinite
or no number, or the divisor is zero. -/
inductive CalculationCause where
  | total
  | overflow
  | division
deriving DecidableEq, Repr

structure CalculationError where
  cause : CalculationCause
  part : Evaluated
deriving DecidableEq, Repr

namespace Evaluated

def describe (limit : Option Nat) (e : Evaluated) : String :=
  Formula.describe (Rolled.describe limit) e

def text (e : Evaluated) : String := describe none e

def finite (e : Evaluated) (x : Number) : Except CalculationError Number :=
  if x.isFinite then .ok x else .error ⟨.overflow, e⟩

def calculate : Evaluated → Except CalculationError Number
  | .number x => finite (.number x) x
  | .dice r =>
    match r.total? with
    | some n => finite (.dice r) (.ofNat n)
    | none => .error ⟨.total, .dice r⟩
  | .group f => do finite (.group f) (← calculate f)
  | .neg f => do
    let x ← calculate f
    finite (.neg f) x.neg
  | .binary op a b => do
    let x ← calculate a
    let y ← calculate b
    if op = .div ∧ y.isZero then .error ⟨.division, .binary op a b⟩
    else finite (.binary op a b) (op.apply x y)

end Evaluated

def CalculationError.text (e : CalculationError) : String :=
  match e.cause with
  | .total => "dice error while calculating (" ++ e.part.text ++ "): " ++ Rolled.overflowText
  | .overflow => "overflow while calculating " ++ e.part.text
  | .division => "division by zero while calculating " ++ e.part.text

end DiceChat

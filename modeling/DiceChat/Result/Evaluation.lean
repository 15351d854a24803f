import DiceChat.Expr.Notation
import DiceChat.Result.Basic

/-!
# From text to result

An expression is read, rolled and calculated. Text that cannot be read draws no rolls; one whose
calculation fails has drawn all of them.
-/

namespace DiceChat

inductive EvaluationError where
  | parse (failure : ParseFailure)
  | dice (dice : Dice)
  | calculation (error : CalculationError)
deriving DecidableEq, Repr

def Dice.evaluationText (d : Dice) : String :=
  "dice error while evaluating \"" ++ d.text ++ "\": " ++ d.unrollableText

def EvaluationError.text : EvaluationError → String
  | .parse failure => "parse error: " ++ failure.text
  | .dice d => d.evaluationText
  | .calculation error => error.text

namespace RollResult

variable {σ : Type} [Source σ]

def ofExpr (e : Expr) : Draw σ (Except EvaluationError RollResult) := do
  match ← (e.eval).run with
  | .ok evaluated => return (ofEvaluated evaluated).mapError .calculation
  | .error dice => return .error (.dice dice)

def evaluate (s : String) : Draw σ (Except EvaluationError RollResult) :=
  match Expr.parse s with
  | .ok e => ofExpr e
  | .error failure => return .error (.parse failure)

end RollResult
end DiceChat

import DiceChat.Expr.Basic
import DiceChat.Number.Decimal

/-!
# Writing formulas

A formula is written with spaces around its operators. Parentheses are added where sums and
products meet and where more than a value is negated.
-/

namespace DiceChat

def parenthesized (text : String) : String := "(" ++ text ++ ")"

def parenthesizedIf (wrap : Bool) (text : String) : String :=
  if wrap then parenthesized text else text

def Operator.setsApart (op : Operator) (operand : Kind) : Bool :=
  match op.kind, operand with
  | .additive, .multiplicative => true
  | .multiplicative, .additive => true
  | _, _ => false

def Formula.describe {δ : Type} (leaf : δ → String) : Formula δ → String
  | .number x => x.text
  | .dice d => leaf d
  | .group f => parenthesized (f.describe leaf)
  | .neg f => "-" ++ parenthesizedIf (f.kind != .value) (f.describe leaf)
  | .binary op a b =>
    parenthesizedIf (op.setsApart a.kind) (a.describe leaf) ++ " " ++ op.symbol.toString ++ " " ++
      parenthesizedIf (op.setsApart b.kind) (b.describe leaf)

def Expr.text (e : Expr) : String := e.describe Dice.text

def Token.text {δ : Type} (leaf : δ → String) : Token δ → String
  | .number x => x.text
  | .dice d => leaf d
  | .operator symbol => symbol.toString
  | .openParen => "("
  | .closeParen => ")"

end DiceChat

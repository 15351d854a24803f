import DiceChat.Dice.Basic
import DiceChat.Number.Basic

/-!
# Formulas

Arithmetic over numbers and dice. An expression is a formula over dice that are yet to be rolled.
The same formulas over rolled dice are what an expression evaluates to, so whatever does not look
into the dice is said once for both.
-/

namespace DiceChat

inductive Operator where
  | add
  | sub
  | mul
  | div
deriving DecidableEq, Repr

namespace Operator

def symbol : Operator → Char
  | .add => '+'
  | .sub => '-'
  | .mul => '*'
  | .div => '/'

def isAdditive : Operator → Bool
  | .add | .sub => true
  | .mul | .div => false

def apply : Operator → Number → Number → Number
  | .add => .add
  | .sub => .sub
  | .mul => .mul
  | .div => .div

end Operator

inductive Formula (δ : Type) where
  | number (x : Number)
  | dice (d : δ)
  | group (f : Formula δ)
  | neg (f : Formula δ)
  | binary (op : Operator) (a b : Formula δ)
deriving DecidableEq, Repr

abbrev Expr := Formula Dice

inductive Kind where
  | value
  | unary
  | additive
  | multiplicative
deriving DecidableEq, Repr

def Operator.kind (op : Operator) : Kind :=
  if op.isAdditive then .additive else .multiplicative

inductive Token (δ : Type) where
  | number (x : Number)
  | dice (d : δ)
  | operator (symbol : Char)
  | openParen
  | closeParen
deriving DecidableEq, Repr

namespace Formula

variable {δ : Type}

def kind : Formula δ → Kind
  | .number _ | .dice _ | .group _ => .value
  | .neg _ => .unary
  | .binary op _ _ => op.kind

def tokens : Formula δ → List (Token δ)
  | .number x => [.number x]
  | .dice d => [.dice d]
  | .group f => .openParen :: (f.tokens ++ [.closeParen])
  | .neg f => .operator '-' :: f.tokens
  | .binary op a b => a.tokens ++ .operator op.symbol :: b.tokens

def leaves : Formula δ → List δ
  | .number _ => []
  | .dice d => [d]
  | .group f | .neg f => f.leaves
  | .binary _ a b => a.leaves ++ b.leaves

def ungrouped : Formula δ → Formula δ
  | .number x => .number x
  | .dice d => .dice d
  | .group f => f.ungrouped
  | .neg f => .neg f.ungrouped
  | .binary op a b => .binary op a.ungrouped b.ungrouped

/-- The same shape and the same dice, with numbers compared as numbers. -/
def equals [DecidableEq δ] : Formula δ → Formula δ → Bool
  | .number x, .number y => x.equals y
  | .dice d, .dice e => d = e
  | .group f, .group g => f.equals g
  | .neg f, .neg g => f.equals g
  | .binary op a b, .binary other c d => op = other && a.equals c && b.equals d
  | _, _ => false

end Formula

def Expr.isDeterministic : Expr → Bool
  | .number _ => true
  | .dice d => d.sides == 1
  | .group f | .neg f => isDeterministic f
  | .binary _ a b => isDeterministic a && isDeterministic b

end DiceChat

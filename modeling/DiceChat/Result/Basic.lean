import DiceChat.Expr.Evaluated

/-!
# Results for display

A result is a number together with one node for each token of what was evaluated, so that every
die can be shown beside the constants and operators around it.
-/

namespace DiceChat

inductive Category where
  | maximum
  | minimum
  | ordinary
deriving DecidableEq, Repr

/-- A value that is both ends of its range counts as the greatest. -/
def Category.of (value least greatest : UInt16) : Category :=
  if value = greatest then .maximum
  else if value = least then .minimum
  else .ordinary

structure DieDetail where
  value : UInt16
  crossedOut : Bool
  category : Category
deriving DecidableEq, Repr

inductive Node where
  | dice (content : String) (least greatest : UInt16) (rolls : List DieDetail)
  | constant (content : String)
  | operator (content : String)
  | openParen (content : String)
  | closeParen (content : String)
deriving DecidableEq, Repr

namespace Node

def content : Node → String
  | .dice content _ _ _ => content
  | .constant content => content
  | .operator content => content
  | .openParen content => content
  | .closeParen content => content

/-- Dice are named without their selection, which shows in the dice that are crossed out. -/
def ofRolled (r : Rolled) : Node :=
  .dice r.dice.plain.text 1 r.dice.sides (r.rolls.map fun die =>
    ⟨die.value, die.crossedOut, Category.of die.value 1 r.dice.sides⟩)

def ofToken : Token Rolled → Node
  | .number x => .constant x.text
  | .dice r => ofRolled r
  | .operator symbol => .operator symbol.toString
  | .openParen => .openParen "("
  | .closeParen => .closeParen ")"

end Node

structure RollResult where
  value : Number
  detail : List Node
deriving DecidableEq, Repr

def Operator.node : Operator → Node
  | .add => .operator "+"
  | .sub => .operator "-"
  | .mul => .operator "*"
  | .div => .operator "/"

def Evaluated.nodes : Evaluated → List Node
  | .number x => [.constant x.text]
  | .dice r => [Node.ofRolled r]
  | .group f => .openParen "(" :: (Evaluated.nodes f ++ [.closeParen ")"])
  | .neg f => .operator "-" :: Evaluated.nodes f
  | .binary op a b => Evaluated.nodes a ++ op.node :: Evaluated.nodes b

theorem Evaluated.nodes_neg (f : Evaluated) :
    nodes (.neg f) = .operator (Char.toString '-') :: f.nodes := rfl

theorem Evaluated.nodes_binary (op : Operator) (a b : Evaluated) :
    nodes (.binary op a b) = a.nodes ++ .operator op.symbol.toString :: b.nodes := by
  cases op <;> rfl

/-- The walk over the tree shows each token of its text as one node. -/
theorem Evaluated.nodes_eq_map_tokens (e : Evaluated) :
    e.nodes = (Formula.tokens e).map Node.ofToken := by
  induction e with
  | number x => rfl
  | dice r => rfl
  | group f ih => simp [nodes, Formula.tokens, Node.ofToken, ih]
  | neg f ih => simp [nodes_neg, Formula.tokens, Node.ofToken, ih]
  | binary op a b iha ihb => simp [nodes_binary, Formula.tokens, Node.ofToken, iha, ihb]

def RollResult.ofEvaluated (e : Evaluated) : Except CalculationError RollResult :=
  e.calculate.map fun value => ⟨value, e.nodes⟩

end DiceChat

/-!
# Dice

Some number of equal dice, with an optional rule that selects those which count by how high or
low they fell.
-/

namespace DiceChat

inductive Rule where
  | dropLowest
  | dropHighest
  | keepHighest
  | keepLowest
deriving DecidableEq, Repr

def Rule.text : Rule → String
  | .dropLowest => "dl"
  | .dropHighest => "dh"
  | .keepHighest => "kh"
  | .keepLowest => "kl"

structure Selection where
  rule : Rule
  count : UInt16
deriving DecidableEq, Repr

def Selection.text (s : Selection) : String := s.rule.text ++ s.count.toNat.repr

structure Dice where
  count : UInt16
  sides : UInt16
  selection : Option Selection
deriving DecidableEq, Repr

namespace Dice

instance : Inhabited Dice := ⟨⟨1, 20, none⟩⟩

def plain (d : Dice) : Dice := { d with selection := none }

def isValid (d : Dice) : Bool := 0 < d.count && 0 < d.sides

def text (d : Dice) : String :=
  d.count.toNat.repr ++ "d" ++ d.sides.toNat.repr ++ (d.selection.map Selection.text).getD ""

def unrollableText (d : Dice) : String :=
  d.text ++ " must have at least one die with at least one side"

end Dice
end DiceChat

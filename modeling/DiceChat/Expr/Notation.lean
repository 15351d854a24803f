import DiceChat.Dice.Notation
import DiceChat.Expr.Basic
import DiceChat.Number.Decimal
import DiceChat.Text.Blank

/-!
# Expression notation

Sums of products of values, from left to right, with negation binding closest and parentheses
around what belongs together. White space may stand around operators and values but not inside
numbers and dice.
-/

namespace DiceChat

open Reader

abbrev ExprReader := Reader Dice.Objection Expr

namespace Expr

def blanks : Reader Dice.Objection Unit := skipWhile Text.isBlank

def padded {α : Type} (r : Reader Dice.Objection α) : Reader Dice.Objection α :=
  blanks.andThen fun _ => r.andThen fun a => blanks.andThen fun _ => succeed a

def numberOfDigits (whole fraction : List Char) : Number :=
  Decimal.toNumber false ⟨Nat.ofDigitChars 10 (whole ++ fraction) 0, -(fraction.length : Int)⟩

def numberReader : ExprReader :=
  wholeNumber.andThen fun whole =>
    ((char '.').andThen fun _ => digits).optional.andThen fun fraction =>
      succeed (.number (numberOfDigits whole (fraction.getD [])))

def diceReader : ExprReader := Dice.reader.andThen fun d => succeed (.dice d)

def groupReader (inner : ExprReader) : ExprReader :=
  (char '(').andThen fun _ => inner.andThen fun e => (char ')').andThen fun _ =>
    succeed (.group e)

def atomReader (inner : ExprReader) : ExprReader :=
  padded ((diceReader.orElse numberReader).orElse (groupReader inner))

def unaryReader (inner : ExprReader) : ExprReader :=
  (padded (char '-')).many.andThen fun signs => (atomReader inner).andThen fun e =>
    succeed (signs.foldr (fun _ e => .neg e) e)

def operatorReader (op : Operator) : Reader Dice.Objection Operator :=
  (padded (char op.symbol)).andThen fun _ => succeed op

/-- Operands that are joined, from left to right, by two operators of equal standing. -/
def chain (one other : Operator) (operand : ExprReader) : ExprReader :=
  operand.andThen fun first =>
    (((operatorReader one).orElse (operatorReader other)).andThen fun op =>
      operand.andThen fun e => succeed (op, e)).many.andThen fun others =>
    succeed (others.foldl (fun a (op, b) => .binary op a b) first)

def sumReader (inner : ExprReader) : ExprReader :=
  chain .add .sub (chain .mul .div (unaryReader inner))

def readerUpTo : Nat → ExprReader
  | 0 => fail
  | depth + 1 => sumReader (readerUpTo depth)

/-- Lower-case notation of expressions. No expression has more parentheses than characters. -/
def reader : ExprReader := fun s => readerUpTo (s.length + 1) s

def parse (s : String) : Except ParseFailure Expr :=
  readAll reader (Text.lowerCase s.toList)

end Expr
end DiceChat

import DiceChat.Dice.Basic
import DiceChat.Reader.Digits
import DiceChat.Reader.Failure
import DiceChat.Text.LowerCase

/-!
# Dice notation

`4d6dl1` is four dice with six sides less the lowest. The number of dice may be left out, and
each selection has several spellings; `k` and its kin may leave out their count. Numbers have
sixteen bits, and dice must be valid.
-/

namespace DiceChat

open Reader

namespace Dice

inductive Part where
  | selectionCount
  | diceCount
  | diceSides
deriving DecidableEq, Repr

inductive Objection where
  | tooLarge (part : Part)
  | unrollable (dice : Dice)
deriving DecidableEq, Repr

def Part.text : Part → String
  | .selectionCount => "Selection count"
  | .diceCount => "Dice count"
  | .diceSides => "Dice sides"

def Objection.text : Objection → String
  | .tooLarge part => part.text ++ ": number too large to fit in target type"
  | .unrollable dice => dice.unrollableText

def number (part : Part) (digits : List Char) : Except Objection UInt16 :=
  let n := Nat.ofDigitChars 10 digits 0
  if h : n < UInt16.size then .ok (.ofNatLT n h) else .error (.tooLarge part)

def selectionCount : Reader Objection UInt16 :=
  wholeNumber.check (number .selectionCount)

def optionalCount : Reader Objection UInt16 :=
  wholeNumber.optional.check fun digits => number .selectionCount (digits.getD ['1'])

def spelled (word : List Char) (rule : Rule) (count : Reader Objection UInt16) :
    Reader Objection Selection :=
  (literal word).andThen fun _ => count.andThen fun n => succeed ⟨rule, n⟩

/-- The spellings of selections. One that begins like another comes before it. -/
def selectionReader : Reader Objection Selection :=
  firstOf [
    spelled ['-', 'l'] .dropLowest (succeed 1),
    spelled ['-', 'h'] .dropHighest (succeed 1),
    spelled ['d', 'h'] .dropHighest selectionCount,
    spelled ['d', 'l'] .dropLowest selectionCount,
    spelled ['d'] .dropLowest selectionCount,
    spelled ['k', 'l'] .keepLowest optionalCount,
    spelled ['v'] .keepLowest selectionCount,
    spelled ['k', 'h'] .keepHighest optionalCount,
    spelled ['k'] .keepHighest optionalCount,
    spelled ['^'] .keepHighest selectionCount]

/-- Dice from the digits of their numbers; the first number that does not fit is objected to. -/
def ofDigits (count : Option (List Char)) (sides : List Char) (selection : Option Selection) :
    Except Objection Dice := do
  let count ← number .diceCount (count.getD ['1'])
  let sides ← number .diceSides sides
  let dice : Dice := ⟨count, sides, selection⟩
  if dice.isValid then .ok dice else .error (.unrollable dice)

def reader : Reader Objection Dice :=
  Reader.check (do
      let count ← wholeNumber.optional
      let _ ← char 'd'
      let sides ← wholeNumber
      let selection ← selectionReader.optional
      return (count, sides, selection))
    fun (count, sides, selection) => ofDigits count sides selection

end Dice

abbrev ParseFailure := Reader.Failure Dice.Objection

def ParseFailure.text (f : ParseFailure) : String := f.message Dice.Objection.text

def Dice.parse (s : String) : Except ParseFailure Dice :=
  readAll Dice.reader (Text.lowerCase s.toList)

end DiceChat

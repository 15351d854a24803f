import DiceChat.History.Basic
import DiceChat.Json.Basic

/-!
# JSON form of the domain

Structures are objects with their members in a fixed order. A selection is an object with its
rule as the only key, and a node tells its kind in its first member.
-/

namespace DiceChat

def Json.ofWord (n : UInt16) : Json := .integer n.toNat

def Rule.name : Rule → String
  | .dropLowest => "DropLowest"
  | .dropHighest => "DropHighest"
  | .keepHighest => "KeepHighest"
  | .keepLowest => "KeepLowest"

def Selection.toJson (s : Selection) : Json := .object [(s.rule.name, .ofWord s.count)]

def Dice.toJson (d : Dice) : Json :=
  .object [
    ("count", .ofWord d.count),
    ("sides", .ofWord d.sides),
    ("selection", (d.selection.map Selection.toJson).getD .null)]

def Category.name : Category → String
  | .maximum => "MAX"
  | .minimum => "MIN"
  | .ordinary => "DEFAULT"

def Category.toJson (c : Category) : Json := .string c.name

def DieDetail.toJson (d : DieDetail) : Json :=
  .object [
    ("value", .ofWord d.value),
    ("crossedOut", .bool d.crossedOut),
    ("category", d.category.toJson)]

def Node.toJson : Node → Json
  | .dice content least greatest rolls =>
    .object [
      ("type", .string "DiceRoll"),
      ("content", .string content),
      ("min", .ofWord least),
      ("max", .ofWord greatest),
      ("rolls", .array (rolls.map DieDetail.toJson))]
  | .constant content => .object [("type", .string "Constant"), ("content", .string content)]
  | .operator content => .object [("type", .string "Operator"), ("content", .string content)]
  | .openParen content => .object [("type", .string "OpenParen"), ("content", .string content)]
  | .closeParen content => .object [("type", .string "CloseParen"), ("content", .string content)]

def RollResult.toJson (r : RollResult) : Json :=
  .object [("result", .float r.value), ("detail", .array (r.detail.map Node.toJson))]

def Segmented.toJson (s : Segmented) : Json :=
  .object [
    ("content", .string s.content),
    ("diceRolls", .array (s.results.map RollResult.toJson))]

def Message.toJson (m : Message) : Json :=
  .object [
    ("id", .integer m.id.toNat),
    ("author", .string m.author),
    ("content", .string m.content),
    ("diceRolls", .array (m.results.map RollResult.toJson))]

end DiceChat

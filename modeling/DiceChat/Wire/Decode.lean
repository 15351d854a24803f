import DiceChat.Wire.Encode

/-!
# Domain values from JSON

A structure is read from an object, whose members may come in any order and among others, or from
an array of all its members in their order. No member may come twice. The parts of a node are
read only after all of it, so unlike elsewhere all of it has to denote values.
-/

namespace DiceChat

namespace Json

def member? (members : List (String × Json)) (name : String) : Option (Option Json) :=
  match members.filter (·.1 == name) with
  | [] => some none
  | [(_, j)] => some (some j)
  | _ => none

/-- The values of the named members, in this order. An array has to have all of them. -/
def record? (names : List String) : Json → Option (List (Option Json))
  | .object members => names.mapM (member? members)
  | .array items => if items.length = names.length then some (items.map some) else none
  | _ => none

def natBelow? (limit : Nat) : Json → Option Nat
  | .integer n => if 0 ≤ n ∧ n < limit then some n.toNat else none
  | _ => none

def word? (j : Json) : Option UInt16 := (j.natBelow? UInt16.size).map UInt16.ofNat

def longWord? (j : Json) : Option UInt64 := (j.natBelow? UInt64.size).map UInt64.ofNat

def bool? : Json → Option Bool
  | .bool b => some b
  | _ => none

def string? : Json → Option String
  | .string s => some s
  | _ => none

def number? : Json → Option Number
  | .integer n => some (.nearest (n < 0) n.natAbs 1)
  | .float x => some x
  | _ => none

def list? {α : Type} (item? : Json → Option α) : Json → Option (List α)
  | .array items => items.mapM item?
  | _ => none

def required? {α : Type} (value? : Json → Option α) (j : Option Json) : Option α :=
  j.bind value?

end Json

open Json

def Rule.ofName? : String → Option Rule
  | "DropLowest" => some .dropLowest
  | "DropHighest" => some .dropHighest
  | "KeepHighest" => some .keepHighest
  | "KeepLowest" => some .keepLowest
  | _ => none

def Selection.ofJson? : Json → Option Selection
  | .object [(name, j)] => do return ⟨← Rule.ofName? name, ← j.word?⟩
  | _ => none

def Selection.optionOfJson? : Option Json → Option (Option Selection)
  | none | some .null => some none
  | some j => (ofJson? j).map some

def Dice.ofJson? (j : Json) : Option Dice :=
  match j.record? ["count", "sides", "selection"] with
  | some [count, sides, selection] => do
    return ⟨← required? word? count, ← required? word? sides,
      ← Selection.optionOfJson? selection⟩
  | _ => none

def Category.ofName? : String → Option Category
  | "MAX" => some .maximum
  | "MIN" => some .minimum
  | "DEFAULT" => some .ordinary
  | _ => none

/-- A category is its name, or the only key of an object that holds nothing. Inside a node an
empty object counts as nothing. -/
def Category.ofJson? (inNode : Bool) : Json → Option Category
  | .string name => ofName? name
  | .object [(name, .null)] => ofName? name
  | .object [(name, .object [])] => if inNode then ofName? name else none
  | _ => none

def DieDetail.ofJson? (inNode : Bool) (j : Json) : Option DieDetail :=
  match j.record? ["value", "crossedOut", "category"] with
  | some [value, crossedOut, category] => do
    return ⟨← required? word? value, ← required? bool? crossedOut,
      ← required? (Category.ofJson? inNode) category⟩
  | _ => none

namespace Node

def ofKind? (kind : String) (j : Json) : Option Node :=
  let withContent (node : String → Node) : Option Node :=
    match j.record? ["content"] with
    | some [content] => (required? string? content).map node
    | _ => none
  match kind with
  | "DiceRoll" =>
    match j.record? ["content", "min", "max", "rolls"] with
    | some [content, least, greatest, rolls] => do
      return .dice (← required? string? content) (← required? word? least)
        (← required? word? greatest) (← required? (list? (DieDetail.ofJson? true)) rolls)
    | _ => none
  | "Constant" => withContent .constant
  | "Operator" => withContent .operator
  | "OpenParen" => withContent .openParen
  | "CloseParen" => withContent .closeParen
  | _ => none

/-- The kind comes first in an array and anywhere in an object. -/
def ofJson? (j : Json) : Option Node :=
  if j.isUsable then
    match j with
    | .object members => do
      let kind ← required? string? (← member? members "type")
      ofKind? kind (.object (members.filter (·.1 != "type")))
    | .array (.string kind :: rest) => ofKind? kind (.array rest)
    | _ => none
  else none

end Node

def RollResult.ofJson? (j : Json) : Option RollResult :=
  match j.record? ["result", "detail"] with
  | some [value, detail] => do
    return ⟨← required? number? value, ← required? (list? Node.ofJson?) detail⟩
  | _ => none

def Segmented.ofJson? (j : Json) : Option Segmented :=
  match j.record? ["content", "diceRolls"] with
  | some [content, results] => do
    return ⟨← required? string? content, ← required? (list? RollResult.ofJson?) results⟩
  | _ => none

def Message.ofJson? (j : Json) : Option Message :=
  match j.record? ["id", "author", "content", "diceRolls"] with
  | some [id, author, content, results] => do
    return ⟨← required? longWord? id, ← required? string? author, ← required? string? content,
      ← required? (list? RollResult.ofJson?) results⟩
  | _ => none

end DiceChat

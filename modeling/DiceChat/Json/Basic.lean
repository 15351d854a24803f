import DiceChat.Number.Decimal

/-!
# JSON values

Members keep their order and may repeat. A number that is written as an integer and fits into 64
bits is one; all others are floats.
-/

namespace DiceChat

inductive Json where
  | null
  | bool (b : Bool)
  | integer (n : Int)
  | float (x : Number)
  | string (s : String)
  | array (items : List Json)
  | object (members : List (String × Json))
  /-- Well-formed text that denotes no value: it may stand where nobody looks. -/
  | unusable
deriving Repr

namespace Json

def isIntegral (n : Int) : Bool := -0x8000000000000000 ≤ n && n < 0x10000000000000000

mutual
def isUsable : Json → Bool
  | .array items => areUsable items
  | .object members => haveUsable members
  | .unusable => false
  | _ => true
def areUsable : List Json → Bool
  | [] => true
  | j :: rest => j.isUsable && areUsable rest
def haveUsable : List (String × Json) → Bool
  | [] => true
  | (_, j) :: rest => j.isUsable && haveUsable rest
end

end Json
end DiceChat

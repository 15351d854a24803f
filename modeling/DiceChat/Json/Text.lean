import DiceChat.Json.Basic

/-!
# Writing JSON

Strings escape quotes, backslashes and control characters, and nothing else. Floats always show
that they are floats, by a fraction or an exponent. One writer serves every layout.
-/

namespace DiceChat.Json

def escapedChar (c : Char) : List Char :=
  if c = '"' then ['\\', '"']
  else if c = '\\' then ['\\', '\\']
  else if c = '\x08' then ['\\', 'b']
  else if c = '\x0c' then ['\\', 'f']
  else if c = '\n' then ['\\', 'n']
  else if c = '\r' then ['\\', 'r']
  else if c = '\t' then ['\\', 't']
  else if c.toNat < 32 then
    ['\\', 'u', '0', '0', Nat.digitChar (c.toNat / 16), Nat.digitChar (c.toNat % 16)]
  else [c]

def quoted (s : String) : List Char :=
  '"' :: s.toList.flatMap escapedChar ++ ['"']

def scientific (d : Decimal) : List Char :=
  let digits := Nat.toDigits 10 d.digits
  let exponent := d.exponent + digits.length - 1
  digits.take 1 ++ (if digits.length = 1 then [] else '.' :: digits.drop 1) ++
    'e' :: exponent.repr.toList

def decimalChars (d : Decimal) : List Char :=
  let point := (Nat.toDigits 10 d.digits).length + d.exponent
  if -5 < point ∧ point ≤ 16 then
    d.positional.toList ++ if 0 ≤ d.exponent then ['.', '0'] else []
  else scientific d

/-- There is no text for infinities and `nan`; null stands for them. -/
def floatChars : Number → List Char
  | .finite negative m e _ =>
    (if negative then ['-'] else []) ++
      if m = 0 then ['0', '.', '0'] else decimalChars (Decimal.shortest .toEven m e)
  | _ => ['n', 'u', 'l', 'l']

/-- What stands between the tokens: the break before an item at some depth, and the gap after a
colon. -/
structure Layout where
  newline : Nat → List Char
  gap : List Char

def Layout.compact : Layout := ⟨fun _ => [], []⟩

def Layout.indented : Layout :=
  ⟨fun depth => '\n' :: List.replicate (2 * depth) ' ', [' ']⟩

mutual
def write (layout : Layout) (depth : Nat) : Json → List Char
  | .null => ['n', 'u', 'l', 'l']
  | .bool true => ['t', 'r', 'u', 'e']
  | .bool false => ['f', 'a', 'l', 's', 'e']
  | .integer n => n.repr.toList
  | .float x => floatChars x
  | .string s => quoted s
  | .array [] => ['[', ']']
  | .array (j :: rest) =>
    '[' :: layout.newline (depth + 1) ++ write layout (depth + 1) j ++
      writeItems layout depth rest
  | .object [] => ['\x7b', '\x7d']
  | .object ((key, j) :: rest) =>
    '\x7b' :: layout.newline (depth + 1) ++ quoted key ++ ':' :: layout.gap ++
      write layout (depth + 1) j ++ writeMembers layout depth rest
  | .unusable => ['n', 'u', 'l', 'l']
def writeItems (layout : Layout) (depth : Nat) : List Json → List Char
  | [] => layout.newline depth ++ [']']
  | j :: rest =>
    ',' :: layout.newline (depth + 1) ++ write layout (depth + 1) j ++
      writeItems layout depth rest
def writeMembers (layout : Layout) (depth : Nat) : List (String × Json) → List Char
  | [] => layout.newline depth ++ ['\x7d']
  | (key, j) :: rest =>
    ',' :: layout.newline (depth + 1) ++ quoted key ++ ':' :: layout.gap ++
      write layout (depth + 1) j ++ writeMembers layout depth rest
end

def compact (j : Json) : String := String.ofList (j.write .compact 0)

def pretty (j : Json) : String := String.ofList (j.write .indented 0)

end DiceChat.Json

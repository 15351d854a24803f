import DiceChat.Json.Basic

/-!
# Reading JSON

The whole grammar is accepted, also where a text denotes no value: a string with half of a
surrogate pair, a number beyond all floats, or nesting deeper than is allowed. Such a part is
read as unusable.
-/

namespace DiceChat.Json

def isBlank (c : Char) : Bool := c = ' ' || c = '\n' || c = '\t' || c = '\r'

def skipBlanks (s : List Char) : List Char := s.dropWhile isBlank

def hexValue? (c : Char) : Option Nat :=
  if '0' ≤ c ∧ c ≤ '9' then some (c.toNat - 48)
  else if 'a' ≤ c ∧ c ≤ 'f' then some (c.toNat - 87)
  else if 'A' ≤ c ∧ c ≤ 'F' then some (c.toNat - 55)
  else none

def unitOfHex? (a b c d : Char) : Option Nat := do
  return ((← hexValue? a) * 16 + (← hexValue? b)) * 256 + (← hexValue? c) * 16 + (← hexValue? d)

def unescaped? (c : Char) : Option Char :=
  match c with
  | '"' => some '"'
  | '\\' => some '\\'
  | '/' => some '/'
  | 'b' => some '\x08'
  | 'f' => some '\x0c'
  | 'n' => some '\n'
  | 'r' => some '\r'
  | 't' => some '\t'
  | _ => none

/-- The codes of a string from after its first quote, and what follows its last one. Only escapes
yield the codes of surrogates. -/
def readCodes : List Char → Option (List Nat × List Char)
  | [] => none
  | '"' :: rest => some ([], rest)
  | '\\' :: 'u' :: a :: b :: c :: d :: rest => do
    let code ← unitOfHex? a b c d
    let (codes, rest) ← readCodes rest
    return (code :: codes, rest)
  | '\\' :: c :: rest => do
    let c ← unescaped? c
    let (codes, rest) ← readCodes rest
    return (c.toNat :: codes, rest)
  | c :: rest =>
    if c.toNat < 32 || c = '\\' then none
    else (readCodes rest).map fun (codes, rest) => (c.toNat :: codes, rest)

def isHighSurrogate (n : Nat) : Bool := 0xD800 ≤ n && n < 0xDC00

def isLowSurrogate (n : Nat) : Bool := 0xDC00 ≤ n && n < 0xE000

/-- Joins surrogate pairs. A surrogate that is left alone is no character. -/
def charsOfCodes? : List Nat → Option (List Char)
  | [] => some []
  | [n] => if isHighSurrogate n || isLowSurrogate n then none else some [Char.ofNat n]
  | n :: m :: rest =>
    if isHighSurrogate n then
      if isLowSurrogate m then
        (charsOfCodes? rest).map (Char.ofNat ((n - 0xD800) * 1024 + (m - 0xDC00) + 0x10000) :: ·)
      else none
    else if isLowSurrogate n then none
    else (charsOfCodes? (m :: rest)).map (Char.ofNat n :: ·)

def readString (s : List Char) : Option (Option String × List Char) :=
  (readCodes s).map fun (codes, rest) => ((charsOfCodes? codes).map String.ofList, rest)

def readDigits (s : List Char) : Option (List Char × List Char) :=
  if (s.takeWhile Char.isDigit).isEmpty then none
  else some (s.takeWhile Char.isDigit, s.dropWhile Char.isDigit)

def readWhole : List Char → Option (List Char × List Char)
  | '0' :: rest => some (['0'], rest)
  | s => readDigits s

def readFraction : List Char → Option (Option (List Char) × List Char)
  | '.' :: rest => (readDigits rest).map fun (digits, rest) => (some digits, rest)
  | s => some (none, s)

def readSigned (s : List Char) : Option (Int × List Char) :=
  let magnitude (s : List Char) : Option (Nat × List Char) :=
    (readDigits s).map fun (digits, rest) => (Nat.ofDigitChars 10 digits 0, rest)
  match s with
  | '-' :: rest => (magnitude rest).map fun (n, rest) => (-(n : Int), rest)
  | '+' :: rest => (magnitude rest).map fun (n, rest) => ((n : Int), rest)
  | s => (magnitude s).map fun (n, rest) => ((n : Int), rest)

def readExponent : List Char → Option (Option Int × List Char)
  | 'e' :: rest | 'E' :: rest => (readSigned rest).map fun (n, rest) => (some n, rest)
  | s => some (none, s)

/-- The value of a number in its parts. A negative zero is a float in every form. -/
def numberOfParts (negative : Bool) (whole : List Char) (fraction : Option (List Char))
    (exponent : Option Int) : Json :=
  let n := Number.signed negative (Nat.ofDigitChars 10 whole 0)
  if fraction.isNone ∧ exponent.isNone ∧ isIntegral n ∧ ¬(negative ∧ n = 0) then .integer n
  else
    let digits := fraction.getD []
    let x := Decimal.toNumber negative
      ⟨Nat.ofDigitChars 10 (whole ++ digits) 0, exponent.getD 0 - digits.length⟩
    if x.isFinite then .float x else .unusable

def readMagnitude (negative : Bool) (s : List Char) : Option (Json × List Char) := do
  let (whole, s) ← readWhole s
  let (fraction, s) ← readFraction s
  let (exponent, s) ← readExponent s
  return (numberOfParts negative whole fraction exponent, s)

def readNumber : List Char → Option (Json × List Char)
  | '-' :: rest => readMagnitude true rest
  | s => readMagnitude false s

/-- An object that has a key without text is unusable. -/
def objectOf (members : List (Option String × Json)) : Json :=
  match members.mapM fun (key, j) => key.map (·, j) with
  | some members => .object members
  | none => .unusable

mutual
def readValue : Nat → Nat → List Char → Option (Json × List Char)
  | 0, _, _ => none
  | fuel + 1, room, s =>
    match s with
    | 'n' :: 'u' :: 'l' :: 'l' :: rest => some (.null, rest)
    | 't' :: 'r' :: 'u' :: 'e' :: rest => some (.bool true, rest)
    | 'f' :: 'a' :: 'l' :: 's' :: 'e' :: rest => some (.bool false, rest)
    | '"' :: rest => (readString rest).map fun (text, rest) =>
      ((text.map Json.string).getD .unusable, rest)
    | '[' :: rest => do
      let (items, rest) ← match skipBlanks rest with
        | ']' :: rest => some ([], rest)
        | s => readItems fuel (room - 1) s
      return (if room = 0 then .unusable else .array items, rest)
    | '\x7b' :: rest => do
      let (members, rest) ← match skipBlanks rest with
        | '\x7d' :: rest => some ([], rest)
        | s => readMembers fuel (room - 1) s
      return (if room = 0 then .unusable else objectOf members, rest)
    | s => readNumber s
def readItems : Nat → Nat → List Char → Option (List Json × List Char)
  | 0, _, _ => none
  | fuel + 1, room, s => do
    let (j, s) ← readValue fuel room s
    match skipBlanks s with
    | ']' :: rest => return ([j], rest)
    | ',' :: rest =>
      let (items, rest) ← readItems fuel room (skipBlanks rest)
      return (j :: items, rest)
    | _ => none
def readMembers : Nat → Nat → List Char → Option (List (Option String × Json) × List Char)
  | 0, _, _ => none
  | fuel + 1, room, s =>
    match s with
    | '"' :: s => do
      let (key, s) ← readString s
      match skipBlanks s with
      | ':' :: s =>
        let (j, s) ← readValue fuel room (skipBlanks s)
        match skipBlanks s with
        | '\x7d' :: rest => return ([(key, j)], rest)
        | ',' :: rest =>
          let (members, rest) ← readMembers fuel room (skipBlanks rest)
          return ((key, j) :: members, rest)
        | _ => none
      | _ => none
    | _ => none
end

/-- Reads a text whose values may be nested `room` levels deep. Every value but the outermost is
preceded by a character, so the length of a text bounds the steps that reading it takes. -/
def parseWithin (room : Nat) (s : String) : Option Json :=
  let text := skipBlanks s.toList
  match readValue (2 * text.length + 1) room text with
  | some (j, rest) => if (skipBlanks rest).isEmpty then some j else none
  | none => none

def maxDepth : Nat := 127

def parse (s : String) : Option Json := parseWithin maxDepth s

end DiceChat.Json

import DiceChat.Reader.Basic

/-!
# Digits

A whole number is a zero or a run of digits that does not begin with one. Its digits are given as
they stand; `Nat.ofDigitChars 10` is their value.
-/

namespace DiceChat.Reader

variable {ε : Type}

def isLeadingDigit (c : Char) : Bool := c.isDigit && c != '0'

/-- A whole run of digits that does not begin with a zero. Success discards the faults before. -/
def leadingDigits : Reader ε (List Char)
  | [] => ⟨none, unmet [] []⟩
  | c :: rest =>
    if isLeadingDigit c then
      ⟨some (c :: rest.takeWhile Char.isDigit, rest.dropWhile Char.isDigit), .cleared⟩
    else ⟨none, unmet [] (c :: rest)⟩

def wholeNumber : Reader ε (List Char) :=
  leadingDigits.orElse ((char '0').andThen fun c => succeed [c])

def digits : Reader ε (List Char) :=
  (satisfying Char.isDigit []).andThen fun c =>
    (satisfying Char.isDigit []).many.andThen fun cs => succeed (c :: cs)

@[simp] theorem run?_leadingDigits_nil :
    (leadingDigits : Reader ε (List Char)).run? [] = none := rfl

@[simp] theorem run?_leadingDigits_cons (c : Char) (s : List Char) :
    (leadingDigits : Reader ε (List Char)).run? (c :: s) =
      if isLeadingDigit c then some (c :: s.takeWhile Char.isDigit, s.dropWhile Char.isDigit)
      else none := by
  simp only [run?, leadingDigits]
  split <;> rfl

/-- Repeating a reader of single characters takes the longest run of them. -/
theorem run?_many_satisfying (p : Char → Bool) (wanted : List Wanted) (s : List Char) :
    (satisfying p wanted : Reader ε Char).many.run? s =
      some (s.takeWhile p, s.dropWhile p) := by
  rw [run?_many]
  induction s with
  | nil => simp [run?_manyUpTo_succ]
  | cons c s ih =>
    rw [run?_manyUpTo_succ, run?_satisfying_cons]
    by_cases h : p c
    · simp only [h, ↓reduceIte]
      simp [ih, h]
    · simp [h]

@[simp] theorem run?_digits_nil : (digits : Reader ε (List Char)).run? [] = none := rfl

@[simp] theorem run?_digits_cons (c : Char) (s : List Char) :
    (digits : Reader ε (List Char)).run? (c :: s) =
      if c.isDigit then some (c :: s.takeWhile Char.isDigit, s.dropWhile Char.isDigit)
      else none := by
  by_cases h : c.isDigit <;> simp [digits, h, run?_many_satisfying]

end DiceChat.Reader

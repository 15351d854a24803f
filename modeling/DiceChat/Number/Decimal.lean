import DiceChat.Number.Basic

/-!
# Decimals and their numbers

A decimal is read as the number nearest to it. A finite number is written with the fewest digits
that read back as that number and, among those, the ones nearest to its value. The two forms in
use differ only in an exact tie between two such decimals.
-/

namespace DiceChat

structure Decimal where
  digits : Nat
  exponent : Int
deriving DecidableEq, Repr

namespace Decimal

/-- The nearest number. The first two bounds only keep the powers of ten small: beyond them every
decimal is above the greatest number or below half the least. -/
def toNumber (negative : Bool) (d : Decimal) : Number :=
  if d.digits = 0 then .zero negative
  else if 310 < d.exponent then .infinity negative
  else if d.exponent + d.digits.log2 < -330 then .zero negative
  else .nearest negative (d.digits * Nat.pow 10 d.exponent.toNat) (Nat.pow 10 (-d.exponent).toNat)

/-- Where two decimals are equally near: the greater one, or the one with an even last digit. -/
inductive Tie where
  | up
  | toEven
deriving DecidableEq, Repr

def Tie.choose : Tie → Nat → Nat
  | .up, low => low + 1
  | .toEven, low => if low % 2 = 0 then low else low + 1

/-- The decimal on the grid of multiples of `10 ^ grid` that reads back as `m * 2 ^ e`, if the
value has such a neighbour there. -/
def onGrid? (tie : Tie) (m : Nat) (e grid : Int) : Option Decimal :=
  let num := m <<< e.toNat * Nat.pow 10 (-grid).toNat
  let den := 1 <<< (-e).toNat * Nat.pow 10 grid.toNat
  let low := num / den
  let readsBack (digits : Nat) : Bool := toNumber false ⟨digits, grid⟩ = .pack false m e
  match readsBack low, readsBack (low + 1) with
  | false, false => none
  | true, false => some ⟨low, grid⟩
  | false, true => some ⟨low + 1, grid⟩
  | true, true =>
    if 2 * num < (2 * low + 1) * den then some ⟨low, grid⟩
    else if (2 * low + 1) * den < 2 * num then some ⟨low + 1, grid⟩
    else some ⟨tie.choose low, grid⟩

def exact (m : Nat) (e : Int) : Decimal :=
  if 0 ≤ e then ⟨m <<< e.toNat, 0⟩ else ⟨m * Nat.pow 5 (-e).toNat, e⟩

def search (tie : Tie) (m : Nat) (e : Int) : Nat → Int → Decimal
  | 0, _ => exact m e
  | steps + 1, grid => (onGrid? tie m e grid).getD (search tie m e steps (grid - 1))

/-- The shortest decimal that reads back as `m * 2 ^ e`. The first grid is coarser than the value
is large, and seventeen digits identify every number, so twenty-four grids suffice. -/
def shortest (tie : Tie) (m : Nat) (e : Int) : Decimal :=
  search tie m e 24 ((m.log2 + e + 1) * 30103 / 100000 + 2)

def positional (d : Decimal) : String :=
  let digits := Nat.toDigits 10 d.digits
  let places := (-d.exponent).toNat
  if d.exponent ≥ 0 then
    String.ofList (digits ++ List.replicate d.exponent.toNat '0')
  else if places < digits.length then
    String.ofList (digits.take (digits.length - places) ++ '.' ::
      digits.drop (digits.length - places))
  else
    String.ofList ('0' :: '.' :: List.replicate (places - digits.length) '0' ++ digits)

end Decimal

def Number.text : Number → String
  | .nan => "NaN"
  | .infinity negative => if negative then "-inf" else "inf"
  | .finite negative m e _ =>
    let magnitude := if m = 0 then "0" else (Decimal.shortest .up m e).positional
    if negative then "-" ++ magnitude else magnitude

end DiceChat

/-!
# Binary64 numbers

A finite number is a sign, a mantissa and a binary exponent in the one form that the format has
for its value, so that equal representations are equal terms. Every operation computes the exact
value first and rounds it once, to the nearest number and from a midpoint to the even mantissa.
-/

namespace DiceChat

/-- The pairs that stand for `m * 2 ^ e`: at most 53 bits, and fewer only at the least exponent. -/
def Canonical (m : Nat) (e : Int) : Prop :=
  m < 1 <<< 53 ∧ -1074 ≤ e ∧ e ≤ 971 ∧ (1 <<< 52 ≤ m ∨ e = -1074)

instance (m : Nat) (e : Int) : Decidable (Canonical m e) :=
  inferInstanceAs (Decidable (_ ∧ _ ∧ _ ∧ _))

inductive Number where
  | nan
  | infinity (negative : Bool)
  | finite (negative : Bool) (mantissa : Nat) (exponent : Int)
      (canonical : Canonical mantissa exponent)
deriving DecidableEq, Repr

namespace Number

def roundHalfEven (num den : Nat) : Nat :=
  let low := num / den
  let rest := 2 * (num % den)
  if rest < den then low
  else if den < rest then low + 1
  else if low % 2 = 0 then low else low + 1

/-- The exponent of the last mantissa bit for a magnitude of `num / den`. -/
def lastPlace (num den : Nat) : Int :=
  let estimate : Int := (num.log2 : Int) - den.log2
  let top := if num <<< (-estimate).toNat < den <<< estimate.toNat
    then estimate - 1 else estimate
  max (-1074) (top - 52)

/-- A mantissa that rounding carried to `2 ^ 53` moves up one exponent; past the greatest
exponent the number is infinite. -/
def pack (negative : Bool) (m : Nat) (e : Int) : Number :=
  if h : Canonical m e then .finite negative m e h
  else if h : m = 1 <<< 53 ∧ Canonical (1 <<< 52) (e + 1) then
    .finite negative (1 <<< 52) (e + 1) h.2
  else .infinity negative

def zero (negative : Bool) : Number :=
  .finite negative 0 (-1074) (by decide)

def nearest (negative : Bool) (num den : Nat) : Number :=
  if num = 0 then zero negative
  else
    let e := lastPlace num den
    pack negative (roundHalfEven (num <<< (-e).toNat) (den <<< e.toNat)) e

def ofNat (n : Nat) : Number :=
  nearest false n 1

def isNegative : Number → Bool
  | .nan => false
  | .infinity negative => negative
  | .finite negative _ _ _ => negative

def isFinite : Number → Bool
  | .finite .. => true
  | _ => false

def isZero : Number → Bool
  | .finite _ m _ _ => m == 0
  | _ => false

def equals : Number → Number → Bool
  | .nan, _ => false
  | x, y => x == y || (x.isZero && y.isZero)

def neg : Number → Number
  | .nan => .nan
  | .infinity negative => .infinity !negative
  | .finite negative m e h => .finite (!negative) m e h

def signed (negative : Bool) (magnitude : Nat) : Int :=
  if negative then -magnitude else magnitude

/-- A sum of opposite numbers is the positive zero; only two negative zeros keep their sign. -/
def add : Number → Number → Number
  | .nan, _ => .nan
  | _, .nan => .nan
  | .infinity s, .infinity t => if s = t then .infinity s else .nan
  | .infinity s, .finite .. => .infinity s
  | .finite .., .infinity t => .infinity t
  | .finite s m e _, .finite t n f _ =>
    let low := min e f
    let sum := signed s (m <<< (e - low).toNat) + signed t (n <<< (f - low).toNat)
    if sum = 0 then zero (s && t)
    else nearest (sum < 0) (sum.natAbs <<< low.toNat) (1 <<< (-low).toNat)

def sub (x y : Number) : Number :=
  x.add y.neg

def mul : Number → Number → Number
  | .nan, _ => .nan
  | _, .nan => .nan
  | .infinity s, .infinity t => .infinity (s != t)
  | .infinity s, .finite t n _ _ => if n = 0 then .nan else .infinity (s != t)
  | .finite s m _ _, .infinity t => if m = 0 then .nan else .infinity (s != t)
  | .finite s m e _, .finite t n f _ =>
    nearest (s != t) ((m * n) <<< (e + f).toNat) (1 <<< (-(e + f)).toNat)

def div : Number → Number → Number
  | .nan, _ => .nan
  | _, .nan => .nan
  | .infinity _, .infinity _ => .nan
  | .infinity s, .finite t _ _ _ => .infinity (s != t)
  | .finite s _ _ _, .infinity t => zero (s != t)
  | .finite s m e _, .finite t n f _ =>
    if n = 0 then if m = 0 then .nan else .infinity (s != t)
    else nearest (s != t) (m <<< (e - f).toNat) (n <<< (f - e).toNat)

@[simp] theorem isFinite_neg (x : Number) : x.neg.isFinite = x.isFinite := by
  cases x <;> rfl

end Number
end DiceChat

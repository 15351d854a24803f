import DiceChat.Expr.Notation
import DiceChat.Proofs.Dice.Grammar

/-!
# The grammar of expressions

Sums of products of negated atoms. Sums and products grow to the left; an atom is a value or a sum
in parentheses. The rules are the same whatever the text is made of: a lexis says how values,
operators and parentheses look. In a text of characters white space may stand around each of them
and nowhere inside numbers and dice.
-/

namespace DiceChat

/-- How tightly the parts of a formula hold together, from the tightest on. -/
inductive Level where
  | atom
  | unary
  | product
  | sum
deriving DecidableEq

structure Lexis (α δ : Type) where
  Value : List α → Formula δ → Prop
  Operator : Char → List α → Prop
  Opening : List α → Prop
  Closing : List α → Prop

/-- The text `w` reads as the formula `f` at a level. -/
inductive Derives {α δ : Type} (L : Lexis α δ) : Level → List α → Formula δ → Prop
  | value {w : List α} {f : Formula δ} : L.Value w f → Derives L .atom w f
  | group {l w r : List α} {f : Formula δ} : L.Opening l → Derives L .sum w f → L.Closing r →
      Derives L .atom (l ++ (w ++ r)) (.group f)
  | atom {w : List α} {f : Formula δ} : Derives L .atom w f → Derives L .unary w f
  | neg {o w : List α} {f : Formula δ} : L.Operator '-' o → Derives L .unary w f →
      Derives L .unary (o ++ w) (.neg f)
  | unary {w : List α} {f : Formula δ} : Derives L .unary w f → Derives L .product w f
  | multiplicative {op : Operator} {v o w : List α} {a b : Formula δ} : op.isAdditive = false →
      Derives L .product v a → L.Operator op.symbol o → Derives L .unary w b →
      Derives L .product (v ++ (o ++ w)) (.binary op a b)
  | product {w : List α} {f : Formula δ} : Derives L .product w f → Derives L .sum w f
  | additive {op : Operator} {v o w : List α} {a b : Formula δ} : op.isAdditive = true →
      Derives L .sum v a → L.Operator op.symbol o → Derives L .product w b →
      Derives L .sum (v ++ (o ++ w)) (.binary op a b)

/-- A whole number with a fraction if there is one, and the number nearest to it. -/
def Number.Written (w : List Char) (x : Number) : Prop :=
  ∃ whole fraction, Reader.Whole whole ∧ x = Expr.numberOfDigits whole fraction ∧
    (w = whole ∧ fraction = [] ∨ w = whole ++ '.' :: fraction ∧ Reader.DigitRow fraction)

def Blanks (w : List Char) : Prop := ∀ c ∈ w, Text.isBlank c = true

theorem blanks_nil : Blanks [] := by simp [Blanks]

namespace Expr

inductive Bare : List Char → Expr → Prop
  | number {w : List Char} {x : Number} : x.Written w → Bare w (.number x)
  | dice {w : List Char} {d : Dice} : d.Written w → Bare w (.dice d)

def lexis : Lexis Char Dice where
  Value w e := ∃ l v r, w = l ++ (v ++ r) ∧ Blanks l ∧ Bare v e ∧ Blanks r
  Operator c w := ∃ l r, w = l ++ c :: r ∧ Blanks l ∧ Blanks r
  Opening w := ∃ l, w = l ++ ['('] ∧ Blanks l
  Closing w := ∃ r, w = ')' :: r ∧ Blanks r

abbrev Written (w : List Char) (e : Expr) : Prop := Derives lexis .sum w e

end Expr
end DiceChat

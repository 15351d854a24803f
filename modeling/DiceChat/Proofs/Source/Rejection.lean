import DiceChat.Source.Generator
import Mathlib.Logic.Function.Iterate

/-!
# Drawing until a product is accepted

A generator goes through all of its states before it comes back to one, since its increment is odd.
One of them has a product that is accepted for every die, so drawing comes to an end, and the bound
on the number of draws never shows. Whatever is drawn is the high half of a product, which lies
below the number of sides.
-/

namespace DiceChat.Generator

-- ---------------------------------------------------------------------------
-- All states
-- ---------------------------------------------------------------------------

def backstep : UInt64 := 0x32e25c49d2beaf2d

theorem backstep_mul_increment : backstep * increment = 1 := by decide

theorem iterate_advance (n : Nat) (g : Generator) :
    advance^[n] g = ⟨g.state + UInt64.ofNat n * increment⟩ := by
  induction n generalizing g with
  | zero => simp
  | succ n ih =>
    rw [Function.iterate_succ_apply, ih, advance, UInt64.ofNat_add, UInt64.add_mul, UInt64.add_assoc,
      UInt64.add_comm increment]
    simp

/-- From any state every other is reached, in fewer steps than there are states. -/
theorem exists_iterate_advance (g target : Generator) :
    ∃ n < UInt64.size, advance^[n] g = target := by
  let steps := (target.state - g.state) * backstep
  refine ⟨steps.toNat, steps.toNat_lt, ?_⟩
  rw [iterate_advance, UInt64.ofNat_toNat]
  have there : g.state + steps * increment = target.state := by
    rw [UInt64.mul_assoc, backstep_mul_increment, UInt64.mul_one, UInt64.add_comm,
      UInt64.sub_add_cancel]
  rw [there]

-- ---------------------------------------------------------------------------
-- Accepted products
-- ---------------------------------------------------------------------------

/-- The product of a generator is not in the part of the range that would favour some values. -/
def Accepts (sides : Nat) (g : Generator) : Prop :=
  threshold sides ≤ g.product sides % UInt32.size

/-- Drawing without a bound: a generator whose product is rejected is advanced and tried again. -/
inductive Draws (sides : Nat) : Generator → Nat → Generator → Prop
  | accepted {g : Generator} : g.Accepts sides → Draws sides g (g.product sides / UInt32.size) g
  | rejected {g last : Generator} {n : Nat} : ¬g.Accepts sides → Draws sides g.advance n last →
      Draws sides g n last

theorem product_div_lt {sides : Nat} (h : 0 < sides) (g : Generator) :
    g.product sides / UInt32.size < sides := by
  have low : g.output.toNat % UInt32.size < UInt32.size := Nat.mod_lt _ (by decide)
  exact Nat.div_lt_of_lt_mul (Nat.mul_lt_mul_of_pos_right low h)

theorem Draws.lt {sides n : Nat} {g last : Generator} (h : Draws sides g n last)
    (pos : 0 < sides) : n < sides := by
  induction h with
  | accepted => exact product_div_lt pos _
  | rejected _ _ ih => exact ih

/-- If enough rejections are allowed to reach an accepted product, the bound does not matter. -/
theorem draws_drawUpTo {sides rejections n : Nat} {g : Generator} (h : n ≤ rejections)
    (accepted : (advance^[n] g).Accepts sides) :
    Draws sides g (drawUpTo sides rejections g).1 (drawUpTo sides rejections g).2 := by
  induction rejections generalizing n g with
  | zero =>
    obtain rfl := Nat.le_zero.mp h
    rw [Function.iterate_zero_apply] at accepted
    rw [drawUpTo]
    exact .accepted accepted
  | succ rejections ih =>
    rw [drawUpTo]
    split
    · next less =>
      have rejected : ¬g.Accepts sides := Nat.not_le_of_lt less
      cases n with
      | zero =>
        rw [Function.iterate_zero_apply] at accepted
        exact absurd accepted rejected
      | succ n =>
        rw [Function.iterate_succ_apply] at accepted
        exact .rejected rejected (ih (Nat.le_of_succ_le_succ h) accepted)
    · next enough => exact .accepted (Nat.le_of_not_lt enough)

theorem accepts_of_output {sides : Nat} {g : Generator} (pos : 0 < sides)
    (hit : 0 < g.output.toNat % UInt32.size)
    (few : g.output.toNat % UInt32.size * sides < UInt32.size) : g.Accepts sides := by
  have below : threshold sides < sides := Nat.mod_lt _ pos
  have least : sides ≤ g.output.toNat % UInt32.size * sides := Nat.le_mul_of_pos_left _ hit
  unfold Accepts product
  rw [Nat.mod_eq_of_lt few]
  omega

def fallback : Generator := ⟨99634⟩

theorem accepts_fallback {sides : Nat} (pos : 0 < sides) (word : sides < UInt16.size) :
    fallback.Accepts sides := by
  have output : fallback.output.toNat % UInt32.size = 20076 := by decide
  refine accepts_of_output pos ?_ ?_
  · rw [output]
    decide
  · rw [output, UInt32.size]
    rw [UInt16.size] at word
    omega

theorem draws_draw {sides : Nat} (pos : 0 < sides) (word : sides < UInt16.size) (g : Generator) :
    Draws sides g.advance (g.draw sides).1 (g.draw sides).2 := by
  obtain ⟨n, few, reached⟩ := exists_iterate_advance g.advance fallback
  refine draws_drawUpTo (Nat.le_of_lt few) ?_
  rw [reached]
  exact accepts_fallback pos word

-- ---------------------------------------------------------------------------
-- Dice
-- ---------------------------------------------------------------------------

theorem rollDie_of_ne {sides : UInt16} (hsides : sides ≠ 0) (g : Generator) :
    g.rollDie sides = (UInt16.ofNat ((g.draw sides.toNat).1 + 1), (g.draw sides.toNat).2) := by
  unfold rollDie
  generalize g.draw sides.toNat = drawn
  obtain ⟨n, last⟩ := drawn
  split
  · next zero => exact absurd zero hsides
  · rfl

/-- A die shows one more than what is drawn, and so between one and its number of sides. -/
theorem rollDie_draws {sides : UInt16} (hsides : sides ≠ 0) (g : Generator) :
    ∃ n, Draws sides.toNat g.advance n (g.rollDie sides).2 ∧
      (g.rollDie sides).1.toNat = n + 1 ∧ n < sides.toNat := by
  have pos : 0 < sides.toNat :=
    Nat.pos_of_ne_zero fun zero => hsides (UInt16.toNat_inj.mp zero)
  have draws := draws_draw pos sides.toNat_lt g
  rw [rollDie_of_ne hsides]
  generalize g.draw sides.toNat = drawn at draws ⊢
  obtain ⟨n, last⟩ := drawn
  have below : n < sides.toNat := draws.lt pos
  have fits := sides.toNat_lt
  refine ⟨n, draws, ?_, below⟩
  rw [UInt16.toNat_ofNat', Nat.mod_eq_of_lt (by omega)]

end DiceChat.Generator

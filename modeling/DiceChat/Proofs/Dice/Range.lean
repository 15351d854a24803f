import DiceChat.Proofs.Dice.Raising
import DiceChat.Proofs.Source.Rejection

/-!
# The range of a total

The size of what a rule sums depends only on its count and on the number of dice. So if every die
falls between two bounds, the total lies between that many times the one and the other. A generator
stays between one and the number of sides, whatever its state, and both ends are reached.
-/

namespace DiceChat

-- ---------------------------------------------------------------------------
-- How many dice count
-- ---------------------------------------------------------------------------

/-- How many of a row of dice a rule sums. -/
def Rule.counting (rule : Rule) (n length : Nat) : Nat :=
  match rule with
  | .dropLowest => length - min n length
  | .dropHighest | .keepHighest | .keepLowest => min n length

def Dice.counting (d : Dice) : Nat :=
  match d.selection with
  | none => d.count.toNat
  | some s => s.rule.counting s.count.toNat d.count.toNat

theorem Rule.length_summed (rule : Rule) (n : Nat) (values : List UInt16) :
    (rule.summed n values).length = rule.counting n values.length := by
  rw [(rule.summed_perm n values).length_eq]
  cases rule with
  | dropLowest =>
    simp only [counted, counting, List.length_drop, List.length_mergeSort]
    omega
  | keepLowest => simp only [counted, counting, List.length_take, List.length_mergeSort]
  | dropHighest | keepHighest =>
    simp only [counted, counting, List.length_drop, List.length_mergeSort]
    omega

namespace Rolled

variable {r : Rolled}

theorem length_summed (h : r.values.length = r.dice.count.toNat) :
    r.summed.length = r.dice.counting := by
  unfold summed Dice.counting
  cases r.dice.selection with
  | none => exact h
  | some s => rw [← h, s.rule.length_summed]

theorem summed_subset (r : Rolled) : r.summed ⊆ r.values := by
  unfold summed
  cases r.dice.selection with
  | none => exact List.Subset.refl _
  | some s => exact (Marks.select_sublist _ _).subset

end Rolled

-- ---------------------------------------------------------------------------
-- Bounds
-- ---------------------------------------------------------------------------

theorem valueSum_bounds {values : List UInt16} {low high : Nat}
    (h : ∀ v ∈ values, low ≤ v.toNat ∧ v.toNat ≤ high) :
    values.length * low ≤ valueSum values ∧ valueSum values ≤ values.length * high := by
  induction values with
  | nil => simp [valueSum]
  | cons v values ih =>
    obtain ⟨first, others⟩ := List.forall_mem_cons.mp h
    obtain ⟨least, most⟩ := ih others
    simp only [valueSum, List.foldr_cons, List.length_cons, Nat.succ_mul] at least most ⊢
    omega

theorem Rolled.exists_total_between {r : Rolled} {low high : Nat}
    (length : r.values.length = r.dice.count.toNat)
    (h : ∀ v ∈ r.values, low ≤ v.toNat ∧ v.toNat ≤ high) :
    ∃ total, r.total? = some total ∧
      r.dice.counting * low ≤ total ∧ total ≤ r.dice.counting * high := by
  obtain ⟨total, htotal⟩ := Option.isSome_iff_exists.mp (total?_isSome length)
  have bounds := valueSum_bounds fun v hv => h v (r.summed_subset hv)
  rw [length_summed length, ← (total?_eq_some_iff.mp htotal).1] at bounds
  exact ⟨total, htotal, bounds⟩

-- ---------------------------------------------------------------------------
-- Sources
-- ---------------------------------------------------------------------------

namespace Draw

variable {σ : Type} [Source σ] {I : σ → Prop} {sides : UInt16} {low high : Nat}

theorem FallsBetween.selected {d : Dice} (h : FallsBetween I d.sides low high)
    (valid : d.isValid = true) {s : σ} (hs : I s) :
    ∃ r s', (selected d).Gives s (.ok r) s' ∧ I s' ∧ r.dice = d ∧
      r.values.length = d.count.toNat ∧ (∀ v ∈ r.values, low ≤ v.toNat ∧ v.toNat ≤ high) ∧
      ∃ total, r.total? = some total ∧ d.counting * low ≤ total ∧ total ≤ d.counting * high := by
  obtain ⟨values, s', fallen, length, between, hs'⟩ := h.fall d.count.toNat hs
  let r := (Rolled.ofValues d values).applySelection
  have dice : r.dice = d := by simp [r]
  have shown : r.values = values := by simp [r]
  have given : (Draw.selected d).Gives s (.ok r) s' := by
    rw [selected_eq_fall valid, gives_map]
    exact ⟨values, fallen, rfl⟩
  have total := Rolled.exists_total_between (r := r) (by rw [shown, dice, length])
    (by rwa [shown])
  rw [dice] at total
  exact ⟨r, s', given, hs', dice, by rw [shown, length], by rwa [shown], total⟩

end Draw

namespace Roller

open Draw

theorem fallsBetween_generator {sides : UInt16} (hsides : sides ≠ 0) :
    FallsBetween (fun r : Roller => ∃ g, r = .generator g) sides 1 sides.toNat := by
  rintro _ ⟨g, rfl⟩
  obtain ⟨n, -, value, below⟩ := g.rollDie_draws hsides
  exact ⟨(g.rollDie sides).1, .generator (g.rollDie sides).2, rfl, by omega, _, rfl⟩

theorem fallsBetween_constant (v sides : UInt16) :
    FallsBetween (· = Roller.constant v) sides v.toNat v.toNat := by
  rintro _ rfl
  exact ⟨v, .constant v, rfl, ⟨Nat.le_refl _, Nat.le_refl _⟩, rfl⟩

theorem fallsBetween_maximum (sides : UInt16) :
    FallsBetween (· = Roller.maximum) sides sides.toNat sides.toNat := by
  rintro _ rfl
  exact ⟨sides, .maximum, rfl, ⟨Nat.le_refl _, Nat.le_refl _⟩, rfl⟩

end Roller

/-- Dice that a generator rolls, from whatever state, show between one and their number of sides, and
total between the number of dice that count and that many times the sides. When all show one, and
when all show their highest, the ends are reached. Each die is one more than what the generator
comes to when it is advanced until a product is accepted. -/
theorem Rolled.total?_in_range {d : Dice} (valid : d.isValid = true) :
    (∀ g : Generator, ∃ r g',
      (Draw.selected d).Gives (Roller.generator g) (.ok r) (.generator g') ∧
      r.values.length = d.count.toNat ∧ (∀ v ∈ r.values, 1 ≤ v ∧ v ≤ d.sides) ∧
      ∃ total, r.total? = some total ∧
        d.counting ≤ total ∧ total ≤ d.counting * d.sides.toNat) ∧
    (∃ r, (Draw.selected d).Gives (Roller.constant 1) (.ok r) (.constant 1) ∧
      r.total? = some d.counting) ∧
    (∃ r, (Draw.selected d).Gives Roller.maximum (.ok r) .maximum ∧
      r.total? = some (d.counting * d.sides.toNat)) ∧
    ∀ g : Generator, ∃ n, Generator.Draws d.sides.toNat g.advance n (g.rollDie d.sides).2 ∧
      (g.rollDie d.sides).1.toNat = n + 1 := by
  have hsides : d.sides ≠ 0 := by
    intro zero
    simp [Dice.isValid, zero] at valid
  refine ⟨fun g => ?_, ?_, ?_, fun g => ?_⟩
  · obtain ⟨r, _, given, ⟨g', rfl⟩, -, length, between, total, htotal, bounds⟩ :=
      (Roller.fallsBetween_generator hsides).selected valid ⟨g, rfl⟩
    rw [Nat.mul_one] at bounds
    refine ⟨r, g', given, length, fun v hv => ?_, total, htotal, bounds⟩
    rw [UInt16.le_iff_toNat_le, UInt16.le_iff_toNat_le]
    exact between v hv
  · obtain ⟨r, _, given, rfl, -, -, -, total, htotal, least, most⟩ :=
      (Roller.fallsBetween_constant 1 d.sides).selected valid rfl
    have ones : (1 : UInt16).toNat = 1 := rfl
    rw [ones, Nat.mul_one] at least most
    exact ⟨r, given, htotal.trans (congrArg _ (Nat.le_antisymm most least))⟩
  · obtain ⟨r, _, given, rfl, -, -, -, total, htotal, least, most⟩ :=
      (Roller.fallsBetween_maximum d.sides).selected valid rfl
    exact ⟨r, given, htotal.trans (congrArg _ (Nat.le_antisymm most least))⟩
  · obtain ⟨n, draws, value, -⟩ := g.rollDie_draws hsides
    exact ⟨n, draws, value⟩

theorem Rolled.total?_in_range_dropHighest :
    let d : Dice := ⟨3, 6, some ⟨.dropHighest, 5⟩⟩
    d.isValid = true ∧ d.counting = 3 ∧
      (∃ r g' total, (Draw.selected d).Gives (Roller.ofSeed 7) (.ok r) (.generator g') ∧
        r.total? = some total ∧ 3 ≤ total ∧ total ≤ 18) ∧
      (∃ r, (Draw.selected d).Gives (Roller.constant 1) (.ok r) (.constant 1) ∧
        r.total? = some 3) ∧
      ∃ r, (Draw.selected d).Gives Roller.maximum (.ok r) .maximum ∧ r.total? = some 18 := by
  intro d
  obtain ⟨between, least, most, -⟩ := total?_in_range (d := d) rfl
  obtain ⟨r, g', given, -, -, total, htotal, bounds⟩ := between ⟨7⟩
  exact ⟨rfl, rfl, ⟨r, g', total, given, htotal, bounds⟩, least, most⟩

end DiceChat

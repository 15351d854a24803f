import DiceChat.Proofs.Expr.Turns

/-!
# Dice with one side

Nothing of a source shows in an expression whose dice all have one side. Each of them can only show
that side, whatever the state of the source, and everything after that is computed from the values:
what is crossed out, the totals, the nodes and the errors.
-/

namespace DiceChat

open Draw

-- ---------------------------------------------------------------------------
-- Sources
-- ---------------------------------------------------------------------------

namespace Source

variable {σ : Type} [Source σ] {I : σ → Prop}

def InRange (I : σ → Prop) : Prop :=
  ∀ (sides : UInt16) (s : σ), 0 < sides → I s →
    ∃ v s', rollDie sides s = (some v, s') ∧ 1 ≤ v ∧ v ≤ sides ∧ I s'

/-- From the states in `I` a die with one side shows it, and the source stays in `I`. -/
def ShowsOnlySide (I : σ → Prop) : Prop :=
  ∀ s, I s → ∃ s', rollDie 1 s = (some 1, s') ∧ I s'

theorem InRange.showsOnlySide (h : InRange I) : ShowsOnlySide I := by
  intro s hs
  obtain ⟨v, s', hv, low, high, hs'⟩ := h 1 s (by decide) hs
  obtain rfl : v = 1 := UInt16.le_antisymm high low
  exact ⟨s', hv, hs'⟩

theorem ShowsOnlySide.fall (h : ShowsOnlySide I) (n : Nat) {s : σ} (hs : I s) :
    ∃ s', (fall (List.replicate n 1)).Gives s (List.replicate n 1) s' ∧ I s' := by
  have between : FallsBetween I 1 1 1 := fun s hs => by
    obtain ⟨next, first, hnext⟩ := h s hs
    exact ⟨1, next, first, ⟨Nat.le_refl _, Nat.le_refl _⟩, hnext⟩
  obtain ⟨values, s', fallen, length, ones, hs'⟩ := between.fall n hs
  have same : values = List.replicate n 1 := List.eq_replicate_iff.mpr ⟨length, fun v hv =>
    UInt16.toNat_inj.mp (Nat.le_antisymm (ones v hv).2 (ones v hv).1)⟩
  rw [same] at fallen
  exact ⟨s', fallen, hs'⟩

end Source

namespace Generator

theorem drawUpTo_one (n : Nat) (g : Generator) : drawUpTo 1 n g = (0, g) := by
  have low : g.product 1 / UInt32.size = 0 := by
    rw [product, Nat.mul_one]
    exact Nat.div_eq_of_lt (Nat.mod_lt _ (by decide))
  have accepted : ¬g.product 1 % UInt32.size < threshold 1 := by
    rw [threshold, Nat.mod_one]
    exact Nat.not_lt_zero _
  cases n with
  | zero => rw [drawUpTo, low]
  | succ n => rw [drawUpTo, if_neg accepted, low]

theorem rollDie_one (g : Generator) : g.rollDie 1 = (1, g.advance) := by
  have drawn : g.draw (1 : UInt16).toNat = (0, g.advance) := drawUpTo_one _ _
  rw [rollDie, if_neg (by decide), drawn]
  rfl

end Generator

theorem Roller.showsOnlySide :
    Source.ShowsOnlySide fun r : Roller => r = .maximum ∨ ∃ g, r = .generator g := by
  rintro r (rfl | ⟨g, rfl⟩)
  · exact ⟨.maximum, rfl, .inl rfl⟩
  · refine ⟨.generator g.advance, ?_, .inr ⟨_, rfl⟩⟩
    show rollDie 1 (.generator g) = _
    rw [rollDie, Generator.rollDie_one]

-- ---------------------------------------------------------------------------
-- Expressions
-- ---------------------------------------------------------------------------

namespace Expr

theorem sides_of_isDeterministic {e : Expr} (h : e.isDeterministic = true) :
    ∀ d ∈ Formula.leaves e, d.sides = 1 := by
  induction e with
  | number x => simp [Formula.leaves]
  | dice d => simpa [Formula.leaves, isDeterministic] using h
  | group f ih | neg f ih => exact ih h
  | binary op a b iha ihb =>
    rw [isDeterministic, Bool.and_eq_true] at h
    simp only [Formula.leaves, List.mem_append]
    rintro d (hd | hd)
    · exact iha h.1 d hd
    · exact ihb h.2 d hd

end Expr

theorem Dice.rowOf_of_sides {ds : List Dice} (h : ∀ d ∈ ds, d.sides = 1) :
    ∃ n, rowOf ds = List.replicate n 1 := by
  refine ⟨(rowOf ds).length, List.eq_replicate_iff.mpr ⟨rfl, fun sides hsides => ?_⟩⟩
  obtain ⟨d, hd, hsides⟩ := List.mem_flatMap.mp hsides
  rw [(List.mem_replicate.mp hsides).2, h d hd]

namespace RollResult

variable {σ τ : Type} [Source σ] [Source τ]

/-- An expression whose dice all have one side comes to the same from any two sources that show the
only side of such dice: to a result with the same value and nodes, or to the same error. Every source
that keeps to the sides of its dice is of this kind. -/
theorem ofExpr_of_isDeterministic {e : Expr} (h : e.isDeterministic = true) {I : σ → Prop}
    {J : τ → Prop} (hI : Source.ShowsOnlySide I) (hJ : Source.ShowsOnlySide J) {s : σ} {t : τ}
    (hs : I s) (ht : J t) :
    (∃ outcome s' t', (ofExpr e).Gives s outcome s' ∧ (ofExpr e).Gives t outcome t') ∧
      ∀ K : σ → Prop, Source.InRange K → Source.ShowsOnlySide K := by
  refine ⟨?_, fun K => Source.InRange.showsOnlySide⟩
  obtain ⟨outcome, evaluates⟩ := e.exists_outcome
  obtain ⟨n, ones⟩ := Dice.rowOf_of_sides fun d hd =>
    Expr.sides_of_isDeterministic h d ((List.takeWhile_sublist Dice.isValid).subset hd)
  obtain ⟨s', fromS, -⟩ := hI.fall n hs
  obtain ⟨t', fromT, -⟩ := hJ.fall n ht
  -- The outcome is a function of the values alone, and both sources let the same ones fall.
  simp only [ofExpr_eq_map, evaluates, ones, gives_map]
  exact ⟨_, s', t', ⟨_, ⟨_, fromS, rfl⟩, rfl⟩, ⟨_, ⟨_, fromT, rfl⟩, rfl⟩⟩

theorem ofExpr_of_isDeterministic_division :
    let e : Expr := .binary .div (.dice ⟨3, 1, some ⟨.keepLowest, 2⟩⟩)
      (.group (.binary .sub (.dice ⟨1, 1, none⟩) (.number (.ofNat 1))))
    e.isDeterministic = true ∧
      ∃ outcome s' t', (ofExpr e).Gives Roller.maximum outcome s' ∧
        (ofExpr e).Gives (Roller.ofSeed 17) outcome t' := by
  intro e
  have h : e.isDeterministic = true := rfl
  exact ⟨h, (ofExpr_of_isDeterministic h Roller.showsOnlySide Roller.showsOnlySide (.inl rfl)
    (.inr ⟨⟨17⟩, rfl⟩)).1⟩

end RollResult
end DiceChat

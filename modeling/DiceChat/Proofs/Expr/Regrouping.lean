import DiceChat.Proofs.Expr.TokenText
import DiceChat.Proofs.Result.Explanation

/-!
# Groups change nothing that is rolled

The text of an expression may have parentheses where the expression has no groups. Groups are
neither rolled nor calculated with, so what is read from that text draws the same dice from the same
source and comes to the same value.
-/

namespace DiceChat

-- ---------------------------------------------------------------------------
-- Shapes
-- ---------------------------------------------------------------------------

theorem Formula.leaves_groupedIf {δ : Type} (wrap : Bool) (f : Formula δ) :
    (groupedIf wrap f).leaves = f.leaves := by
  cases wrap <;> rfl

theorem Formula.leaves_grouped {δ : Type} (f : Formula δ) : f.grouped.leaves = f.leaves := by
  induction f with
  | number x => rfl
  | dice d => rfl
  | group f ih => exact ih
  | neg f ih =>
    rw [grouped, leaves, leaves_groupedIf]
    exact ih
  | binary op a b iha ihb =>
    rw [grouped, leaves, leaves_groupedIf, leaves_groupedIf, iha, ihb]
    rfl

namespace Expr

theorem row_grouped (e : Expr) : row e.grouped = e.row := by
  rw [row, Formula.leaves_grouped, row]

theorem row_groupedIf (wrap : Bool) (e : Expr) : row (Formula.groupedIf wrap e) = e.row := by
  rw [row, Formula.leaves_groupedIf, row]

@[simp] theorem kind_withValues (e : Expr) (values : List UInt16) :
    (e.withValues values).kind = e.kind := by
  cases e <;> rfl

theorem withValues_groupedIf (wrap : Bool) (e : Expr) (values : List UInt16) :
    withValues (Formula.groupedIf wrap e) values =
      Formula.groupedIf wrap (e.withValues values) := by
  cases wrap <;> rfl

theorem withValues_grouped (e : Expr) (values : List UInt16) :
    withValues e.grouped values = (e.withValues values).grouped := by
  induction e generalizing values with
  | number x => rfl
  | dice d => rfl
  | group f ih => exact congrArg Formula.group (ih values)
  | neg f ih =>
    simp only [Formula.grouped, withValues, withValues_groupedIf, ih, kind_withValues]
  | binary op a b iha ihb =>
    simp only [Formula.grouped, withValues, withValues_groupedIf, iha, ihb, kind_withValues,
      row_groupedIf, row_grouped]

end Expr

-- ---------------------------------------------------------------------------
-- Values
-- ---------------------------------------------------------------------------

namespace Evaluated

theorem calculate_group {e : Evaluated} {x : Number} :
    calculate (.group e) = .ok x ↔ e.calculate = .ok x := by
  constructor
  · intro h
    obtain ⟨y, hy, h⟩ := except_bind_eq_ok.mp h
    obtain ⟨-, rfl⟩ := finite_eq_ok.mp h
    exact hy
  · intro h
    exact except_bind_eq_ok.mpr ⟨x, h, finite_eq_ok.mpr ⟨isFinite_of_calculate h, rfl⟩⟩

theorem calculate_groupedIf {wrap : Bool} {e : Evaluated} {x : Number} :
    calculate (Formula.groupedIf wrap e) = .ok x ↔ e.calculate = .ok x := by
  cases wrap with
  | true => exact calculate_group
  | false => exact Iff.rfl

theorem calculate_grouped {e : Evaluated} {x : Number} (h : e.calculate = .ok x) :
    calculate e.grouped = .ok x := by
  induction e generalizing x with
  | number y => exact h
  | dice r => exact h
  | group f ih => exact calculate_group.mpr (ih (calculate_group.mp h))
  | neg f ih =>
    obtain ⟨y, hf, h⟩ := except_bind_eq_ok.mp h
    obtain ⟨finite, rfl⟩ := finite_eq_ok.mp h
    refine except_bind_eq_ok.mpr ⟨y, calculate_groupedIf.mpr (ih hf), ?_⟩
    exact finite_eq_ok.mpr ⟨finite, rfl⟩
  | binary op a b iha ihb =>
    obtain ⟨y, ha, h⟩ := except_bind_eq_ok.mp h
    obtain ⟨z, hb, h⟩ := except_bind_eq_ok.mp h
    refine except_bind_eq_ok.mpr ⟨y, calculate_groupedIf.mpr (iha ha), ?_⟩
    refine except_bind_eq_ok.mpr ⟨z, calculate_groupedIf.mpr (ihb hb), ?_⟩
    split at h
    · cases h
    · next nonzero =>
      obtain ⟨finite, rfl⟩ := finite_eq_ok.mp h
      rw [if_neg nonzero]
      exact finite_eq_ok.mpr ⟨finite, rfl⟩

end Evaluated

namespace Expr

variable {σ : Type} [Source σ] {source source' : σ}

theorem eval_grouped {e : Expr} {ev : Evaluated} (valid : e.Valid)
    (h : e.eval.run.Gives source (.ok ev) source') :
    (eval e.grouped).run.Gives source (.ok ev.grouped) source' := by
  obtain ⟨values, fallen, rfl⟩ := eval_gives_ok h
  have valid' : Valid e.grouped := Formula.All.grouped valid
  rw [eval_eq_fall valid', Draw.gives_map]
  exact ⟨values, by rwa [row_grouped], congrArg Except.ok (withValues_grouped e values)⟩

theorem plain_of_calculate {s : String} {e : Expr} {ev : Evaluated} {x : Number}
    (read : parse s = .ok e) (h : e.eval.run.Gives source (.ok ev) source')
    (value : ev.calculate = .ok x) : e.Plain := by
  obtain ⟨rfl, selected⟩ := eval_gives h
  have totals : ev.All (fun _ => True) fun r => ∀ n, r.total? = some n → r.total?.getD 0 = n := by
    refine selected.imp (fun _ h => h) ?_
    intro r _ n hn
    rw [hn, Option.getD_some]
  obtain ⟨-, finite⟩ := Evaluated.calculate_eq_ok value totals
  exact plain_of_parse read ((Formula.all_map Rolled.dice ev).mpr finite)

/-- The text of an expression that came to a value is read as one that draws the same dice and comes
to the same value. -/
theorem eval_text {s : String} {e : Expr} {ev : Evaluated} {x : Number} (read : parse s = .ok e)
    (h : e.eval.run.Gives source (.ok ev) source') (value : ev.calculate = .ok x) :
    ∃ (e' : Expr) (ev' : Evaluated), parse e.text = .ok e' ∧
      e'.eval.run.Gives source (.ok ev') source' ∧ ev'.leaves = ev.leaves ∧
      ev'.calculate = .ok x := by
  have parsed := parse_text (plain_of_calculate read h value) (regular_of_parse read)
  have drawn := eval_grouped (valid_of_parse read) h
  exact ⟨e.grouped, ev.grouped, parsed, drawn, Formula.leaves_grouped ev,
    Evaluated.calculate_grouped value⟩

end Expr
end DiceChat

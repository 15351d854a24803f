import DiceChat.Proofs.Expr.Complete
import DiceChat.Proofs.Expr.Regular
import DiceChat.Proofs.Source.Falling

/-!
# What evaluation draws

Evaluating an expression lets its dice fall in a row, in written order, and hands each of them its
own part of the values. No value is left out and none is used twice. Text that is no expression
draws nothing; everything else that can go wrong does so when all dice have fallen.
-/

namespace DiceChat

abbrev Expr.Valid (e : Expr) : Prop := Formula.All (fun _ => True) (fun d => d.isValid = true) e

namespace Expr

theorem valid_of_parse {text : String} {e : Expr} (h : parse text = .ok e) : e.Valid :=
  ((written_of_readAll h).all values_lexis).imp (fun _ _ => trivial) fun _ valid => valid

def row (e : Expr) : List UInt16 :=
  (Formula.leaves e).flatMap fun d => List.replicate d.count.toNat d.sides

/-- What an expression evaluates to when its dice, in order, fall to the given values. -/
def withValues : Expr → List UInt16 → Evaluated
  | .number x, _ => .number x
  | .dice d, values => .dice (Rolled.ofValues d values).applySelection
  | .group f, values => .group (withValues f values)
  | .neg f, values => .neg (withValues f values)
  | .binary op a b, values =>
    let n := (row a).length
    .binary op (withValues a (values.take n)) (withValues b (values.drop n))

theorem row_dice (d : Dice) : row (.dice d) = List.replicate d.count.toNat d.sides := by
  simp [row, Formula.leaves]

theorem row_binary (op : Operator) (a b : Expr) : row (.binary op a b) = row a ++ row b := by
  simp [row, Formula.leaves]

theorem withValues_append (op : Operator) (a b : Expr) {va vb : List UInt16}
    (h : va.length = (row a).length) :
    withValues (.binary op a b) (va ++ vb) = .binary op (withValues a va) (withValues b vb) := by
  simp [withValues, ← h]

theorem values_withValues {e : Expr} {values : List UInt16} (h : values.length = (row e).length) :
    (Formula.leaves (e.withValues values)).flatMap Rolled.values = values := by
  induction e generalizing values with
  | number x => exact (List.eq_nil_of_length_eq_zero h).symm
  | dice d => simp [withValues, Formula.leaves]
  | group f ih | neg f ih => exact ih h
  | binary op a b iha ihb =>
    rw [row_binary] at h
    obtain ⟨va, vb, rfl, ha, hb⟩ := Draw.split_values h
    simp [withValues_append op a b ha, Formula.leaves, iha ha, ihb hb]

theorem all_withValues {e : Expr} {values : List UInt16} (h : values.length = (row e).length) :
    (e.withValues values).All (fun _ => True) fun r => r.values.length = r.dice.count.toNat := by
  induction e generalizing values with
  | number x => trivial
  | dice d =>
    rw [row_dice, List.length_replicate] at h
    simpa [withValues, Formula.All] using h
  | group f ih | neg f ih => exact ih h
  | binary op a b iha ihb =>
    rw [row_binary] at h
    obtain ⟨va, vb, rfl, ha, hb⟩ := Draw.split_values h
    rw [withValues_append op a b ha]
    exact ⟨iha ha, ihb hb⟩

-- ---------------------------------------------------------------------------
-- Evaluation
-- ---------------------------------------------------------------------------

/-- Evaluation by a given way to roll dice. -/
def evalBy {m : Type → Type} [Monad m] (roll : Dice → m Rolled) : Expr → m Evaluated
  | .number x => return .number x
  | .dice d => return .dice (← roll d)
  | .group f => return .group (← evalBy roll f)
  | .neg f => return .neg (← evalBy roll f)
  | .binary op a b => do
    let a ← evalBy roll a
    let b ← evalBy roll b
    return .binary op a b

section

variable {σ ε : Type} [Source σ]

theorem evalBy_selected (e : Expr) :
    evalBy (m := ExceptT Dice (Draw σ)) Draw.selected e = e.eval := by
  induction e with
  | number x => rfl
  | dice d => rfl
  | group f ih | neg f ih => simp only [eval, evalBy, ih]
  | binary op a b iha ihb => simp only [eval, evalBy, iha, ihb]

theorem run_evalBy {roll : Dice → ExceptT ε (Draw σ) Rolled} {e : Expr} (valid : e.Valid)
    (h : ∀ d : Dice, d.isValid = true → (roll d).run =
      (fun values => .ok (Rolled.ofValues d values).applySelection) <$>
        Draw.fall (List.replicate d.count.toNat d.sides)) :
    (evalBy roll e).run = (fun values => .ok (e.withValues values)) <$> Draw.fall e.row := by
  induction e with
  | number x => rfl
  | dice d =>
    simp only [evalBy, bind_pure_comp, ExceptT.run_map, h d valid, row_dice, Functor.map_map]
    rfl
  | group f ih | neg f ih =>
    simp only [evalBy, bind_pure_comp, ExceptT.run_map, ih valid, Functor.map_map]
    rfl
  | binary op a b iha ihb =>
    simp only [evalBy, bind_pure_comp, ExceptT.run_bind, ExceptT.run_map, iha valid.1, ihb valid.2,
      bind_map_left, row_binary, Draw.fall_append, map_bind, Functor.map_map]
    -- The values of the left operand are split off again only because they are as many as its dice.
    refine Draw.bind_congr fun s va s' fallen => ?_
    refine congrArg (· <$> _) (funext fun vb => ?_)
    rw [withValues_append op a b (Draw.length_of_fall fallen)]
    rfl

theorem eval_eq_fall {e : Expr} (valid : e.Valid) :
    (e.eval (σ := σ)).run = (fun values => .ok (e.withValues values)) <$> Draw.fall e.row := by
  rw [← evalBy_selected]
  exact run_evalBy valid fun d hd => Draw.selected_eq_fall hd

end
end Expr

-- ---------------------------------------------------------------------------
-- Results
-- ---------------------------------------------------------------------------

namespace RollResult

theorem ofEvaluated_eq_ok {ev : Evaluated} {r : RollResult} :
    ofEvaluated ev = .ok r ↔ ev.calculate = .ok r.value ∧ ev.nodes = r.detail := by
  cases r
  unfold ofEvaluated
  cases ev.calculate <;> simp [Except.map]

theorem ofEvaluated_eq_error {ev : Evaluated} {error : CalculationError} :
    ofEvaluated ev = .error error ↔ ev.calculate = .error error := by
  unfold ofEvaluated
  cases ev.calculate <;> simp [Except.map]

def row (text : String) : List UInt16 :=
  match Expr.parse text with
  | .ok e => e.row
  | .error _ => []

def withValues (text : String) (values : List UInt16) : Except EvaluationError RollResult :=
  match Expr.parse text with
  | .ok e => (ofEvaluated (e.withValues values)).mapError .calculation
  | .error failure => .error (.parse failure)

section

variable {text : String} {e : Expr} {failure : ParseFailure}

theorem row_of_parse (h : Expr.parse text = .ok e) : row text = e.row := by
  unfold row
  rw [h]

theorem row_of_failure (h : Expr.parse text = .error failure) : row text = [] := by
  unfold row
  rw [h]

theorem withValues_of_parse (h : Expr.parse text = .ok e) (values : List UInt16) :
    withValues text values = (ofEvaluated (e.withValues values)).mapError .calculation := by
  unfold withValues
  rw [h]

theorem withValues_of_failure (h : Expr.parse text = .error failure) (values : List UInt16) :
    withValues text values = .error (.parse failure) := by
  unfold withValues
  rw [h]

end

/-- What an expression comes to when it is evaluated to this, or to dice that cannot be rolled. -/
def ofOutcome : Except Dice Evaluated → Except EvaluationError RollResult
  | .ok ev => (ofEvaluated ev).mapError .calculation
  | .error d => .error (.dice d)

theorem ofExpr_eq_map {σ : Type} [Source σ] (e : Expr) :
    (ofExpr e : Draw σ _) = ofOutcome <$> e.eval.run := by
  rw [ofExpr, map_eq_pure_bind]
  refine congrArg (_ >>= ·) (funext fun outcome => ?_)
  cases outcome <;> rfl

/-- Evaluation lets a row of dice fall and looks at nothing else of the source. -/
theorem evaluate_eq_fall {σ : Type} [Source σ] (text : String) :
    (evaluate text : Draw σ (Except EvaluationError RollResult)) =
      withValues text <$> Draw.fall (row text) := by
  unfold evaluate
  cases h : Expr.parse text with
  | error failure =>
    rw [row_of_failure h, Draw.fall, map_pure, withValues_of_failure h]
  | ok e =>
    simp only [ofExpr_eq_map, Expr.eval_eq_fall (Expr.valid_of_parse h), row_of_parse h,
      Functor.map_map]
    exact congrArg (· <$> _) (funext fun values => (withValues_of_parse h values).symm)

end RollResult
end DiceChat

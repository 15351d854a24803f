import DiceChat.Proofs.Dice.Shown
import DiceChat.Proofs.Expr.Calculation
import DiceChat.Proofs.Result.Drawing
import Mathlib.Data.List.TakeWhile

/-!
# Dice take turns

Evaluating an expression asks the source for the dice of one leaf after the other, in written
order, and hands each leaf the values that fell for it. The first leaf whose dice cannot be rolled
ends it: the dice before that have fallen, and nothing more is asked for.
-/

namespace DiceChat

-- ---------------------------------------------------------------------------
-- What is asked for
-- ---------------------------------------------------------------------------

/-- A source together with the dice that it has been asked for, by their sides. -/
structure Recorder (σ : Type) where
  source : σ
  asked : List UInt16

namespace Recorder

variable {σ : Type} [Source σ]

instance : Source (Recorder σ) where
  rollDie sides r :=
    let (v, source) := Source.rollDie sides r.source
    (v, ⟨source, r.asked ++ [sides]⟩)

theorem gives_die {sides v : UInt16} {r r' : Recorder σ} :
    (Draw.die sides).Gives r v r' ↔
      (Draw.die sides).Gives r.source v r'.source ∧ r'.asked = r.asked ++ [sides] := by
  obtain ⟨source', asked'⟩ := r'
  simp [Draw.Gives, Draw.runFrom_die, Source.rollDie, Prod.ext_iff, and_assoc, eq_comm]

theorem gives_fall {row values : List UInt16} {r r' : Recorder σ} :
    (Draw.fall row).Gives r values r' ↔
      (Draw.fall row).Gives r.source values r'.source ∧ r'.asked = r.asked ++ row := by
  induction row generalizing r r' values with
  | nil =>
    obtain ⟨source, asked⟩ := r
    obtain ⟨source', asked'⟩ := r'
    simp [Draw.fall, and_assoc, eq_comm]
  | cons sides row ih =>
    simp only [Draw.fall, Draw.gives_bind, Draw.gives_pure, gives_die, ih]
    constructor
    · rintro ⟨v, next, ⟨hv, first⟩, vs, last, ⟨hvs, rest⟩, rfl, rfl⟩
      exact ⟨⟨v, next.source, hv, vs, _, hvs, rfl, rfl⟩, by simp [rest, first]⟩
    · rintro ⟨⟨v, next, hv, vs, last, hvs, rfl, rfl⟩, asked⟩
      exact ⟨v, ⟨next, r.asked ++ [sides]⟩, ⟨hv, rfl⟩, vs, r', ⟨hvs, by simp [asked]⟩, rfl, rfl⟩

end Recorder

-- ---------------------------------------------------------------------------
-- What is handed out
-- ---------------------------------------------------------------------------

/-- Rolled dice for each of the given ones: every leaf shows its own share of the values, as they
fell, and is crossed out just where its selection excludes a die. -/
inductive Rolled.Dealt : List Dice → List UInt16 → List Rolled → Prop
  | nil : Dealt [] [] []
  | cons {r : Rolled} {ds : List Dice} {values : List UInt16} {rs : List Rolled} :
      r.values.length = r.dice.count.toNat → r.crossedOut = r.excluded → Dealt ds values rs →
      Dealt (r.dice :: ds) (r.values ++ values) (r :: rs)

theorem Rolled.Dealt.append {ds ds' : List Dice} {values values' : List UInt16}
    {rs rs' : List Rolled} (h : Dealt ds values rs) (h' : Dealt ds' values' rs') :
    Dealt (ds ++ ds') (values ++ values') (rs ++ rs') := by
  induction h with
  | nil => exact h'
  | cons length crossed _ ih =>
    rw [List.append_assoc]
    exact .cons length crossed ih

def Rolled.Selected (r : Rolled) : Prop :=
  ∃ values, r = (ofValues r.dice values).applySelection

theorem Rolled.crossedOut_eq_excluded (d : Dice) (values : List UInt16) :
    (ofValues d values).applySelection.crossedOut =
      (ofValues d values).applySelection.excluded := by
  rw [crossedOut_applySelection]
  unfold excluded Dice.marks
  rw [dice_applySelection, values_applySelection, dice_ofValues, values_ofValues]
  cases d.selection with
  | none => exact Marks.places_none _
  | some s => rfl

def Dice.rowOf (ds : List Dice) : List UInt16 :=
  ds.flatMap fun d => List.replicate d.count.toNat d.sides

theorem Dice.rowOf_append (ds others : List Dice) :
    rowOf (ds ++ others) = rowOf ds ++ rowOf others :=
  List.flatMap_append

namespace Expr

theorem row_eq_rowOf (e : Expr) : e.row = Dice.rowOf (Formula.leaves e) := rfl

theorem valid_iff {e : Expr} : e.Valid ↔ ∀ d ∈ Formula.leaves e, d.isValid = true := by
  induction e with
  | number x => simp [Valid, Formula.All, Formula.leaves]
  | dice d => simp [Valid, Formula.All, Formula.leaves]
  | group f ih | neg f ih => exact ih
  | binary op a b iha ihb =>
    simp only [Formula.leaves, List.mem_append, or_imp, forall_and, ← iha, ← ihb]
    exact Iff.rfl

theorem map_dice_withValues (e : Expr) (values : List UInt16) :
    (e.withValues values).map Rolled.dice = e := by
  induction e generalizing values with
  | number x => rfl
  | dice d => simp [withValues, Formula.map]
  | group f ih | neg f ih => simp [withValues, Formula.map, ih]
  | binary op a b iha ihb => simp [withValues, Formula.map, iha, ihb]

theorem selected_withValues (e : Expr) (values : List UInt16) :
    (e.withValues values).All (fun _ => True) Rolled.Selected := by
  induction e generalizing values with
  | number x => trivial
  | dice d => exact ⟨values, by rw [Rolled.dice_applySelection, Rolled.dice_ofValues]⟩
  | group f ih | neg f ih => exact ih values
  | binary op a b iha ihb => exact ⟨iha _, ihb _⟩

theorem dealt_withValues {e : Expr} {values : List UInt16} (h : values.length = e.row.length) :
    Rolled.Dealt (Formula.leaves e) values (Formula.leaves (e.withValues values)) := by
  induction e generalizing values with
  | number x =>
    rw [List.eq_nil_of_length_eq_zero h]
    exact .nil
  | dice d =>
    rw [row_dice, List.length_replicate] at h
    let r := (Rolled.ofValues d values).applySelection
    have length : r.values.length = r.dice.count.toNat := by simpa [r] using h
    have dealt := Rolled.Dealt.cons length (Rolled.crossedOut_eq_excluded d values) .nil
    simpa [r, withValues, Formula.leaves] using dealt
  | group f ih | neg f ih => exact ih h
  | binary op a b iha ihb =>
    rw [row_binary] at h
    obtain ⟨va, vb, rfl, ha, hb⟩ := Draw.split_values h
    rw [withValues_append op a b ha]
    exact (iha ha).append (ihb hb)

-- ---------------------------------------------------------------------------
-- Dice that cannot be rolled
-- ---------------------------------------------------------------------------

section

variable {σ : Type} [Source σ]

theorem eval_eq_fall_of_invalid {e : Expr} {before after : List Dice} {d : Dice}
    (h : Formula.leaves e = before ++ d :: after) (valid : ∀ b ∈ before, b.isValid = true)
    (invalid : d.isValid = false) :
    (e.eval (σ := σ)).run = (fun _ => .error d) <$> Draw.fall (Dice.rowOf before) := by
  induction e generalizing before after with
  | number x => simp [Formula.leaves] at h
  | dice other =>
    cases before with
    | cons b before => simp [Formula.leaves] at h
    | nil =>
      obtain ⟨rfl, -⟩ := List.cons.inj h
      simp only [eval, bind_pure_comp, ExceptT.run_map]
      exact congrArg (Except.map Formula.dice <$> ·) (Draw.selected_of_invalid invalid)
  | group f ih | neg f ih =>
    simp only [eval, bind_pure_comp, ExceptT.run_map, ih h valid, Functor.map_map]
    rfl
  | binary op a b iha ihb =>
    -- Either the left operand ends it, or all dice of that have fallen before the right one does.
    rcases append_eq_append_cons h with ⟨rest, ha⟩ | ⟨more, rfl, hb⟩
    · simp [eval, ExceptT.run_bind, iha ha valid]
    · have left : Valid a := valid_iff.mpr fun b hb => valid b (by simp [hb])
      have right := ihb hb fun b hb => valid b (by simp [hb])
      simp [eval, ExceptT.run_bind, eval_eq_fall left, right, Dice.rowOf_append, Draw.fall_append,
        ← row_eq_rowOf, Except.map]

end

theorem exists_first_invalid {e : Expr} (h : ¬e.Valid) :
    ∃ before d after, Formula.leaves e = before ++ d :: after ∧
      (∀ b ∈ before, b.isValid = true) ∧ d.isValid = false := by
  rw [valid_iff] at h
  cases found : (Formula.leaves e).find? (!·.isValid) with
  | none => exact absurd (by simpa using found) h
  | some d =>
    obtain ⟨invalid, before, after, split, valid⟩ := List.find?_eq_some_iff_append.mp found
    exact ⟨before, d, after, split, by simpa using valid, by simpa using invalid⟩

/-- What evaluation comes to is decided by the values of the dice before the first that cannot be
rolled, from whatever source they are. -/
theorem exists_outcome (e : Expr) : ∃ outcome : List UInt16 → Except Dice Evaluated,
    ∀ (σ : Type) [Source σ], (e.eval (σ := σ)).run =
      outcome <$> Draw.fall (Dice.rowOf ((Formula.leaves e).takeWhile Dice.isValid)) := by
  by_cases valid : e.Valid
  · have all : (Formula.leaves e).takeWhile Dice.isValid = Formula.leaves e :=
      List.takeWhile_eq_self_iff.mpr (valid_iff.mp valid)
    rw [all]
    exact ⟨_, fun σ _ => eval_eq_fall valid⟩
  · obtain ⟨before, d, after, split, valid, invalid⟩ := exists_first_invalid valid
    have first : (Formula.leaves e).takeWhile Dice.isValid = before := by
      rw [split, List.takeWhile_append_of_pos valid, List.takeWhile_cons_of_neg (by simp [invalid]),
        List.append_nil]
    rw [first]
    exact ⟨_, fun σ _ => eval_eq_fall_of_invalid split valid invalid⟩

variable {σ : Type} [Source σ]

/-- An evaluation that comes to something has rolled all dice, and they fell to the values that its
leaves hold. -/
theorem eval_gives_ok {e : Expr} {ev : Evaluated} {s s' : σ}
    (h : e.eval.run.Gives s (.ok ev) s') :
    ∃ values, (Draw.fall e.row).Gives s values s' ∧ e.withValues values = ev := by
  by_cases valid : e.Valid
  · rw [eval_eq_fall valid, Draw.gives_map] at h
    obtain ⟨values, fallen, h⟩ := h
    exact ⟨values, fallen, Except.ok.inj h⟩
  · obtain ⟨before, d, after, split, valid, invalid⟩ := exists_first_invalid valid
    rw [eval_eq_fall_of_invalid split valid invalid, Draw.gives_map] at h
    obtain ⟨values, -, h⟩ := h
    cases h

theorem eval_gives {e : Expr} {ev : Evaluated} {s s' : σ} (h : e.eval.run.Gives s (.ok ev) s') :
    ev.map Rolled.dice = e ∧ ev.All (fun _ => True) Rolled.Selected := by
  obtain ⟨values, -, rfl⟩ := eval_gives_ok h
  exact ⟨map_dice_withValues e values, selected_withValues e values⟩

/-- An expression whose dice can all be rolled lets them fall in written order and keeps its shape,
and each leaf gets its own values. Otherwise the first dice that cannot be rolled are what it fails
with, when those before them have fallen. Just these dice are asked for, and from a source that never
runs dry evaluation comes to an end. -/
theorem eval_in_turn (e : Expr) :
    ((∀ d ∈ Formula.leaves e, d.isValid = true) →
      (e.eval (σ := σ)).run =
        (fun values => .ok (e.withValues values)) <$> Draw.fall (Dice.rowOf (Formula.leaves e))) ∧
    (∀ values : List UInt16, values.length = (Dice.rowOf (Formula.leaves e)).length →
      (e.withValues values).map Rolled.dice = e ∧
      Rolled.Dealt (Formula.leaves e) values (Formula.leaves (e.withValues values))) ∧
    (∀ before d after, Formula.leaves e = before ++ d :: after →
      (∀ b ∈ before, b.isValid = true) → d.isValid = false →
      (e.eval (σ := σ)).run = (fun _ => .error d) <$> Draw.fall (Dice.rowOf before)) ∧
    (∀ (s : σ) (next : Recorder σ) (outcome : Except Dice Evaluated),
      e.eval.run.Gives (Recorder.mk s []) outcome next ↔
        e.eval.run.Gives s outcome next.source ∧
          next.asked = Dice.rowOf ((Formula.leaves e).takeWhile Dice.isValid)) ∧
    ∀ I : σ → Prop, Source.Endless I → Draw.AlwaysGives I e.eval.run := by
  refine ⟨fun valid => eval_eq_fall (valid_iff.mpr valid), fun values length => ?_,
    fun before d after => eval_eq_fall_of_invalid, fun s next outcome => ?_,
    fun I endless => alwaysGives_eval endless e⟩
  · exact ⟨map_dice_withValues e values, dealt_withValues length⟩
  · obtain ⟨result, h⟩ := exists_outcome e
    rw [h, h, Draw.gives_map, Draw.gives_map]
    simp only [Recorder.gives_fall, List.nil_append]
    constructor
    · rintro ⟨values, ⟨fallen, asked⟩, rfl⟩
      exact ⟨⟨values, fallen, rfl⟩, asked⟩
    · rintro ⟨⟨values, fallen, rfl⟩, asked⟩
      exact ⟨values, ⟨fallen, asked⟩, rfl⟩

theorem eval_in_turn_tie :
    let e (last : Dice) : Expr := .binary .add (.dice ⟨1, 6, none⟩)
      (.binary .mul (.dice ⟨2, 4, some ⟨.keepLowest, 1⟩⟩) (.neg (.dice last)))
    let source := Roller.sequence [5, 3, 3, 7, 9]
    (e ⟨1, 8, none⟩).eval.run.Gives source
      (.ok (.binary .add (.dice ⟨⟨1, 6, none⟩, [⟨5, false⟩]⟩)
        (.binary .mul (.dice ⟨⟨2, 4, some ⟨.keepLowest, 1⟩⟩, [⟨3, true⟩, ⟨3, false⟩]⟩)
          (.neg (.dice ⟨⟨1, 8, none⟩, [⟨7, false⟩]⟩))))) (.sequence [9]) ∧
    ((e ⟨1, 8, none⟩).withValues [5, 3, 3, 7]).map Rolled.dice = e ⟨1, 8, none⟩ ∧
    (e ⟨0, 8, none⟩).eval.run.Gives source (.error ⟨0, 8, none⟩) (.sequence [7, 9]) ∧
    ∃ outcome next, (e ⟨0, 8, none⟩).eval.run.Gives Roller.maximum outcome next := by
  intro e source
  obtain ⟨falls, shares, -⟩ := eval_in_turn (σ := Roller) (e ⟨1, 8, none⟩)
  obtain ⟨-, -, stops, -, ends⟩ := eval_in_turn (σ := Roller) (e ⟨0, 8, none⟩)
  refine ⟨?_, (shares [5, 3, 3, 7] (by decide)).1, ?_, ?_⟩
  · rw [falls (by decide), Draw.gives_map]
    refine ⟨[5, 3, 3, 7], ?_, by decide⟩
    rw [Draw.Gives, Draw.runFrom_fall_sequence]
    decide
  · rw [stops [⟨1, 6, none⟩, ⟨2, 4, some ⟨.keepLowest, 1⟩⟩] ⟨0, 8, none⟩ [] rfl (by decide) rfl,
      Draw.gives_map]
    refine ⟨[5, 3, 3], ?_, rfl⟩
    rw [Draw.Gives, Draw.runFrom_fall_sequence]
    decide
  · obtain ⟨outcome, next, given, -⟩ := ends _ Roller.endless .maximum rfl
    exact ⟨outcome, next, given⟩

end Expr
end DiceChat

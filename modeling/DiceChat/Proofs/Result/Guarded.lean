import DiceChat.History.Basic
import DiceChat.Proofs.Dice.Crossing
import DiceChat.Proofs.Dice.Totals
import DiceChat.Proofs.Expr.Faults
import DiceChat.Proofs.Expr.Calculation
import DiceChat.Proofs.Result.Drawing

/-!
# How evaluation ends

Whatever values dice fall to, a text comes to a result with a finite value, is no expression, or
has a part whose value is not finite or whose divisor is zero. That there are no other ends is
said twice: of what evaluation gives, and by guards. A guarded evaluation stops as soon as a die is
crossed out that is crossed out already, dice cannot be rolled, or a total has too many bits. It
never does stop, neither for a single text nor for a message that is segmented or posted.
-/

namespace DiceChat

-- ---------------------------------------------------------------------------
-- Guards
-- ---------------------------------------------------------------------------

/-- What evaluation does not come across. -/
inductive Breach where
  | crossedOutTwice (r : Rolled)
  | unrollable (d : Dice)
  | total (part : Evaluated)

/-- A draw that stops at a breach. -/
abbrev Guarded (σ : Type) := ExceptT Breach (Draw σ)

namespace Guarded

variable {σ α β : Type}

/-- No breach stops `x`, and it does what `y` does. -/
def Agrees (x : Guarded σ α) (y : Draw σ α) : Prop := x.run = Except.ok <$> y

theorem agrees_pure (a : α) : Agrees (pure a : Guarded σ α) (pure a) := rfl

theorem Agrees.bind {x : Guarded σ α} {y : Draw σ α} {f : α → Guarded σ β} {g : α → Draw σ β}
    (hx : Agrees x y) (hf : ∀ a, Agrees (f a) (g a)) : Agrees (x >>= f) (y >>= g) := by
  unfold Agrees at *
  simp [ExceptT.run_bind, hx, hf]

end Guarded

section guarded

variable {σ : Type} [Source σ]

/-- Rolls dice and crosses out what their selection excludes, one die after the other. -/
def Draw.guarded (d : Dice) : Guarded σ Rolled := do
  match ← (Draw.rolled d : Draw σ (Except Dice Rolled)) with
  | .error d => throw (.unrollable d)
  | .ok r =>
    match r.crossOutExcluded? with
    | some r => return r
    | none => throw (.crossedOutTwice r)

theorem Draw.run_guarded {d : Dice} (valid : d.isValid = true) :
    (guarded d : Guarded σ Rolled).run =
      (fun values => .ok (Rolled.ofValues d values).applySelection) <$>
        fall (List.replicate d.count.toNat d.sides) := by
  simp [guarded, rolled, valid, values_eq, Rolled.crossOutExcluded?_ofValues, Except.map]

def RollResult.guarded (text : String) : Guarded σ (Except EvaluationError RollResult) :=
  match Expr.parse text with
  | .error failure => return .error (.parse failure)
  | .ok e => do
    match ofEvaluated (← e.evalBy Draw.guarded) with
    | .ok result => return .ok result
    | .error ⟨.total, part⟩ => throw (.total part)
    | .error error => return .error (.calculation error)

end guarded

namespace Segmented

section

variable {m : Type → Type} [Monad m]
  (evaluate : String → m (Except EvaluationError RollResult))

def partsOfPieceBy : Piece → m (List (Part RollResult))
  | .text s => return Part.ofText s
  | .bracketed s => do
    match ← evaluate (String.ofList s) with
    | .ok result => return [.filling result]
    | .error _ => return Part.ofText (Piece.bracketed s).source

def partsOfPiecesBy : List Piece → m (List (Part RollResult))
  | [] => return []
  | piece :: rest => do
    let first ← partsOfPieceBy evaluate piece
    let others ← partsOfPiecesBy rest
    return first ++ others

def segmentBy (message : String) : m Segmented := do
  return ofParts message (← partsOfPiecesBy evaluate (Piece.split message.toList))

end

section

variable {σ : Type} [Source σ]

theorem agrees_partsOfPieceBy {guarded : String → Guarded σ (Except EvaluationError RollResult)}
    (h : ∀ text, (guarded text).Agrees (RollResult.evaluate text)) (piece : Piece) :
    (partsOfPieceBy guarded piece).Agrees (partsOfPiece piece) := by
  cases piece with
  | text s => exact Guarded.agrees_pure _
  | bracketed s =>
    refine (h _).bind fun outcome => ?_
    cases outcome with
    | ok result => exact Guarded.agrees_pure _
    | error e => exact Guarded.agrees_pure _

theorem agrees_segmentBy {guarded : String → Guarded σ (Except EvaluationError RollResult)}
    (h : ∀ text, (guarded text).Agrees (RollResult.evaluate text)) (message : String) :
    (segmentBy guarded message).Agrees (segment message) := by
  have pieces (ps : List Piece) : (partsOfPiecesBy guarded ps).Agrees (partsOfPieces ps) := by
    induction ps with
    | nil => exact Guarded.agrees_pure _
    | cons piece rest ih =>
      exact (agrees_partsOfPieceBy h piece).bind fun first =>
        ih.bind fun others => Guarded.agrees_pure _
  exact (pieces _).bind fun parts => Guarded.agrees_pure _

end
end Segmented

def History.postGuarded {σ : Type} [Source σ] (h : History) (author raw : String) :
    Guarded σ (Message × History) := do
  return h.append author (← Segmented.segmentBy RollResult.guarded raw)

-- ---------------------------------------------------------------------------
-- Calculation
-- ---------------------------------------------------------------------------

theorem Evaluated.cause_ne_total {e : Evaluated} {error : CalculationError}
    (h : e.calculate = .error error)
    (totals : e.All (fun _ => True) fun r => r.total?.isSome = true) : error.cause ≠ .total := by
  intro cause
  obtain ⟨faulty, before, after, split, -⟩ := calculate_eq_error_iff.mp h
  obtain ⟨r, part, exceeds⟩ := faulty.total_iff.mp cause
  have member : error.part ∈ Formula.parts e := by simp [split]
  have total : r.total?.isSome = true := by
    have all := totals.of_mem_parts member
    rwa [part] at all
  have untold := total?_eq_none_iff.mpr exceeds
  simp [Rolled.total?, untold] at total

-- ---------------------------------------------------------------------------
-- Evaluation
-- ---------------------------------------------------------------------------

namespace RollResult

theorem cause_ne_total {e : Expr} {values : List UInt16} {error : CalculationError}
    (h : values.length = e.row.length)
    (failed : ofEvaluated (e.withValues values) = .error error) : error.cause ≠ .total := by
  refine Evaluated.cause_ne_total (ofEvaluated_eq_error.mp failed) ?_
  exact (Expr.all_withValues h).imp (fun _ _ => trivial) fun r hr => Rolled.total?_isSome hr

/-- The four ends of an evaluation. -/
inductive Ending : Except EvaluationError RollResult → Prop
  | result {r : RollResult} : r.value.isFinite = true → Ending (.ok r)
  | unread (failure : ParseFailure) : Ending (.error (.parse failure))
  | overflow (part : Evaluated) : Ending (.error (.calculation ⟨.overflow, part⟩))
  | division (part : Evaluated) : Ending (.error (.calculation ⟨.division, part⟩))

theorem ending_withValues {text : String} {values : List UInt16}
    (h : values.length = (row text).length) : Ending (withValues text values) := by
  cases hparse : Expr.parse text with
  | error failure =>
    rw [withValues_of_failure hparse]
    exact .unread failure
  | ok e =>
    rw [row_of_parse hparse] at h
    rw [withValues_of_parse hparse]
    cases hr : ofEvaluated (e.withValues values) with
    | ok r =>
      obtain ⟨hvalue, -⟩ := ofEvaluated_eq_ok.mp hr
      exact .result (Evaluated.isFinite_of_calculate hvalue)
    | error error =>
      obtain ⟨cause, part⟩ := error
      cases cause with
      | total => exact absurd rfl (cause_ne_total h hr)
      | overflow => exact .overflow part
      | division => exact .division part

section

variable {σ : Type} [Source σ]

theorem agrees_guarded (text : String) :
    (RollResult.guarded text : Guarded σ (Except EvaluationError RollResult)).Agrees
      (evaluate text) := by
  unfold Guarded.Agrees RollResult.guarded
  rw [evaluate_eq_fall]
  cases hparse : Expr.parse text with
  | error failure =>
    rw [row_of_failure hparse, Draw.fall, map_pure, withValues_of_failure hparse]
    rfl
  | ok e =>
    have valid := Expr.valid_of_parse hparse
    simp only [ExceptT.run_bind, Expr.run_evalBy valid fun d hd => Draw.run_guarded hd,
      row_of_parse hparse, ← bind_pure_comp, bind_assoc, pure_bind]
    refine Draw.bind_congr fun s values s' fallen => ?_
    rw [withValues_of_parse hparse]
    cases hr : ofEvaluated (e.withValues values) with
    | ok r => rfl
    | error error =>
      obtain ⟨cause, part⟩ := error
      cases cause with
      | total => exact absurd rfl (cause_ne_total (Draw.length_of_fall fallen) hr)
      | overflow | division => rfl

/-- From a source that never runs dry every evaluation ends in one of four ways, whether or not the
values fit the dice, and from no source does it end in another. No breach ever stops the evaluation
of a text, nor the segmenting and posting of a message. -/
theorem evaluate_ends (text author : String) (h : History) :
    (∀ I : σ → Prop, Source.Endless I → ∀ s, I s →
      ∃ outcome s', (evaluate text).Gives s outcome s' ∧ Ending outcome) ∧
    (∀ (s s' : σ) outcome, (evaluate text).Gives s outcome s' → Ending outcome) ∧
    (guarded text : Guarded σ _).run = Except.ok <$> evaluate text ∧
    (Segmented.segmentBy guarded text : Guarded σ _).run = Except.ok <$> Segmented.segment text ∧
    (h.postGuarded author text : Guarded σ _).run = Except.ok <$> h.post author text := by
  have ends {s s' : σ} {outcome} (given : (evaluate text).Gives s outcome s') :
      Ending outcome := by
    rw [evaluate_eq_fall, Draw.gives_map] at given
    obtain ⟨values, fallen, rfl⟩ := given
    exact ending_withValues (Draw.length_of_fall fallen)
  have segment := Segmented.agrees_segmentBy (σ := σ) agrees_guarded text
  refine ⟨?_, fun s s' outcome given => ends given, agrees_guarded text, segment, ?_⟩
  · intro I hI s hs
    obtain ⟨outcome, s', given, -⟩ := alwaysGives_evaluate hI text s hs
    exact ⟨outcome, s', given, ends given⟩
  · exact segment.bind fun segmented => Guarded.agrees_pure _

/-- Threes are no values of dice with two sides. They count like all others, also where that makes
a divisor zero. -/
theorem evaluate_ends_misfit :
    (∃ outcome s', (evaluate "2d2kh1 + 1").Gives (Roller.constant 3) outcome s' ∧
      Ending outcome) ∧
    ∃ part, (evaluate "4 / (d2 - 3)").Gives (Roller.constant 3)
        (.error (.calculation ⟨.division, part⟩)) (.constant 3) ∧
      Ending (.error (.calculation ⟨.division, part⟩)) := by
  obtain ⟨ends, -⟩ := evaluate_ends (σ := Roller) "2d2kh1 + 1" "" (.create 1 1)
  obtain ⟨-, division, -⟩ := evaluate_ends (σ := Roller) "4 / (d2 - 3)" "" (.create 1 1)
  refine ⟨ends _ Roller.endless (.constant 3) rfl, ?_⟩
  have given : (evaluate "4 / (d2 - 3)").Gives (Roller.constant 3)
      (.error (.calculation ⟨.division, .binary .div (.number (.ofNat 4))
        (.group (.binary .sub (.dice ⟨⟨1, 2, none⟩, [⟨3, false⟩]⟩) (.number (.ofNat 3))))⟩))
      (.constant 3) := by
    unfold Draw.Gives
    decide +kernel
  exact ⟨_, given, division _ _ _ given⟩

end

end RollResult
end DiceChat

import DiceChat.Result.Evaluation
import DiceChat.Source.Roller

/-!
# Draws from a source

What a draw gives is a relation between the states of the source before and after it. A draw that
finds the source dry gives nothing. From a source that never runs dry every evaluation gives
something: a result or an error.
-/

namespace DiceChat

namespace Draw

variable {σ α β : Type}

def runFrom (x : Draw σ α) (s : σ) : Option α × σ := x.run.run s

theorem runFrom_pure (a : α) (s : σ) : (pure a : Draw σ α).runFrom s = (some a, s) := rfl

theorem runFrom_bind (x : Draw σ α) (f : α → Draw σ β) (s : σ) :
    (x >>= f).runFrom s = match x.runFrom s with
      | (some a, next) => (f a).runFrom next
      | (none, next) => (none, next) := by
  simp only [runFrom, OptionT.run_bind, Option.elimM, StateT.run_bind]
  show (match x.run.run s with | (r, next) => _) = _
  rcases x.run.run s with ⟨_ | a, next⟩ <;> rfl

/-- The source does not run dry, and `a` is drawn from it. -/
def Gives (x : Draw σ α) (s : σ) (a : α) (s' : σ) : Prop := x.runFrom s = (some a, s')

@[simp] theorem gives_pure {a b : α} {s s' : σ} :
    Gives (pure a) s b s' ↔ a = b ∧ s = s' := by
  simp [Gives, runFrom_pure]

theorem gives_bind {x : Draw σ α} {f : α → Draw σ β} {s s' : σ} {b : β} :
    Gives (x >>= f) s b s' ↔ ∃ a next, Gives x s a next ∧ Gives (f a) next b s' := by
  unfold Gives
  rw [runFrom_bind]
  rcases x.runFrom s with ⟨_ | a, next⟩
  · simp
  · constructor
    · intro h
      exact ⟨a, next, rfl, h⟩
    · rintro ⟨_, _, h, hb⟩
      cases h
      exact hb

theorem gives_ok_iff {ε : Type} {x : Draw σ (Except ε α)} {s s' : σ} {a : α} :
    x.Gives s (.ok a) s' ↔
      (x.runFrom s).1.bind Except.toOption = some a ∧ (x.runFrom s).2 = s' := by
  unfold Gives
  rcases x.runFrom s with ⟨_ | _ | b, next⟩ <;> simp [Except.toOption]

/-- From the states in `I` the draw does not find the source dry, and leaves it in `I`. -/
def AlwaysGives (I : σ → Prop) (x : Draw σ α) : Prop :=
  ∀ s, I s → ∃ a s', x.Gives s a s' ∧ I s'

variable {I : σ → Prop}

theorem alwaysGives_pure (a : α) : AlwaysGives I (pure a) :=
  fun s hs => ⟨a, s, rfl, hs⟩

theorem AlwaysGives.bind {x : Draw σ α} {f : α → Draw σ β} (hx : AlwaysGives I x)
    (hf : ∀ a, AlwaysGives I (f a)) : AlwaysGives I (x >>= f) := by
  intro s hs
  obtain ⟨a, next, ha, hnext⟩ := hx s hs
  obtain ⟨b, s', hb, hs'⟩ := hf a next hnext
  exact ⟨b, s', gives_bind.mpr ⟨a, next, ha, hb⟩, hs'⟩

theorem AlwaysGives.bindExcept {ε : Type} {x : ExceptT ε (Draw σ) α}
    {f : α → ExceptT ε (Draw σ) β} (hx : AlwaysGives I x.run)
    (hf : ∀ a, AlwaysGives I (f a).run) : AlwaysGives I (x >>= f).run := by
  rw [ExceptT.run_bind]
  refine hx.bind fun r => ?_
  cases r with
  | ok a => exact hf a
  | error e => exact alwaysGives_pure _

end Draw

-- ---------------------------------------------------------------------------
-- Sources that do not run dry
-- ---------------------------------------------------------------------------

section endless

variable {σ : Type} [Source σ] {I : σ → Prop}

open Draw

/-- From the states in `I` every die falls, and the source stays in `I`. -/
def Source.Endless (I : σ → Prop) : Prop :=
  ∀ (sides : UInt16) (s : σ), I s → ∃ v s', Source.rollDie sides s = (some v, s') ∧ I s'

theorem Roller.endless : Source.Endless fun r : Roller => r.canRoll = none := by
  intro sides r h
  cases r with
  | sequence values => simp [canRoll] at h
  | constant v => exact ⟨v, _, rfl, rfl⟩
  | maximum => exact ⟨sides, _, rfl, rfl⟩
  | generator g => exact ⟨_, _, rfl, rfl⟩

theorem Draw.alwaysGives_values (h : Source.Endless I) (sides : UInt16) (n : Nat) :
    AlwaysGives I (values sides n) := by
  suffices ∀ drawn s, I s → ∃ vs s', valuesAfter sides n drawn s = (some vs, s') ∧ I s' from
    this []
  intro drawn s hs
  induction n generalizing drawn s with
  | zero => exact ⟨_, _, rfl, hs⟩
  | succ n ih =>
    obtain ⟨v, next, hv, hnext⟩ := h sides s hs
    rw [valuesAfter, hv]
    exact ih (v :: drawn) next hnext

theorem Draw.alwaysGives_selected (h : Source.Endless I) (d : Dice) :
    AlwaysGives I (selected d) := by
  unfold selected
  refine AlwaysGives.bind ?_ fun r => alwaysGives_pure _
  unfold rolled
  split
  · exact AlwaysGives.bind (alwaysGives_values h _ _) fun vs => alwaysGives_pure _
  · exact alwaysGives_pure _

theorem Expr.alwaysGives_eval (h : Source.Endless I) (e : Expr) : AlwaysGives I e.eval.run := by
  induction e with
  | number x => exact alwaysGives_pure _
  | dice d => exact AlwaysGives.bindExcept (alwaysGives_selected h d) fun r => alwaysGives_pure _
  | group f ih => exact AlwaysGives.bindExcept ih fun f => alwaysGives_pure _
  | neg f ih => exact AlwaysGives.bindExcept ih fun f => alwaysGives_pure _
  | binary op a b iha ihb =>
    exact AlwaysGives.bindExcept iha fun a =>
      AlwaysGives.bindExcept ihb fun b => alwaysGives_pure _

theorem RollResult.alwaysGives_evaluate (h : Source.Endless I) (text : String) :
    AlwaysGives I (evaluate text) := by
  unfold evaluate
  split
  · next e _ =>
    refine AlwaysGives.bind (Expr.alwaysGives_eval h e) fun r => ?_
    cases r <;> exact alwaysGives_pure _
  · exact alwaysGives_pure _

end endless

end DiceChat

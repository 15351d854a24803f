import DiceChat.Expr.Evaluated
import DiceChat.Proofs.Expr.Regular

/-!
# What calculation gives

Where calculation gives a value, it is the one that the operations give on the totals of the dice.
Only finite numbers come of it, and only finite numbers go into it.
-/

namespace DiceChat

theorem append_eq_append_cons {α : Type} {left right before after : List α} {a : α}
    (h : left ++ right = before ++ a :: after) :
    (∃ rest, left = before ++ a :: rest) ∨
      ∃ more, before = left ++ more ∧ right = more ++ a :: after := by
  rcases List.append_eq_append_iff.mp h with ⟨more, hbefore, hright⟩ | ⟨rest, hleft, hright⟩
  · exact .inr ⟨more, hbefore, hright⟩
  · cases rest with
    | nil => exact .inr ⟨[], by simpa using hleft.symm, hright.symm⟩
    | cons x rest =>
      obtain ⟨rfl, -⟩ := List.cons.inj hright
      exact .inl ⟨rest, hleft⟩

/-- The value of a formula whose dice are totals. -/
def Formula.value : Formula Nat → Number
  | .number x => x
  | .dice n => .ofNat n
  | .group f => f.value
  | .neg f => f.value.neg
  | .binary op a b => op.apply a.value b.value

namespace Evaluated

theorem finite_eq_ok {e : Evaluated} {x y : Number} :
    finite e x = .ok y ↔ x.isFinite = true ∧ y = x := by
  unfold finite
  split
  · next h => simp [h, eq_comm]
  · next h => simp [h]

/-- A value is calculated from finite numbers by the operations of the formula. -/
theorem calculate_eq_ok {count : Rolled → Nat} {e : Evaluated} {x : Number}
    (h : e.calculate = .ok x)
    (hc : e.All (fun _ => True) fun r => ∀ n, r.total? = some n → count r = n) :
    Formula.value (e.map count) = x ∧ e.All (fun y => y.isFinite = true) fun _ => True := by
  induction e generalizing x with
  | number y =>
    obtain ⟨hy, rfl⟩ := finite_eq_ok.mp h
    exact ⟨rfl, hy⟩
  | dice r =>
    rw [calculate] at h
    cases ht : r.total? with
    | none => simp [ht] at h
    | some n =>
      simp only [ht] at h
      obtain ⟨-, rfl⟩ := finite_eq_ok.mp h
      exact ⟨congrArg Number.ofNat (hc n ht), trivial⟩
  | group f ih =>
    obtain ⟨y, hf, h⟩ := except_bind_eq_ok.mp h
    obtain ⟨-, rfl⟩ := finite_eq_ok.mp h
    exact ih hf hc
  | neg f ih =>
    obtain ⟨y, hf, h⟩ := except_bind_eq_ok.mp h
    obtain ⟨-, rfl⟩ := finite_eq_ok.mp h
    obtain ⟨rfl, all⟩ := ih hf hc
    exact ⟨rfl, all⟩
  | binary op a b iha ihb =>
    obtain ⟨y, ha, h⟩ := except_bind_eq_ok.mp h
    obtain ⟨z, hb, h⟩ := except_bind_eq_ok.mp h
    split at h
    · cases h
    · obtain ⟨-, rfl⟩ := finite_eq_ok.mp h
      obtain ⟨rfl, alla⟩ := iha ha hc.1
      obtain ⟨rfl, allb⟩ := ihb hb hc.2
      exact ⟨rfl, alla, allb⟩

theorem isFinite_of_calculate {e : Evaluated} {x : Number} (h : e.calculate = .ok x) :
    x.isFinite = true := by
  have ends {e : Evaluated} {y : Number} (h : finite e y = .ok x) : x.isFinite = true := by
    obtain ⟨hy, rfl⟩ := finite_eq_ok.mp h
    exact hy
  cases e with
  | number y => exact ends h
  | dice r =>
    rw [calculate] at h
    split at h
    · exact ends h
    · cases h
  | group f | neg f =>
    obtain ⟨y, -, h⟩ := except_bind_eq_ok.mp h
    exact ends h
  | binary op a b =>
    obtain ⟨y, -, h⟩ := except_bind_eq_ok.mp h
    obtain ⟨z, -, h⟩ := except_bind_eq_ok.mp h
    split at h
    · cases h
    · exact ends h

end Evaluated
end DiceChat

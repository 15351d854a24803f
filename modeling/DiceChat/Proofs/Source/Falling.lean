import DiceChat.Proofs.Source.Draw

/-!
# Dice that fall one by one

Whatever is drawn comes down to a row of dice, each with its number of sides, that fall one after
the other. A row falls as its parts do in turn. Given values make a row fall just if there are as
many of them as there are dice, and those that are left over stay as they are.
-/

namespace DiceChat

namespace Draw

variable {σ α β : Type}

theorem ext {x y : Draw σ α} (h : ∀ s, x.runFrom s = y.runFrom s) : x = y :=
  OptionT.ext (StateT.ext h)

theorem runFrom_map (f : α → β) (x : Draw σ α) (s : σ) :
    (f <$> x).runFrom s = ((x.runFrom s).1.map f, (x.runFrom s).2) := by
  rw [map_eq_pure_bind, runFrom_bind]
  rcases x.runFrom s with ⟨_ | a, next⟩
  · rfl
  · rfl

theorem gives_map {f : α → β} {x : Draw σ α} {s s' : σ} {b : β} :
    (f <$> x).Gives s b s' ↔ ∃ a, x.Gives s a s' ∧ f a = b := by
  simp only [map_eq_pure_bind, gives_bind, gives_pure]
  constructor
  · rintro ⟨a, next, ha, rfl, rfl⟩
    exact ⟨a, ha, rfl⟩
  · rintro ⟨a, ha, rfl⟩
    exact ⟨a, s', ha, rfl, rfl⟩

theorem bind_congr {x : Draw σ α} {f g : α → Draw σ β}
    (h : ∀ s a s', x.Gives s a s' → f a = g a) : x >>= f = x >>= g := by
  apply ext
  intro s
  rw [runFrom_bind, runFrom_bind]
  rcases hx : x.runFrom s with ⟨_ | a, next⟩
  · rfl
  · exact congrArg (·.runFrom next) (h s a next hx)

variable [Source σ]

def die (sides : UInt16) : Draw σ UInt16 := OptionT.mk (Source.rollDie sides)

/-- The values that a row of dice falls to, the dice being given by their sides. -/
def fall : List UInt16 → Draw σ (List UInt16)
  | [] => return []
  | sides :: rest => do
    let v ← die sides
    let values ← fall rest
    return v :: values

theorem fall_append (row rest : List UInt16) :
    (fall (row ++ rest) : Draw σ (List UInt16)) = do
      let values ← fall row
      let others ← fall rest
      return values ++ others := by
  induction row with
  | nil => simp [fall]
  | cons sides row ih => simp [fall, ih]

theorem length_of_fall {row values : List UInt16} {s s' : σ} (h : (fall row).Gives s values s') :
    values.length = row.length := by
  induction row generalizing s s' values with
  | nil =>
    obtain ⟨rfl, -⟩ := gives_pure.mp h
    rfl
  | cons sides row ih =>
    obtain ⟨v, next, -, h⟩ := gives_bind.mp h
    obtain ⟨vs, last, hvs, h⟩ := gives_bind.mp h
    obtain ⟨rfl, -⟩ := gives_pure.mp h
    simp [ih hvs]

theorem runFrom_die (sides : UInt16) (s : σ) :
    (die sides).runFrom s = Source.rollDie sides s := rfl

theorem valuesAfter_succ (sides : UInt16) (n : Nat) (drawn : List UInt16) :
    (valuesAfter sides (n + 1) drawn : Draw σ (List UInt16)) =
      die sides >>= fun v => valuesAfter sides n (v :: drawn) := by
  apply ext
  intro s
  rw [runFrom_bind, runFrom_die]
  show valuesAfter sides (n + 1) drawn s = _
  simp only [valuesAfter]
  rcases Source.rollDie sides s with ⟨_ | v, next⟩
  · rfl
  · rfl

theorem valuesAfter_eq (sides : UInt16) (n : Nat) (drawn : List UInt16) :
    (valuesAfter sides n drawn : Draw σ (List UInt16)) =
      (drawn.reverse ++ ·) <$> fall (List.replicate n sides) := by
  induction n generalizing drawn with
  | zero =>
    simp only [List.replicate_zero, fall, map_pure, List.append_nil]
    rfl
  | succ n ih => simp [valuesAfter_succ, ih, List.replicate_succ, fall]

theorem values_eq (sides : UInt16) (n : Nat) :
    (values sides n : Draw σ (List UInt16)) = fall (List.replicate n sides) := by
  simp [values, valuesAfter_eq]

theorem selected_eq_fall {d : Dice} (valid : d.isValid = true) :
    (selected d : Draw σ (Except Dice Rolled)) =
      (fun values => .ok (Rolled.ofValues d values).applySelection) <$>
        fall (List.replicate d.count.toNat d.sides) := by
  simp [selected, rolled, valid, values_eq, Except.map]

theorem selected_of_invalid {d : Dice} (invalid : d.isValid = false) :
    (selected d : Draw σ (Except Dice Rolled)) = pure (.error d) := by
  simp [selected, rolled, invalid, Except.map]

section

variable {I : σ → Prop} {sides : UInt16} {low high : Nat}

def FallsBetween (I : σ → Prop) (sides : UInt16) (low high : Nat) : Prop :=
  ∀ s, I s → ∃ v s', (die sides).Gives s v s' ∧ (low ≤ v.toNat ∧ v.toNat ≤ high) ∧ I s'

theorem FallsBetween.fall (h : FallsBetween I sides low high) (n : Nat) {s : σ} (hs : I s) :
    ∃ values s', (fall (List.replicate n sides)).Gives s values s' ∧ values.length = n ∧
      (∀ v ∈ values, low ≤ v.toNat ∧ v.toNat ≤ high) ∧ I s' := by
  induction n generalizing s with
  | zero => exact ⟨[], s, rfl, rfl, by simp, hs⟩
  | succ n ih =>
    obtain ⟨v, next, hv, between, hnext⟩ := h s hs
    obtain ⟨values, s', hvalues, length, others, hs'⟩ := ih hnext
    have row : (Draw.fall (List.replicate (n + 1) sides)).Gives s (v :: values) s' :=
      gives_bind.mpr ⟨v, next, hv, gives_bind.mpr ⟨values, s', hvalues, rfl⟩⟩
    exact ⟨v :: values, s', row, by rw [List.length_cons, length],
      List.forall_mem_cons.mpr ⟨between, others⟩, hs'⟩

end

theorem split_values {row rest values : List UInt16}
    (h : values.length = (row ++ rest).length) :
    ∃ first others, values = first ++ others ∧ first.length = row.length ∧
      others.length = rest.length := by
  rw [List.length_append] at h
  refine ⟨values.take row.length, values.drop row.length, ?_, ?_, ?_⟩
  · exact (List.take_append_drop _ _).symm
  · simp [h]
  · simp [h]

/-- A sequence gives its first values and keeps the others. It runs dry just if it has fewer values
than the row has dice. -/
theorem runFrom_fall_sequence (row values : List UInt16) :
    (fall row).runFrom (Roller.sequence values) =
      (if values.length < row.length then none else some (values.take row.length),
        .sequence (values.drop row.length)) := by
  induction row generalizing values with
  | nil => rfl
  | cons sides row ih =>
    cases values with
    | nil => rfl
    | cons v values =>
      have first : (die sides).runFrom (Roller.sequence (v :: values)) =
        (some v, .sequence values) := rfl
      simp only [fall, runFrom_bind, first, ih, List.length_cons, Nat.add_lt_add_iff_right,
        List.take_succ_cons, List.drop_succ_cons]
      by_cases dry : values.length < row.length
      · simp only [if_pos dry]
      · simp only [if_neg dry, runFrom_pure]

theorem fall_of_length {row values : List UInt16} (h : values.length = row.length) :
    (fall row).Gives (Roller.sequence values) values (.sequence []) := by
  simp [Gives, runFrom_fall_sequence, ← h]

end Draw
end DiceChat

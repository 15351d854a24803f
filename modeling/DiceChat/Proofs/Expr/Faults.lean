import DiceChat.Proofs.Dice.Totals
import DiceChat.Proofs.Expr.Calculation

/-!
# Where calculation fails

The parts of a formula are listed as calculation comes to them: operands before what is made of
them, from left to right. A part is faulty if its dice have a total of too many bits, if its divisor
is zero, or if its value is not finite. Calculation fails just if some part is faulty, and it is the
first of them that it names.
-/

namespace DiceChat

namespace Formula

variable {δ : Type}

/-- All parts, each of them after its operands. -/
def parts : Formula δ → List (Formula δ)
  | .number x => [.number x]
  | .dice d => [.dice d]
  | .group f => f.parts ++ [.group f]
  | .neg f => f.parts ++ [.neg f]
  | .binary op a b => a.parts ++ (b.parts ++ [.binary op a b])

def operands : Formula δ → List (Formula δ)
  | .number _ | .dice _ => []
  | .group f | .neg f => [f]
  | .binary _ a b => [a, b]

theorem mem_parts_self (f : Formula δ) : f ∈ f.parts := by
  cases f <;> simp [parts]

theorem All.of_mem_parts {p : Number → Prop} {q : δ → Prop} {f part : Formula δ} (h : f.All p q)
    (member : part ∈ f.parts) : part.All p q := by
  induction f with
  | number x | dice d =>
    obtain rfl := List.mem_singleton.mp member
    exact h
  | group f ih | neg f ih =>
    rcases List.mem_append.mp member with inner | whole
    · exact ih h inner
    · obtain rfl := List.mem_singleton.mp whole
      exact h
  | binary op a b iha ihb =>
    rcases List.mem_append.mp member with left | rest
    · exact iha h.1 left
    rcases List.mem_append.mp rest with right | whole
    · exact ihb h.2 right
    · obtain rfl := List.mem_singleton.mp whole
      exact h

end Formula

namespace Evaluated

/-- The value that the operations give, whether it is finite or not. A total of too many bits and a
quotient by zero are no values. -/
def value? : Evaluated → Option Number
  | .number x => some x
  | .dice r => r.total?.map .ofNat
  | .group f => value? f
  | .neg f => (value? f).map .neg
  | .binary op a b => do
    let x ← value? a
    let y ← value? b
    if op = .div ∧ y.isZero then none else some (op.apply x y)

/-- What is wrong with a part itself. If an operand is faulty, the part need not be so. -/
inductive Faulty : CalculationCause → Evaluated → Prop
  | total {r : Rolled} : 4294967295 < valueSum r.summed → Faulty .total (.dice r)
  | division {a b : Evaluated} {y : Number} : value? b = some y → y.isZero = true →
      Faulty .division (.binary .div a b)
  | overflow {e : Evaluated} {x : Number} : value? e = some x → x.isFinite = false →
      Faulty .overflow e

/-- A part that calculation gives a value for. -/
def Calculates (e : Evaluated) : Prop := ∃ x, e.calculate = .ok x

/-- The first of some parts that does not calculate, and why. -/
def Blamed (parts : List Evaluated) (error : CalculationError) : Prop :=
  Faulty error.cause error.part ∧ ∃ before after, parts = before ++ error.part :: after ∧
    ∀ p ∈ before, Calculates p

-- ---------------------------------------------------------------------------
-- One part
-- ---------------------------------------------------------------------------

theorem value?_of_exceeds {r : Rolled} (exceeds : 4294967295 < valueSum r.summed) :
    value? (.dice r) = none := by
  have untold := total?_eq_none_iff.mpr exceeds
  simp [value?, Rolled.total?, untold]

theorem value?_of_isZero {a b : Evaluated} {y : Number} (hy : value? b = some y)
    (zero : y.isZero = true) : value? (.binary .div a b) = none := by
  simp [value?, hy, zero]

theorem value?_of_calculate {e : Evaluated} {x : Number} (h : e.calculate = .ok x) :
    e.value? = some x := by
  induction e generalizing x with
  | number y =>
    obtain ⟨-, rfl⟩ := finite_eq_ok.mp h
    rfl
  | dice r =>
    rw [calculate] at h
    cases ht : r.total? with
    | none => simp [ht] at h
    | some n =>
      simp only [ht] at h
      obtain ⟨-, rfl⟩ := finite_eq_ok.mp h
      simp [value?, ht]
  | group f ih =>
    obtain ⟨y, hf, h⟩ := except_bind_eq_ok.mp h
    obtain ⟨-, rfl⟩ := finite_eq_ok.mp h
    exact ih hf
  | neg f ih =>
    obtain ⟨y, hf, h⟩ := except_bind_eq_ok.mp h
    obtain ⟨-, rfl⟩ := finite_eq_ok.mp h
    simp [value?, ih hf]
  | binary op a b iha ihb =>
    obtain ⟨y, ha, h⟩ := except_bind_eq_ok.mp h
    obtain ⟨z, hb, h⟩ := except_bind_eq_ok.mp h
    split at h
    · cases h
    · next nonzero =>
      obtain ⟨-, rfl⟩ := finite_eq_ok.mp h
      simp [value?, iha ha, ihb hb, nonzero]

theorem Faulty.unique {cause other : CalculationCause} {e : Evaluated} (h : Faulty cause e)
    (h' : Faulty other e) : other = cause := by
  cases h with
  | total exceeds =>
    cases h' with
    | total => rfl
    | overflow hx =>
      rw [value?_of_exceeds exceeds] at hx
      cases hx
  | division hy zero =>
    cases h' with
    | division => rfl
    | overflow hx =>
      rw [value?_of_isZero hy zero] at hx
      cases hx
  | overflow hx =>
    cases h' with
    | total exceeds =>
      rw [value?_of_exceeds exceeds] at hx
      cases hx
    | division hy zero =>
      rw [value?_of_isZero hy zero] at hx
      cases hx
    | overflow => rfl

theorem Faulty.not_calculates {cause : CalculationCause} {e : Evaluated} (h : Faulty cause e) :
    ¬e.Calculates := by
  rintro ⟨x, hx⟩
  have value := value?_of_calculate hx
  cases h with
  | total exceeds =>
    rw [value?_of_exceeds exceeds] at value
    cases value
  | division hy zero =>
    rw [value?_of_isZero hy zero] at value
    cases value
  | overflow hy infinite =>
    obtain rfl := Option.some.inj (hy.symm.trans value)
    rw [isFinite_of_calculate hx] at infinite
    cases infinite

theorem finite_cases {e : Evaluated} {x : Number} (h : e.value? = some x) :
    finite e x = .ok x ∨ Faulty .overflow e ∧ finite e x = .error ⟨.overflow, e⟩ := by
  unfold finite
  cases hx : x.isFinite with
  | true => exact .inl rfl
  | false => exact .inr ⟨.overflow h hx, rfl⟩

/-- A part whose operands calculate does so itself, or it is faulty and named. -/
theorem calculate_of_operands {e : Evaluated} (h : ∀ o ∈ Formula.operands e, Calculates o) :
    e.Calculates ∨ ∃ cause, Faulty cause e ∧ e.calculate = .error ⟨cause, e⟩ := by
  have ends {x : Number} (hx : e.value? = some x) (calculated : e.calculate = finite e x) :
      e.Calculates ∨ ∃ cause, Faulty cause e ∧ e.calculate = .error ⟨cause, e⟩ := by
    rw [Calculates, calculated]
    rcases finite_cases hx with h | ⟨faulty, h⟩
    · exact .inl ⟨x, h⟩
    · exact .inr ⟨_, faulty, h⟩
  cases e with
  | number x => exact ends rfl rfl
  | dice r =>
    cases ht : r.total? with
    | none =>
      refine .inr ⟨.total, .total (total?_eq_none_iff.mp ht), ?_⟩
      rw [calculate, ht]
    | some n =>
      refine ends (x := .ofNat n) ?_ ?_
      · rw [value?, ht, Option.map_some]
      · rw [calculate, ht]
  | group f =>
    obtain ⟨x, hx⟩ := h f List.mem_cons_self
    refine ends (x := x) ?_ ?_
    · rw [value?, value?_of_calculate hx]
    · rw [calculate, hx]
      rfl
  | neg f =>
    obtain ⟨x, hx⟩ := h f List.mem_cons_self
    refine ends (x := x.neg) ?_ ?_
    · rw [value?, value?_of_calculate hx, Option.map_some]
    · rw [calculate, hx]
      rfl
  | binary op a b =>
    obtain ⟨x, hx⟩ := h a List.mem_cons_self
    obtain ⟨y, hy⟩ := h b (List.mem_cons_of_mem a List.mem_cons_self)
    by_cases zero : op = .div ∧ y.isZero = true
    · obtain ⟨rfl, hzero⟩ := zero
      refine .inr ⟨.division, .division (value?_of_calculate hy) hzero, ?_⟩
      rw [calculate, hx, hy]
      exact if_pos ⟨rfl, hzero⟩
    · refine ends (x := op.apply x y) ?_ ?_
      · simp [value?, value?_of_calculate hx, value?_of_calculate hy, zero]
      · rw [calculate, hx, hy]
        exact if_neg zero

-- ---------------------------------------------------------------------------
-- All parts
-- ---------------------------------------------------------------------------

theorem Blamed.append_right {parts : List Evaluated} {error : CalculationError}
    (h : Blamed parts error) (others : List Evaluated) : Blamed (parts ++ others) error := by
  obtain ⟨faulty, before, after, rfl, calculates⟩ := h
  exact ⟨faulty, before, after ++ others, by simp, calculates⟩

theorem Blamed.append_left {parts others : List Evaluated} {error : CalculationError}
    (h : Blamed parts error) (all : ∀ p ∈ others, Calculates p) :
    Blamed (others ++ parts) error := by
  obtain ⟨faulty, before, after, rfl, calculates⟩ := h
  refine ⟨faulty, others ++ before, after, by simp, fun p hp => ?_⟩
  exact (List.mem_append.mp hp).elim (all p) (calculates p)

theorem Blamed.unique {parts : List Evaluated} {error other : CalculationError}
    (h : Blamed parts error) (h' : Blamed parts other) : other = error := by
  obtain ⟨faulty, before, after, rfl, calculates⟩ := h
  obtain ⟨faulty', before', after', split, calculates'⟩ := h'
  have same : other.part = error.part := by
    rcases append_eq_append_cons split with ⟨rest, hbefore⟩ | ⟨more, hbefore', hrest⟩
    · exact absurd (calculates _ (by simp [hbefore])) faulty'.not_calculates
    · cases more with
      | nil => exact (List.cons.inj hrest).1.symm
      | cons p more =>
        obtain ⟨rfl, -⟩ := List.cons.inj hrest
        exact absurd (calculates' _ (by simp [hbefore'])) faulty.not_calculates
  obtain ⟨cause, part⟩ := error
  obtain ⟨cause', part'⟩ := other
  obtain rfl : part' = part := same
  obtain rfl : cause' = cause := faulty.unique faulty'
  rfl

def Explained (e : Evaluated) : Prop :=
  (∀ p ∈ Formula.parts e, Calculates p) ∨ ∃ error, e.calculate = .error error ∧
    Blamed (Formula.parts e) error ∧ ∀ o ∈ Formula.operands error.part, Calculates o

theorem explained_of_operands {e : Evaluated} (before : List Evaluated)
    (hparts : Formula.parts e = before ++ [e]) (all : ∀ p ∈ before, Calculates p)
    (operands : ∀ o ∈ Formula.operands e, Calculates o) : e.Explained := by
  rw [Explained, hparts]
  rcases calculate_of_operands operands with calculates | ⟨cause, faulty, h⟩
  · refine .inl fun p hp => ?_
    rcases List.mem_append.mp hp with hp | hp
    · exact all p hp
    · rwa [List.mem_singleton.mp hp]
  · exact .inr ⟨_, h, ⟨faulty, before, [], rfl, all⟩, operands⟩

theorem explained (e : Evaluated) : e.Explained := by
  induction e with
  | number x => exact explained_of_operands [] rfl (by simp) (by simp [Formula.operands])
  | dice r => exact explained_of_operands [] rfl (by simp) (by simp [Formula.operands])
  | group f ih | neg f ih =>
    rcases ih with all | ⟨error, h, blamed, operands⟩
    · refine explained_of_operands f.parts rfl all ?_
      simpa [Formula.operands] using all f f.mem_parts_self
    · exact .inr ⟨error, except_bind_eq_error.mpr (.inl h), blamed.append_right _, operands⟩
  | binary op a b iha ihb =>
    rcases iha with alla | ⟨error, h, blamed, operands⟩
    · obtain ⟨x, hx⟩ := alla a a.mem_parts_self
      rcases ihb with allb | ⟨error, h, blamed, operands⟩
      · refine explained_of_operands (a.parts ++ b.parts) (List.append_assoc _ _ _).symm ?_ ?_
        · exact fun p hp => (List.mem_append.mp hp).elim (alla p) (allb p)
        · simpa [Formula.operands] using ⟨⟨x, hx⟩, allb b b.mem_parts_self⟩
      · exact .inr ⟨error, except_bind_eq_error.mpr
          (.inr ⟨x, hx, except_bind_eq_error.mpr (.inl h)⟩),
          (blamed.append_right _).append_left alla, operands⟩
    · exact .inr ⟨error, except_bind_eq_error.mpr (.inl h), blamed.append_right _, operands⟩

/-- Where no part is faulty all parts calculate, so a faulty part makes calculation fail. -/
theorem fails_of_faulty {e part : Evaluated} {cause : CalculationCause}
    (member : part ∈ Formula.parts e) (faulty : Faulty cause part) :
    ∃ error, e.calculate = .error error ∧ Blamed (Formula.parts e) error := by
  rcases e.explained with all | ⟨error, h, blamed, -⟩
  · exact absurd (all part member) faulty.not_calculates
  · exact ⟨error, h, blamed⟩

theorem calculate_eq_error_iff {e : Evaluated} {error : CalculationError} :
    e.calculate = .error error ↔ Blamed (Formula.parts e) error := by
  constructor
  · intro h
    rcases e.explained with all | ⟨other, h', blamed, -⟩
    · obtain ⟨x, hx⟩ := all e e.mem_parts_self
      cases hx.symm.trans h
    · obtain rfl := Except.error.inj (h.symm.trans h')
      exact blamed
  · intro blamed
    have ⟨faulty, before, after, split, _⟩ := blamed
    have member : error.part ∈ Formula.parts e := by simp [split]
    obtain ⟨other, h, blamed'⟩ := fails_of_faulty member faulty
    rw [h, blamed'.unique blamed]

theorem calculates_of_operand {e operand : Evaluated} {error : CalculationError}
    (h : e.calculate = .error error) (member : operand ∈ Formula.operands error.part) :
    operand.Calculates := by
  rcases e.explained with all | ⟨other, h', -, operands⟩
  · obtain ⟨x, hx⟩ := all e e.mem_parts_self
    cases hx.symm.trans h
  · obtain rfl := Except.error.inj (h.symm.trans h')
    exact operands operand member

section causes

variable {cause : CalculationCause} {part : Evaluated} (h : Faulty cause part)

include h

theorem Faulty.total_iff :
    cause = .total ↔ ∃ r, part = .dice r ∧ 4294967295 < valueSum r.summed := by
  constructor
  · rintro rfl
    cases h with
    | total exceeds => exact ⟨_, rfl, exceeds⟩
  · rintro ⟨r, rfl, exceeds⟩
    exact (Faulty.total exceeds).unique h

theorem Faulty.overflow_iff :
    cause = .overflow ↔ ∃ x, part.value? = some x ∧ x.isFinite = false := by
  constructor
  · rintro rfl
    cases h with
    | overflow hx infinite => exact ⟨_, hx, infinite⟩
  · rintro ⟨x, hx, infinite⟩
    exact (Faulty.overflow hx infinite).unique h

theorem Faulty.division_iff (operands : ∀ o ∈ Formula.operands part, Calculates o) :
    cause = .division ↔
      ∃ a b y, part = .binary .div a b ∧ calculate b = .ok y ∧ y.isZero = true := by
  constructor
  · rintro rfl
    cases h with
    | @division a b y hy zero =>
      obtain ⟨z, hz⟩ := operands b (by simp [Formula.operands])
      obtain rfl := Option.some.inj (hy.symm.trans (value?_of_calculate hz))
      exact ⟨a, b, y, rfl, hz, zero⟩
  · rintro ⟨a, b, y, rfl, hy, zero⟩
    exact (Faulty.division (value?_of_calculate hy) zero).unique h

end causes

/-- What is calculated is finite. If calculation fails, it names the first part that does not
calculate, and why: its operands calculate, but it is dice whose total has too many bits, or a
quotient by zero, or has a value that is infinite or no number. If any part is one of these,
calculation fails. -/
theorem calculate_names_first (e : Evaluated) :
    (∀ x, e.calculate = .ok x → x.isFinite = true) ∧
    (∀ cause part, e.calculate = .error ⟨cause, part⟩ ↔ Blamed (Formula.parts e) ⟨cause, part⟩) ∧
    (∀ cause part, e.calculate = .error ⟨cause, part⟩ →
      (∀ o ∈ Formula.operands part, ∃ x, calculate o = .ok x ∧ x.isFinite = true) ∧
      (cause = .total ↔ ∃ r, part = .dice r ∧ 4294967295 < valueSum r.summed) ∧
      (cause = .division ↔
        ∃ a b y, part = .binary .div a b ∧ calculate b = .ok y ∧ y.isZero = true) ∧
      (cause = .overflow ↔ ∃ x, part.value? = some x ∧ x.isFinite = false)) ∧
    ∀ cause, ∀ part ∈ Formula.parts e, Faulty cause part → ∃ error, e.calculate = .error error := by
  refine ⟨fun x => isFinite_of_calculate, fun cause part => calculate_eq_error_iff, ?_, ?_⟩
  · intro cause part h
    have faulty : Faulty cause part := (calculate_eq_error_iff.mp h).1
    have operands (o) (member : o ∈ Formula.operands part) : Calculates o :=
      calculates_of_operand h member
    refine ⟨fun o member => ?_, faulty.total_iff, faulty.division_iff operands, faulty.overflow_iff⟩
    obtain ⟨x, hx⟩ := operands o member
    exact ⟨x, hx, isFinite_of_calculate hx⟩
  · intro cause part member faulty
    obtain ⟨error, h, -⟩ := fails_of_faulty member faulty
    exact ⟨error, h⟩

/-- A quotient by the negative zero is named before an infinite number to the right of it. -/
theorem calculate_names_first_quotient :
    let one : Evaluated := .number (.ofNat 1)
    let quotient : Evaluated := .binary .div one (.neg (.number (.zero false)))
    let e : Evaluated := .binary .add quotient (.number (.infinity true))
    e.calculate = .error ⟨.division, quotient⟩ ∧
    (∃ a b y, quotient = .binary .div a b ∧ calculate b = .ok y ∧ y.isZero = true) ∧
    (∃ error, e.calculate = .error error) ∧
    one.calculate = .ok (.ofNat 1) ∧ (Number.ofNat 1).isFinite = true := by
  intro one quotient e
  obtain ⟨-, -, causes, fails⟩ := calculate_names_first e
  have named : e.calculate = .error ⟨.division, quotient⟩ := by decide +kernel
  have calculated : one.calculate = .ok (.ofNat 1) := by decide +kernel
  obtain ⟨-, -, division, -⟩ := causes _ _ named
  refine ⟨named, division.mp rfl, ?_, calculated, (calculate_names_first one).1 _ calculated⟩
  exact fails .overflow (.number (.infinity true)) (by simp [e, Formula.parts]) (.overflow rfl rfl)

end Evaluated
end DiceChat

import DiceChat.Reader.Digits

/-!
# Readers that take something

A reader that always takes something can be repeated until it fails: the bound on the number of
repetitions never shows. What is left after each part of a sequence is named by `andThen_eq_some`.
-/

namespace DiceChat

variable {ε α β : Type}

theorem except_bind_eq_ok {x : Except ε α} {f : α → Except ε β} {b : β} :
    x >>= f = .ok b ↔ ∃ a, x = .ok a ∧ f a = .ok b := by
  cases x <;> simp [bind, Except.bind]

theorem except_bind_eq_error {x : Except ε α} {f : α → Except ε β} {e : ε} :
    x >>= f = .error e ↔ x = .error e ∨ ∃ a, x = .ok a ∧ f a = .error e := by
  cases x <;> simp [bind, Except.bind]

theorem toOption_eq_some {x : Except ε α} {a : α} : x.toOption = some a ↔ x = .ok a := by
  cases x <;> simp [Except.toOption]

theorem exists_error_of_ne_ok {x : Except ε α} (h : ∀ a, x ≠ .ok a) : ∃ e, x = .error e := by
  cases x with
  | ok a => exact absurd rfl (h a)
  | error e => exact ⟨e, rfl⟩

namespace Reader

theorem andThen_eq_some {r : Reader ε α} {f : α → Reader ε β} {s rest : List Char} {b : β} :
    (r.andThen f).run? s = some (b, rest) ↔
      ∃ a next, r.run? s = some (a, next) ∧ (f a).run? next = some (b, rest) := by
  simp [Option.bind_eq_some_iff]

theorem orElse_eq_some {r other : Reader ε α} {s rest : List Char} {a : α} :
    (r.orElse other).run? s = some (a, rest) ↔ r.run? s = some (a, rest) ∨
      r.run? s = none ∧ other.run? s = some (a, rest) := by
  rw [run?_orElse]
  cases r.run? s <;> simp

theorem orElse_of_none {r : Reader ε α} {s : List Char} (h : r.run? s = none)
    (other : Reader ε α) : (r.orElse other).run? s = other.run? s := by
  simp [h]

theorem orElse_of_some {r : Reader ε α} {s : List Char} {p : α × List Char}
    (h : r.run? s = some p) (other : Reader ε α) : (r.orElse other).run? s = some p := by
  simp [h]

theorem andThen_of_none {r : Reader ε α} {s : List Char} (h : r.run? s = none)
    (f : α → Reader ε β) : (r.andThen f).run? s = none := by
  simp [h]

theorem andThen_of_some {r : Reader ε α} {s next : List Char} {a : α}
    (h : r.run? s = some (a, next)) (f : α → Reader ε β) :
    (r.andThen f).run? s = (f a).run? next := by
  simp [h]

theorem exists_of_firstOf_eq_some {rs : List (Reader ε α)} {s : List Char} {p : α × List Char}
    (h : (firstOf rs).run? s = some p) : ∃ r ∈ rs, r.run? s = some p := by
  induction rs with
  | nil => simp at h
  | cons r rs ih =>
    rw [run?_firstOf_cons, Option.or_eq_some_iff] at h
    rcases h with h | ⟨-, h⟩
    · exact ⟨r, List.mem_cons_self, h⟩
    · obtain ⟨q, hq, h⟩ := ih h
      exact ⟨q, List.mem_cons_of_mem _ hq, h⟩

theorem char_of_head_ne {c : Char} {s : List Char} (h : s.head? ≠ some c) :
    (char c : Reader ε Char).run? s = none := by
  cases s with
  | nil => rfl
  | cons d s =>
    have : d ≠ c := by rintro rfl; exact h rfl
    simp [this]

theorem char_eq_some {c d : Char} {s rest : List Char} :
    (char c : Reader ε Char).run? s = some (d, rest) ↔ d = c ∧ s = c :: rest := by
  cases s with
  | nil => simp
  | cons e s =>
    rw [run?_char_cons]
    split
    · next h => simp [h, eq_comm]
    · next h => simp [h]

theorem optional_eq_some {r : Reader ε α} {s rest : List Char} {o : Option α} :
    r.optional.run? s = some (o, rest) ↔
      (∃ a, o = some a ∧ r.run? s = some (a, rest)) ∨ o = none ∧ r.run? s = none ∧ rest = s := by
  rw [run?_optional]
  cases r.run? s with
  | none => simp [eq_comm]
  | some p =>
    simp only [Option.map_some, Option.getD_some, Option.some.injEq, Prod.mk.injEq]
    grind

def Consumes (r : Reader ε α) : Prop :=
  ∀ s a rest, r.run? s = some (a, rest) → rest.length < s.length

/-- Any two bounds above the number of characters are as good. -/
theorem run?_manyUpTo_of_lt {r : Reader ε α} (h : r.Consumes) {n m : Nat} {s : List Char}
    (hn : s.length < n) (hm : s.length < m) :
    (r.manyUpTo n).run? s = (r.manyUpTo m).run? s := by
  induction n generalizing m s with
  | zero => omega
  | succ n ih =>
    cases m with
    | zero => omega
    | succ m =>
      rw [run?_manyUpTo_succ, run?_manyUpTo_succ]
      cases hr : r.run? s with
      | none => rfl
      | some p =>
        have := h s p.1 p.2 hr
        simp only [ih (m := m) (s := p.2) (by omega) (by omega)]

theorem run?_many_of_none {r : Reader ε α} {s : List Char} (h : r.run? s = none) :
    r.many.run? s = some ([], s) := by
  rw [run?_many, run?_manyUpTo_succ, h]

theorem run?_many_of_some {r : Reader ε α} (hc : r.Consumes) {s next : List Char} {a : α}
    (h : r.run? s = some (a, next)) :
    r.many.run? s = (r.many.run? next).map fun (as, rest) => (a :: as, rest) := by
  have shorter := hc s a next h
  rw [run?_many, run?_manyUpTo_succ, h]
  show ((r.manyUpTo s.length).run? next).map _ = _
  rw [run?_manyUpTo_of_lt hc shorter (Nat.lt_succ_self next.length)]
  rfl

end Reader
end DiceChat

import DiceChat.Proofs.Expr.Grammar

/-!
# The expression reader is sound

What the reader takes off the front of a text derives the expression that it gives. Each reader of
the notation is sound at its level if the one for what stands in parentheses is sound for sums; the
nesting is by induction, and so are the signs before an atom and the operands of a chain.
-/

namespace DiceChat.Expr

open Reader

-- ---------------------------------------------------------------------------
-- White space
-- ---------------------------------------------------------------------------

def skipBlanks (s : List Char) : List Char := s.dropWhile Text.isBlank

theorem exists_blanks (s : List Char) : ∃ l, s = l ++ skipBlanks s ∧ Blanks l :=
  ⟨s.takeWhile Text.isBlank, List.takeWhile_append_dropWhile.symm,
    List.all_eq_true.mp List.all_takeWhile⟩

theorem padded_eq_some {α : Type} {r : Reader Dice.Objection α} {s rest : List Char} {a : α} :
    (padded r).run? s = some (a, rest) ↔
      ∃ last, r.run? (skipBlanks s) = some (a, last) ∧ rest = skipBlanks last := by
  rw [padded, andThen_eq_some]
  constructor
  · rintro ⟨_, _, ⟨⟩, h⟩
    obtain ⟨a, last, hr, h⟩ := andThen_eq_some.mp h
    cases h
    exact ⟨last, hr, rfl⟩
  · rintro ⟨last, hr, rfl⟩
    exact ⟨(), skipBlanks s, rfl, andThen_eq_some.mpr ⟨a, last, hr, rfl⟩⟩

theorem padded_sound {α : Type} {r : Reader Dice.Objection α} {s rest : List Char} {a : α}
    (h : (padded r).run? s = some (a, rest)) :
    ∃ l next t, s = l ++ next ∧ Blanks l ∧ r.run? next = some (a, t ++ rest) ∧ Blanks t := by
  obtain ⟨last, hr, rfl⟩ := padded_eq_some.mp h
  obtain ⟨l, hl, blanks⟩ := exists_blanks s
  obtain ⟨t, ht, trailing⟩ := exists_blanks last
  exact ⟨l, _, t, hl, blanks, ht ▸ hr, trailing⟩

theorem padded_char_sound {c d : Char} {s rest : List Char}
    (h : (padded (char c)).run? s = some (d, rest)) :
    ∃ o, s = o ++ rest ∧ lexis.Operator c o := by
  obtain ⟨l, next, t, rfl, hl, hc, ht⟩ := padded_sound h
  obtain ⟨-, rfl⟩ := char_eq_some.mp hc
  exact ⟨l ++ c :: t, by simp, l, t, rfl, hl, ht⟩

theorem operator_ne_nil {c : Char} {o : List Char} (h : lexis.Operator c o) : 0 < o.length := by
  obtain ⟨l, r, rfl, -, -⟩ := h
  rw [List.length_append, List.length_cons]
  omega

-- ---------------------------------------------------------------------------
-- Atoms
-- ---------------------------------------------------------------------------

def Sound (level : Level) (r : ExprReader) : Prop :=
  ∀ s e rest, r.run? s = some (e, rest) → ∃ w, s = w ++ rest ∧ Derives lexis level w e

theorem Sound.length_le {level : Level} {r : ExprReader} (h : Sound level r) {s rest : List Char}
    {e : Expr} (hr : r.run? s = some (e, rest)) : rest.length ≤ s.length := by
  obtain ⟨w, rfl, -⟩ := h _ _ _ hr
  simp

theorem numberReader_sound {s rest : List Char} {e : Expr}
    (h : numberReader.run? s = some (e, rest)) : ∃ w, s = w ++ rest ∧ Bare w e := by
  obtain ⟨whole, next, hwhole, h⟩ := andThen_eq_some.mp h
  obtain ⟨fraction, last, hfraction, h⟩ := andThen_eq_some.mp h
  cases h
  obtain ⟨rfl, isWhole⟩ := wholeNumber_sound hwhole
  rcases optional_eq_some.mp hfraction with ⟨ds, rfl, hds⟩ | ⟨rfl, -, rfl⟩
  · obtain ⟨_, last, hpoint, hds⟩ := andThen_eq_some.mp hds
    obtain ⟨-, rfl⟩ := char_eq_some.mp hpoint
    obtain ⟨rfl, row⟩ := digits_sound hds
    exact ⟨whole ++ '.' :: ds, by simp, .number ⟨whole, ds, isWhole, rfl, .inr ⟨rfl, row⟩⟩⟩
  · exact ⟨whole, rfl, .number ⟨whole, [], isWhole, rfl, .inl ⟨rfl, rfl⟩⟩⟩

theorem diceReader_sound {s rest : List Char} {e : Expr}
    (h : diceReader.run? s = some (e, rest)) : ∃ w, s = w ++ rest ∧ Bare w e := by
  obtain ⟨d, next, hd, h⟩ := andThen_eq_some.mp h
  cases h
  obtain ⟨w, rfl, written⟩ := Dice.reader_sound hd
  exact ⟨w, rfl, .dice written⟩

theorem atomReader_sound {inner : ExprReader} (hi : Sound .sum inner) :
    Sound .atom (atomReader inner) := by
  intro s e rest h
  obtain ⟨l, next, t, rfl, hl, h, ht⟩ := padded_sound h
  have bare : (∃ w, next = w ++ (t ++ rest) ∧ Bare w e) ∨
      (groupReader inner).run? next = some (e, t ++ rest) := by
    rcases orElse_eq_some.mp h with h | ⟨-, h⟩
    · rcases orElse_eq_some.mp h with h | ⟨-, h⟩
      · exact .inl (diceReader_sound h)
      · exact .inl (numberReader_sound h)
    · exact .inr h
  rcases bare with ⟨w, rfl, bare⟩ | h
  · exact ⟨l ++ (w ++ t), by simp, .value ⟨l, w, t, rfl, hl, bare, ht⟩⟩
  · obtain ⟨_, _, hopen, h⟩ := andThen_eq_some.mp h
    obtain ⟨f, _, hf, h⟩ := andThen_eq_some.mp h
    obtain ⟨_, _, hclose, h⟩ := andThen_eq_some.mp h
    cases h
    obtain ⟨-, rfl⟩ := char_eq_some.mp hopen
    obtain ⟨-, rfl⟩ := char_eq_some.mp hclose
    obtain ⟨w, rfl, hw⟩ := hi _ _ _ hf
    exact ⟨l ++ ['('] ++ (w ++ ')' :: t), by simp,
      .group ⟨l, rfl, hl⟩ hw ⟨t, rfl, ht⟩⟩

-- ---------------------------------------------------------------------------
-- Signs
-- ---------------------------------------------------------------------------

theorem consumes_sign : (padded (char '-')).Consumes := by
  intro s a rest h
  obtain ⟨o, rfl, ho⟩ := padded_char_sound h
  have := operator_ne_nil ho
  simp
  omega

theorem unaryReader_of_none {inner : ExprReader} {s : List Char}
    (h : (padded (char '-')).run? s = none) :
    (unaryReader inner).run? s = (atomReader inner).run? s := by
  rw [unaryReader, andThen_of_some (run?_many_of_none h)]
  cases ha : (atomReader inner).run? s <;> simp [ha]

theorem unaryReader_of_some {inner : ExprReader} {s next : List Char} {c : Char}
    (h : (padded (char '-')).run? s = some (c, next)) :
    (unaryReader inner).run? s =
      ((unaryReader inner).run? next).map fun (e, rest) => (.neg e, rest) := by
  simp only [unaryReader, run?_andThen, run?_many_of_some consumes_sign h]
  cases (padded (char '-')).many.run? next with
  | none => rfl
  | some p => cases ha : (atomReader inner).run? p.2 <;> simp [ha]

theorem unaryReader_sound {inner : ExprReader} (hi : Sound .sum inner) :
    Sound .unary (unaryReader inner) := by
  intro s
  induction hn : s.length using Nat.strongRecOn generalizing s with
  | ind n ih =>
    intro e rest h
    cases hs : (padded (char '-')).run? s with
    | none =>
      rw [unaryReader_of_none hs] at h
      obtain ⟨w, rfl, hw⟩ := atomReader_sound hi _ _ _ h
      exact ⟨w, rfl, .atom hw⟩
    | some p =>
      have shorter := consumes_sign s p.1 p.2 hs
      rw [unaryReader_of_some hs, Option.map_eq_some_iff] at h
      obtain ⟨⟨f, last⟩, hf, ⟨⟩⟩ := h
      obtain ⟨o, rfl, ho⟩ := padded_char_sound hs
      obtain ⟨w, hw, derives⟩ := ih _ (by omega) _ rfl _ _ hf
      exact ⟨o ++ w, by simp [hw], .neg ho derives⟩

-- ---------------------------------------------------------------------------
-- Chains
-- ---------------------------------------------------------------------------

def linkReader (one other : Operator) (operand : ExprReader) :
    Reader Dice.Objection (Operator × Expr) :=
  ((operatorReader one).orElse (operatorReader other)).andThen fun op =>
    operand.andThen fun e => succeed (op, e)

def chainFrom (link : Reader Dice.Objection (Operator × Expr)) (first : Expr) : ExprReader :=
  link.many.andThen fun others =>
    succeed (others.foldl (fun a (op, b) => .binary op a b) first)

theorem chain_eq (one other : Operator) (operand : ExprReader) :
    chain one other operand = operand.andThen (chainFrom (linkReader one other operand)) := rfl

theorem chainFrom_of_none {link : Reader Dice.Objection (Operator × Expr)} {s : List Char}
    (h : link.run? s = none) (first : Expr) :
    (chainFrom link first).run? s = some (first, s) := by
  rw [chainFrom, andThen_of_some (run?_many_of_none h)]
  rfl

theorem chainFrom_of_some {link : Reader Dice.Objection (Operator × Expr)} (hc : link.Consumes)
    {s next : List Char} {op : Operator} {e : Expr} (h : link.run? s = some ((op, e), next))
    (first : Expr) :
    (chainFrom link first).run? s = (chainFrom link (.binary op first e)).run? next := by
  simp only [chainFrom, run?_andThen, run?_many_of_some hc h]
  cases link.many.run? next <;> rfl

theorem operatorReader_sound {op other : Operator} {s rest : List Char}
    (h : (operatorReader op).run? s = some (other, rest)) :
    other = op ∧ ∃ o, s = o ++ rest ∧ lexis.Operator op.symbol o := by
  obtain ⟨c, next, hc, h⟩ := andThen_eq_some.mp h
  cases h
  exact ⟨rfl, padded_char_sound hc⟩

theorem linkReader_sound {one other op : Operator} {operand : ExprReader} {s rest : List Char}
    {e : Expr} (h : (linkReader one other operand).run? s = some ((op, e), rest)) :
    ∃ o next, s = o ++ next ∧ (op = one ∨ op = other) ∧ lexis.Operator op.symbol o ∧
      operand.run? next = some (e, rest) := by
  obtain ⟨_, next, hop, h⟩ := andThen_eq_some.mp h
  obtain ⟨_, _, hoperand, h⟩ := andThen_eq_some.mp h
  cases h
  rcases orElse_eq_some.mp hop with hop | ⟨-, hop⟩
  · obtain ⟨rfl, o, rfl, ho⟩ := operatorReader_sound hop
    exact ⟨o, next, rfl, .inl rfl, ho, hoperand⟩
  · obtain ⟨rfl, o, rfl, ho⟩ := operatorReader_sound hop
    exact ⟨o, next, rfl, .inr rfl, ho, hoperand⟩

section chain

variable {one other : Operator} {operand : ExprReader} {lower upper : Level}

theorem Sound.consumes_link (h : Sound lower operand) :
    (linkReader one other operand).Consumes := by
  intro s p rest hr
  obtain ⟨o, next, rfl, -, ho, hoperand⟩ := linkReader_sound hr
  have := h.length_le hoperand
  have := operator_ne_nil ho
  rw [List.length_append]
  omega

/-- A chain is sound where its operands can stand alone and can be joined to what is before them. -/
theorem Sound.chain (h : Sound lower operand)
    (alone : ∀ {w e}, Derives lexis lower w e → Derives lexis upper w e)
    (join : ∀ {op v o w a b}, op = one ∨ op = other → Derives lexis upper v a →
      lexis.Operator op.symbol o → Derives lexis lower w b →
      Derives lexis upper (v ++ (o ++ w)) (.binary op a b)) :
    Sound upper (chain one other operand) := by
  -- What was read so far is joined to each operand in turn.
  have links (n : Nat) : ∀ {s v a e rest}, s.length = n → Derives lexis upper v a →
      (chainFrom (linkReader one other operand) a).run? s = some (e, rest) →
      ∃ w, s = w ++ rest ∧ Derives lexis upper (v ++ w) e := by
    induction n using Nat.strongRecOn with
    | ind n ih =>
      intro s v a e rest hn hv hr
      cases hs : (linkReader one other operand).run? s with
      | none =>
        rw [chainFrom_of_none hs] at hr
        cases hr
        exact ⟨[], rfl, by simpa using hv⟩
      | some p =>
        obtain ⟨⟨op, b⟩, next⟩ := p
        have shorter := h.consumes_link s _ _ hs
        rw [chainFrom_of_some h.consumes_link hs] at hr
        obtain ⟨o, _, rfl, hop, ho, hoperand⟩ := linkReader_sound hs
        obtain ⟨u, rfl, hu⟩ := h _ _ _ hoperand
        obtain ⟨w, rfl, derives⟩ := ih next.length (by omega) rfl (join hop hv ho hu) hr
        exact ⟨o ++ (u ++ w), by simp, by simpa using derives⟩
  intro s e rest hr
  rw [chain_eq] at hr
  obtain ⟨first, next, hfirst, hlinks⟩ := andThen_eq_some.mp hr
  obtain ⟨v, rfl, hv⟩ := h _ _ _ hfirst
  obtain ⟨w, rfl, derives⟩ := links _ rfl (alone hv) hlinks
  exact ⟨v ++ w, by simp, derives⟩

end chain

-- ---------------------------------------------------------------------------
-- Expressions
-- ---------------------------------------------------------------------------

theorem productReader_sound {inner : ExprReader} (hi : Sound .sum inner) :
    Sound .product (chain .mul .div (unaryReader inner)) :=
  (unaryReader_sound hi).chain .unary fun hop hv ho hw =>
    .multiplicative (by rcases hop with rfl | rfl <;> rfl) hv ho hw

theorem sumReader_sound {inner : ExprReader} (hi : Sound .sum inner) :
    Sound .sum (sumReader inner) :=
  (productReader_sound hi).chain .product fun hop hv ho hw =>
    .additive (by rcases hop with rfl | rfl <;> rfl) hv ho hw

theorem readerUpTo_sound (depth : Nat) : Sound .sum (readerUpTo depth) := by
  induction depth with
  | zero =>
    intro s e rest h
    cases h
  | succ depth ih => exact sumReader_sound ih

theorem run?_reader (s : List Char) :
    reader.run? s = (sumReader (readerUpTo s.length)).run? s := by
  unfold run? reader
  rw [readerUpTo]

theorem reader_sound : Sound .sum reader := by
  intro s e rest h
  rw [run?_reader] at h
  exact sumReader_sound (readerUpTo_sound s.length) s e rest h

end DiceChat.Expr

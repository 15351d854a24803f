import DiceChat.Proofs.Expr.Sound

/-!
# The expression reader is complete

A text that derives an expression is read as that expression, whatever stands after it that cannot
be taken for a part of it. The derivation may have given the white space between an operand and an
operator to either; the reader gives it to the operand, so what is left is stated without it.
Reading is therefore the inverse of derivation, and no text derives two expressions.
-/

namespace DiceChat.Expr

open Reader

-- ---------------------------------------------------------------------------
-- White space
-- ---------------------------------------------------------------------------

theorem skipBlanks_append {l : List Char} (h : Blanks l) (s : List Char) :
    skipBlanks (l ++ s) = skipBlanks s := by
  unfold skipBlanks
  rw [List.dropWhile_append_of_pos h]

theorem skipBlanks_cons {c : Char} (h : Text.isBlank c = false) (s : List Char) :
    skipBlanks (c :: s) = c :: s := by
  simp [skipBlanks, h]

@[simp] theorem skipBlanks_skipBlanks (s : List Char) :
    skipBlanks (skipBlanks s) = skipBlanks s := by
  obtain ⟨l, hl, blanks⟩ := exists_blanks s
  conv => rhs; rw [hl, skipBlanks_append blanks]

theorem isBlank_symbol (op : Operator) : Text.isBlank op.symbol = false := by
  cases op <;> decide

/-- White space before what is read makes no difference. -/
def IgnoresBlanks {α : Type} (r : Reader Dice.Objection α) : Prop :=
  ∀ s, r.run? (skipBlanks s) = r.run? s

theorem ignoresBlanks_padded {α : Type} (r : Reader Dice.Objection α) :
    IgnoresBlanks (padded r) := by
  intro s
  ext ⟨a, rest⟩
  simp only [padded_eq_some, skipBlanks_skipBlanks]

theorem ignoresBlanks_unaryReader (inner : ExprReader) : IgnoresBlanks (unaryReader inner) := by
  intro s
  have sign := ignoresBlanks_padded (char '-') s
  cases h : (padded (char '-')).run? s with
  | none =>
    rw [h] at sign
    rw [unaryReader_of_none h, unaryReader_of_none sign]
    exact ignoresBlanks_padded _ s
  | some p =>
    rw [h] at sign
    rw [unaryReader_of_some h, unaryReader_of_some sign]

theorem IgnoresBlanks.chain {one other : Operator} {operand : ExprReader}
    (h : IgnoresBlanks operand) : IgnoresBlanks (chain one other operand) := by
  intro s
  rw [chain_eq, run?_andThen, run?_andThen, h s]

theorem padded_char_complete {c : Char} {o : List Char} (hc : Text.isBlank c = false)
    (h : lexis.Operator c o) (s : List Char) :
    (padded (char c)).run? (o ++ s) = some (c, skipBlanks s) := by
  obtain ⟨l, r, rfl, hl, hr⟩ := h
  rw [padded_eq_some, List.append_assoc, skipBlanks_append hl, List.cons_append,
    skipBlanks_cons hc]
  exact ⟨r ++ s, by simp, (skipBlanks_append hr s).symm⟩

theorem padded_char_of_head_ne {c : Char} {s : List Char} (h : (skipBlanks s).head? ≠ some c) :
    (padded (char c)).run? s = none := by
  rw [Option.eq_none_iff_forall_ne_some]
  intro p hp
  obtain ⟨last, hlast, -⟩ := padded_eq_some.mp hp
  rw [char_of_head_ne h] at hlast
  cases hlast

-- ---------------------------------------------------------------------------
-- What a derivation begins with
-- ---------------------------------------------------------------------------

theorem Bare.head {v : List Char} {e : Expr} (h : Bare v e) :
    ∃ c u, v = c :: u ∧ Text.isBlank c = false ∧ (c.isDigit = true ∨ c = 'd') := by
  have notBlank {c : Char} (hc : c.isDigit = true) : Text.isBlank c = false := by
    rw [Bool.eq_false_iff]
    intro hb
    exact absurd (Text.isDigit_of_isBlank hb) (by simp [hc])
  cases h with
  | number h =>
    obtain ⟨whole, fraction, isWhole, -, h⟩ := h
    obtain ⟨hne, hdigit⟩ := isWhole.digitRow
    obtain ⟨c, u, rfl⟩ := List.exists_cons_of_ne_nil hne
    have hc := hdigit c List.mem_cons_self
    rcases h with ⟨rfl, -⟩ | ⟨rfl, -⟩
    · exact ⟨c, u, rfl, notBlank hc, .inl hc⟩
    · exact ⟨c, u ++ '.' :: fraction, rfl, notBlank hc, .inl hc⟩
  | dice h =>
    obtain ⟨count, sides, selection, rfl, hcount, -⟩ := h
    rcases hcount with ⟨rfl, -⟩ | word
    · exact ⟨'d', _, rfl, rfl, .inr rfl⟩
    · obtain ⟨c, u, rfl, hc⟩ := word.exists_digit
      exact ⟨c, _, rfl, notBlank hc, .inl hc⟩

theorem head_of_atom {w : List Char} {e : Expr} (h : Derives lexis .atom w e) (rest : List Char) :
    ∃ c, (skipBlanks (w ++ rest)).head? = some c ∧ (c.isDigit = true ∨ c = 'd' ∨ c = '(') := by
  cases h with
  | value h =>
    obtain ⟨l, v, r, rfl, hl, bare, -⟩ := h
    obtain ⟨c, u, rfl, notBlank, hc⟩ := bare.head
    refine ⟨c, ?_, hc.imp_right .inl⟩
    rw [List.append_assoc, skipBlanks_append hl, List.cons_append, List.cons_append,
      skipBlanks_cons notBlank, List.head?_cons]
  | group hopen _ _ =>
    obtain ⟨l, rfl, hl⟩ := hopen
    refine ⟨'(', ?_, .inr (.inr rfl)⟩
    rw [List.append_assoc, List.append_assoc, skipBlanks_append hl]
    rfl

theorem ne_of_isBlank {c d : Char} (h : Text.isBlank c = true) (hd : Text.isBlank d = false) :
    c ≠ d := by
  rintro rfl
  rw [h] at hd
  cases hd

/-- No derivation begins with the letter of a selection that a minus sign begins. -/
theorem head_ne_of_derives {level : Level} {w : List Char} {e : Expr}
    (h : Derives lexis level w e) :
    ∃ c v, w = c :: v ∧ c ≠ 'l' ∧ c ≠ 'h' := by
  have blank {c : Char} (hc : Text.isBlank c = true) : c ≠ 'l' ∧ c ≠ 'h' :=
    ⟨ne_of_isBlank hc (by decide), ne_of_isBlank hc (by decide)⟩
  induction h with
  | value h =>
    obtain ⟨l, v, r, rfl, hl, bare, -⟩ := h
    cases l with
    | cons c l => exact ⟨c, _, rfl, blank (hl c List.mem_cons_self)⟩
    | nil =>
      obtain ⟨c, u, rfl, -, hc⟩ := bare.head
      refine ⟨c, _, rfl, ?_, ?_⟩ <;> rintro rfl <;> revert hc <;> decide
  | group hopen =>
    obtain ⟨l, rfl, hl⟩ := hopen
    cases l with
    | cons c l => exact ⟨c, _, rfl, blank (hl c List.mem_cons_self)⟩
    | nil => exact ⟨'(', _, rfl, by decide, by decide⟩
  | neg ho =>
    obtain ⟨l, r, rfl, hl, -⟩ := ho
    cases l with
    | cons c l => exact ⟨c, _, rfl, blank (hl c List.mem_cons_self)⟩
    | nil => exact ⟨'-', _, rfl, by decide, by decide⟩
  | atom _ ih | unary _ ih | product _ ih => exact ih
  | multiplicative _ _ _ _ ih | additive _ _ _ _ ih =>
    obtain ⟨c, v, rfl, hc⟩ := ih
    exact ⟨c, _, rfl, hc⟩

-- ---------------------------------------------------------------------------
-- What follows
-- ---------------------------------------------------------------------------

theorem endsValue_append {t rest : List Char} (ht : Blanks t) (hr : endsValue rest = true) :
    endsValue (t ++ rest) = true := by
  cases t with
  | nil => exact hr
  | cons c t => exact endsValue_of_blank (ht c List.mem_cons_self)

theorem endsValue_operator {op : Operator} {level : Level} {o w : List Char} {e : Expr}
    (ho : lexis.Operator op.symbol o) (hw : Derives lexis level w e) (rest : List Char) :
    endsValue (o ++ (w ++ rest)) = true := by
  obtain ⟨l, r, rfl, hl, hr⟩ := ho
  rw [List.append_assoc]
  refine endsValue_append hl ?_
  have next : ∃ c v, r ++ (w ++ rest) = c :: v ∧ c ≠ 'l' ∧ c ≠ 'h' := by
    cases r with
    | cons c r =>
      have hc := hr c List.mem_cons_self
      exact ⟨c, _, rfl, ne_of_isBlank hc (by decide), ne_of_isBlank hc (by decide)⟩
    | nil =>
      obtain ⟨c, v, rfl, hc⟩ := head_ne_of_derives hw
      exact ⟨c, v ++ rest, rfl, hc⟩
  obtain ⟨c, v, hcv, hl, hh⟩ := next
  rw [List.cons_append, hcv]
  cases op <;> simp [endsValue, Operator.symbol, hl, hh]

theorem head_operator {c : Char} {o : List Char} (hc : Text.isBlank c = false)
    (ho : lexis.Operator c o) (s : List Char) : (skipBlanks (o ++ s)).head? = some c := by
  obtain ⟨l, r, rfl, hl, -⟩ := ho
  rw [List.append_assoc, skipBlanks_append hl, List.cons_append, skipBlanks_cons hc,
    List.head?_cons]

-- ---------------------------------------------------------------------------
-- Atoms
-- ---------------------------------------------------------------------------

theorem numberReader_complete {w rest : List Char} {x : Number} (h : x.Written w)
    (hr : endsValue rest = true) : numberReader.run? (w ++ rest) = some (.number x, rest) := by
  obtain ⟨whole, fraction, isWhole, rfl, ⟨rfl, rfl⟩ | ⟨rfl, row⟩⟩ := h
  · have point : ((char '.').andThen fun _ => digits : Reader Dice.Objection _).optional.run? rest =
        some (none, rest) := by
      refine optional_eq_some.mpr (.inr ⟨rfl, andThen_of_none (char_of_head_ne ?_) _, rfl⟩)
      exact head_ne_of_endsValue hr (by decide)
    rw [numberReader, andThen_of_some (wholeNumber_complete isWhole (noDigitNext_of_endsValue hr)),
      andThen_of_some point]
    rfl
  · have point : ((char '.').andThen fun _ => digits : Reader Dice.Objection _).optional.run?
        ('.' :: (fraction ++ rest)) = some (some fraction, rest) := by
      refine optional_eq_some.mpr (.inl ⟨fraction, rfl, andThen_eq_some.mpr
        ⟨'.', _, char_eq_some.mpr ⟨rfl, rfl⟩, ?_⟩⟩)
      exact digits_complete row (noDigitNext_of_endsValue hr)
    have noDigit : NoDigitNext ('.' :: (fraction ++ rest)) := noDigitNext_cons rfl _
    rw [List.append_assoc, List.cons_append, numberReader,
      andThen_of_some (wholeNumber_complete isWhole noDigit), andThen_of_some point]
    rfl

theorem number_unique {w : List Char} {x y : Number} (hx : x.Written w) (hy : y.Written w) :
    y = x := by
  have found := (numberReader_complete hx (endsValue_nil)).symm.trans
    (numberReader_complete hy endsValue_nil)
  simpa [eq_comm] using found

theorem diceReader_of_number {w rest : List Char} {x : Number} (h : x.Written w)
    (hr : endsValue rest = true) : diceReader.run? (w ++ rest) = none := by
  obtain ⟨whole, fraction, isWhole, -, h⟩ := h
  have next : ∃ s, w ++ rest = whole ++ s ∧ NoDigitNext s ∧ s.head? ≠ some 'd' := by
    rcases h with ⟨rfl, -⟩ | ⟨rfl, -⟩
    · exact ⟨rest, rfl, noDigitNext_of_endsValue hr, head_ne_of_endsValue hr (by decide)⟩
    · exact ⟨'.' :: (fraction ++ rest), by simp, noDigitNext_cons rfl _, by simp⟩
  obtain ⟨s, hs, noDigit, hd⟩ := next
  rw [hs]
  refine andThen_of_none (Dice.reader_of_head_ne (optional_eq_some.mpr
    (.inl ⟨whole, rfl, wholeNumber_complete isWhole noDigit⟩)) hd) _

theorem Bare.complete {v rest : List Char} {e : Expr} (h : Bare v e) (hr : endsValue rest = true)
    (inner : ExprReader) :
    ((diceReader.orElse numberReader).orElse (groupReader inner)).run? (v ++ rest) =
      some (e, rest) := by
  refine orElse_of_some ?_ _
  cases h with
  | number h => rw [orElse_of_none (diceReader_of_number h hr), numberReader_complete h hr]
  | dice h =>
    refine orElse_of_some ?_ _
    rw [diceReader, andThen_of_some (Dice.reader_complete h hr)]
    rfl

theorem groupReader_of_paren (inner : ExprReader) (s : List Char) :
    ((diceReader.orElse numberReader).orElse (groupReader inner)).run? ('(' :: s) =
      (groupReader inner).run? ('(' :: s) := by
  have noDigit : NoDigitNext ('(' :: s) := noDigitNext_cons rfl s
  have noDice : diceReader.run? ('(' :: s) = none :=
    andThen_of_none (Dice.reader_of_head_ne (optional_eq_some.mpr
      (.inr ⟨rfl, wholeNumber_of_not_digit noDigit, rfl⟩)) (by simp)) _
  have noNumber : numberReader.run? ('(' :: s) = none :=
    andThen_of_none (wholeNumber_of_not_digit noDigit) _
  rw [orElse_of_none (by rw [orElse_of_none noDice, noNumber])]

theorem atomReader_bare {l v r rest : List Char} {e : Expr} (hl : Blanks l) (h : Bare v e)
    (hr : Blanks r) (hrest : endsValue rest = true) (inner : ExprReader) :
    (atomReader inner).run? (l ++ (v ++ r) ++ rest) = some (e, skipBlanks rest) := by
  obtain ⟨c, u, rfl, notBlank, -⟩ := h.head
  refine padded_eq_some.mpr ⟨r ++ rest, ?_, (skipBlanks_append hr rest).symm⟩
  rw [List.append_assoc, skipBlanks_append hl, List.append_assoc, List.cons_append,
    skipBlanks_cons notBlank]
  exact h.complete (endsValue_append hr hrest) inner

theorem atomReader_group {l w r rest : List Char} {e : Expr} {inner : ExprReader}
    (hl : Blanks l) (hr : Blanks r)
    (h : inner.run? (w ++ ')' :: (r ++ rest)) = some (e, ')' :: (r ++ rest))) :
    (atomReader inner).run? (l ++ ['('] ++ (w ++ ')' :: r) ++ rest) =
      some (.group e, skipBlanks rest) := by
  refine padded_eq_some.mpr ⟨r ++ rest, ?_, (skipBlanks_append hr rest).symm⟩
  have hs : l ++ ['('] ++ (w ++ ')' :: r) ++ rest = l ++ '(' :: (w ++ ')' :: (r ++ rest)) := by
    simp
  rw [hs, skipBlanks_append hl, skipBlanks_cons (by decide), groupReader_of_paren]
  exact andThen_eq_some.mpr ⟨'(', _, char_eq_some.mpr ⟨rfl, rfl⟩, andThen_eq_some.mpr
    ⟨e, _, h, andThen_eq_some.mpr ⟨')', _, char_eq_some.mpr ⟨rfl, rfl⟩, rfl⟩⟩⟩

-- ---------------------------------------------------------------------------
-- Links of a chain
-- ---------------------------------------------------------------------------

def NeitherNext (one other : Operator) (s : List Char) : Prop :=
  (skipBlanks s).head? ≠ some one.symbol ∧ (skipBlanks s).head? ≠ some other.symbol

theorem NeitherNext.skipBlanks {one other : Operator} {s : List Char}
    (h : NeitherNext one other s) : NeitherNext one other (skipBlanks s) := by
  unfold NeitherNext
  rwa [skipBlanks_skipBlanks]

theorem linkReader_of_neitherNext {one other : Operator} {operand : ExprReader} {s : List Char}
    (h : NeitherNext one other s) : (linkReader one other operand).run? s = none := by
  have noSign (op : Operator) (h : (Expr.skipBlanks s).head? ≠ some op.symbol) :
      (operatorReader op).run? s = none :=
    andThen_of_none (padded_char_of_head_ne h) _
  exact andThen_of_none (by rw [orElse_of_none (noSign one h.1), noSign other h.2]) _

theorem operatorReader_complete {op : Operator} {o : List Char}
    (ho : lexis.Operator op.symbol o) (s : List Char) :
    (operatorReader op).run? (o ++ s) = some (op, skipBlanks s) := by
  rw [operatorReader, andThen_of_some (padded_char_complete (isBlank_symbol op) ho s)]
  rfl

theorem linkReader_complete {one other op : Operator} {operand : ExprReader} {o s rest : List Char}
    {e : Expr} (hop : op = one ∨ op = other) (ho : lexis.Operator op.symbol o)
    (hi : IgnoresBlanks operand) (h : operand.run? s = some (e, rest)) :
    (linkReader one other operand).run? (o ++ s) = some ((op, e), rest) := by
  have found : ((operatorReader one).orElse (operatorReader other)).run? (o ++ s) =
      some (op, skipBlanks s) := by
    rcases hop with rfl | rfl
    · exact orElse_of_some (operatorReader_complete ho s) _
    · by_cases heq : one = op
      · exact heq ▸ orElse_of_some (operatorReader_complete ho s) _
      · have hne : (skipBlanks (o ++ s)).head? ≠ some one.symbol := by
          rw [head_operator (isBlank_symbol op) ho]
          intro h
          cases one <;> cases op <;> simp [Operator.symbol] at h heq
        have noSign : (operatorReader one).run? (o ++ s) = none :=
          andThen_of_none (padded_char_of_head_ne hne) _
        rw [orElse_of_none noSign]
        exact operatorReader_complete ho s
  rw [linkReader, andThen_of_some found, andThen_of_some ((hi s).trans h)]
  rfl

theorem ignoresBlanks_linkReader (one other : Operator) (operand : ExprReader) (s : List Char) :
    (linkReader one other operand).run? (skipBlanks s) = (linkReader one other operand).run? s := by
  have sign (op : Operator) :
      (operatorReader op).run? (skipBlanks s) = (operatorReader op).run? s := by
    rw [operatorReader, run?_andThen, run?_andThen, ignoresBlanks_padded _ s]
  have either : ((operatorReader one).orElse (operatorReader other)).run? (skipBlanks s) =
      ((operatorReader one).orElse (operatorReader other)).run? s := by
    rw [run?_orElse, run?_orElse, sign, sign]
  rw [linkReader, run?_andThen, run?_andThen, either]

theorem chainFrom_link {one other op : Operator} {lower : Level} {operand : ExprReader}
    (hs : Sound lower operand) (hi : IgnoresBlanks operand) (hop : op = one ∨ op = other)
    {o w rest last : List Char} {a b : Expr} (ho : lexis.Operator op.symbol o)
    (h : operand.run? (w ++ rest) = some (b, last)) :
    (chainFrom (linkReader one other operand) a).run? (skipBlanks (o ++ (w ++ rest))) =
      (chainFrom (linkReader one other operand) (.binary op a b)).run? last := by
  refine chainFrom_of_some hs.consumes_link ?_ a
  rw [ignoresBlanks_linkReader]
  exact linkReader_complete hop ho hi h

-- ---------------------------------------------------------------------------
-- Derivations
-- ---------------------------------------------------------------------------

abbrev productReader (inner : ExprReader) : ExprReader := chain .mul .div (unaryReader inner)

/-- How a reader finds a text that derives `e`. A chain goes on with what follows. -/
def Found (inner : ExprReader) : Level → List Char → Expr → Prop
  | .atom, w, e => ∀ rest, endsValue rest = true →
      (atomReader inner).run? (w ++ rest) = some (e, skipBlanks rest)
  | .unary, w, e => ∀ rest, endsValue rest = true →
      (unaryReader inner).run? (w ++ rest) = some (e, skipBlanks rest)
  | .product, w, e => ∀ rest, endsValue rest = true →
      (productReader inner).run? (w ++ rest) =
        (chainFrom (linkReader .mul .div (unaryReader inner)) e).run? (skipBlanks rest)
  | .sum, w, e => ∀ rest, endsValue rest = true → NeitherNext .mul .div rest →
      (sumReader inner).run? (w ++ rest) =
        (chainFrom (linkReader .add .sub (productReader inner)) e).run? (skipBlanks rest)

theorem Found.product_ends {inner : ExprReader} {w rest : List Char} {e : Expr}
    (h : Found inner .product w e) (hr : endsValue rest = true)
    (hn : NeitherNext .mul .div rest) :
    (productReader inner).run? (w ++ rest) = some (e, skipBlanks rest) := by
  rw [h rest hr, chainFrom_of_none (linkReader_of_neitherNext hn.skipBlanks)]

theorem Found.sum_ends {inner : ExprReader} {w rest : List Char} {e : Expr}
    (h : Found inner .sum w e) (hr : endsValue rest = true) (hm : NeitherNext .mul .div rest)
    (ha : NeitherNext .add .sub rest) :
    (sumReader inner).run? (w ++ rest) = some (e, skipBlanks rest) := by
  rw [h rest hr hm, chainFrom_of_none (linkReader_of_neitherNext ha.skipBlanks)]

theorem neitherNext_of_operator {one other op : Operator} {o : List Char}
    (ho : lexis.Operator op.symbol o) (hone : op ≠ one) (hother : op ≠ other) (s : List Char) :
    NeitherNext one other (o ++ s) := by
  unfold NeitherNext
  rw [head_operator (isBlank_symbol op) ho]
  cases op <;> cases one <;> cases other <;> simp [Operator.symbol] at hone hother ⊢

/-- Every derivation is found if the parentheses in it are not too deep. -/
theorem found_of_derives {level : Level} {w : List Char} {e : Expr}
    (h : Derives lexis level w e) {depth : Nat} (hd : w.length ≤ depth) :
    Found (readerUpTo depth) level w e := by
  induction h generalizing depth with
  | value h =>
    obtain ⟨l, v, r, rfl, hl, bare, hr⟩ := h
    exact fun rest hrest => atomReader_bare hl bare hr hrest _
  | @group l w r f hopen hw hclose ih =>
    obtain ⟨l, rfl, hl⟩ := hopen
    obtain ⟨r, rfl, hr⟩ := hclose
    intro rest hrest
    refine atomReader_group hl hr ?_
    -- The parentheses take up a level of nesting, and characters enough to pay for it.
    simp only [List.length_append, List.length_cons, List.length_nil] at hd
    obtain ⟨inner, rfl⟩ : ∃ inner, depth = inner + 1 := ⟨depth - 1, by omega⟩
    have closes : skipBlanks (')' :: (r ++ rest)) = ')' :: (r ++ rest) :=
      skipBlanks_cons (by decide) _
    have short : w.length ≤ inner := by omega
    have found : (sumReader (readerUpTo inner)).run? (w ++ ')' :: (r ++ rest)) =
        some (f, skipBlanks (')' :: (r ++ rest))) :=
      (ih short).sum_ends (by simp [endsValue]) (by simp [NeitherNext, closes, Operator.symbol])
        (by simp [NeitherNext, closes, Operator.symbol])
    rwa [closes] at found
  | @atom w f hw ih =>
    intro rest hrest
    obtain ⟨c, hc, hfirst⟩ := head_of_atom hw rest
    have noSign : (padded (char '-')).run? (w ++ rest) = none := by
      refine padded_char_of_head_ne ?_
      rw [hc]
      rintro ⟨⟩
      revert hfirst
      decide
    rw [unaryReader_of_none noSign]
    exact ih hd rest hrest
  | @neg o w f ho hw ih =>
    intro rest hrest
    rw [List.length_append] at hd
    have sign := padded_char_complete (by decide) ho (w ++ rest)
    rw [List.append_assoc, unaryReader_of_some sign, ignoresBlanks_unaryReader _ _,
      ih (by omega) rest hrest]
    rfl
  | unary hw ih =>
    intro rest hrest
    rw [productReader, chain_eq, andThen_of_some (ih hd rest hrest)]
  | @multiplicative op v o w a b hop hv ho hw ihv ihw =>
    intro rest hrest
    simp only [List.length_append] at hd
    have either : op = .mul ∨ op = .div := by cases op <;> simp_all [Operator.isAdditive]
    rw [List.append_assoc, List.append_assoc, ihv (by omega) _ (endsValue_operator ho hw rest)]
    exact chainFrom_link (unaryReader_sound (readerUpTo_sound depth))
      (ignoresBlanks_unaryReader _) either ho (ihw (by omega) rest hrest)
  | product hw ih =>
    intro rest hrest hn
    rw [sumReader, chain_eq, andThen_of_some ((ih hd).product_ends hrest hn)]
  | @additive op v o w a b hop hv ho hw ihv ihw =>
    intro rest hrest hn
    -- The operator ends the products before it: no chain of them goes on with it.
    simp only [List.length_append] at hd
    have either : op = .add ∨ op = .sub := by cases op <;> simp_all [Operator.isAdditive]
    have ends : NeitherNext .mul .div (o ++ (w ++ rest)) :=
      neitherNext_of_operator ho (by rintro rfl; cases hop) (by rintro rfl; cases hop) _
    rw [List.append_assoc, List.append_assoc,
      ihv (by omega) _ (endsValue_operator ho hw rest) ends]
    exact chainFrom_link (productReader_sound (readerUpTo_sound depth))
      (ignoresBlanks_unaryReader _).chain either ho
      ((ihw (by omega)).product_ends hrest hn)

-- ---------------------------------------------------------------------------
-- Whole texts
-- ---------------------------------------------------------------------------

structure EndsSum (rest : List Char) : Prop where
  value : endsValue rest = true
  product : NeitherNext .mul .div rest
  sum : NeitherNext .add .sub rest

theorem endsSum_nil : EndsSum [] :=
  ⟨rfl, by simp [NeitherNext, skipBlanks], by simp [NeitherNext, skipBlanks]⟩

theorem reader_complete {w rest : List Char} {e : Expr} (h : Written w e) (hr : EndsSum rest) :
    reader.run? (w ++ rest) = some (e, skipBlanks rest) := by
  have short : w.length ≤ (w ++ rest).length := by
    rw [List.length_append]
    omega
  rw [run?_reader]
  exact (found_of_derives h short).sum_ends hr.value hr.product hr.sum

theorem readAll_of_written {s : List Char} {e : Expr} (h : Written s e) :
    readAll reader s = .ok e := by
  have found := reader_complete h endsSum_nil
  rw [List.append_nil] at found
  exact (readAll_eq_ok reader s e).mpr found

theorem written_of_readAll {s : List Char} {e : Expr} (h : readAll reader s = .ok e) :
    Written s e := by
  obtain ⟨w, hw, derives⟩ := reader_sound _ _ _ ((readAll_eq_ok reader s e).mp h)
  rw [List.append_nil] at hw
  exact hw ▸ derives

theorem Written.unique {s : List Char} {e f : Expr} (h : Written s e) (hf : Written s f) : f = e :=
  Except.ok.inj ((readAll_of_written hf).symm.trans (readAll_of_written h))

/-- A text is read exactly if the grammar derives it, and as the only expression that it derives. -/
theorem reads_exactly_written (s : List Char) :
    ((∃ e, readAll reader s = .ok e) ↔ ∃ e, Written s e) ∧
      ∀ e, readAll reader s = .ok e ↔ Written s e ∧ ∀ f, Written s f → f = e := by
  refine ⟨⟨?_, ?_⟩, fun e => ⟨?_, ?_⟩⟩
  · rintro ⟨e, h⟩
    exact ⟨e, written_of_readAll h⟩
  · rintro ⟨e, h⟩
    exact ⟨e, readAll_of_written h⟩
  · intro h
    have written := written_of_readAll h
    exact ⟨written, fun f hf => written.unique hf⟩
  · rintro ⟨h, -⟩
    exact readAll_of_written h

end DiceChat.Expr

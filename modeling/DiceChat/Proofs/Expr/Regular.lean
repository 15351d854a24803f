import DiceChat.Proofs.Expr.Grammar

/-!
# Formulas that have a text

A formula is regular if every operand holds together as tightly as its place in the grammar asks
for. These are the formulas that texts derive, and a regular formula derives from every spelling
of it.
-/

namespace DiceChat

def Level.rank : Level → Nat
  | .atom => 0
  | .unary => 1
  | .product => 2
  | .sum => 3

def Kind.level : Kind → Level
  | .value => .atom
  | .unary => .unary
  | .multiplicative => .product
  | .additive => .sum

namespace Formula

variable {δ ε : Type}

def rank (f : Formula δ) : Nat := f.kind.level.rank

/-- Operands may be as loose as the operator on its left side and are tighter on its right. -/
def Regular : Formula δ → Prop
  | .number _ | .dice _ => True
  | .group f => f.Regular
  | .neg f => f.Regular ∧ f.rank ≤ Level.unary.rank
  | .binary op a b =>
    a.Regular ∧ b.Regular ∧ a.rank ≤ op.kind.level.rank ∧ b.rank < op.kind.level.rank

def All (p : Number → Prop) (q : δ → Prop) : Formula δ → Prop
  | .number x => p x
  | .dice d => q d
  | .group f | .neg f => f.All p q
  | .binary _ a b => a.All p q ∧ b.All p q

def map (g : δ → ε) : Formula δ → Formula ε
  | .number x => .number x
  | .dice d => .dice (g d)
  | .group f => .group (f.map g)
  | .neg f => .neg (f.map g)
  | .binary op a b => .binary op (a.map g) (b.map g)

theorem All.imp {p p' : Number → Prop} {q q' : δ → Prop} (hp : ∀ x, p x → p' x)
    (hq : ∀ d, q d → q' d) {f : Formula δ} (h : f.All p q) : f.All p' q' := by
  induction f with
  | number x => exact hp x h
  | dice d => exact hq d h
  | group f ih | neg f ih => exact ih h
  | binary op a b iha ihb => exact ⟨iha h.1, ihb h.2⟩

theorem All.and {p p' : Number → Prop} {q q' : δ → Prop} {f : Formula δ} (h : f.All p q)
    (h' : f.All p' q') : f.All (fun x => p x ∧ p' x) fun d => q d ∧ q' d := by
  induction f with
  | number x => exact ⟨h, h'⟩
  | dice d => exact ⟨h, h'⟩
  | group f ih | neg f ih => exact ih h h'
  | binary op a b iha ihb => exact ⟨iha h.1 h'.1, ihb h.2 h'.2⟩

theorem all_map {p : Number → Prop} {q : ε → Prop} (g : δ → ε) (f : Formula δ) :
    (f.map g).All p q ↔ f.All p fun d => q (g d) := by
  induction f with
  | number x => exact Iff.rfl
  | dice d => exact Iff.rfl
  | group f ih | neg f ih => exact ih
  | binary op a b iha ihb => simp only [map, All, iha, ihb]

@[simp] theorem kind_map (g : δ → ε) (f : Formula δ) : (f.map g).kind = f.kind := by
  cases f <;> rfl

@[simp] theorem rank_map (g : δ → ε) (f : Formula δ) : (f.map g).rank = f.rank := by
  rw [rank, kind_map, rank]

@[simp] theorem regular_map (g : δ → ε) (f : Formula δ) : (f.map g).Regular ↔ f.Regular := by
  induction f with
  | number x => exact Iff.rfl
  | dice d => exact Iff.rfl
  | group f ih => exact ih
  | neg f ih => simp only [map, Regular, ih, rank_map]
  | binary op a b iha ihb => simp only [map, Regular, iha, ihb, rank_map]

@[simp] theorem leaves_map (g : δ → ε) (f : Formula δ) : (f.map g).leaves = f.leaves.map g := by
  induction f with
  | number x => rfl
  | dice d => rfl
  | group f ih | neg f ih => exact ih
  | binary op a b iha ihb => simp only [map, leaves, iha, ihb, List.map_append]

end Formula

-- ---------------------------------------------------------------------------
-- From texts to formulas
-- ---------------------------------------------------------------------------

section

variable {α δ : Type} {L : Lexis α δ} {level : Level} {w : List α} {f : Formula δ}

def Lexis.Values (L : Lexis α δ) (p : Number → Prop) (q : δ → Prop) : Prop :=
  ∀ w f, L.Value w f → (∃ x, f = .number x ∧ p x) ∨ ∃ d, f = .dice d ∧ q d

variable {p : Number → Prop} {q : δ → Prop}

theorem Derives.all (hL : L.Values p q) (h : Derives L level w f) : f.All p q := by
  induction h with
  | value h =>
    rcases hL _ _ h with ⟨x, rfl, hx⟩ | ⟨d, rfl, hd⟩
    · exact hx
    · exact hd
  | group _ _ _ ih | atom _ ih | neg _ _ ih | unary _ ih | product _ ih => exact ih
  | multiplicative _ _ _ _ iha ihb | additive _ _ _ _ iha ihb => exact ⟨iha, ihb⟩

theorem Derives.regular (hL : L.Values p q) (h : Derives L level w f) :
    f.Regular ∧ f.rank ≤ level.rank := by
  induction h with
  | value h =>
    rcases hL _ _ h with ⟨x, rfl, -⟩ | ⟨d, rfl, -⟩
    · exact ⟨trivial, Nat.le_refl 0⟩
    · exact ⟨trivial, Nat.le_refl 0⟩
  | group _ _ _ ih => exact ⟨ih.1, Nat.le_refl 0⟩
  | neg _ _ ih => exact ⟨ih, Nat.le_refl 1⟩
  | atom _ ih | unary _ ih | product _ ih => exact ⟨ih.1, Nat.le_succ_of_le ih.2⟩
  | multiplicative hop _ _ _ iha ihb | additive hop _ _ _ iha ihb =>
    simp only [Formula.Regular, Formula.rank, Formula.kind, Operator.kind, hop, Bool.false_eq_true,
      if_true, if_false]
    exact ⟨⟨iha.1, ihb.1, iha.2, Nat.lt_succ_of_le ihb.2⟩, Nat.le_refl _⟩

end

theorem Expr.values_lexis :
    lexis.Values (fun x => ∃ w, x.Written w) fun d => d.isValid = true := by
  rintro w f ⟨l, v, r, -, -, bare, -⟩
  cases bare with
  | number h => exact .inl ⟨_, rfl, v, h⟩
  | dice h =>
    obtain ⟨count, sides, selection, -, -, -, -, valid⟩ := h
    exact .inr ⟨_, rfl, valid⟩

-- ---------------------------------------------------------------------------
-- From formulas to texts
-- ---------------------------------------------------------------------------

structure Spelling (α δ : Type) where
  number : Number → List α
  dice : δ → List α
  sign : List α
  operator : Operator → List α
  opening : List α
  closing : List α

section

variable {α δ : Type}

def Formula.spell (p : Spelling α δ) : Formula δ → List α
  | .number x => p.number x
  | .dice d => p.dice d
  | .group f => p.opening ++ (f.spell p ++ p.closing)
  | .neg f => p.sign ++ f.spell p
  | .binary op a b => a.spell p ++ (p.operator op ++ b.spell p)

structure Spelling.Agrees (p : Spelling α δ) (L : Lexis α δ) : Prop where
  sign : L.Operator '-' p.sign
  operator : ∀ op : Operator, L.Operator op.symbol (p.operator op)
  opening : L.Opening p.opening
  closing : L.Closing p.closing

variable {L : Lexis α δ}

theorem Derives.loosen {w : List α} {f : Formula δ} : ∀ {level upper : Level},
    Derives L level w f → level.rank ≤ upper.rank → Derives L upper w f
  | .atom, .atom, h, _ => h
  | .atom, .unary, h, _ => .atom h
  | .atom, .product, h, _ => .unary (.atom h)
  | .atom, .sum, h, _ => .product (.unary (.atom h))
  | .unary, .unary, h, _ => h
  | .unary, .product, h, _ => .unary h
  | .unary, .sum, h, _ => .product (.unary h)
  | .product, .product, h, _ => h
  | .product, .sum, h, _ => .product h
  | .sum, .sum, h, _ => h

/-- A regular formula derives from a spelling whose parentheses make atoms of sums. -/
theorem derives_spell_of {p : Spelling α δ} (sign : L.Operator '-' p.sign)
    (operator : ∀ op : Operator, L.Operator op.symbol (p.operator op))
    (group : ∀ {w f}, Derives L .sum w f →
      Derives L .atom (p.opening ++ (w ++ p.closing)) (.group f)) {f : Formula δ}
    (hv : f.All (fun x => L.Value (p.number x) (.number x))
      fun d => L.Value (p.dice d) (.dice d)) (hf : f.Regular) :
    Derives L f.kind.level (f.spell p) f := by
  induction f with
  | number x => exact .value hv
  | dice d => exact .value hv
  | group f ih =>
    refine group ((ih hv hf).loosen ?_)
    cases f.kind <;> decide
  | neg f ih => exact .neg sign ((ih hv hf.1).loosen hf.2)
  | binary op a b iha ihb =>
    obtain ⟨ha, hb, hleft, hright⟩ := hf
    -- The level of an operator is one above that of its right operands.
    have left := (iha hv.1 ha).loosen hleft
    cases hop : op.isAdditive with
    | true =>
      simp only [Formula.rank, Operator.kind, hop, if_true] at left hright
      simp only [Formula.kind, Operator.kind, hop, if_true]
      exact .additive hop left (operator op) ((ihb hv.2 hb).loosen (Nat.le_of_lt_succ hright))
    | false =>
      simp only [Formula.rank, Operator.kind, hop, Bool.false_eq_true, if_false] at left hright
      simp only [Formula.kind, Operator.kind, hop, Bool.false_eq_true, if_false]
      exact .multiplicative hop left (operator op)
        ((ihb hv.2 hb).loosen (Nat.le_of_lt_succ hright))

theorem derives_spell {p : Spelling α δ} (hp : p.Agrees L) {f : Formula δ}
    (hv : f.All (fun x => L.Value (p.number x) (.number x))
      fun d => L.Value (p.dice d) (.dice d)) (hf : f.Regular) :
    Derives L f.kind.level (f.spell p) f :=
  derives_spell_of hp.sign hp.operator (fun h => .group hp.opening h hp.closing) hv hf

end

end DiceChat

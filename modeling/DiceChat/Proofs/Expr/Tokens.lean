import DiceChat.Proofs.Expr.Complete
import DiceChat.Proofs.Expr.Regular

/-!
# Reading tokens

The grammar over tokens in place of characters. A regular formula derives from its tokens, and no
other formula does: with all values alike, one character for each token is a text, and a text
derives one expression only.
-/

namespace DiceChat

section

variable {δ : Type}

def Token.lexis : Lexis (Token δ) δ where
  Value w f := (∃ x, w = [.number x] ∧ f = .number x) ∨ ∃ d, w = [.dice d] ∧ f = .dice d
  Operator c w := w = [.operator c]
  Opening w := w = [.openParen]
  Closing w := w = [.closeParen]

def Token.spelling : Spelling (Token δ) δ where
  number x := [.number x]
  dice d := [.dice d]
  sign := [.operator '-']
  operator op := [.operator op.symbol]
  opening := [.openParen]
  closing := [.closeParen]

theorem Token.agrees_spelling : (Token.spelling (δ := δ)).Agrees Token.lexis where
  sign := rfl
  operator _ := rfl
  opening := rfl
  closing := rfl

theorem Token.values_lexis :
    (Token.lexis (δ := δ)).Values (fun _ => True) fun _ => True := by
  rintro w f (⟨x, -, rfl⟩ | ⟨d, -, rfl⟩)
  · exact .inl ⟨x, rfl, trivial⟩
  · exact .inr ⟨d, rfl, trivial⟩

theorem Formula.spell_token (f : Formula δ) : f.spell Token.spelling = f.tokens := by
  induction f with
  | number x => rfl
  | dice d => rfl
  | group f ih => rw [spell, ih]; rfl
  | neg f ih => rw [spell, ih]; rfl
  | binary op a b iha ihb => rw [spell, iha, ihb]; rfl

theorem Formula.all_trivial {p : Number → Prop} {q : δ → Prop} (hp : ∀ x, p x) (hq : ∀ d, q d)
    (f : Formula δ) : f.All p q := by
  induction f with
  | number x => exact hp x
  | dice d => exact hq d
  | group f ih | neg f ih => exact ih
  | binary op a b iha ihb => exact ⟨iha, ihb⟩

theorem derives_tokens {f : Formula δ} (h : f.Regular) : Derives Token.lexis .sum f.tokens f := by
  have derives := derives_spell Token.agrees_spelling
    (f.all_trivial (fun x => .inl ⟨x, rfl, rfl⟩) fun d => .inr ⟨d, rfl, rfl⟩) h
  rw [Formula.spell_token] at derives
  refine derives.loosen ?_
  cases f.kind <;> decide

theorem Derives.tokens_eq {level : Level} {ts : List (Token δ)} {f : Formula δ}
    (h : Derives Token.lexis level ts f) : ts = f.tokens := by
  induction h with
  | value h =>
    rcases h with ⟨x, rfl, rfl⟩ | ⟨d, rfl, rfl⟩
    · rfl
    · rfl
  | group hl _ hr ih =>
    cases hl
    cases hr
    rw [ih]
    rfl
  | atom _ ih | unary _ ih | product _ ih => exact ih
  | neg ho _ ih =>
    cases ho
    rw [ih]
    rfl
  | multiplicative _ _ ho _ iha ihb | additive _ _ ho _ iha ihb =>
    cases ho
    rw [iha, ihb]
    rfl

-- ---------------------------------------------------------------------------
-- One reading
-- ---------------------------------------------------------------------------

/-- The formula with all values alike. -/
def Formula.skeleton : Formula δ → Expr
  | .number _ | .dice _ => .number (Expr.numberOfDigits ['0'] [])
  | .group f => .group f.skeleton
  | .neg f => .neg f.skeleton
  | .binary op a b => .binary op a.skeleton b.skeleton

def Token.letter : Token δ → Char
  | .number _ | .dice _ => '0'
  | .operator c => c
  | .openParen => '('
  | .closeParen => ')'

def Expr.letters : Spelling Char Dice where
  number _ := ['0']
  dice _ := ['0']
  sign := ['-']
  operator op := [op.symbol]
  opening := ['(']
  closing := [')']

theorem Expr.agrees_letters : letters.Agrees lexis where
  sign := ⟨[], [], rfl, blanks_nil, blanks_nil⟩
  operator _ := ⟨[], [], rfl, blanks_nil, blanks_nil⟩
  opening := ⟨[], rfl, blanks_nil⟩
  closing := ⟨[], rfl, blanks_nil⟩

namespace Formula

theorem kind_skeleton (f : Formula δ) : f.skeleton.kind = f.kind := by
  cases f <;> rfl

theorem regular_skeleton {f : Formula δ} (h : f.Regular) : f.skeleton.Regular := by
  induction f with
  | number x => trivial
  | dice d => trivial
  | group f ih => exact ih h
  | neg f ih =>
    refine ⟨ih h.1, ?_⟩
    rw [rank, kind_skeleton]
    exact h.2
  | binary op a b iha ihb =>
    obtain ⟨ha, hb, hleft, hright⟩ := h
    refine ⟨iha ha, ihb hb, ?_, ?_⟩
    · rw [rank, kind_skeleton]
      exact hleft
    · rw [rank, kind_skeleton]
      exact hright

theorem spell_skeleton (f : Formula δ) :
    f.skeleton.spell Expr.letters = f.tokens.map Token.letter := by
  induction f with
  | number x => rfl
  | dice d => rfl
  | group f ih =>
    rw [skeleton, spell, ih]
    simp [tokens, Expr.letters, Token.letter]
  | neg f ih =>
    rw [skeleton, spell, ih]
    simp [tokens, Expr.letters, Token.letter]
  | binary op a b iha ihb =>
    rw [skeleton, spell, iha, ihb]
    simp [tokens, Expr.letters, Token.letter]

theorem value_zero : Expr.lexis.Value ['0'] (.number (Expr.numberOfDigits ['0'] [])) :=
  ⟨[], ['0'], [], rfl, blanks_nil,
    .number ⟨['0'], [], .zero, rfl, .inl ⟨rfl, rfl⟩⟩, blanks_nil⟩

theorem written_skeleton {f : Formula δ} (h : f.Regular) :
    Expr.Written (f.tokens.map Token.letter) f.skeleton := by
  have values : f.skeleton.All (fun x => Expr.lexis.Value (Expr.letters.number x) (.number x))
      fun d => Expr.lexis.Value (Expr.letters.dice d) (.dice d) := by
    clear h
    induction f with
    | number x => exact value_zero
    | dice d => exact value_zero
    | group f ih | neg f ih => exact ih
    | binary op a b iha ihb => exact ⟨iha, ihb⟩
  have derives := derives_spell Expr.agrees_letters values (regular_skeleton h)
  rw [spell_skeleton] at derives
  refine derives.loosen ?_
  cases f.skeleton.kind <;> decide

theorem length_tokens_of_skeleton {f g : Formula δ} (h : f.skeleton = g.skeleton) :
    f.tokens.length = g.tokens.length := by
  have letters := congrArg (·.spell Expr.letters) h
  simp only [spell_skeleton] at letters
  simpa using congrArg List.length letters

theorem eq_of_skeleton {f g : Formula δ} (h : f.skeleton = g.skeleton)
    (ht : f.tokens = g.tokens) : f = g := by
  induction f generalizing g with
  | number x => cases g <;> simp_all [skeleton, tokens]
  | dice d => cases g <;> simp_all [skeleton, tokens]
  | group f ih =>
    cases g with
    | group g =>
      simp only [skeleton, group.injEq] at h
      simp only [tokens, List.cons.injEq, true_and, List.append_cancel_right_eq] at ht
      rw [ih h ht]
    | _ => cases h
  | neg f ih =>
    cases g with
    | neg g =>
      simp only [skeleton, neg.injEq] at h
      simp only [tokens, List.cons.injEq, true_and] at ht
      rw [ih h ht]
    | _ => cases h
  | binary op a b iha ihb =>
    cases g with
    | binary op' a' b' =>
      simp only [skeleton, binary.injEq] at h
      obtain ⟨rfl, ha, hb⟩ := h
      -- Left operands with one skeleton have as many tokens, so the lists part at one place.
      obtain ⟨hta, htb⟩ := List.append_inj ht (length_tokens_of_skeleton ha)
      rw [iha ha hta, ihb hb (List.cons.inj htb).2]
    | _ => cases h

end Formula

theorem derives_unique {ts : List (Token δ)} {f g : Formula δ}
    (hf : Derives Token.lexis .sum ts f) (hg : Derives Token.lexis .sum ts g) : g = f := by
  have htokens : g.tokens = f.tokens := hg.tokens_eq.symm.trans hf.tokens_eq
  -- Both skeletons are written with the same characters.
  have written := Formula.written_skeleton (hf.regular Token.values_lexis).1
  have other := Formula.written_skeleton (hg.regular Token.values_lexis).1
  rw [htokens] at other
  exact Formula.eq_of_skeleton (written.unique other) htokens

end

end DiceChat

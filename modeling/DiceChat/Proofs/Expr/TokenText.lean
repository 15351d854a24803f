import DiceChat.Proofs.Expr.RoundTrip
import DiceChat.Proofs.Expr.Tokens

/-!
# Expressions from their tokens

The tokens of an expression that was read, with a space between any two, read as that expression,
groups included. No parentheses are needed but those of its groups, since reading joins operations
in one way only and the expression is joined in that way.
-/

namespace DiceChat

/-- The tokens in written order, with one space between any two. -/
def Expr.tokenText (e : Expr) : String := " ".intercalate (e.tokens.map (Token.text Dice.text))

-- ---------------------------------------------------------------------------
-- White space around an expression
-- ---------------------------------------------------------------------------

theorem Blanks.append {l r : List Char} (hl : Blanks l) (hr : Blanks r) : Blanks (l ++ r) := by
  intro c hc
  rcases List.mem_append.mp hc with hc | hc
  · exact hl c hc
  · exact hr c hc

namespace Expr

theorem operator_padded {c : Char} {o l r : List Char} (h : lexis.Operator c o) (hl : Blanks l)
    (hr : Blanks r) : lexis.Operator c (l ++ (o ++ r)) := by
  obtain ⟨before, after, rfl, hbefore, hafter⟩ := h
  exact ⟨l ++ before, after ++ r, by simp, hl.append hbefore, hafter.append hr⟩

theorem derives_padded {level : Level} {w : List Char} {e : Expr} (h : Derives lexis level w e) :
    ∀ {l r}, Blanks l → Blanks r → Derives lexis level (l ++ (w ++ r)) e := by
  induction h with
  | value h =>
    intro l r hl hr
    obtain ⟨before, v, after, rfl, hbefore, bare, hafter⟩ := h
    exact .value ⟨l ++ before, v, after ++ r, by simp, hl.append hbefore, bare, hafter.append hr⟩
  | @group o w c f ho hw hc _ =>
    intro l r hl hr
    obtain ⟨before, rfl, hbefore⟩ := ho
    obtain ⟨after, rfl, hafter⟩ := hc
    have derives := Derives.group (L := lexis) ⟨l ++ before, rfl, hl.append hbefore⟩ hw
      ⟨after ++ r, rfl, hafter.append hr⟩
    simpa using derives
  | atom _ ih => exact fun hl hr => .atom (ih hl hr)
  | unary _ ih => exact fun hl hr => .unary (ih hl hr)
  | product _ ih => exact fun hl hr => .product (ih hl hr)
  | neg ho _ ih =>
    intro l r hl hr
    have derives := Derives.neg (operator_padded ho hl blanks_nil) (ih blanks_nil hr)
    simpa using derives
  | multiplicative hop _ ho _ iha ihb =>
    intro l r hl hr
    have derives := Derives.multiplicative hop (iha hl blanks_nil) ho (ihb blanks_nil hr)
    simpa using derives
  | additive hop _ ho _ iha ihb =>
    intro l r hl hr
    have derives := Derives.additive hop (iha hl blanks_nil) ho (ihb blanks_nil hr)
    simpa using derives

-- ---------------------------------------------------------------------------
-- Tokens between spaces
-- ---------------------------------------------------------------------------

def spaced : Spelling Char Dice where
  number x := x.text.toList
  dice d := d.text.toList
  sign := ['-', ' ']
  operator op := [' ', op.symbol, ' ']
  opening := ['(', ' ']
  closing := [' ', ')']

theorem tokens_ne_nil (e : Expr) : e.tokens ≠ [] := by
  cases e <;> simp [Formula.tokens]

theorem spell_spaced (e : Expr) : e.spell spaced = e.tokenText.toList := by
  have texts (e : Expr) : e.tokens.map (Token.text Dice.text) ≠ [] := by
    simpa using tokens_ne_nil e
  induction e with
  | number x => rfl
  | dice d => rfl
  | group f ih =>
    rw [Formula.spell, ih]
    simp [spaced, tokenText, Formula.tokens, Token.text, String.intercalate_cons_of_ne_nil,
      String.intercalate_append_of_ne_nil (texts f)]
  | neg f ih =>
    rw [Formula.spell, ih]
    simp [spaced, tokenText, Formula.tokens, Token.text,
      String.intercalate_cons_of_ne_nil (texts f)]
  | binary op a b iha ihb =>
    rw [Formula.spell, iha, ihb]
    simp [spaced, tokenText, Formula.tokens, Token.text,
      String.intercalate_cons_of_ne_nil (texts b), String.intercalate_append_of_ne_nil (texts a)]

theorem blanks_space : Blanks [' '] := by simp [Blanks, Text.isBlank]

/-- The tokens derive the expression, whose groups hold the spaces inside their parentheses. -/
theorem written_tokenText {e : Expr} (h : e.Plain) (hr : e.Regular) :
    Written e.tokenText.toList e := by
  rw [← spell_spaced]
  refine (derives_spell_of (p := spaced) (L := lexis) ⟨[], [' '], rfl, blanks_nil, blanks_space⟩
    (fun op => ⟨[' '], [' '], rfl, blanks_space, blanks_space⟩) ?_ h.values hr).loosen ?_
  · intro w f hw
    have inner := derives_padded hw blanks_space blanks_space
    have group := Derives.group (L := lexis) ⟨[], rfl, blanks_nil⟩ inner ⟨[], rfl, blanks_nil⟩
    simpa [spaced] using group
  · cases e.kind <;> decide

theorem parse_tokenText {e : Expr} (h : e.Plain) (hr : e.Regular) : parse e.tokenText = .ok e := by
  have operators (op : Operator) : (spaced.operator op).all Text.isLower = true := by
    cases op <;> rfl
  have lower : Text.lowerCase (e.spell spaced) = e.spell spaced :=
    lowerCase_spell (fun _ => rfl) (fun _ => rfl) rfl operators h
  unfold parse
  rw [← spell_spaced, lower, spell_spaced]
  exact readAll_of_written (written_tokenText h hr)

-- ---------------------------------------------------------------------------
-- Expressions that were read
-- ---------------------------------------------------------------------------

theorem regular_of_parse {s : String} {e : Expr} (h : parse s = .ok e) : e.Regular :=
  ((written_of_readAll h).regular values_lexis).1

theorem plain_of_parse {s : String} {e : Expr} (h : parse s = .ok e)
    (finite : e.All (fun x => x.isFinite = true) fun _ => True) : e.Plain := by
  refine (finite.and ((written_of_readAll h).all values_lexis)).imp ?_ ?_
  · rintro x ⟨hx, w, hw⟩
    exact ⟨hx, hw.isNegative⟩
  · rintro d ⟨-, valid⟩
    exact valid

/-- The tokens of an expression that was read are read as that expression, and no other expression
that can be read has the same tokens. -/
theorem tokens_read_back {s : String} {e : Expr} (h : parse s = .ok e)
    (finite : e.All (fun x => x.isFinite = true) fun _ => True) :
    parse e.tokenText = .ok e ∧ ∀ t f, parse t = .ok f → f.tokens = e.tokens → f = e := by
  have regular := regular_of_parse h
  refine ⟨parse_tokenText (plain_of_parse h finite) regular, fun t f hf same => ?_⟩
  have derives := derives_tokens (regular_of_parse hf)
  rw [same] at derives
  exact derives_unique (derives_tokens regular) derives

theorem tokens_read_back_selection :
    ∃ e, parse "--((D6-L)-1)*0.50-(2)/d4" = .ok e ∧
      e.All (fun x => x.isFinite = true) (fun _ => True) ∧
      e.tokenText = "- - ( ( 1d6dl1 ) - 1 ) * 0.5 - ( 2 ) / 1d4" ∧
      parse e.tokenText = .ok e ∧ ∀ t f, parse t = .ok f → f.tokens = e.tokens → f = e := by
  have h : parse "--((D6-L)-1)*0.50-(2)/d4" = .ok (.binary .sub
      (.binary .mul (.neg (.neg (.group (.binary .sub
        (.group (.dice ⟨1, 6, some ⟨.dropLowest, 1⟩⟩)) (.number (.ofNat 1))))))
        (.number (.nearest false 1 2)))
      (.binary .div (.group (.number (.ofNat 2))) (.dice ⟨1, 4, none⟩))) := by
    rw [← toOption_eq_some]
    decide +kernel
  exact ⟨_, h, ⟨⟨⟨trivial, rfl⟩, rfl⟩, rfl, trivial⟩, by decide +kernel,
    tokens_read_back h ⟨⟨⟨trivial, rfl⟩, rfl⟩, rfl, trivial⟩⟩

end Expr
end DiceChat

import DiceChat.Expr.Text
import DiceChat.Proofs.Expr.Complete
import DiceChat.Proofs.Expr.Regular
import DiceChat.Proofs.Number.ReadBack

/-!
# The text of an expression reads back

The text of an expression that was read is read again, as the same expression with a group where
the text has parentheses. That expression has the same text, so reading and writing once more
changes nothing.
-/

namespace DiceChat

-- ---------------------------------------------------------------------------
-- Groups for parentheses
-- ---------------------------------------------------------------------------

namespace Formula

variable {δ : Type}

def groupedIf (wrap : Bool) (f : Formula δ) : Formula δ :=
  if wrap then .group f else f

/-- A group wherever the text has parentheses. -/
def grouped : Formula δ → Formula δ
  | .number x => .number x
  | .dice d => .dice d
  | .group f => .group f.grouped
  | .neg f => .neg (groupedIf (f.kind != .value) f.grouped)
  | .binary op a b =>
    .binary op (groupedIf (op.setsApart a.kind) a.grouped)
      (groupedIf (op.setsApart b.kind) b.grouped)

@[simp] theorem kind_grouped (f : Formula δ) : f.grouped.kind = f.kind := by
  cases f <;> rfl

@[simp] theorem ungrouped_groupedIf (wrap : Bool) (f : Formula δ) :
    (groupedIf wrap f).ungrouped = f.ungrouped := by
  cases wrap <;> rfl

theorem ungrouped_grouped (f : Formula δ) : f.grouped.ungrouped = f.ungrouped := by
  induction f with
  | number x => rfl
  | dice d => rfl
  | group f ih => exact ih
  | neg f ih => simp only [grouped, ungrouped, ungrouped_groupedIf, ih]
  | binary op a b iha ihb => simp only [grouped, ungrouped, ungrouped_groupedIf, iha, ihb]

theorem all_groupedIf {p : Number → Prop} {q : δ → Prop} (wrap : Bool) {f : Formula δ} :
    (groupedIf wrap f).All p q ↔ f.All p q := by
  cases wrap <;> exact Iff.rfl

theorem All.grouped {p : Number → Prop} {q : δ → Prop} {f : Formula δ} (h : f.All p q) :
    f.grouped.All p q := by
  induction f with
  | number x => exact h
  | dice d => exact h
  | group f ih => exact ih h
  | neg f ih => exact (all_groupedIf _).mpr (ih h)
  | binary op a b iha ihb =>
    exact ⟨(all_groupedIf _).mpr (iha h.1), (all_groupedIf _).mpr (ihb h.2)⟩

theorem regular_groupedIf {wrap : Bool} {f : Formula δ} (h : f.Regular) :
    (groupedIf wrap f).Regular := by
  cases wrap <;> exact h

theorem rank_groupedIf_le {wrap : Bool} {f : Formula δ} :
    (groupedIf wrap f).rank ≤ f.rank := by
  cases wrap with
  | true => exact Nat.zero_le _
  | false => exact Nat.le_refl _

theorem rank_grouped (f : Formula δ) : f.grouped.rank = f.rank := by
  rw [rank, kind_grouped, rank]

theorem Regular.grouped {f : Formula δ} (h : f.Regular) : f.grouped.Regular := by
  induction f with
  | number x => trivial
  | dice d => trivial
  | group f ih => exact ih h
  | neg f ih =>
    refine ⟨regular_groupedIf (ih h.1), Nat.le_trans rank_groupedIf_le ?_⟩
    rw [rank_grouped]
    exact h.2
  | binary op a b iha ihb =>
    obtain ⟨ha, hb, hleft, hright⟩ := h
    refine ⟨regular_groupedIf (iha ha), regular_groupedIf (ihb hb),
      Nat.le_trans rank_groupedIf_le ?_, Nat.lt_of_le_of_lt rank_groupedIf_le ?_⟩
    · rw [rank_grouped]
      exact hleft
    · rw [rank_grouped]
      exact hright

-- ---------------------------------------------------------------------------
-- Texts
-- ---------------------------------------------------------------------------

variable {leaf : δ → String}

theorem describe_groupedIf (wrap : Bool) (f : Formula δ) :
    (groupedIf wrap f).describe leaf = parenthesizedIf wrap (f.describe leaf) := by
  cases wrap <;> rfl

theorem setsApart_groupedIf (op : Operator) (f : Formula δ) :
    op.setsApart (groupedIf (op.setsApart f.kind) f.grouped).kind = false := by
  cases h : op.setsApart f.kind with
  | true => cases op <;> rfl
  | false => rwa [groupedIf, if_neg (by decide), kind_grouped]

theorem describe_grouped (f : Formula δ) : f.grouped.describe leaf = f.describe leaf := by
  induction f with
  | number x => rfl
  | dice d => rfl
  | group f ih => simp only [grouped, describe, ih]
  | neg f ih =>
    have value : ((groupedIf (f.kind != .value) f.grouped).kind != .value) = false := by
      cases h : f.kind != .value with
      | true => rfl
      | false => rwa [groupedIf, if_neg (by decide), kind_grouped]
    simp only [grouped, describe, value, describe_groupedIf, ih]
    rfl
  | binary op a b iha ihb =>
    simp only [grouped, describe, setsApart_groupedIf, describe_groupedIf, iha, ihb]
    rfl

end Formula

/-- Operators between spaces and no space elsewhere. -/
def Expr.displayed : Spelling Char Dice where
  number x := x.text.toList
  dice d := d.text.toList
  sign := ['-']
  operator op := [' ', op.symbol, ' ']
  opening := ['(']
  closing := [')']

theorem toList_parenthesized (text : String) :
    (parenthesized text).toList = '(' :: (text.toList ++ [')']) := by
  simp [parenthesized]

theorem Formula.spell_groupedIf {δ : Type} (p : Spelling Char δ) (wrap : Bool) (f : Formula δ)
    {text : String} (h : f.spell p = text.toList) (ho : p.opening = ['('])
    (hc : p.closing = [')']) : (groupedIf wrap f).spell p = (parenthesizedIf wrap text).toList := by
  cases wrap with
  | true =>
    show p.opening ++ (f.spell p ++ p.closing) = (parenthesized text).toList
    rw [toList_parenthesized, h, ho, hc]
    rfl
  | false => exact h

theorem Expr.spell_grouped (e : Expr) : e.grouped.spell displayed = e.text.toList := by
  unfold Expr.text
  induction e with
  | number x => rfl
  | dice d => rfl
  | group f ih =>
    rw [Formula.describe, toList_parenthesized, ← ih]
    rfl
  | neg f ih =>
    rw [Formula.grouped, Formula.spell, Formula.spell_groupedIf _ _ _ ih rfl rfl]
    simp [Formula.describe, displayed]
  | binary op a b iha ihb =>
    rw [Formula.grouped, Formula.spell, Formula.spell_groupedIf _ _ _ iha rfl rfl,
      Formula.spell_groupedIf _ _ _ ihb rfl rfl]
    simp [Formula.describe, displayed]

-- ---------------------------------------------------------------------------
-- Dice
-- ---------------------------------------------------------------------------

theorem word_repr (n : UInt16) : Word n.toNat.repr.toList n := by
  rw [Nat.toList_repr]
  exact ⟨whole_toDigits _, Nat.ofDigitChars_ten_toDigits⟩

theorem Rule.exists_spelling (rule : Rule) : ∃ form, (rule.text.toList, form, rule) ∈ spellings ∧
    ∀ w n, Word w n → CountForm.Written form w n := by
  cases rule with
  | dropLowest => exact ⟨.required, by decide, fun _ _ h => h⟩
  | dropHighest => exact ⟨.required, by decide, fun _ _ h => h⟩
  | keepHighest => exact ⟨.omissible, by decide, fun _ _ h => .inr h⟩
  | keepLowest => exact ⟨.omissible, by decide, fun _ _ h => .inr h⟩

theorem Selection.written_text (s : Selection) : s.Written s.text.toList := by
  obtain ⟨form, hmem, hcount⟩ := s.rule.exists_spelling
  exact ⟨_, form, _, hmem, hcount _ _ (word_repr s.count), by rw [text, String.toList_append]⟩

theorem Dice.toList_text (d : Dice) : d.text.toList =
    d.count.toNat.repr.toList ++ 'd' :: (d.sides.toNat.repr.toList ++
      ((d.selection.map Selection.text).getD "").toList) := by
  simp [text]

theorem Selection.optionally_text {Written : List Char → Selection → Prop}
    (h : ∀ s : Selection, Written s.text.toList s) (o : Option Selection) :
    Optionally (fun w o => ∃ s, o = some s ∧ Written w s) none
      ((o.map text).getD "").toList o := by
  cases o with
  | none => exact .inl ⟨rfl, rfl⟩
  | some s => exact .inr ⟨s, rfl, h s⟩

theorem Dice.shaped_text (d : Dice) : d.Shaped d.text.toList :=
  ⟨_, _, _, d.toList_text, .inr (word_repr d.count), word_repr d.sides,
    Selection.optionally_text Selection.written_text d.selection⟩

theorem Dice.written_text {d : Dice} (h : d.isValid = true) : d.Written d.text.toList :=
  written_iff.mpr ⟨d.shaped_text, h⟩

-- ---------------------------------------------------------------------------
-- Lower case
-- ---------------------------------------------------------------------------

def Text.isLower (c : Char) : Bool := c.toNat < 128 && c.toLower == c

theorem Text.isLower_of_isDigit {c : Char} (h : c.isDigit = true) : isLower c = true := by
  obtain ⟨low, high⟩ : 48 ≤ c.toNat ∧ c.toNat ≤ 57 := Char.isDigit_iff_toNat.mp h
  have digits : ∀ n < 58, 48 ≤ n → isLower (Char.ofNat n) = true := by decide
  rw [← Char.ofNat_toNat c]
  exact digits _ (by omega) low

theorem Reader.Whole.isLower {w : List Char} (h : Reader.Whole w) :
    ∀ c ∈ w, Text.isLower c = true :=
  fun c hc => Text.isLower_of_isDigit (h.digitRow.2 c hc)

theorem Number.Written.isLower {w : List Char} {x : Number} (h : x.Written w) :
    ∀ c ∈ w, Text.isLower c = true := by
  obtain ⟨whole, fraction, hwhole, -, ⟨rfl, -⟩ | ⟨rfl, row⟩⟩ := h
  · exact hwhole.isLower
  · intro c hc
    rcases List.mem_append.mp hc with hc | hc
    · exact hwhole.isLower c hc
    · rcases List.mem_cons.mp hc with rfl | hc
      · decide
      · exact Text.isLower_of_isDigit (row.2 c hc)

theorem Word.isLower {w : List Char} {n : UInt16} (h : Word w n) : ∀ c ∈ w, Text.isLower c = true :=
  h.1.isLower

theorem Optionally.isLower {α : Type} {Written : List Char → α → Prop} {a b : α} {w : List Char}
    (h : Optionally Written a w b)
    (hw : Written w b → ∀ c ∈ w, Text.isLower c = true) : ∀ c ∈ w, Text.isLower c = true := by
  rcases h with ⟨rfl, -⟩ | h
  · simp
  · exact hw h

theorem Selection.Written.isLower {w : List Char} {s : Selection} (h : s.Written w) :
    ∀ c ∈ w, Text.isLower c = true := by
  obtain ⟨word, form, digits, hmem, hdigits, rfl⟩ := h
  intro c hc
  rcases List.mem_append.mp hc with hc | hc
  · have words : ∀ entry ∈ Rule.spellings, entry.1.all Text.isLower = true := by decide
    exact List.all_eq_true.mp (words _ hmem) c hc
  · cases form with
    | one =>
      obtain ⟨rfl, -⟩ := hdigits
      cases hc
    | required => exact Word.isLower hdigits c hc
    | omissible => exact Optionally.isLower hdigits Word.isLower c hc

theorem Dice.Written.isLower {w : List Char} {d : Dice} (h : d.Written w) :
    ∀ c ∈ w, Text.isLower c = true := by
  obtain ⟨count, sides, selection, rfl, hcount, hsides, hselection, -⟩ := h
  intro c hc
  rcases List.mem_append.mp hc with hc | hc
  · exact hcount.isLower Word.isLower c hc
  rcases List.mem_cons.mp hc with rfl | hc
  · decide
  rcases List.mem_append.mp hc with hc | hc
  · exact hsides.isLower c hc
  · refine hselection.isLower ?_ c hc
    rintro ⟨s, -, written⟩
    exact written.isLower

theorem Formula.forall_mem_spell {α δ : Type} {P : α → Prop} {p : Spelling α δ}
    (hsign : ∀ c ∈ p.sign, P c) (hoperator : ∀ op, ∀ c ∈ p.operator op, P c)
    (hopening : ∀ c ∈ p.opening, P c) (hclosing : ∀ c ∈ p.closing, P c) {f : Formula δ}
    (hf : f.All (fun x => ∀ c ∈ p.number x, P c) fun d => ∀ c ∈ p.dice d, P c) :
    ∀ c ∈ f.spell p, P c := by
  induction f with
  | number x => exact hf
  | dice d => exact hf
  | group f ih =>
    intro c hc
    simp only [spell, List.mem_append] at hc
    rcases hc with hc | hc | hc
    · exact hopening c hc
    · exact ih hf c hc
    · exact hclosing c hc
  | neg f ih =>
    intro c hc
    simp only [spell, List.mem_append] at hc
    rcases hc with hc | hc
    · exact hsign c hc
    · exact ih hf c hc
  | binary op a b iha ihb =>
    intro c hc
    simp only [spell, List.mem_append] at hc
    rcases hc with hc | hc | hc
    · exact iha hf.1 c hc
    · exact hoperator op c hc
    · exact ihb hf.2 c hc

-- ---------------------------------------------------------------------------
-- Expressions
-- ---------------------------------------------------------------------------

namespace Expr

abbrev Plain (e : Expr) : Prop :=
  e.All (fun x => x.isFinite = true ∧ x.isNegative = false) fun d => d.isValid = true

theorem agrees_displayed : displayed.Agrees lexis where
  sign := ⟨[], [], rfl, blanks_nil, blanks_nil⟩
  operator op := ⟨[' '], [' '], rfl, by simp [Blanks, Text.isBlank], by simp [Blanks, Text.isBlank]⟩
  opening := ⟨[], rfl, blanks_nil⟩
  closing := ⟨[], rfl, blanks_nil⟩

theorem value_of_bare {w : List Char} {e : Expr} (h : Bare w e) : lexis.Value w e :=
  ⟨[], w, [], by simp, blanks_nil, h, blanks_nil⟩

theorem Plain.values {e : Expr} (h : e.Plain) :
    e.All (fun x => lexis.Value x.text.toList (.number x))
      fun d => lexis.Value d.text.toList (.dice d) := by
  refine h.imp ?_ ?_
  · rintro x ⟨finite, sign⟩
    exact value_of_bare (.number (Number.written_text finite sign))
  · intro d valid
    exact value_of_bare (.dice (Dice.written_text valid))

theorem written_spell {e : Expr} (h : e.Plain) (hr : e.Regular) :
    Written (e.spell displayed) e := by
  refine (derives_spell agrees_displayed h.values hr).loosen ?_
  cases e.kind <;> decide

/-- The text of a regular expression derives it with a group for each of its parentheses. -/
theorem written_text {e : Expr} (h : e.Plain) (hr : e.Regular) :
    Written e.text.toList e.grouped := by
  rw [← spell_grouped]
  exact written_spell h.grouped hr.grouped

theorem lowerCase_spell {p : Spelling Char Dice} (number : ∀ x, p.number x = x.text.toList)
    (dice : ∀ d, p.dice d = d.text.toList)
    (marks : (p.sign ++ p.opening ++ p.closing).all Text.isLower = true)
    (operators : ∀ op, (p.operator op).all Text.isLower = true) {e : Expr} (h : e.Plain) :
    Text.lowerCase (e.spell p) = e.spell p := by
  simp only [List.all_append, Bool.and_eq_true, List.all_eq_true] at marks operators
  have lower : ∀ c ∈ e.spell p, Text.isLower c = true := by
    refine Formula.forall_mem_spell marks.1.1 operators marks.1.2 marks.2 (h.imp ?_ ?_)
    · rintro x ⟨finite, sign⟩
      rw [number]
      exact (Number.written_text finite sign).isLower
    · intro d valid
      rw [dice]
      exact (Dice.written_text valid).isLower
  refine Text.lowerCase_of_lower fun c hc => ?_
  simpa [Text.isLower] using lower c hc

theorem lowerCase_text {e : Expr} (h : e.Plain) :
    Text.lowerCase e.text.toList = e.text.toList := by
  have operators (op : Operator) : (displayed.operator op).all Text.isLower = true := by
    cases op <;> rfl
  rw [← spell_grouped]
  exact lowerCase_spell (fun _ => rfl) (fun _ => rfl) rfl operators h.grouped

theorem parse_text {e : Expr} (h : e.Plain) (hr : e.Regular) :
    parse e.text = .ok e.grouped := by
  unfold parse
  rw [lowerCase_text h]
  exact readAll_of_written (written_text h hr)

/-- Writing an expression that was read and reading it again adds groups at most; the text of what
is read stays the same from then on. -/
theorem text_reads_back {s : String} {e : Expr} (h : parse s = .ok e)
    (finite : e.All (fun x => x.isFinite = true) fun _ => True) :
    ∃ e₁, parse e.text = .ok e₁ ∧ e₁.ungrouped = e.ungrouped ∧ e₁.text = e.text ∧
      parse e₁.text = .ok e₁ := by
  have written := written_of_readAll h
  have plain : e.Plain := by
    refine (finite.and (written.all values_lexis)).imp ?_ ?_
    · rintro x ⟨hx, w, hw⟩
      exact ⟨hx, hw.isNegative⟩
    · rintro d ⟨-, valid⟩
      exact valid
  have parsed := parse_text plain (written.regular values_lexis).1
  have text : Expr.text e.grouped = e.text := Formula.describe_grouped e
  exact ⟨e.grouped, parsed, Formula.ungrouped_grouped e, text, by rw [text, parsed]⟩

theorem text_reads_back_difference :
    ∃ e, parse "1-2 * -(3D4+0.50)-D6-L" = .ok e ∧
      e.All (fun x => x.isFinite = true) (fun _ => True) ∧
      e.text = "1 - (2 * -(3d4 + 0.5)) - 1d6dl1" ∧
      ∃ e₁, parse e.text = .ok e₁ ∧ e₁.ungrouped = e.ungrouped ∧ e₁.text = e.text ∧
        parse e₁.text = .ok e₁ := by
  have h : parse "1-2 * -(3D4+0.50)-D6-L" = .ok (.binary .sub
      (.binary .sub (.number (.ofNat 1)) (.binary .mul (.number (.ofNat 2))
        (.neg (.group (.binary .add (.dice ⟨3, 4, none⟩) (.number (.nearest false 1 2)))))))
      (.dice ⟨1, 6, some ⟨.dropLowest, 1⟩⟩)) := by
    rw [← toOption_eq_some]
    decide +kernel
  exact ⟨_, h, ⟨⟨rfl, rfl, trivial, rfl⟩, trivial⟩, by decide +kernel,
    text_reads_back h ⟨⟨rfl, rfl, trivial, rfl⟩, trivial⟩⟩

end Expr
end DiceChat

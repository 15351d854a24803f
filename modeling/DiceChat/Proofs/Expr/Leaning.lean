import DiceChat.Proofs.Expr.RoundTrip
import DiceChat.Proofs.Expr.Tokens

/-!
# Layouts that texts keep

A text has no parentheses around a right operand that is an operation of the same precedence, and
reading joins such operations from the left. So the text of every expression reads back, with all
its parts in their order, but as the layout that leans to the left. The expression keeps its own
layout exactly if it leans to the left itself.
-/

namespace DiceChat
namespace Formula

variable {δ α : Type}

-- ---------------------------------------------------------------------------
-- Leaning to the left
-- ---------------------------------------------------------------------------

/-- No right operand is an operation of the precedence of the operator before it. -/
def LeansLeft : Formula δ → Prop
  | .number _ | .dice _ => True
  | .group f | .neg f => f.LeansLeft
  | .binary op a b => a.LeansLeft ∧ b.LeansLeft ∧ b.kind ≠ op.kind

/-- Joins `a` to the first operand of a formula that leans to the left, so that the result does. -/
def graft (op : Operator) (a : Formula δ) : Formula δ → Formula δ
  | .binary other b c =>
    if other.kind = op.kind then .binary other (graft op a b) c
    else .binary op a (.binary other b c)
  | b => .binary op a b

def leaned : Formula δ → Formula δ
  | .number x => .number x
  | .dice d => .dice d
  | .group f => .group f.leaned
  | .neg f => .neg f.leaned
  | .binary op a b => graft op a.leaned b.leaned

theorem graft_of_ne {op : Operator} {a b : Formula δ} (h : b.kind ≠ op.kind) :
    graft op a b = .binary op a b := by
  cases b with
  | binary other b c => exact if_neg h
  | _ => rfl

@[simp] theorem kind_graft (op : Operator) (a b : Formula δ) : (graft op a b).kind = op.kind := by
  by_cases h : b.kind = op.kind
  · cases b with
    | binary other b c => exact (congrArg kind (if_pos h)).trans h
    | _ => rfl
  · rw [graft_of_ne h]
    rfl

@[simp] theorem kind_leaned (f : Formula δ) : f.leaned.kind = f.kind := by
  cases f with
  | binary op a b => exact kind_graft op a.leaned b.leaned
  | _ => rfl

theorem rank_leaned (f : Formula δ) : f.leaned.rank = f.rank := by
  rw [rank, kind_leaned, rank]

theorem LeansLeft.leaned_eq {f : Formula δ} (h : f.LeansLeft) : f.leaned = f := by
  induction f with
  | number x => rfl
  | dice d => rfl
  | group f ih => exact congrArg group (ih h)
  | neg f ih => exact congrArg neg (ih h)
  | binary op a b iha ihb =>
    obtain ⟨ha, hb, hne⟩ := h
    rw [leaned, iha ha, ihb hb, graft_of_ne hne]

-- ---------------------------------------------------------------------------
-- The text does not tell how operations were joined
-- ---------------------------------------------------------------------------

theorem spell_graft (p : Spelling α δ) (op : Operator) (a b : Formula δ) :
    (graft op a b).spell p = a.spell p ++ (p.operator op ++ b.spell p) := by
  fun_induction graft op a b with
  | case1 other b c h ih => simp only [spell, ih, List.append_assoc]
  | case2 other b c h => rfl
  | case3 b h => rfl

theorem spell_leaned (p : Spelling α δ) (f : Formula δ) : f.leaned.spell p = f.spell p := by
  induction f with
  | number x => rfl
  | dice d => rfl
  | group f ih => simp only [leaned, spell, ih]
  | neg f ih => simp only [leaned, spell, ih]
  | binary op a b iha ihb => rw [leaned, spell_graft, iha, ihb, spell]

theorem tokens_leaned (f : Formula δ) : f.leaned.tokens = f.tokens := by
  rw [← spell_token, spell_leaned, spell_token]

theorem all_graft {p : Number → Prop} {q : δ → Prop} (op : Operator) (a b : Formula δ) :
    (graft op a b).All p q ↔ a.All p q ∧ b.All p q := by
  fun_induction graft op a b with
  | case1 other b c h ih => simp only [All, ih, and_assoc]
  | case2 other b c h => rfl
  | case3 b h => rfl

theorem All.leaned {p : Number → Prop} {q : δ → Prop} {f : Formula δ} (h : f.All p q) :
    f.leaned.All p q := by
  induction f with
  | number x => exact h
  | dice d => exact h
  | group f ih | neg f ih => exact ih h
  | binary op a b iha ihb => exact (all_graft op _ _).mpr ⟨iha h.1, ihb h.2⟩

-- ---------------------------------------------------------------------------
-- Leaning makes formulas regular
-- ---------------------------------------------------------------------------

def Joined : Formula δ → Prop
  | .number _ | .dice _ => True
  | .group f => f.Joined
  | .neg f => f.Joined ∧ f.rank ≤ Level.unary.rank
  | .binary op a b =>
    a.Joined ∧ b.Joined ∧ a.rank ≤ op.kind.level.rank ∧ b.rank ≤ op.kind.level.rank

theorem rank_lt_of_kind_ne {op : Operator} {f : Formula δ} (h : f.rank ≤ op.kind.level.rank)
    (hne : f.kind ≠ op.kind) : f.rank < op.kind.level.rank := by
  revert h hne
  unfold rank
  cases f.kind <;> cases op <;> decide

theorem Regular.graft {op : Operator} {a b : Formula δ} (ha : a.Regular) (hb : b.Regular)
    (hleft : a.rank ≤ op.kind.level.rank) (hright : b.rank ≤ op.kind.level.rank) :
    (graft op a b).Regular := by
  fun_induction Formula.graft op a b with
  | case1 other b c h ih =>
    obtain ⟨hb, hc, hbrank, hcrank⟩ := hb
    refine ⟨ih hb (h ▸ hbrank), hc, Nat.le_of_eq ?_, hcrank⟩
    rw [rank, kind_graft, h]
  | case2 other b c h => exact ⟨ha, hb, hleft, rank_lt_of_kind_ne hright h⟩
  | case3 b h =>
    refine ⟨ha, hb, hleft, rank_lt_of_kind_ne hright fun same => ?_⟩
    cases b with
    | binary other b c => exact h other b c rfl
    | _ => cases op <;> cases same

theorem Joined.regular_leaned {f : Formula δ} (h : f.Joined) : f.leaned.Regular := by
  induction f with
  | number x => trivial
  | dice d => trivial
  | group f ih => exact ih h
  | neg f ih => exact ⟨ih h.1, by rw [rank_leaned]; exact h.2⟩
  | binary op a b iha ihb =>
    obtain ⟨ha, hb, hleft, hright⟩ := h
    refine (iha ha).graft (ihb hb) ?_ ?_
    · rwa [rank_leaned]
    · rwa [rank_leaned]

theorem joined_groupedIf {wrap : Bool} {f : Formula δ} (h : f.Joined) :
    (groupedIf wrap f).Joined := by
  cases wrap <;> exact h

theorem rank_setsApart_le (op : Operator) (f : Formula δ) :
    (groupedIf (op.setsApart f.kind) f.grouped).rank ≤ op.kind.level.rank := by
  cases h : op.setsApart f.kind with
  | true => exact Nat.zero_le _
  | false =>
    rw [groupedIf, if_neg (by decide), rank_grouped, rank]
    revert h
    cases f.kind <;> cases op <;> decide

theorem rank_negated_le (f : Formula δ) :
    (groupedIf (f.kind != .value) f.grouped).rank ≤ Level.unary.rank := by
  cases h : f.kind != .value with
  | true => exact Nat.zero_le _
  | false =>
    have value : f.kind = .value := by simpa using h
    rw [groupedIf, if_neg (by decide), rank_grouped, rank, value]
    decide

theorem joined_grouped (f : Formula δ) : f.grouped.Joined := by
  induction f with
  | number x => trivial
  | dice d => trivial
  | group f ih => exact ih
  | neg f ih => exact ⟨joined_groupedIf ih, rank_negated_le f⟩
  | binary op a b iha ihb =>
    exact ⟨joined_groupedIf iha, joined_groupedIf ihb, rank_setsApart_le op a,
      rank_setsApart_le op b⟩

-- ---------------------------------------------------------------------------
-- Leaning changes every other layout
-- ---------------------------------------------------------------------------

def leafCount : Formula δ → Nat
  | .number _ | .dice _ => 1
  | .group f | .neg f => f.leafCount
  | .binary _ a b => a.leafCount + b.leafCount

/-- The leaves to the right of each operator, counted once for each. -/
def rightLeaves : Formula δ → Nat
  | .number _ | .dice _ => 0
  | .group f | .neg f => f.rightLeaves
  | .binary _ a b => a.rightLeaves + b.rightLeaves + b.leafCount

theorem leafCount_pos (f : Formula δ) : 0 < f.leafCount := by
  induction f with
  | number x => exact Nat.one_pos
  | dice d => exact Nat.one_pos
  | group f ih | neg f ih => exact ih
  | binary op a b iha _ => exact Nat.add_pos_left iha _

theorem leafCount_graft (op : Operator) (a b : Formula δ) :
    (graft op a b).leafCount = a.leafCount + b.leafCount := by
  fun_induction graft op a b with
  | case1 other b c h ih => simp only [leafCount, ih, Nat.add_assoc]
  | case2 other b c h => rfl
  | case3 b h => rfl

theorem leafCount_leaned (f : Formula δ) : f.leaned.leafCount = f.leafCount := by
  induction f with
  | number x => rfl
  | dice d => rfl
  | group f ih | neg f ih => exact ih
  | binary op a b iha ihb => rw [leaned, leafCount_graft, iha, ihb, leafCount]

theorem rightLeaves_graft_le (op : Operator) (a b : Formula δ) :
    (graft op a b).rightLeaves ≤ a.rightLeaves + b.rightLeaves + b.leafCount := by
  fun_induction graft op a b with
  | case1 other b c h ih =>
    simp only [rightLeaves, leafCount]
    omega
  | case2 other b c h => exact Nat.le_refl _
  | case3 b h => exact Nat.le_refl _

theorem rightLeaves_graft_lt {op : Operator} {a b : Formula δ} (h : b.kind = op.kind) :
    (graft op a b).rightLeaves < a.rightLeaves + b.rightLeaves + b.leafCount := by
  cases b with
  | binary other b c =>
    have inner := rightLeaves_graft_le op a b
    have moved := leafCount_pos c
    simp only [graft, if_pos (show other.kind = op.kind from h), rightLeaves, leafCount]
    omega
  | _ => cases op <;> cases h

theorem rightLeaves_leaned_le (f : Formula δ) : f.leaned.rightLeaves ≤ f.rightLeaves := by
  induction f with
  | number x => exact Nat.le_refl _
  | dice d => exact Nat.le_refl _
  | group f ih | neg f ih => exact ih
  | binary op a b iha ihb =>
    have grafted := rightLeaves_graft_le op a.leaned b.leaned
    rw [leafCount_leaned] at grafted
    rw [leaned, rightLeaves]
    omega

theorem leansLeft_of_rightLeaves {f : Formula δ} (h : f.leaned.rightLeaves = f.rightLeaves) :
    f.LeansLeft := by
  induction f with
  | number x => trivial
  | dice d => trivial
  | group f ih | neg f ih => exact ih h
  | binary op a b iha ihb =>
    have left := rightLeaves_leaned_le a
    have right := rightLeaves_leaned_le b
    have grafted := rightLeaves_graft_le op a.leaned b.leaned
    rw [leafCount_leaned] at grafted
    rw [leaned, rightLeaves] at h
    refine ⟨iha (by omega), ihb (by omega), fun same => ?_⟩
    have less := rightLeaves_graft_lt (a := a.leaned) (b := b.leaned) ((kind_leaned b).trans same)
    rw [leafCount_leaned] at less
    omega

theorem leafCount_ungrouped (f : Formula δ) : f.ungrouped.leafCount = f.leafCount := by
  induction f with
  | number x => rfl
  | dice d => rfl
  | group f ih | neg f ih => exact ih
  | binary op a b iha ihb => simp only [ungrouped, leafCount, iha, ihb]

theorem rightLeaves_ungrouped (f : Formula δ) : f.ungrouped.rightLeaves = f.rightLeaves := by
  induction f with
  | number x => rfl
  | dice d => rfl
  | group f ih | neg f ih => exact ih
  | binary op a b iha ihb =>
    simp only [ungrouped, rightLeaves, iha, ihb, leafCount_ungrouped]

theorem ungrouped_leaned_iff (f : Formula δ) :
    f.leaned.ungrouped = f.ungrouped ↔ f.LeansLeft := by
  constructor
  · intro h
    refine leansLeft_of_rightLeaves ?_
    rw [← rightLeaves_ungrouped, h, rightLeaves_ungrouped]
  · intro h
    rw [h.leaned_eq]

theorem leansLeft_groupedIf (wrap : Bool) (f : Formula δ) :
    (groupedIf wrap f).LeansLeft ↔ f.LeansLeft := by
  cases wrap <;> rfl

theorem kind_setsApart_ne_iff (op : Operator) (f : Formula δ) :
    (groupedIf (op.setsApart f.kind) f.grouped).kind ≠ op.kind ↔ f.kind ≠ op.kind := by
  cases h : op.setsApart f.kind with
  | true =>
    show Kind.value ≠ op.kind ↔ _
    revert h
    cases f.kind <;> cases op <;> decide
  | false => rw [groupedIf, if_neg (by decide), kind_grouped]

theorem leansLeft_grouped (f : Formula δ) : f.grouped.LeansLeft ↔ f.LeansLeft := by
  induction f with
  | number x => exact Iff.rfl
  | dice d => exact Iff.rfl
  | group f ih => exact ih
  | neg f ih => exact (leansLeft_groupedIf _ _).trans ih
  | binary op a b iha ihb =>
    simp only [grouped, LeansLeft, leansLeft_groupedIf, iha, ihb, kind_setsApart_ne_iff]

end Formula

-- ---------------------------------------------------------------------------
-- Texts
-- ---------------------------------------------------------------------------

namespace Expr

theorem parse_text_leaned {e : Expr} (h : e.Plain) : parse e.text = .ok e.grouped.leaned := by
  unfold parse
  rw [lowerCase_text h]
  refine readAll_of_written ?_
  rw [← spell_grouped, ← Formula.spell_leaned]
  exact written_spell h.grouped.leaned (Formula.joined_grouped e).regular_leaned

/-- The text of every expression reads back as the same parts in the same order, with a group for
each pair of parentheses. The layout is kept exactly if the expression leans to the left. -/
theorem text_keeps_layout_iff {e : Expr} (h : e.Plain) :
    ∃ e₁, parse e.text = .ok e₁ ∧ e₁.tokens = e.grouped.tokens ∧
      (e₁.ungrouped = e.ungrouped ↔ e.LeansLeft) := by
  refine ⟨e.grouped.leaned, parse_text_leaned h, Formula.tokens_leaned _, ?_⟩
  rw [← Formula.ungrouped_grouped e, Formula.ungrouped_leaned_iff, Formula.leansLeft_grouped]

theorem text_keeps_layout_product :
    ∃ e : Expr, e.Plain ∧ e.LeansLeft ∧ e.text = "(1 - 2 - 1d6kh1) * -(3 / 4)" ∧
      ∃ e₁, parse e.text = .ok e₁ ∧ e₁.tokens = e.grouped.tokens ∧
        (e₁.ungrouped = e.ungrouped ↔ e.LeansLeft) := by
  refine ⟨.binary .mul (.binary .sub (.binary .sub (.number (.ofNat 1)) (.number (.ofNat 2)))
    (.dice ⟨1, 6, some ⟨.keepHighest, 1⟩⟩))
    (.neg (.binary .div (.number (.ofNat 3)) (.number (.ofNat 4)))), ?_, ?_, ?_, ?_⟩
  · exact ⟨⟨⟨⟨rfl, rfl⟩, rfl, rfl⟩, rfl⟩, ⟨rfl, rfl⟩, rfl, rfl⟩
  · simp [Formula.LeansLeft, Formula.kind, Operator.kind, Operator.isAdditive]
  · decide +kernel
  · exact text_keeps_layout_iff ⟨⟨⟨⟨rfl, rfl⟩, rfl, rfl⟩, rfl⟩, ⟨rfl, rfl⟩, rfl, rfl⟩

/-- A difference on the right of a difference loses its layout. -/
theorem text_loses_layout_difference :
    ∃ e : Expr, e.Plain ∧ e.text = "1 - 2 - 3" ∧
      ∃ e₁, parse e.text = .ok e₁ ∧ e₁.ungrouped ≠ e.ungrouped := by
  let one : Expr := .number (.ofNat 1)
  let two : Expr := .number (.ofNat 2)
  let three : Expr := .number (.ofNat 3)
  have parsed : parse "1 - 2 - 3" = .ok (.binary .sub (.binary .sub one two) three) := by
    rw [← toOption_eq_some]
    decide +kernel
  have text : Expr.text (.binary .sub one (.binary .sub two three)) = "1 - 2 - 3" := by
    decide +kernel
  refine ⟨.binary .sub one (.binary .sub two three), ⟨⟨rfl, rfl⟩, ⟨rfl, rfl⟩, rfl, rfl⟩, text, ?_⟩
  exact ⟨_, text ▸ parsed, by decide +kernel⟩

end Expr
end DiceChat

import DiceChat.Proofs.Expr.Turns
import DiceChat.Proofs.Result.Explanation

/-!
# A node for each token

The nodes of a result follow the tokens of the expression that was evaluated, one for each of them
and in the same order. A node of dice shows how they fell: their values as they were drawn, which of
them the selection excludes, and which are at an end of their range.
-/

namespace DiceChat

namespace Node

structure ShowsDice (d : Dice) (fallen : List UInt16) (dice : List DieDetail) : Prop where
  length : dice.length = d.count.toNat
  values : dice.map DieDetail.value = fallen
  crossedOut : ∀ (place : Nat) (die : DieDetail), dice[place]? = some die →
    (die.crossedOut = true ↔ place ∈ (d.marks fallen).places)
  maximum : ∀ die ∈ dice, die.category = .maximum ↔ die.value = d.sides
  minimum : ∀ die ∈ dice, die.category = .minimum ↔ die.value ≠ d.sides ∧ die.value = 1

/-- Nodes that show the given tokens one by one, where `values` are what the dice fell to. -/
inductive Shows : List (Token Dice) → List UInt16 → List Node → Prop
  | nil : Shows [] [] []
  | number {x : Number} {ts : List (Token Dice)} {values : List UInt16} {nodes : List Node} :
      Shows ts values nodes → Shows (.number x :: ts) values (.constant x.text :: nodes)
  | dice {d : Dice} {dice : List DieDetail} {ts : List (Token Dice)} {fallen values : List UInt16}
      {nodes : List Node} : ShowsDice d fallen dice → Shows ts values nodes →
      Shows (.dice d :: ts) (fallen ++ values)
        (.dice (d.count.toNat.repr ++ "d" ++ d.sides.toNat.repr) 1 d.sides dice :: nodes)
  | operator {symbol : Char} {ts : List (Token Dice)} {values : List UInt16} {nodes : List Node} :
      Shows ts values nodes →
      Shows (.operator symbol :: ts) values (.operator symbol.toString :: nodes)
  | openParen {ts : List (Token Dice)} {values : List UInt16} {nodes : List Node} :
      Shows ts values nodes → Shows (.openParen :: ts) values (.openParen "(" :: nodes)
  | closeParen {ts : List (Token Dice)} {values : List UInt16} {nodes : List Node} :
      Shows ts values nodes → Shows (.closeParen :: ts) values (.closeParen ")" :: nodes)

variable {ts ts' : List (Token Dice)} {values values' : List UInt16} {nodes nodes' : List Node}

theorem Shows.length_eq (h : Shows ts values nodes) : nodes.length = ts.length := by
  induction h with
  | nil => rfl
  | number _ ih | dice _ _ ih | operator _ ih | openParen _ ih | closeParen _ ih =>
    rw [List.length_cons, List.length_cons, ih]

theorem Shows.append (h : Shows ts values nodes) (h' : Shows ts' values' nodes') :
    Shows (ts ++ ts') (values ++ values') (nodes ++ nodes') := by
  induction h with
  | nil => exact h'
  | number _ ih => exact .number ih
  | dice hd _ ih =>
    rw [List.append_assoc]
    exact .dice hd ih
  | operator _ ih => exact .operator ih
  | openParen _ ih => exact .openParen ih
  | closeParen _ ih => exact .closeParen ih

-- ---------------------------------------------------------------------------
-- Dice
-- ---------------------------------------------------------------------------

theorem category_eq_maximum {v greatest : UInt16} :
    Category.of v 1 greatest = .maximum ↔ v = greatest := by
  unfold Category.of
  split
  · next h => simp [h]
  · next h => split <;> simp [h]

theorem category_eq_minimum {v greatest : UInt16} :
    Category.of v 1 greatest = .minimum ↔ v ≠ greatest ∧ v = 1 := by
  unfold Category.of
  split
  · next h => simp [h]
  · next h => split <;> simp_all

theorem category_of_mem_details {r : Rolled} {die : DieDetail} (h : die ∈ r.details) :
    die.category = Category.of die.value 1 r.dice.sides := by
  obtain ⟨rolled, -, rfl⟩ := List.mem_map.mp h
  rfl

theorem showsDice_details {d : Dice} {fallen : List UInt16}
    (h : fallen.length = d.count.toNat) :
    ShowsDice d fallen (Rolled.ofValues d fallen).applySelection.details where
  length := by simp [Rolled.details, Rolled.applySelection_ofValues, h]
  values := by
    rw [Rolled.details, List.map_map]
    exact (Rolled.values_applySelection _).trans (Rolled.values_ofValues d fallen)
  crossedOut place die hdie := by
    rw [Rolled.details, Rolled.applySelection_ofValues, List.getElem?_map, Option.map_eq_some_iff]
      at hdie
    obtain ⟨rolled, hrolled, rfl⟩ := hdie
    obtain ⟨v, mark, -, hmark, rfl⟩ := List.getElem?_zipWith_eq_some.mp hrolled
    simp [Marks.mem_places, hmark]
  maximum die hdie := by
    rw [category_of_mem_details hdie, Rolled.dice_applySelection]
    exact category_eq_maximum
  minimum die hdie := by
    rw [category_of_mem_details hdie, Rolled.dice_applySelection]
    exact category_eq_minimum

end Node

-- ---------------------------------------------------------------------------
-- Expressions
-- ---------------------------------------------------------------------------

/-- Each leaf takes its part of the values, so the nodes of two operands are put together with the
values of the one before those of the other. -/
theorem Expr.shows_nodes {e : Expr} {values : List UInt16} (h : values.length = e.row.length) :
    Node.Shows (Formula.tokens e) values (e.withValues values).nodes := by
  induction e generalizing values with
  | number x =>
    rw [List.eq_nil_of_length_eq_zero h]
    exact .number .nil
  | dice d =>
    rw [row_dice, List.length_replicate] at h
    have shows := Node.Shows.dice (Node.showsDice_details h) .nil
    rw [List.append_nil] at shows
    simpa [withValues, Evaluated.nodes, Formula.tokens, Node.ofRolled, Dice.text, Dice.plain,
      Rolled.details] using shows
  | group f ih =>
    have inner := (ih h).append (.closeParen .nil)
    rw [List.append_nil] at inner
    rw [withValues, Evaluated.nodes]
    exact inner.openParen
  | neg f ih =>
    rw [withValues, Evaluated.nodes_neg]
    exact (ih h).operator
  | binary op a b iha ihb =>
    rw [row_binary] at h
    obtain ⟨va, vb, rfl, ha, hb⟩ := Draw.split_values h
    rw [withValues_append op a b ha, Evaluated.nodes_binary]
    exact (iha ha).append (ihb hb).operator

namespace RollResult

variable {σ : Type} [Source σ] {source source' : σ}

/-- The nodes of a result show the tokens of its expression one by one: numbers and dice as they are
written, dice without their selection, operators and parentheses by their symbols. Together the dice
show, in order, the values that fell for them. -/
theorem nodes_show_tokens {e : Expr} {ev : Evaluated} {result : RollResult}
    (h : e.eval.run.Gives source (.ok ev) source') (hr : ofEvaluated ev = .ok result) :
    ∃ values, (Draw.fall (Dice.rowOf (Formula.leaves e))).Gives source values source' ∧
      result.detail.length = (Formula.tokens e).length ∧
      Node.Shows (Formula.tokens e) values result.detail := by
  obtain ⟨values, fallen, rfl⟩ := Expr.eval_gives_ok h
  have shows := Expr.shows_nodes (Draw.length_of_fall fallen)
  rw [(ofEvaluated_eq_ok.mp hr).2] at shows
  exact ⟨values, fallen, shows.length_eq, shows⟩

theorem nodes_show_tokens_tie :
    let e : Expr := .binary .mul (.neg (.group (.binary .add
      (.dice ⟨3, 6, some ⟨.dropHighest, 1⟩⟩) (.number (.ofNat 2))))) (.dice ⟨1, 1, none⟩)
    let detail : List Node := [.operator "-", .openParen "(",
      .dice "3d6" 1 6 [⟨6, true, .maximum⟩, ⟨1, false, .minimum⟩, ⟨6, false, .maximum⟩],
      .operator "+", .constant "2", .closeParen ")", .operator "*",
      .dice "1d1" 1 1 [⟨1, false, .maximum⟩]]
    ∃ ev value, e.eval.run.Gives (Roller.sequence [6, 1, 6, 1]) (.ok ev) (.sequence []) ∧
      ofEvaluated ev = .ok ⟨value, detail⟩ ∧
      ∃ values, (Draw.fall (Dice.rowOf (Formula.leaves e))).Gives (Roller.sequence [6, 1, 6, 1])
          values (.sequence []) ∧
        detail.length = (Formula.tokens e).length ∧ Node.Shows (Formula.tokens e) values detail := by
  intro e detail
  have h : e.eval.run.Gives (Roller.sequence [6, 1, 6, 1])
      (.ok (e.withValues [6, 1, 6, 1])) (.sequence []) := by
    rw [Draw.gives_ok_iff]
    decide +kernel
  have hr : ofEvaluated (e.withValues [6, 1, 6, 1]) = .ok ⟨(Number.ofNat 8).neg, detail⟩ := by
    rw [← toOption_eq_some]
    decide +kernel
  exact ⟨_, _, h, hr, nodes_show_tokens h hr⟩

end RollResult
end DiceChat

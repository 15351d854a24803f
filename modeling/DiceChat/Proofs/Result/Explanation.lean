import DiceChat.Proofs.Expr.Tokens
import DiceChat.Proofs.Expr.Turns
import DiceChat.Proofs.Number.ReadBack

/-!
# The nodes of a result explain its value

The nodes are read as tokens of the grammar. A constant is the number that its content denotes; a
row of dice counts as the sum of the values that are not crossed out, or of those that are if the
dice were written to drop the highest. The nodes of a result have one reading, and its value is
the value of the result.
-/

namespace DiceChat

-- ---------------------------------------------------------------------------
-- Readings of nodes
-- ---------------------------------------------------------------------------

def DieDetail.sum (crossedOut : Bool) (dice : List DieDetail) : Nat :=
  dice.foldr (fun die sum => if die.crossedOut = crossedOut then die.value.toNat + sum else sum) 0

/-- The tokens that nodes stand for, where `dice` are the dice that were rolled, in their order. -/
inductive Node.Denote : List Dice → List Node → List (Token Nat) → Prop
  | nil : Denote [] [] []
  | constant {x : Number} {content : String} {dice : List Dice} {nodes : List Node}
      {ts : List (Token Nat)} : x.Written content.toList → Denote dice nodes ts →
      Denote dice (.constant content :: nodes) (.number x :: ts)
  | dice {d : Dice} {content : String} {least greatest : UInt16} {rolls : List DieDetail}
      {dice : List Dice} {nodes : List Node} {ts : List (Token Nat)} : Denote dice nodes ts →
      Denote (d :: dice) (.dice content least greatest rolls :: nodes)
        (.dice (DieDetail.sum d.countsCrossedOut rolls) :: ts)
  | operator {symbol : Char} {dice : List Dice} {nodes : List Node} {ts : List (Token Nat)} :
      Denote dice nodes ts →
      Denote dice (.operator symbol.toString :: nodes) (.operator symbol :: ts)
  | openParen {dice : List Dice} {nodes : List Node} {ts : List (Token Nat)} :
      Denote dice nodes ts → Denote dice (.openParen "(" :: nodes) (.openParen :: ts)
  | closeParen {dice : List Dice} {nodes : List Node} {ts : List (Token Nat)} :
      Denote dice nodes ts → Denote dice (.closeParen ")" :: nodes) (.closeParen :: ts)

/-- The nodes read as a formula over the totals of the dice. -/
def Node.Reads (dice : List Dice) (nodes : List Node) (f : Formula Nat) : Prop :=
  ∃ ts, Denote dice nodes ts ∧ Derives Token.lexis .sum ts f

namespace Node

variable {dice dice' : List Dice} {nodes nodes' : List Node} {ts ts' : List (Token Nat)}

theorem Denote.append (h : Denote dice nodes ts) (h' : Denote dice' nodes' ts') :
    Denote (dice ++ dice') (nodes ++ nodes') (ts ++ ts') := by
  induction h with
  | nil => exact h'
  | constant hx _ ih => exact .constant hx ih
  | dice _ ih => exact .dice ih
  | operator _ ih => exact .operator ih
  | openParen _ ih => exact .openParen ih
  | closeParen _ ih => exact .closeParen ih

theorem toString_inj {c d : Char} (h : c.toString = d.toString) : c = d := by
  simpa using congrArg String.toList h

theorem Denote.unique (h : Denote dice nodes ts) (h' : Denote dice nodes ts') : ts' = ts := by
  induction h generalizing ts' with
  | nil =>
    cases h'
    rfl
  | constant hx _ ih =>
    cases h' with
    | constant hy h' => rw [Expr.number_unique hx hy, ih h']
  | dice _ ih =>
    cases h' with
    | dice h' => rw [ih h']
  | operator _ ih =>
    -- The symbol stands in a text, from which it has to be taken before the nodes can be compared.
    generalize hs : Char.toString _ = symbol at h'
    cases h' with
    | operator h' => rw [toString_inj hs, ih h']
  | openParen _ ih =>
    cases h' with
    | openParen h' => rw [ih h']
  | closeParen _ ih =>
    cases h' with
    | closeParen h' => rw [ih h']

theorem Reads.unique {f g : Formula Nat} (hf : Reads dice nodes f) (hg : Reads dice nodes g) :
    g = f := by
  obtain ⟨ts, hts, derives⟩ := hf
  obtain ⟨ts', hts', derives'⟩ := hg
  obtain rfl := hts.unique hts'
  exact derives_unique derives derives'

end Node

-- ---------------------------------------------------------------------------
-- Totals of dice
-- ---------------------------------------------------------------------------

namespace Rolled

def details (r : Rolled) : List DieDetail :=
  r.rolls.map fun die => ⟨die.value, die.crossedOut, Category.of die.value 1 r.dice.sides⟩

def counted (r : Rolled) : Nat := DieDetail.sum r.dice.countsCrossedOut r.details

theorem counted_eq_valueSum (r : Rolled) :
    r.counted = valueSum (r.marked r.dice.countsCrossedOut) := by
  unfold counted details marked
  induction r.rolls with
  | nil => rfl
  | cons die rolls ih =>
    simp only [List.map_cons, DieDetail.sum, List.foldr_cons, List.filter_cons] at ih ⊢
    rw [ih]
    by_cases h : die.crossedOut = r.dice.countsCrossedOut <;> simp [h, valueSum]

theorem Selected.counted_eq {r : Rolled} (h : r.Selected) {n : Nat} (hn : r.total? = some n) :
    r.counted = n := by
  obtain ⟨values, hr⟩ := h
  generalize r.dice = d at hr
  subst hr
  rw [total?_eq_marked, total?_eq_some_iff] at hn
  rw [counted_eq_valueSum, dice_applySelection, dice_ofValues, hn.1]

end Rolled

-- ---------------------------------------------------------------------------
-- Results
-- ---------------------------------------------------------------------------

theorem Evaluated.denote_nodes {e : Evaluated}
    (h : e.All (fun x => x.Written x.text.toList) fun _ => True) :
    Node.Denote (e.leaves.map Rolled.dice) e.nodes (e.map Rolled.counted).tokens := by
  induction e with
  | number x => exact .constant h .nil
  | dice r => exact .dice .nil
  | group f ih =>
    have inner := (ih h).append (.closeParen .nil)
    rw [List.append_nil] at inner
    rw [nodes]
    exact inner.openParen
  | neg f ih =>
    rw [nodes_neg]
    exact .operator (ih h)
  | binary op a b iha ihb =>
    rw [nodes_binary, Formula.leaves, List.map_append]
    exact (iha h.1).append (.operator (ihb h.2))

namespace RollResult

variable {σ : Type} [Source σ] {source source' : σ}

theorem evaluate_gives {s : String} {result : RollResult}
    (h : (evaluate s).Gives source (.ok result) source') :
    ∃ (e : Expr) (ev : Evaluated), Expr.parse s = .ok e ∧
      Draw.Gives e.eval.run source (.ok ev) source' ∧ ev.calculate = .ok result.value ∧
      ev.nodes = result.detail := by
  unfold evaluate at h
  split at h
  · next e hparse =>
    obtain ⟨r, next, hr, h⟩ := Draw.gives_bind.mp h
    cases r with
    | error d =>
      obtain ⟨h, -⟩ := Draw.gives_pure.mp h
      cases h
    | ok ev =>
      obtain ⟨hresult, rfl⟩ := Draw.gives_pure.mp h
      cases hc : ev.calculate with
      | error c =>
        rw [ofEvaluated, hc] at hresult
        cases hresult
      | ok value =>
        rw [ofEvaluated, hc] at hresult
        cases hresult
        exact ⟨e, ev, hparse, hr, hc, rfl⟩
  · obtain ⟨h, -⟩ := Draw.gives_pure.mp h
    cases h

/-- The nodes of a result have exactly one reading, and its value is that of the result. -/
theorem nodes_explain_value {s : String} {result : RollResult}
    (h : (evaluate s).Gives source (.ok result) source') :
    ∃ e, Expr.parse s = .ok e ∧ ∃ f, Node.Reads e.leaves result.detail f ∧
      f.value = result.value ∧ ∀ g, Node.Reads e.leaves result.detail g → g = f := by
  obtain ⟨e, ev, hparse, hev, hvalue, hnodes⟩ := evaluate_gives h
  obtain ⟨rfl, selected⟩ := Expr.eval_gives hev
  have counts : ev.All (fun _ => True) fun r => ∀ n, r.total? = some n → r.counted = n := by
    refine selected.imp (fun _ h => h) ?_
    intro r hr n hn
    exact hr.counted_eq hn
  obtain ⟨value, finite⟩ := Evaluated.calculate_eq_ok hvalue counts
  have written := Expr.written_of_readAll hparse
  -- What was rolled has the shape of what was written, so it is as regular.
  have regular : (ev.map Rolled.counted).Regular := by
    rw [Formula.regular_map, ← Formula.regular_map Rolled.dice]
    exact (written.regular Expr.values_lexis).1
  have texts : ev.All (fun x => x.Written x.text.toList) fun _ => True := by
    have numbers := (Formula.all_map _ _).mp (written.all Expr.values_lexis)
    refine (finite.and numbers).imp ?_ fun _ _ => trivial
    rintro x ⟨hfinite, w, hw⟩
    exact Number.written_text hfinite hw.isNegative
  have denote := Evaluated.denote_nodes texts
  rw [hnodes, ← Formula.leaves_map] at denote
  have reads : Node.Reads (ev.map Rolled.dice).leaves result.detail (ev.map Rolled.counted) :=
    ⟨_, denote, derives_tokens regular⟩
  exact ⟨_, hparse, _, reads, value, fun g hg => reads.unique hg⟩

theorem nodes_explain_value_dropHighest :
    ∃ result : RollResult,
      (evaluate "3d6dh2 - -(1.5 * d4)").Gives (Roller.sequence [2, 5, 5, 3])
        (.ok result) (.sequence []) ∧
      result.value = .nearest false 29 2 ∧
      ∃ e, Expr.parse "3d6dh2 - -(1.5 * d4)" = .ok e ∧
        ∃ f, Node.Reads e.leaves result.detail f ∧ f.value = result.value ∧
          ∀ g, Node.Reads e.leaves result.detail g → g = f := by
  have h : (evaluate "3d6dh2 - -(1.5 * d4)").Gives (Roller.sequence [2, 5, 5, 3])
      (.ok ⟨.nearest false 29 2,
        [.dice "3d6" 1 6 [⟨2, false, .ordinary⟩, ⟨5, true, .ordinary⟩, ⟨5, true, .ordinary⟩],
          .operator "-", .operator "-", .openParen "(", .constant "1.5", .operator "*",
          .dice "1d4" 1 4 [⟨3, false, .ordinary⟩], .closeParen ")"]⟩) (.sequence []) := by
    rw [Draw.gives_ok_iff]
    decide +kernel
  exact ⟨_, h, rfl, nodes_explain_value h⟩

end RollResult
end DiceChat

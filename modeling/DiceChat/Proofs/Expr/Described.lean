import DiceChat.Proofs.Dice.Listing
import DiceChat.Proofs.Expr.DiceText
import DiceChat.Proofs.Expr.Turns

/-!
# Lists in descriptions

An evaluated expression is described as the expression it came from, with a list of rolls in
brackets behind each of its dice. Neither numbers nor the texts of dice have brackets, and lists
have none inside, so leaving out all from each opening bracket through the next closing one gives
the text of the expression.
-/

namespace DiceChat

-- ---------------------------------------------------------------------------
-- Brackets
-- ---------------------------------------------------------------------------

/-- A text without its lists, and these. A list is what stands between an opening bracket and the
next closing one; `some` is a list that is not closed yet. -/
def takeApart : Option (List Char) → List Char → List Char × List (List Char)
  | none, [] => ([], [])
  | none, c :: rest =>
    if c = '[' then takeApart (some []) rest
    else
      let (plain, lists) := takeApart none rest
      (c :: plain, lists)
  | some list, [] => ([], [list])
  | some list, c :: rest =>
    if c = ']' then
      let (plain, lists) := takeApart none rest
      (plain, list :: lists)
    else takeApart (some (list ++ [c])) rest

theorem takeApart_plain {text : List Char} (h : '[' ∉ text) (rest : List Char) :
    takeApart none (text ++ rest) =
      (text ++ (takeApart none rest).1, (takeApart none rest).2) := by
  induction text with
  | nil => rfl
  | cons c text ih =>
    obtain ⟨hc, htext⟩ := List.ne_and_not_mem_of_not_mem_cons h
    rw [List.cons_append, takeApart, if_neg (Ne.symm hc), ih htext]
    rfl

theorem takeApart_inside {list : List Char} (h : ']' ∉ list) (before rest : List Char) :
    takeApart (some before) (list ++ ']' :: rest) =
      ((takeApart none rest).1, (before ++ list) :: (takeApart none rest).2) := by
  induction list generalizing before with
  | nil => simp [takeApart]
  | cons c list ih =>
    obtain ⟨hc, hlist⟩ := List.ne_and_not_mem_of_not_mem_cons h
    rw [List.cons_append, takeApart, if_neg (Ne.symm hc), ih hlist, List.append_assoc]
    rfl

/-- The text is the plain one with these lists added, whatever stands behind it. -/
def AddsLists (text plain : String) (lists : List String) : Prop :=
  ∀ rest, takeApart none (text.toList ++ rest) =
    (plain.toList ++ (takeApart none rest).1,
      lists.map String.toList ++ (takeApart none rest).2)

namespace AddsLists

variable {text plain text' plain' : String} {lists lists' : List String}

theorem of_not_mem (h : '[' ∉ text.toList) : AddsLists text text [] :=
  takeApart_plain h

theorem of_list {text : String} (h : ']' ∉ text.toList) :
    AddsLists ("[" ++ text ++ "]") "" [text] := by
  intro rest
  have inside := takeApart_inside h [] rest
  simpa [takeApart] using inside

theorem append (h : AddsLists text plain lists) (h' : AddsLists text' plain' lists') :
    AddsLists (text ++ text') (plain ++ plain') (lists ++ lists') := by
  intro rest
  rw [String.toList_append, List.append_assoc, h, h']
  simp

theorem before (h : AddsLists text plain lists) {s : String} (hs : '[' ∉ s.toList) :
    AddsLists (s ++ text) (s ++ plain) lists :=
  (of_not_mem hs).append h

theorem after (h : AddsLists text plain lists) {s : String} (hs : '[' ∉ s.toList) :
    AddsLists (text ++ s) (plain ++ s) lists := by
  have both := h.append (of_not_mem hs)
  rwa [List.append_nil] at both

theorem parenthesized (h : AddsLists text plain lists) :
    AddsLists (DiceChat.parenthesized text) (DiceChat.parenthesized plain) lists :=
  (h.before (by decide)).after (by decide)

theorem parenthesizedIf (h : AddsLists text plain lists) (wrap : Bool) :
    AddsLists (DiceChat.parenthesizedIf wrap text) (DiceChat.parenthesizedIf wrap plain) lists := by
  cases wrap with
  | false => exact h
  | true => exact h.parenthesized

theorem takeApart_eq (h : AddsLists text plain lists) :
    takeApart none text.toList = (plain.toList, lists.map String.toList) := by
  have whole := h []
  simpa [takeApart] using whole

end AddsLists

-- ---------------------------------------------------------------------------
-- Parts of a description
-- ---------------------------------------------------------------------------

theorem Rolled.addsLists_describe (limit : Option Nat) (r : Rolled) :
    AddsLists (r.describe limit) r.dice.text [r.list limit] := by
  have described := (AddsLists.of_not_mem (r.dice.not_mem_text rfl)).append
    (.of_list (r.not_mem_list limit (by simp)))
  rwa [List.nil_append, String.append_empty, ← String.append_assoc, ← String.append_assoc,
    ← describe_eq] at described

/-- If each leaf adds its list to a text, so does the formula: parentheses depend on its shape
alone. -/
theorem Formula.addsLists_describe {δ ε : Type} {leaf : δ → String} {dice : δ → ε}
    {name : ε → String} {list : δ → String} (h : ∀ d, AddsLists (leaf d) (name (dice d)) [list d])
    (f : Formula δ) : AddsLists (f.describe leaf) ((f.map dice).describe name) (f.leaves.map list) := by
  induction f with
  | number x => exact .of_not_mem (x.not_mem_text rfl (by decide))
  | dice d => exact h d
  | group f ih => exact ih.parenthesized
  | neg f ih =>
    have signed := (ih.parenthesizedIf (f.kind != .value)).before (s := "-") (by decide)
    simpa only [describe, map, leaves, kind_map] using signed
  | binary op a b iha ihb =>
    have symbol : '[' ∉ op.symbol.toString.toList := by cases op <;> decide
    have left := (iha.parenthesizedIf (op.setsApart a.kind)).after (s := " ") (by decide)
    have both := ((left.after symbol).after (s := " ") (by decide)).append
      (ihb.parenthesizedIf (op.setsApart b.kind))
    simpa only [describe, map, leaves, kind_map, List.map_append] using both

-- ---------------------------------------------------------------------------
-- Evaluated expressions
-- ---------------------------------------------------------------------------

namespace Expr

/-- Taking the description of an evaluated expression apart gives the text of the expression and,
for each of its dice in written order, the list of their rolls. -/
theorem describe_adds_lists {σ : Type} [Source σ] {e : Expr} {ev : Evaluated} {s s' : σ}
    (h : e.eval.run.Gives s (.ok ev) s') (limit : Option Nat) :
    takeApart none (ev.describe limit).toList =
        (e.text.toList, (Formula.leaves ev).map fun r => (r.list limit).toList) ∧
      (Formula.leaves ev).map Rolled.dice = Formula.leaves e := by
  obtain ⟨rfl, -⟩ := eval_gives h
  refine ⟨?_, (Formula.leaves_map _ _).symm⟩
  have added := Formula.addsLists_describe (Rolled.addsLists_describe limit) ev
  rw [Evaluated.describe, added.takeApart_eq, List.map_map]
  rfl

theorem describe_adds_lists_nested :
    let e : Expr := .binary .mul
      (.neg (.binary .add (.dice ⟨2, 6, some ⟨.dropLowest, 1⟩⟩) (.dice ⟨1, 4, none⟩)))
      (.binary .sub (.dice ⟨1, 8, none⟩) (.group (.dice ⟨1, 2, none⟩)))
    let ev : Evaluated := .binary .mul
      (.neg (.binary .add (.dice ⟨⟨2, 6, some ⟨.dropLowest, 1⟩⟩, [⟨2, true⟩, ⟨4, false⟩]⟩)
        (.dice ⟨⟨1, 4, none⟩, [⟨3, false⟩]⟩)))
      (.binary .sub (.dice ⟨⟨1, 8, none⟩, [⟨5, false⟩]⟩)
        (.group (.dice ⟨⟨1, 2, none⟩, [⟨1, false⟩]⟩)))
    e.eval.run.Gives (Roller.sequence [2, 4, 3, 5, 1]) (.ok ev) (.sequence []) ∧
      ev.describe (some 1) = "-(2d6dl1[2 (x), 1 more...] + 1d4[3]) * (1d8[5] - (1d2[1]))" ∧
      takeApart none (ev.describe (some 1)).toList =
        ("-(2d6dl1 + 1d4) * (1d8 - (1d2))".toList,
          ["2 (x), 1 more...".toList, ['3'], ['5'], ['1']]) := by
  intro e ev
  have given : e.eval.run.Gives (Roller.sequence [2, 4, 3, 5, 1]) (.ok ev) (.sequence []) := by
    rw [eval_eq_fall (valid_iff.mpr (by decide)), Draw.gives_map]
    refine ⟨[2, 4, 3, 5, 1], ?_, by decide⟩
    rw [Draw.Gives, Draw.runFrom_fall_sequence]
    decide
  obtain ⟨apart, -⟩ := describe_adds_lists given (some 1)
  have text : e.text = "-(2d6dl1 + 1d4) * (1d8 - (1d2))" := by decide
  have lists : (Formula.leaves ev).map (fun r => (r.list (some 1)).toList) =
      ["2 (x), 1 more...".toList, ['3'], ['5'], ['1']] := by decide
  rw [text, lists] at apart
  exact ⟨given, by decide, apart⟩

end Expr

end DiceChat

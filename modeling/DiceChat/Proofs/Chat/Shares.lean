import DiceChat.Proofs.Chat.Hydration
import DiceChat.Proofs.Result.Drawing

/-!
# What the pieces of a message draw

Segmenting a message lets the dice of its expressions fall in one row, piece after piece. A piece
that is read owns the values of its dice, whether it comes to a result or its calculation fails;
the other pieces own nothing. What a piece comes to depends on its own values alone, and its result
shows exactly these.
-/

namespace DiceChat

def Node.values : Node → List UInt16
  | .dice _ _ _ rolls => rolls.map DieDetail.value
  | _ => []

def RollResult.values (r : RollResult) : List UInt16 := r.detail.flatMap Node.values

/-- The dice that a piece rolls, by their sides. -/
def Piece.row : Piece → List UInt16
  | .text _ => []
  | .bracketed s => RollResult.row (String.ofList s)

/-- The result that a piece comes to when its dice fall to the given values. -/
def Piece.result : Piece → List UInt16 → Option RollResult
  | .text _, _ => none
  | .bracketed s, values => (RollResult.withValues (String.ofList s) values).toOption

/-- A piece of a message, the result that it came to, and the values that were drawn for it. -/
structure Share extends Outcome where
  drawn : List UInt16

namespace Share

/-- Nothing is drawn for text and for what is no expression. From what is drawn for an expression,
and nothing else, it comes to its result or to none. A result shows what was drawn. -/
inductive Fair : Share → Prop
  | text (s : List Char) : Fair ⟨⟨.text s, none⟩, []⟩
  | unread {s : List Char} {failure : ParseFailure} :
      Expr.parse (String.ofList s) = .error failure → Fair ⟨⟨.bracketed s, none⟩, []⟩
  | failed {s : List Char} {e : Expr} {drawn : List UInt16} {error : CalculationError} :
      Expr.parse (String.ofList s) = .ok e → drawn.length = e.row.length →
      (RollResult.evaluate (String.ofList s)).Gives (Roller.sequence drawn)
        (.error (.calculation error)) (.sequence []) →
      Fair ⟨⟨.bracketed s, none⟩, drawn⟩
  | evaluated {s : List Char} {e : Expr} {drawn : List UInt16} {r : RollResult} :
      Expr.parse (String.ofList s) = .ok e → drawn.length = e.row.length →
      (RollResult.evaluate (String.ofList s)).Gives (Roller.sequence drawn)
        (.ok r) (.sequence []) →
      r.values = drawn → Fair ⟨⟨.bracketed s, some r⟩, drawn⟩

/-- Deals values to pieces, to each as many as it has dice. -/
def deal : List Piece → List UInt16 → List Share
  | [], _ => []
  | piece :: rest, values =>
    let n := piece.row.length
    ⟨⟨piece, piece.result (values.take n)⟩, values.take n⟩ :: deal rest (values.drop n)

theorem deal_append {piece : Piece} {own : List UInt16} (h : own.length = piece.row.length)
    (rest : List Piece) (others : List UInt16) :
    deal (piece :: rest) (own ++ others) =
      ⟨⟨piece, piece.result own⟩, own⟩ :: deal rest others := by
  simp [deal, ← h]

theorem map_piece_deal (pieces : List Piece) (values : List UInt16) :
    (deal pieces values).map (·.piece) = pieces := by
  induction pieces generalizing values with
  | nil => rfl
  | cons piece rest ih => simp [deal, ih]

theorem flatMap_drawn_deal {pieces : List Piece} {values : List UInt16}
    (h : values.length = (pieces.flatMap Piece.row).length) :
    (deal pieces values).flatMap drawn = values := by
  induction pieces generalizing values with
  | nil => exact (List.eq_nil_of_length_eq_zero h).symm
  | cons piece rest ih =>
    rw [List.flatMap_cons] at h
    obtain ⟨own, others, rfl, hown, hothers⟩ := Draw.split_values h
    rw [deal_append hown, List.flatMap_cons, ih hothers]

end Share

-- ---------------------------------------------------------------------------
-- Shares
-- ---------------------------------------------------------------------------

theorem Node.values_ofRolled (r : Rolled) : (ofRolled r).values = r.values := by
  simp [ofRolled, Node.values, Rolled.values]

theorem Evaluated.values_nodes (ev : Evaluated) :
    ev.nodes.flatMap Node.values = (Formula.leaves ev).flatMap Rolled.values := by
  induction ev with
  | number x => rfl
  | dice r => simp [nodes, Formula.leaves, Node.values_ofRolled]
  | group f ih => simpa [nodes, Formula.leaves, Node.values] using ih
  | neg f ih => exact ih
  | binary op a b iha ihb =>
    rw [Formula.leaves, List.flatMap_append, ← iha, ← ihb, nodes_binary]
    simp [Node.values]

namespace RollResult

theorem evaluate_sequence {text : String} {drawn : List UInt16}
    (h : drawn.length = (row text).length) :
    (evaluate text).Gives (Roller.sequence drawn) (withValues text drawn) (.sequence []) := by
  rw [evaluate_eq_fall, Draw.gives_map]
  exact ⟨drawn, Draw.fall_of_length h, rfl⟩

end RollResult

theorem Share.fair_of_length {piece : Piece} {drawn : List UInt16}
    (h : drawn.length = piece.row.length) : Fair ⟨⟨piece, piece.result drawn⟩, drawn⟩ := by
  cases piece with
  | text s =>
    rw [List.eq_nil_of_length_eq_zero h]
    exact .text s
  | bracketed s =>
    replace h : drawn.length = (RollResult.row (String.ofList s)).length := h
    have given := RollResult.evaluate_sequence h
    show Fair ⟨⟨.bracketed s, (RollResult.withValues (String.ofList s) drawn).toOption⟩, drawn⟩
    cases hparse : Expr.parse (String.ofList s) with
    | error failure =>
      rw [RollResult.row_of_failure hparse] at h
      rw [List.eq_nil_of_length_eq_zero h, RollResult.withValues_of_failure hparse]
      exact .unread hparse
    | ok e =>
      rw [RollResult.row_of_parse hparse] at h
      rw [RollResult.withValues_of_parse hparse] at given ⊢
      cases hr : RollResult.ofEvaluated (e.withValues drawn) with
      | error error =>
        rw [hr] at given
        exact .failed hparse h given
      | ok r =>
        rw [hr] at given
        obtain ⟨-, hnodes⟩ := RollResult.ofEvaluated_eq_ok.mp hr
        refine .evaluated hparse h given ?_
        rw [RollResult.values, ← hnodes, Evaluated.values_nodes, Expr.values_withValues h]

theorem Share.fair_deal {pieces : List Piece} {values : List UInt16}
    (h : values.length = (pieces.flatMap Piece.row).length) :
    ∀ share ∈ deal pieces values, share.Fair := by
  induction pieces generalizing values with
  | nil => simp [deal]
  | cons piece rest ih =>
    rw [List.flatMap_cons] at h
    obtain ⟨own, others, rfl, hown, hothers⟩ := Draw.split_values h
    rw [deal_append hown]
    intro share hshare
    rcases List.mem_cons.mp hshare with rfl | hshare
    · exact fair_of_length hown
    · exact ih hothers share hshare

-- ---------------------------------------------------------------------------
-- Segmenting
-- ---------------------------------------------------------------------------

namespace Segmented

def row (message : String) : List UInt16 := (Piece.split message.toList).flatMap Piece.row

section

variable {σ : Type} [Source σ]

theorem partsOfPiece_eq_fall (piece : Piece) :
    (partsOfPiece piece : Draw σ (List (Part RollResult))) =
      (fun values => Outcome.parts ⟨piece, piece.result values⟩) <$> Draw.fall piece.row := by
  cases piece with
  | text s => rfl
  | bracketed s =>
    simp only [partsOfPiece, RollResult.evaluate_eq_fall, map_eq_pure_bind, bind_assoc, pure_bind]
    refine bind_congr (m := Draw σ) fun values => ?_
    show _ = pure (Outcome.parts ⟨_, (RollResult.withValues (String.ofList s) values).toOption⟩)
    cases RollResult.withValues (String.ofList s) values with
    | ok r => rfl
    | error error => rfl

theorem partsOfPieces_eq_fall (pieces : List Piece) :
    (partsOfPieces pieces : Draw σ (List (Part RollResult))) =
      (fun values => (Share.deal pieces values).flatMap (·.parts)) <$>
        Draw.fall (pieces.flatMap Piece.row) := by
  induction pieces with
  | nil => rfl
  | cons piece rest ih =>
    simp only [partsOfPieces, partsOfPiece_eq_fall, ih, List.flatMap_cons, Draw.fall_append,
      map_eq_pure_bind, bind_assoc, pure_bind]
    refine Draw.bind_congr fun s own s' fallen => bind_congr fun others => ?_
    rw [Share.deal_append (Draw.length_of_fall fallen), List.flatMap_cons]

theorem segment_eq_fall (message : String) :
    (segment message : Draw σ Segmented) =
      (fun values => ofParts message
        ((Share.deal (Piece.split message.toList) values).flatMap (·.parts))) <$>
          Draw.fall (row message) := by
  rw [segment, partsOfPieces_eq_fall, row, bind_pure_comp, Functor.map_map]

theorem results_ofParts_deal (message : String) (shares : List Share) :
    (ofParts message (shares.flatMap (·.parts))).results = shares.filterMap (·.result) := by
  have results := fillings_flatMap_parts (shares.map Share.toOutcome)
  rwa [List.flatMap_map, List.filterMap_map] at results

/-- Segmenting leaves a source as the dice of the expressions in the message leave it, and runs dry
just if they do. What these dice fell to is shared out among the pieces; each share is fair, and
the results are those of the shares, in order. A sequence of values runs dry just if it has fewer
values than there are dice. -/
theorem segment_draws (message : String) :
    (∀ s : σ, ((segment message).runFrom s).2 = ((Draw.fall (row message)).runFrom s).2 ∧
      (((segment message).runFrom s).1 = none ↔
        ((Draw.fall (row message)).runFrom s).1 = none)) ∧
    (∀ (s s' : σ) (segmented : Segmented), (segment message).Gives s segmented s' →
      ∃ shares : List Share, shares.map (·.piece) = Piece.split message.toList ∧
        (Draw.fall (row message)).Gives s (shares.flatMap Share.drawn) s' ∧
        (∀ share ∈ shares, share.Fair) ∧
        segmented = ofParts message (shares.flatMap (·.parts)) ∧
        segmented.results = shares.filterMap (·.result)) ∧
    ∀ values : List UInt16,
      (((segment message).runFrom (Roller.sequence values)).1 = none ↔
        values.length < (row message).length) ∧
      ((segment message).runFrom (Roller.sequence values)).2 =
        .sequence (values.drop (row message).length) := by
  refine ⟨?_, ?_, ?_⟩
  · intro s
    rw [segment_eq_fall, Draw.runFrom_map]
    exact ⟨rfl, Option.map_eq_none_iff⟩
  · intro s s' segmented given
    rw [segment_eq_fall, Draw.gives_map] at given
    obtain ⟨values, fallen, rfl⟩ := given
    have length := Draw.length_of_fall fallen
    refine ⟨Share.deal (Piece.split message.toList) values, Share.map_piece_deal _ _, ?_,
      Share.fair_deal length, rfl, results_ofParts_deal _ _⟩
    rwa [Share.flatMap_drawn_deal length]
  · intro values
    rw [segment_eq_fall, Draw.runFrom_map, Draw.runFrom_fall_sequence]
    simp

theorem segment_draws_mixed :
    ∃ segmented : Segmented,
      (segment "[d6/0] [x] d8 [2d4kl1 + d6]").Gives (Roller.sequence [3, 1, 4, 6, 2]) segmented
        (.sequence [2]) ∧
      ∃ shares : List Share,
        shares.map (·.piece) = Piece.split "[d6/0] [x] d8 [2d4kl1 + d6]".toList ∧
        (Draw.fall (row "[d6/0] [x] d8 [2d4kl1 + d6]")).Gives (Roller.sequence [3, 1, 4, 6, 2])
          (shares.flatMap Share.drawn) (.sequence [2]) ∧
        (∀ share ∈ shares, share.Fair) ∧
        segmented.results = shares.filterMap (·.result) := by
  have given : (segment "[d6/0] [x] d8 [2d4kl1 + d6]").Gives (Roller.sequence [3, 1, 4, 6, 2])
      ⟨"[d6/0] [x] d8 \x7b0\x7d",
        [⟨.ofNat 7, [.dice "2d4" 1 4 [⟨1, false, .minimum⟩, ⟨4, true, .maximum⟩], .operator "+",
          .dice "1d6" 1 6 [⟨6, false, .maximum⟩]]⟩]⟩ (.sequence [2]) := by
    unfold Draw.Gives
    decide +kernel
  obtain ⟨shares, pieces, fallen, fair, -, results⟩ :=
    (segment_draws (σ := Roller) _).2.1 _ _ _ given
  exact ⟨_, given, shares, pieces, fallen, fair, results⟩

end

end Segmented
end DiceChat

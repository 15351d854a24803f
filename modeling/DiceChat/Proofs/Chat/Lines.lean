import DiceChat.Proofs.Chat.Hydration
import DiceChat.Proofs.Chat.Splitting
import DiceChat.Proofs.Source.Falling

/-!
# Messages line by line

No piece goes past the end of a line, so the lines of a message are split, evaluated and hydrated
one after the other. What a segmented message keeps of its lines differs: the places of a later line
are numbered on, and a line without results is written as a template if another line has some. None
of this shows once the message is hydrated.
-/

namespace DiceChat

namespace Piece

theorem closes_append_line (s rest : List Char) : closes (s ++ '\n' :: rest) = closes s := by
  induction s with
  | nil => rfl
  | cons c s ih => simp only [List.cons_append, closes, ih]

end Piece

theorem Template.render_append {α : Type} {m : Type → Type} [Monad m] [LawfulMonad m]
    (f : α → m (List Char)) (a b : List (Part α)) :
    render f (a ++ b) = do
      let s ← render f a
      let t ← render f b
      return s ++ t := by
  induction a with
  | nil => simp [render]
  | cons part a ih =>
    cases part with
    | literal c => simp [render, ih]
    | filling x =>
      simp only [List.cons_append, render, ih, bind_assoc, pure_bind, List.append_assoc]

namespace Segmented

section

variable {σ : Type} [Source σ]

theorem partsOfPieces_prepend (c : Char) (pieces : List Piece) :
    (partsOfPieces (Piece.prepend c pieces) : Draw σ (List (Part RollResult))) =
      (.literal c :: ·) <$> partsOfPieces pieces := by
  match pieces with
  | [] => rfl
  | .bracketed s :: rest => simp [Piece.prepend, partsOfPieces, partsOfPiece, Part.ofText]
  | .text s :: rest => simp [Piece.prepend, partsOfPieces, partsOfPiece, Part.ofText]

theorem partsOfPieces_lines (a b : List Char) :
    (partsOfPieces (Piece.split (a ++ '\n' :: b)) : Draw σ (List (Part RollResult))) = do
      let first ← partsOfPieces (Piece.split a)
      let second ← partsOfPieces (Piece.split b)
      return first ++ .literal '\n' :: second := by
  induction a using Piece.split_induction with
  | nil =>
    rw [List.nil_append, Piece.split_text (by simp), partsOfPieces_prepend, Piece.split_nil]
    simp [partsOfPieces]
  | text c rest h ih =>
    have unclosed : ¬(c = '[' ∧ Piece.closes (rest ++ '\n' :: b) = true) := by
      rwa [Piece.closes_append_line]
    rw [List.cons_append, Piece.split_text unclosed, Piece.split_text h, partsOfPieces_prepend,
      partsOfPieces_prepend, ih]
    simp
  | bracketed inner rest bracket line ih =>
    rw [List.append_assoc, Piece.split_bracketed bracket line, Piece.split_bracketed bracket line,
      partsOfPieces, partsOfPieces, ih]
    simp

/-- All that shows of a segmented message, its results and its text when they are rendered, is that
of the parts that its pieces came to. -/
theorem map_segment {m : Type → Type} [Monad m] (render : RollResult → m (List Char))
    (message : String) :
    ((fun s => (s.results, s.hydrate render)) <$> segment message :
      Draw σ (List RollResult × m (List Char))) =
      (fun parts => (Part.fillings parts, Template.render render parts)) <$>
        partsOfPieces (Piece.split message.toList) := by
  rw [segment, map_eq_pure_bind, map_eq_pure_bind, bind_assoc]
  refine Draw.bind_congr fun s parts s' given => ?_
  obtain ⟨os, -, pieces, rfl⟩ := gives_partsOfPieces given
  rw [pure_bind, hydrate, parts_ofParts_flatMap pieces]
  rfl

/-- Segmenting two lines is segmenting the first one and then, with the source as it was left, the
second one: the source is left in the same state or runs dry at the same die, the results are those
of the two lines, and hydrating gives the text of one line, the end of the line and the text of the
other. -/
theorem segment_lines {m : Type → Type} [Monad m] [LawfulMonad m]
    (render : RollResult → m (List Char)) (a b : String) :
    (do
      let both ← segment (a ++ "\n" ++ b)
      return (both.results, both.hydrate render) : Draw σ (List RollResult × m (List Char))) = do
      let first ← segment a
      let second ← segment b
      return (first.results ++ second.results, do
        let s ← first.hydrate render
        let t ← second.hydrate render
        return s ++ '\n' :: t) := by
  have lines : (a ++ "\n" ++ b).toList = a.toList ++ '\n' :: b.toList := by simp
  let shown (parts : List (Part RollResult)) := (Part.fillings parts, Template.render render parts)
  calc
    _ = shown <$> partsOfPieces (Piece.split (a ++ "\n" ++ b).toList) := by
      rw [bind_pure_comp, map_segment]
    _ = do
        let first ← shown <$> partsOfPieces (Piece.split a.toList)
        let second ← shown <$> partsOfPieces (Piece.split b.toList)
        return (first.1 ++ second.1, do
          let s ← first.2
          let t ← second.2
          return s ++ '\n' :: t) := by
      rw [lines, partsOfPieces_lines]
      simp [shown, Template.render_append, Template.render]
    _ = _ := by
      rw [← map_segment, ← map_segment]
      simp only [bind_map_left]

end

/-- The first line has no result and a bracket that the second one cannot close; written together
with the second one, its braces are doubled. -/
theorem segment_lines_one_roll :
    LawfulMonad Id ∧
    ∃ first second both : Segmented,
      (segment "\x7b0\x7d [d6").Gives (Roller.sequence [3, 1, 2]) first (.sequence [3, 1, 2]) ∧
      (segment "] [2d4]").Gives (Roller.sequence [3, 1, 2]) second (.sequence [2]) ∧
      (segment ("\x7b0\x7d [d6" ++ "\n" ++ "] [2d4]")).Gives (Roller.sequence [3, 1, 2]) both
        (.sequence [2]) ∧
      first.content = "\x7b0\x7d [d6" ∧ second.content = "] \x7b0\x7d" ∧
      both.results = first.results ++ second.results ∧
      both.hydrate (m := Id) (fun r => r.value.text.toList) = (do
        let s ← first.hydrate fun r => r.value.text.toList
        let t ← second.hydrate fun r => r.value.text.toList
        return s ++ '\n' :: t) := by
  have first : (segment "\x7b0\x7d [d6").Gives (Roller.sequence [3, 1, 2])
      ⟨"\x7b0\x7d [d6", []⟩ (.sequence [3, 1, 2]) := by
    unfold Draw.Gives
    decide +kernel
  have second : (segment "] [2d4]").Gives (Roller.sequence [3, 1, 2])
      ⟨"] \x7b0\x7d", [⟨.ofNat 4, [.dice "2d4" 1 4 [⟨3, false, .ordinary⟩, ⟨1, false, .minimum⟩]]⟩]⟩
      (.sequence [2]) := by
    unfold Draw.Gives
    decide +kernel
  have lines := segment_lines (σ := Roller) (m := Id) (fun r => r.value.text.toList)
    "\x7b0\x7d [d6" "] [2d4]"
  obtain ⟨both, _, given, pair⟩ := Draw.gives_bind.mp ((congrArg (Draw.Gives · _ _ _) lines).mpr
    (Draw.gives_bind.mpr ⟨_, _, first, Draw.gives_bind.mpr ⟨_, _, second,
      Draw.gives_pure.mpr ⟨rfl, rfl⟩⟩⟩))
  obtain ⟨same, rfl⟩ := Draw.gives_pure.mp pair
  obtain ⟨results, text⟩ := Prod.mk.inj same
  exact ⟨inferInstance, _, _, both, first, second, given, rfl, rfl, results, text⟩

end Segmented
end DiceChat

import DiceChat.Chat.Segmented
import DiceChat.Proofs.Source.Draw

/-!
# Hydrating a segmented message

Segmenting and hydrating a message puts a text in place of every bracketed piece that came to a
result, and leaves all else as it stands: braces, places that the message itself seems to hold,
and brackets that came to nothing. Whether the content was kept or written as a template does not
show. The texts are made once for each result, in the order of the message.
-/

namespace DiceChat

structure Outcome where
  piece : Piece
  result : Option RollResult

section outcomes

variable {σ : Type} [Source σ]

/-- What the pieces of a message come to, one after the other, between two states of the source.
Only bracketed pieces are evaluated. -/
inductive Outcomes : σ → List Outcome → σ → Prop
  | done {s : σ} : Outcomes s [] s
  | text {s s' : σ} {t : List Char} {rest : List Outcome} :
      Outcomes s rest s' → Outcomes s (⟨.text t, none⟩ :: rest) s'
  | result {s next s' : σ} {t : List Char} {r : RollResult} {rest : List Outcome} :
      (RollResult.evaluate (String.ofList t)).Gives s (.ok r) next →
      Outcomes next rest s' → Outcomes s (⟨.bracketed t, some r⟩ :: rest) s'
  | failure {s next s' : σ} {t : List Char} {e : EvaluationError} {rest : List Outcome} :
      (RollResult.evaluate (String.ofList t)).Gives s (.error e) next →
      Outcomes next rest s' → Outcomes s (⟨.bracketed t, none⟩ :: rest) s'

end outcomes

namespace Outcome

def parts : Outcome → List (Part RollResult)
  | ⟨_, some r⟩ => [.filling r]
  | ⟨piece, none⟩ => Part.ofText piece.source

/-- A message with the given texts in place of the pieces that have results, in order. -/
def filled : List Outcome → List (List Char) → List Char
  | [], _ => []
  | ⟨_, some _⟩ :: rest, texts => texts.headD [] ++ filled rest texts.tail
  | ⟨piece, none⟩ :: rest, texts => piece.source ++ filled rest texts

end Outcome

-- ---------------------------------------------------------------------------
-- Parts
-- ---------------------------------------------------------------------------

namespace Part

variable {α : Type}

@[simp] theorem fillings_cons_literal (c : Char) (parts : List (Part α)) :
    fillings (.literal c :: parts) = fillings parts := rfl

@[simp] theorem fillings_cons_filling (a : α) (parts : List (Part α)) :
    fillings (.filling a :: parts) = a :: fillings parts := rfl

@[simp] theorem fillings_append (a b : List (Part α)) :
    fillings (a ++ b) = fillings a ++ fillings b := by
  simp [fillings]

@[simp] theorem fillings_ofText (s : List Char) : fillings (ofText (α := α) s) = [] := by
  simp [fillings, ofText]

end Part

namespace Template

variable {α : Type} {m : Type → Type} [Monad m] [LawfulMonad m]

@[simp] theorem render_ofText_append (f : α → m (List Char)) (s : List Char)
    (parts : List (Part α)) :
    render f (Part.ofText s ++ parts) = (s ++ ·) <$> render f parts := by
  induction s with
  | nil => simp [Part.ofText]
  | cons c s ih =>
    rw [Part.ofText] at ih
    simp [Part.ofText, render, ih]

end Template

-- ---------------------------------------------------------------------------
-- Outcomes and parts
-- ---------------------------------------------------------------------------

namespace Segmented

variable {σ : Type} [Source σ]

theorem gives_partsOfPiece {piece : Piece} {s s' : σ} {parts : List (Part RollResult)}
    (h : (partsOfPiece piece).Gives s parts s') :
    ∃ o : Outcome, o.piece = piece ∧ parts = o.parts ∧
      ∀ {rest final}, Outcomes s' rest final → Outcomes s (o :: rest) final := by
  cases piece with
  | text t =>
    obtain ⟨rfl, rfl⟩ := Draw.gives_pure.mp h
    exact ⟨⟨.text t, none⟩, rfl, rfl, .text⟩
  | bracketed t =>
    obtain ⟨r, next, hr, h⟩ := Draw.gives_bind.mp h
    cases r with
    | ok r =>
      obtain ⟨rfl, rfl⟩ := Draw.gives_pure.mp h
      exact ⟨⟨.bracketed t, some r⟩, rfl, rfl, .result hr⟩
    | error e =>
      obtain ⟨rfl, rfl⟩ := Draw.gives_pure.mp h
      exact ⟨⟨.bracketed t, none⟩, rfl, rfl, .failure hr⟩

theorem gives_partsOfPieces {pieces : List Piece} {s s' : σ} {parts : List (Part RollResult)}
    (h : (partsOfPieces pieces).Gives s parts s') :
    ∃ os : List Outcome, Outcomes s os s' ∧ os.map Outcome.piece = pieces ∧
      parts = os.flatMap Outcome.parts := by
  induction pieces generalizing s parts with
  | nil =>
    obtain ⟨rfl, rfl⟩ := Draw.gives_pure.mp h
    exact ⟨[], .done, rfl, rfl⟩
  | cons piece pieces ih =>
    obtain ⟨first, next, hfirst, h⟩ := Draw.gives_bind.mp h
    obtain ⟨others, last, hothers, h⟩ := Draw.gives_bind.mp h
    obtain ⟨rfl, rfl⟩ := Draw.gives_pure.mp h
    obtain ⟨o, rfl, rfl, ho⟩ := gives_partsOfPiece hfirst
    obtain ⟨os, hos, rfl, rfl⟩ := ih hothers
    exact ⟨o :: os, ho hos, rfl, rfl⟩

theorem alwaysGives_segment {I : σ → Prop} (h : Source.Endless I) (message : String) :
    Draw.AlwaysGives I (segment message) := by
  have piece (p : Piece) : Draw.AlwaysGives I (partsOfPiece p) := by
    cases p with
    | text t => exact Draw.alwaysGives_pure _
    | bracketed t =>
      refine (RollResult.alwaysGives_evaluate h _).bind fun r => ?_
      cases r <;> exact Draw.alwaysGives_pure _
  have pieces (ps : List Piece) : Draw.AlwaysGives I (partsOfPieces ps) := by
    induction ps with
    | nil => exact Draw.alwaysGives_pure _
    | cons p ps ih =>
      exact (piece p).bind fun first => ih.bind fun others => Draw.alwaysGives_pure _
  exact (pieces _).bind fun parts => Draw.alwaysGives_pure _

theorem fillings_flatMap_parts (os : List Outcome) :
    Part.fillings (os.flatMap Outcome.parts) = os.filterMap Outcome.result := by
  induction os with
  | nil => rfl
  | cons o os ih =>
    obtain ⟨piece, _ | r⟩ := o
    · simp [Outcome.parts, ih]
    · simp [Outcome.parts, ih]

theorem flatMap_parts_of_no_result {os : List Outcome} (h : os.filterMap Outcome.result = []) :
    os.flatMap Outcome.parts = Part.ofText ((os.map Outcome.piece).flatMap Piece.source) := by
  induction os with
  | nil => rfl
  | cons o os ih =>
    obtain ⟨piece, _ | r⟩ := o
    · simp [Outcome.parts, Part.ofText, ih (by simpa using h)]
    · simp at h

/-- A segmented message has the parts that it was made of, whether its content was kept or written
as a template. -/
theorem parts_ofParts {message : String} {parts : List (Part RollResult)}
    (h : Part.fillings parts = [] → parts = Part.ofText message.toList) :
    (ofParts message parts).parts = parts := by
  cases hf : Part.fillings parts with
  | nil => simpa [ofParts, Segmented.parts, hf] using (h hf).symm
  | cons r rs => simpa [ofParts, Segmented.parts, hf] using Template.read_write parts

theorem parts_ofParts_flatMap {message : String} {os : List Outcome}
    (h : os.map Outcome.piece = Piece.split message.toList) :
    (ofParts message (os.flatMap Outcome.parts)).parts = os.flatMap Outcome.parts := by
  refine parts_ofParts fun empty => ?_
  rw [fillings_flatMap_parts] at empty
  rw [flatMap_parts_of_no_result empty, h, Piece.flatMap_source_split]

theorem gives_segment {message : String} {s s' : σ} {segmented : Segmented}
    (h : (segment message).Gives s segmented s') :
    ∃ os : List Outcome, Outcomes s os s' ∧ os.map Outcome.piece = Piece.split message.toList ∧
      segmented.results = os.filterMap Outcome.result ∧
      segmented.parts = os.flatMap Outcome.parts := by
  obtain ⟨parts, next, hparts, h⟩ := Draw.gives_bind.mp h
  obtain ⟨rfl, rfl⟩ := Draw.gives_pure.mp h
  obtain ⟨os, hos, pieces, rfl⟩ := gives_partsOfPieces hparts
  exact ⟨os, hos, pieces, fillings_flatMap_parts os, parts_ofParts_flatMap pieces⟩

theorem content_of_gives_segment {message : String} {s s' : σ} {segmented : Segmented}
    (h : (segment message).Gives s segmented s') (empty : segmented.results = []) :
    segmented.content = message := by
  obtain ⟨parts, next, -, h⟩ := Draw.gives_bind.mp h
  obtain ⟨rfl, rfl⟩ := Draw.gives_pure.mp h
  have unfilled : Part.fillings parts = [] := empty
  simp [ofParts, unfilled]

theorem render_flatMap_parts {m : Type → Type} [Monad m] [LawfulMonad m]
    (render : RollResult → m (List Char)) (os : List Outcome) :
    Template.render render (os.flatMap Outcome.parts) =
      Outcome.filled os <$> (os.filterMap Outcome.result).mapM render := by
  induction os with
  | nil => simp [Template.render, Outcome.filled]
  | cons o os ih =>
    obtain ⟨piece, _ | r⟩ := o
    · simp [Outcome.parts, Outcome.filled, ih]
    · simp [Outcome.parts, Outcome.filled, Template.render, ih]

/-- Every message is segmented unless the source runs dry. Hydrating what came of it renders each
result once, in order, and puts the texts in place of the pieces that came to the results; the
pieces that came to none stand as they did, and so does the whole message if there are none. -/
theorem hydrate_segment {m : Type → Type} [Monad m] [LawfulMonad m]
    (render : RollResult → m (List Char)) (message : String) :
    (∀ I : σ → Prop, Source.Endless I → ∀ s, I s →
      ∃ segmented s', (segment message).Gives s segmented s') ∧
    ∀ (s s' : σ) (segmented : Segmented), (segment message).Gives s segmented s' →
      ∃ os : List Outcome, Outcomes s os s' ∧
        os.map Outcome.piece = Piece.split message.toList ∧
        (os.map Outcome.piece).flatMap Piece.source = message.toList ∧
        segmented.results = os.filterMap Outcome.result ∧
        (segmented.results = [] → segmented.content = message) ∧
        segmented.hydrate render = do
          let texts ← segmented.results.mapM render
          return Outcome.filled os texts := by
  constructor
  · intro I hI s hs
    obtain ⟨segmented, s', h, -⟩ := alwaysGives_segment hI message s hs
    exact ⟨segmented, s', h⟩
  intro s s' segmented h
  obtain ⟨os, hos, hpieces, results, parts⟩ := gives_segment h
  refine ⟨os, hos, hpieces, ?_, results, content_of_gives_segment h, ?_⟩
  · rw [hpieces, Piece.flatMap_source_split]
  · rw [hydrate, parts, render_flatMap_parts, results]
    simp

/-- A renderer that counts its calls, on a message with a literal place, a result, a piece that
comes to none, another result and a lone brace. -/
theorem hydrate_segment_counting :
    (∃ segmented s', (segment "\x7b0\x7d [d6] [x] [2*d4] \x7d").Gives
      (Roller.constant 3) segmented s') ∧
    ∃ segmented : Segmented, (segment "\x7b0\x7d [d6] [x] [2*d4] \x7d").Gives
        (Roller.sequence [4, 2]) segmented (.sequence []) ∧
      segmented.content = "\x7b\x7b0\x7d\x7d \x7b0\x7d [x] \x7b1\x7d \x7d\x7d" ∧
      segmented.results = [⟨.ofNat 4, [.dice "1d6" 1 6 [⟨4, false, .ordinary⟩]]⟩,
        ⟨.ofNat 4, [.constant "2", .operator "*", .dice "1d4" 1 4 [⟨2, false, .ordinary⟩]]⟩] ∧
      (segmented.hydrate (m := StateM Nat) fun _ n => (Nat.toDigits 10 n, n + 1)).run 0 =
        ("\x7b0\x7d 0 [x] 1 \x7d".toList, 2) ∧
      ∃ os : List Outcome, Outcomes (Roller.sequence [4, 2]) os (.sequence []) ∧
        os.map Outcome.piece = Piece.split "\x7b0\x7d [d6] [x] [2*d4] \x7d".toList ∧
        segmented.results = os.filterMap Outcome.result ∧
        segmented.hydrate (m := StateM Nat) (fun _ n => (Nat.toDigits 10 n, n + 1)) = do
          let texts ← segmented.results.mapM fun _ n => (Nat.toDigits 10 n, n + 1)
          return Outcome.filled os texts := by
  constructor
  · exact (hydrate_segment (m := Id) (fun _ => []) _).1 _ Roller.endless (.constant 3) rfl
  · have h : (segment "\x7b0\x7d [d6] [x] [2*d4] \x7d").Gives (Roller.sequence [4, 2])
        ⟨"\x7b\x7b0\x7d\x7d \x7b0\x7d [x] \x7b1\x7d \x7d\x7d",
          [⟨.ofNat 4, [.dice "1d6" 1 6 [⟨4, false, .ordinary⟩]]⟩,
            ⟨.ofNat 4, [.constant "2", .operator "*", .dice "1d4" 1 4 [⟨2, false, .ordinary⟩]]⟩]⟩
        (.sequence []) := by
      unfold Draw.Gives
      decide +kernel
    obtain ⟨os, hos, hpieces, -, hresults, -, hydrated⟩ :=
      (hydrate_segment (m := StateM Nat) (fun _ n => (Nat.toDigits 10 n, n + 1)) _).2 _ _ _ h
    exact ⟨_, h, rfl, rfl, rfl, os, hos, hpieces, hresults, hydrated⟩

end Segmented
end DiceChat

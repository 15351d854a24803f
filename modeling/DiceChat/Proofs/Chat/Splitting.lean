import DiceChat.Chat.Piece

/-!
# The only way to split a message

The pieces of a message are told by what they are, however they are looked for: put together they
are the message, bracketed pieces do not go past the first closing bracket or the end of a line,
text is in one piece between them, and no bracket that is closed is left in a text. A message has
exactly one such list of pieces.
-/

namespace DiceChat
namespace Piece

def Unclosed (s : List Char) : Prop := ∀ t u, s = t ++ ']' :: u → '\n' ∈ t

/-- All opening brackets in the text `s` are unclosed if `rest` stands after it. -/
def Loose (s rest : List Char) : Prop := ∀ t u, s = t ++ '[' :: u → Unclosed (u ++ rest)

/-- These are the pieces of the message, whatever way they were found. -/
structure Splits (pieces : List Piece) (message : List Char) : Prop where
  source : pieces.flatMap source = message
  closed : ∀ s, .bracketed s ∈ pieces → ']' ∉ s ∧ '\n' ∉ s
  nonempty : ∀ s, .text s ∈ pieces → s ≠ []
  apart : ∀ before s t after, pieces ≠ before ++ .text s :: .text t :: after
  loose : ∀ before s after, pieces = before ++ .text s :: after →
    Loose s (after.flatMap Piece.source)

-- ---------------------------------------------------------------------------
-- Brackets that are closed
-- ---------------------------------------------------------------------------

theorem closes_append {s : List Char} (h : '\n' ∉ s) (rest : List Char) :
    closes (s ++ ']' :: rest) = true := by
  induction s with
  | nil => rfl
  | cons c s ih =>
    simp only [List.mem_cons, not_or] at h
    simp only [List.cons_append, closes, if_neg (Ne.symm h.1), ih h.2, ite_self]

theorem exists_of_closes {s : List Char} (h : closes s = true) :
    ∃ inner rest, s = inner ++ ']' :: rest ∧ ']' ∉ inner ∧ '\n' ∉ inner := by
  induction s with
  | nil => cases h
  | cons c s ih =>
    rw [closes] at h
    by_cases bracket : c = ']'
    · exact ⟨[], s, by rw [bracket]; rfl, by simp, by simp⟩
    by_cases line : c = '\n'
    · simp [line] at h
    rw [if_neg bracket, if_neg line] at h
    obtain ⟨inner, rest, rfl, noBracket, noLine⟩ := ih h
    exact ⟨c :: inner, rest, rfl, by simp [Ne.symm bracket, noBracket],
      by simp [Ne.symm line, noLine]⟩

theorem not_closes_iff {s : List Char} : ¬closes s = true ↔ Unclosed s := by
  constructor
  · rintro h t u rfl
    exact Decidable.byContradiction fun line => h (closes_append line u)
  · intro h closed
    obtain ⟨inner, rest, rfl, -, line⟩ := exists_of_closes closed
    exact line (h inner rest rfl)

-- ---------------------------------------------------------------------------
-- Splitting step by step
-- ---------------------------------------------------------------------------

def prepend (c : Char) : List Piece → List Piece
  | .text s :: rest => .text (c :: s) :: rest
  | pieces => .text [c] :: pieces

theorem head_outside (s : List Char) : ∀ t, (outside s).2.head? ≠ some (.text t) := by
  induction s with
  | nil => simp [outside]
  | cons c s ih =>
    rw [outside]
    split
    · simp
    · exact ih

theorem prepend_withText {pieces : List Piece} (h : ∀ t, pieces.head? ≠ some (.text t)) (c : Char)
    (s : List Char) : prepend c (withText s pieces) = withText (c :: s) pieces := by
  cases s with
  | cons d s => rfl
  | nil =>
    cases pieces with
    | nil => rfl
    | cons piece rest =>
      cases piece with
      | text t => exact absurd rfl (h t)
      | bracketed t => rfl

theorem inside_append {inner : List Char} (h : ']' ∉ inner) (rest : List Char) :
    inside (inner ++ ']' :: rest) = (inner, outside rest) := by
  induction inner with
  | nil => rfl
  | cons c inner ih =>
    simp only [List.mem_cons, not_or] at h
    simp only [List.cons_append, inside, if_neg (Ne.symm h.1), ih h.2]

theorem split_nil : split [] = [] := rfl

theorem split_bracketed {inner : List Char} (bracket : ']' ∉ inner) (line : '\n' ∉ inner)
    (rest : List Char) :
    split ((bracketed inner).source ++ rest) = .bracketed inner :: split rest := by
  have front : (bracketed inner).source ++ rest = '[' :: (inner ++ ']' :: rest) := by simp [source]
  simp only [front, split, outside, closes_append line, inside_append bracket, and_self, if_true]
  rfl

theorem split_text {c : Char} {rest : List Char} (h : ¬(c = '[' ∧ closes rest = true)) :
    split (c :: rest) = prepend c (split rest) := by
  simp only [split, outside, if_neg h]
  exact (prepend_withText (head_outside rest) _ _).symm

/-- A message is split from its front, a character of text or a bracketed piece at a time. -/
theorem split_induction {motive : List Char → Prop} (nil : motive [])
    (text : ∀ c rest, ¬(c = '[' ∧ closes rest = true) → motive rest → motive (c :: rest))
    (bracketed : ∀ inner rest, ']' ∉ inner → '\n' ∉ inner → motive rest →
      motive ((bracketed inner).source ++ rest))
    (message : List Char) : motive message := by
  induction hn : message.length using Nat.strongRecOn generalizing message with
  | ind n ih =>
    subst hn
    cases message with
    | nil => exact nil
    | cons c rest =>
      by_cases h : c = '[' ∧ closes rest = true
      · obtain ⟨rfl, closed⟩ := h
        obtain ⟨inner, rest, rfl, bracket, line⟩ := exists_of_closes closed
        have shorter : rest.length < ('[' :: (inner ++ ']' :: rest)).length := by
          simp only [List.length_cons, List.length_append]
          omega
        simpa [source] using bracketed inner rest bracket line (ih _ shorter rest rfl)
      · exact text c rest h (ih rest.length (Nat.lt_succ_self _) rest rfl)

-- ---------------------------------------------------------------------------
-- Pieces one after the other
-- ---------------------------------------------------------------------------

theorem loose_cons {c : Char} {s rest : List Char} :
    Loose (c :: s) rest ↔ ¬(c = '[' ∧ closes (s ++ rest) = true) ∧ Loose s rest := by
  rw [not_and, not_closes_iff]
  constructor
  · intro h
    refine ⟨?_, fun t u same => h (c :: t) u (by rw [same]; rfl)⟩
    rintro rfl
    exact h [] s rfl
  · rintro ⟨first, others⟩ t u same
    cases t with
    | nil =>
      obtain ⟨rfl, rfl⟩ := List.cons.inj same
      exact first rfl
    | cons d t => exact others t u (List.cons.inj same).2

theorem splits_nil_iff {message : List Char} : Splits [] message ↔ message = [] := by
  constructor
  · intro h
    exact h.source.symm
  · rintro rfl
    exact ⟨rfl, by simp, by simp, by simp, by simp⟩

/-- The piece may stand in front of these pieces of `rest`. -/
def MayPrecede (pieces : List Piece) (rest : List Char) : Piece → Prop
  | .text s => s ≠ [] ∧ (∀ t, pieces.head? ≠ some (.text t)) ∧ Loose s rest
  | .bracketed s => ']' ∉ s ∧ '\n' ∉ s

theorem Splits.tail {piece : Piece} {pieces : List Piece} {message : List Char}
    (h : Splits (piece :: pieces) message) : Splits pieces (pieces.flatMap Piece.source) where
  source := rfl
  closed s hs := h.closed s (List.mem_cons_of_mem _ hs)
  nonempty s hs := h.nonempty s (List.mem_cons_of_mem _ hs)
  apart before s t after same := h.apart (piece :: before) s t after (by rw [same]; rfl)
  loose before s after same := h.loose (piece :: before) s after (by rw [same]; rfl)

theorem Splits.cons {piece : Piece} {pieces : List Piece} {rest : List Char}
    (first : piece.MayPrecede pieces rest) (h : Splits pieces rest) :
    Splits (piece :: pieces) (piece.source ++ rest) where
  source := by rw [List.flatMap_cons, h.source]
  closed s hs := by
    rcases List.mem_cons.mp hs with rfl | hs
    · exact first
    · exact h.closed s hs
  nonempty s hs := by
    rcases List.mem_cons.mp hs with rfl | hs
    · exact first.1
    · exact h.nonempty s hs
  apart before s t after same := by
    cases before with
    | nil =>
      cases same
      exact first.2.1 t rfl
    | cons _ before => exact h.apart before s t after (List.cons.inj same).2
  loose before s after same := by
    cases before with
    | nil =>
      cases same
      rw [h.source]
      exact first.2.2
    | cons _ before => exact h.loose before s after (List.cons.inj same).2

theorem splits_cons_iff {piece : Piece} {pieces : List Piece} {message : List Char} :
    Splits (piece :: pieces) message ↔
      ∃ rest, message = piece.source ++ rest ∧ piece.MayPrecede pieces rest ∧
        Splits pieces rest := by
  constructor
  · intro h
    refine ⟨_, h.source.symm, ?_, h.tail⟩
    cases piece with
    | text s =>
      refine ⟨h.nonempty s List.mem_cons_self, fun t next => ?_, h.loose [] s pieces rfl⟩
      obtain ⟨after, rfl⟩ := List.head?_eq_some_iff.mp next
      exact h.apart [] s t after rfl
    | bracketed s => exact h.closed s List.mem_cons_self
  · rintro ⟨rest, rfl, first, h⟩
    exact h.cons first

-- ---------------------------------------------------------------------------
-- Splitting gives the pieces of a message
-- ---------------------------------------------------------------------------

theorem Splits.prepend {pieces : List Piece} {c : Char} {rest : List Char}
    (h : Splits pieces rest) (unclosed : ¬(c = '[' ∧ closes rest = true)) :
    Splits (prepend c pieces) (c :: rest) := by
  -- The character is a text of its own unless there is a text in front that takes it in.
  have alone (apart : ∀ t, pieces.head? ≠ some (.text t)) :
      Splits (.text [c] :: pieces) (c :: rest) := by
    have first : MayPrecede pieces rest (.text [c]) :=
      ⟨List.cons_ne_nil _ _, apart, loose_cons.mpr ⟨unclosed, by simp [Loose]⟩⟩
    exact h.cons first
  match pieces with
  | [] => exact alone (by simp)
  | .bracketed t :: pieces => exact alone (by simp)
  | .text t :: pieces =>
    obtain ⟨rest, rfl, ⟨-, apart, loose⟩, others⟩ := splits_cons_iff.mp h
    have first : MayPrecede pieces rest (.text (c :: t)) :=
      ⟨List.cons_ne_nil _ _, apart, loose_cons.mpr ⟨unclosed, loose⟩⟩
    exact others.cons first

theorem splits_split (message : List Char) : Splits (split message) message := by
  induction message using split_induction with
  | nil => exact splits_nil_iff.mpr rfl
  | text c rest h ih =>
    rw [split_text h]
    exact ih.prepend h
  | bracketed inner rest bracket line ih =>
    rw [split_bracketed bracket line]
    exact ih.cons ⟨bracket, line⟩

-- ---------------------------------------------------------------------------
-- No other pieces
-- ---------------------------------------------------------------------------

theorem split_append {s rest : List Char} (apart : ∀ t, (split rest).head? ≠ some (.text t))
    (loose : Loose s rest) : split (s ++ rest) = withText s (split rest) := by
  induction s with
  | nil => rfl
  | cons c s ih =>
    obtain ⟨unclosed, loose⟩ := loose_cons.mp loose
    rw [List.cons_append, split_text unclosed, ih loose, prepend_withText apart]

theorem Splits.eq_split {pieces : List Piece} {message : List Char} (h : Splits pieces message) :
    pieces = split message := by
  induction pieces generalizing message with
  | nil =>
    rw [splits_nil_iff.mp h]
    rfl
  | cons piece pieces ih =>
    obtain ⟨rest, rfl, first, others⟩ := splits_cons_iff.mp h
    cases piece with
    | text s =>
      obtain ⟨nonempty, apart, loose⟩ := first
      rw [ih others] at apart ⊢
      obtain ⟨c, s, rfl⟩ := List.exists_cons_of_ne_nil nonempty
      rw [Piece.source, split_append apart loose]
      rfl
    | bracketed s => rw [split_bracketed first.1 first.2, ih others]

/-- Splitting a message gives the one list of pieces that are its own. -/
theorem splits_iff_eq_split (message : List Char) (pieces : List Piece) :
    Splits pieces message ↔ pieces = split message := by
  constructor
  · exact Splits.eq_split
  · rintro rfl
    exact splits_split message

end Piece
end DiceChat

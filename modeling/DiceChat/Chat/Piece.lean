/-!
# Pieces of a message

A bracketed piece runs from an opening bracket to the first closing one, which has to come before
the line ends. All other text stays together, brackets without a partner included.
-/

namespace DiceChat

inductive Piece where
  | text (s : List Char)
  | bracketed (s : List Char)
deriving DecidableEq, Repr

namespace Piece

def source : Piece → List Char
  | .text s => s
  | .bracketed s => '[' :: s ++ [']']

/-- A closing bracket comes before the line ends. -/
def closes : List Char → Bool
  | [] => false
  | c :: rest => if c = ']' then true else if c = '\n' then false else closes rest

def withText (s : List Char) (pieces : List Piece) : List Piece :=
  if s.isEmpty then pieces else .text s :: pieces

mutual
/-- The text up to the next bracketed piece, and the pieces from there on. -/
def outside : List Char → List Char × List Piece
  | [] => ([], [])
  | c :: rest =>
    if c = '[' ∧ closes rest then
      let (inner, following, pieces) := inside rest
      ([], .bracketed inner :: withText following pieces)
    else
      let (following, pieces) := outside rest
      (c :: following, pieces)
/-- The rest of a bracketed piece, and what lies outside after it. -/
def inside : List Char → List Char × List Char × List Piece
  | [] => ([], [], [])
  | c :: rest =>
    if c = ']' then ([], outside rest)
    else
      let (inner, following) := inside rest
      (c :: inner, following)
end

def split (message : List Char) : List Piece :=
  let (s, pieces) := outside message
  withText s pieces

@[simp] theorem flatMap_source_withText (s : List Char) (pieces : List Piece) :
    (withText s pieces).flatMap source = s ++ pieces.flatMap source := by
  cases s <;> simp [withText, source]

mutual
theorem source_outside (s : List Char) : (outside s).1 ++ (outside s).2.flatMap source = s := by
  match s with
  | [] => rfl
  | c :: rest =>
    rw [outside]
    split
    · next h =>
      have := source_inside rest h.2
      simpa [source, h.1] using this
    · simp [source_outside rest]
theorem source_inside (s : List Char) (h : closes s) :
    (inside s).1 ++ ']' :: (inside s).2.1 ++ (inside s).2.2.flatMap source = s := by
  match s with
  | [] => simp [closes] at h
  | c :: rest =>
    rw [inside]
    by_cases hc : c = ']'
    · simp [hc, source_outside rest]
    · have h : closes rest := by
        simp only [closes, hc, ↓reduceIte] at h
        by_cases hn : c = '\n' <;> simp_all
      simpa [hc] using source_inside rest h
end

theorem flatMap_source_split (message : List Char) : (split message).flatMap source = message := by
  simp [split, source_outside]

end Piece
end DiceChat

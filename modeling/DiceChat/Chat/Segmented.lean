import DiceChat.Chat.Piece
import DiceChat.Chat.Template
import DiceChat.Result.Evaluation

/-!
# Segmented messages

Each bracketed piece of a message that holds an expression is evaluated and becomes a numbered
place; the results are kept in order. A message without results is kept as it is.
-/

namespace DiceChat

structure Segmented where
  content : String
  results : List RollResult
deriving DecidableEq, Repr

namespace Segmented

section segment

variable {σ : Type} [Source σ]

/-- What a piece becomes: its result, or its text as it stands if there is none. -/
def partsOfPiece : Piece → Draw σ (List (Part RollResult))
  | .text s => return Part.ofText s
  | .bracketed s => do
    match ← RollResult.evaluate (String.ofList s) with
    | .ok result => return [.filling result]
    | .error _ => return Part.ofText (Piece.bracketed s).source

def partsOfPieces : List Piece → Draw σ (List (Part RollResult))
  | [] => return []
  | piece :: rest => do
    let first ← partsOfPiece piece
    let others ← partsOfPieces rest
    return first ++ others

def ofParts (message : String) (parts : List (Part RollResult)) : Segmented :=
  let results := Part.fillings parts
  ⟨if results.isEmpty then message else String.ofList (Template.write parts), results⟩

def segment (message : String) : Draw σ Segmented := do
  return ofParts message (← partsOfPieces (Piece.split message.toList))

end segment

/-- Content without results is plain text. -/
def parts (s : Segmented) : List (Part RollResult) :=
  if s.results.isEmpty then Part.ofText s.content.toList
  else Template.read s.results s.content.toList

/-- Fills the places with what `render` makes of the results, in order. What it makes of them is
not read again. -/
def hydrate {m : Type → Type} [Monad m] (render : RollResult → m (List Char)) (s : Segmented) :
    m (List Char) :=
  Template.render render s.parts

end Segmented
end DiceChat

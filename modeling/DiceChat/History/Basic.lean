import DiceChat.Chat.Segmented
import DiceChat.History.Feed

/-!
# Histories

The latest messages of a chat, numbered in order. A new message takes the place of the oldest one
once the history is full, and is published to whoever listens.
-/

namespace DiceChat

structure Message where
  id : UInt64
  author : String
  content : String
  results : List RollResult
deriving DecidableEq, Repr

structure History where
  capacity : Nat
  /-- What is kept, the oldest message first. -/
  messages : List Message
  nextId : UInt64
  feed : Feed Message

namespace History

def defaultCapacity : Nat := 100

def defaultBuffer : Nat := 64

def create (capacity buffer : Nat) : History :=
  ⟨max 1 capacity, [], 0, .empty (Feed.sizeFor buffer)⟩

def append (h : History) (author : String) (s : Segmented) : Message × History :=
  let message : Message := ⟨h.nextId, author, s.content, s.results⟩
  let messages := h.messages ++ [message]
  (message, { h with
    messages := messages.drop (messages.length - h.capacity)
    nextId := h.nextId + 1
    feed := h.feed.publish message })

/-- Appends what becomes of raw text. If the source runs dry nothing is appended. -/
def post {σ : Type} [Source σ] (h : History) (author raw : String) :
    Draw σ (Message × History) := do
  return h.append author (← Segmented.segment raw)

end History
end DiceChat

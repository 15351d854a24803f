/-!
# Feeds

A feed passes on what is published to any number of readers, each with a place of its own. It
holds only the latest items: a reader that falls further behind is told how many it has missed
and goes on with the oldest item that is left.
-/

namespace DiceChat

/-- The number of items that a feed holds is a power of two. -/
def Feed.sizeFor (n : Nat) : Nat := if n ≤ 1 then 1 else 1 <<< ((n - 1).log2 + 1)

structure Feed (α : Type) where
  size : Nat
  published : Nat
  /-- What is still held, the latest item first. -/
  recent : List α
  length_recent : recent.length = min size published

inductive Received (α : Type) where
  | item (a : α)
  | missed (n : Nat)
  | nothing
deriving DecidableEq, Repr

namespace Feed

variable {α : Type}

def empty (size : Nat) : Feed α := ⟨size, 0, [], by simp⟩

def publish (f : Feed α) (a : α) : Feed α :=
  ⟨f.size, f.published + 1, (a :: f.recent).take f.size, by
    have := f.length_recent
    simp only [List.length_take, List.length_cons]
    omega⟩

def pending (f : Feed α) (place : Nat) : Nat := f.published - place

/-- What a reader at `place` gets, and its place afterwards. -/
def receive (f : Feed α) (place : Nat) : Received α × Nat :=
  if h : f.pending place = 0 then (.nothing, place)
  else if lag : f.size < f.pending place then
    (.missed (f.pending place - f.size), f.published - f.size)
  else
    have : f.pending place - 1 < f.recent.length := by
      have := f.length_recent
      simp only [pending] at *
      omega
    (.item f.recent[f.pending place - 1], place + 1)

@[simp] theorem pending_published (f : Feed α) : f.pending f.published = 0 := by simp [pending]

@[simp] theorem published_publish (f : Feed α) (a : α) :
    (f.publish a).published = f.published + 1 := rfl

@[simp] theorem size_publish (f : Feed α) (a : α) : (f.publish a).size = f.size := rfl

section receive

variable {f : Feed α} {place : Nat}

theorem receive_of_nothing (h : f.pending place = 0) : f.receive place = (.nothing, place) :=
  dif_pos h

theorem receive_of_lag (h : f.size < f.pending place) :
    f.receive place = (.missed (f.pending place - f.size), f.published - f.size) := by
  rw [receive, dif_neg (Nat.ne_of_gt (Nat.zero_lt_of_lt h)), dif_pos h]

/-- What is pending and still held is received, the oldest item first. -/
theorem receive_of_held (h : 0 < f.pending place) (held : f.pending place ≤ f.size) :
    ∃ a, f.recent[f.pending place - 1]? = some a ∧ f.receive place = (.item a, place + 1) := by
  have : f.pending place - 1 < f.recent.length := by
    have := f.length_recent
    simp only [pending] at *
    omega
  refine ⟨f.recent[f.pending place - 1], List.getElem?_eq_getElem this, ?_⟩
  rw [receive, dif_neg (Nat.ne_of_gt h), dif_neg (Nat.not_lt.mpr held)]

end receive

theorem le_sizeFor (n : Nat) : max 1 n ≤ sizeFor n := by
  unfold sizeFor
  split
  · omega
  · rw [Nat.one_shiftLeft]
    have := Nat.lt_log2_self (n := n - 1)
    omega

end Feed
end DiceChat

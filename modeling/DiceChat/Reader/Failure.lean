import DiceChat.Reader.Basic

/-!
# Whole texts

Reading a text to its end or up to where a match ends. A failure tells what was wanted at the
furthest place that was reached, and where that lies in the UTF-8 form of the text.
-/

namespace DiceChat.Reader

variable {ε α : Type}

structure Failure (ε : Type) where
  start : Nat
  stop : Nat
  cause : Cause ε
deriving DecidableEq, Repr

def Failure.message (describe : ε → String) (f : Failure ε) : String :=
  f.cause.message describe

def byteLength : List Char → Nat
  | [] => 0
  | c :: rest => c.utf8Size + byteLength rest

/-- The byte at which the last `left` characters of `s` begin. -/
def byteOffset (s : List Char) (left : Nat) : Nat :=
  byteLength (s.take (s.length - left))

def Failure.ofTrace (s : List Char) (trace : Trace ε) : Failure ε :=
  match trace.fault with
  | some f => ⟨byteOffset s f.left, byteOffset s f.stop, f.cause⟩
  | none => ⟨0, 0, .several⟩

def readFront (r : Reader ε α) (s : List Char) : Except (Failure ε) (α × List Char) :=
  let outcome := r s
  match outcome.result with
  | some (a, rest) => .ok (a, rest)
  | none => .error (.ofTrace s outcome.trace)

def readAll (r : Reader ε α) (s : List Char) : Except (Failure ε) α :=
  (readFront (r.andThen fun a => endOfText.andThen fun _ => succeed a) s).map (·.1)

theorem readFront_eq_ok (r : Reader ε α) (s rest : List Char) (a : α) :
    readFront r s = .ok (a, rest) ↔ r.run? s = some (a, rest) := by
  simp only [readFront, run?]
  cases (r s).result <;> simp [Prod.ext_iff]

theorem readAll_eq_ok (r : Reader ε α) (s : List Char) (a : α) :
    readAll r s = .ok a ↔ r.run? s = some (a, []) := by
  have split : readAll r s = .ok a ↔ ∃ rest, readFront (r.andThen fun a =>
      endOfText.andThen fun _ => succeed a) s = .ok (a, rest) := by
    simp only [readAll]
    cases readFront (r.andThen fun a => endOfText.andThen fun _ => succeed a) s <;>
      simp [Except.map, Prod.ext_iff]
  rw [split]
  simp only [readFront_eq_ok, run?_andThen, run?_endOfText, run?_succeed]
  cases h : r.run? s with
  | none => simp
  | some p => by_cases hp : p.2 = [] <;> simp [hp, Prod.ext_iff]

end DiceChat.Reader

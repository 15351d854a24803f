import DiceChat.Reader.Fault

/-!
# Readers

A reader takes something off the front of a text or fails, and in both cases leaves a trace of
what it could not use. The result never depends on a trace, so every combinator has a lemma that
gives its result in terms of the results of its parts.
-/

namespace DiceChat

namespace Reader

structure Outcome (ε α : Type) where
  result : Option (α × List Char)
  trace : Trace ε

end Reader

def Reader (ε α : Type) : Type := List Char → Reader.Outcome ε α

namespace Reader

variable {ε α β : Type}

/-- What is read off the front of a text and what is left of it. -/
def run? (r : Reader ε α) (s : List Char) : Option (α × List Char) := (r s).result

def succeed (a : α) : Reader ε α := fun s => ⟨some (a, s), .empty⟩

def andThen (r : Reader ε α) (f : α → Reader ε β) : Reader ε β := fun s =>
  let first := r s
  match first.result with
  | none => ⟨none, first.trace⟩
  | some (a, rest) =>
    let second := f a rest
    ⟨second.result, first.trace ++ second.trace⟩

instance : Monad (Reader ε) where
  pure := succeed
  bind := andThen

def fail : Reader ε α := fun _ => ⟨none, .empty⟩

def orElse (r : Reader ε α) (other : Reader ε α) : Reader ε α := fun s =>
  let first := r s
  match first.result with
  | some _ => first
  | none =>
    let second := other s
    ⟨second.result, first.trace ++ second.trace⟩

def firstOf : List (Reader ε α) → Reader ε α
  | [] => fail
  | [r] => r
  | r :: rest => r.orElse (firstOf rest)

def optional (r : Reader ε α) : Reader ε (Option α) := fun s =>
  let first := r s
  match first.result with
  | some (a, rest) => ⟨some (some a, rest), first.trace⟩
  | none => ⟨some (none, s), first.trace⟩

def manyUpTo (r : Reader ε α) : Nat → Reader ε (List α)
  | 0 => succeed []
  | n + 1 => fun s =>
    let first := r s
    match first.result with
    | none => ⟨some ([], s), first.trace⟩
    | some (a, rest) =>
      let others := manyUpTo r n rest
      ⟨others.result.map fun (as, rest) => (a :: as, rest), first.trace ++ others.trace⟩

/-- As many as there are. A reader that always takes something can succeed no more often than
there are characters, and then it fails once. -/
def many (r : Reader ε α) : Reader ε (List α) := fun s => manyUpTo r (s.length + 1) s

/-- Refuses what `f` objects to. The objection concerns all that was read. -/
def check (r : Reader ε α) (f : α → Except ε β) : Reader ε β := fun s =>
  let first := r s
  match first.result with
  | none => ⟨none, first.trace⟩
  | some (a, rest) =>
    match f a with
    | .ok b => ⟨some (b, rest), first.trace⟩
    | .error objection =>
      ⟨none, first.trace ++ .ofFault ⟨s.length, rest.length, .refused objection⟩⟩

def unmet (wanted : List Wanted) (s : List Char) : Trace ε :=
  .ofFault ⟨s.length, s.length - 1, .expected wanted s.head?⟩

def satisfying (p : Char → Bool) (wanted : List Wanted) : Reader ε Char
  | c :: rest => if p c then ⟨some (c, rest), .empty⟩ else ⟨none, unmet wanted (c :: rest)⟩
  | [] => ⟨none, unmet wanted []⟩

def char (c : Char) : Reader ε Char := satisfying (· == c) [.char c]

def literal : List Char → Reader ε Unit
  | [] => succeed ()
  | c :: rest => char c |>.andThen fun _ => literal rest

def endOfText : Reader ε Unit
  | [] => ⟨some ((), []), .empty⟩
  | c :: rest => ⟨none, unmet [.endOfText] (c :: rest)⟩

def skipWhile (p : Char → Bool) : Reader ε Unit := fun s => ⟨some ((), s.dropWhile p), .empty⟩

section results

variable (r other : Reader ε α) (s : List Char)

@[simp] theorem run?_pure (a : α) : (pure a : Reader ε α).run? s = some (a, s) := rfl

@[simp] theorem run?_succeed (a : α) : (succeed a : Reader ε α).run? s = some (a, s) := rfl

@[simp] theorem run?_andThen (f : α → Reader ε β) :
    (r.andThen f).run? s = (r.run? s).bind fun (a, rest) => (f a).run? rest := by
  simp only [run?, andThen]
  cases (r s).result <;> rfl

@[simp] theorem run?_bind (f : α → Reader ε β) :
    (r >>= f).run? s = (r.run? s).bind fun (a, rest) => (f a).run? rest :=
  run?_andThen r s f

@[simp] theorem run?_map (f : α → β) :
    (f <$> r).run? s = (r.run? s).map fun (a, rest) => (f a, rest) := by
  show (r >>= fun a => pure (f a)).run? s = _
  cases h : r.run? s <;> simp [h]

@[simp] theorem run?_fail : (fail : Reader ε α).run? s = none := rfl

@[simp] theorem run?_orElse : (r.orElse other).run? s = (r.run? s).or (other.run? s) := by
  simp only [run?, orElse]
  cases h : (r s).result <;> simp [h]

@[simp] theorem run?_firstOf_nil : (firstOf ([] : List (Reader ε α))).run? s = none := rfl

@[simp] theorem run?_firstOf_cons (rs : List (Reader ε α)) :
    (firstOf (r :: rs)).run? s = (r.run? s).or ((firstOf rs).run? s) := by
  cases rs <;> simp [firstOf]

@[simp] theorem run?_optional :
    r.optional.run? s = some (((r.run? s).map fun (a, rest) => (some a, rest)).getD (none, s)) := by
  simp only [run?, optional]
  cases (r s).result <;> rfl

@[simp] theorem run?_manyUpTo_zero : (r.manyUpTo 0).run? s = some ([], s) := rfl

theorem run?_manyUpTo_succ (n : Nat) :
    (r.manyUpTo (n + 1)).run? s = match r.run? s with
      | none => some ([], s)
      | some (a, rest) => ((r.manyUpTo n).run? rest).map fun (as, rest) => (a :: as, rest) := by
  simp only [run?, manyUpTo]
  cases (r s).result <;> rfl

theorem run?_many : r.many.run? s = (r.manyUpTo (s.length + 1)).run? s := rfl

@[simp] theorem run?_check (f : α → Except ε β) :
    (r.check f).run? s = (r.run? s).bind fun (a, rest) =>
      (f a).toOption.map fun b => (b, rest) := by
  simp only [run?, check]
  cases (r s).result with
  | none => rfl
  | some p => cases h : f p.1 <;> simp [h, Except.toOption]

@[simp] theorem run?_satisfying_nil (p : Char → Bool) (wanted : List Wanted) :
    (satisfying p wanted : Reader ε Char).run? [] = none := rfl

@[simp] theorem run?_satisfying_cons (p : Char → Bool) (wanted : List Wanted) (c : Char) :
    (satisfying p wanted : Reader ε Char).run? (c :: s) = if p c then some (c, s) else none := by
  simp only [run?, satisfying]
  split <;> rfl

@[simp] theorem run?_char_nil (c : Char) : (char c : Reader ε Char).run? [] = none := rfl

@[simp] theorem run?_char_cons (c d : Char) :
    (char c : Reader ε Char).run? (d :: s) = if d = c then some (c, s) else none := by
  by_cases h : d = c <;> simp [char, h]

@[simp] theorem run?_endOfText :
    (endOfText : Reader ε Unit).run? s = if s = [] then some ((), []) else none := by
  cases s <;> rfl

@[simp] theorem run?_skipWhile (p : Char → Bool) :
    (skipWhile p : Reader ε Unit).run? s = some ((), s.dropWhile p) := rfl

theorem run?_literal_eq_some (word rest : List Char) :
    (literal word : Reader ε Unit).run? s = some ((), rest) ↔ s = word ++ rest := by
  induction word generalizing s with
  | nil => simp [literal]
  | cons c word ih =>
    cases s with
    | nil => simp [literal]
    | cons d s => by_cases h : d = c <;> simp [literal, h, ih]

end results

end Reader
end DiceChat

/-!
# Templates

A template is text with numbered places to be filled. Braces that belong to the text are doubled,
so that they differ from the braces around a number. Reading is lenient: what is neither a doubled
brace nor the place of something given stays as it is.
-/

namespace DiceChat

inductive Part (α : Type) where
  | literal (c : Char)
  | filling (a : α)
deriving DecidableEq, Repr

namespace Part

variable {α : Type}

def fillings (parts : List (Part α)) : List α :=
  parts.filterMap fun
    | .literal _ => none
    | .filling a => some a

def ofText (s : List Char) : List (Part α) := s.map .literal

end Part

namespace Template

variable {α : Type}

def isBrace (c : Char) : Bool := c = '\x7b' || c = '\x7d'

def escaped (c : Char) : List Char := if isBrace c then [c, c] else [c]

def placeholder (place : Nat) : List Char := '\x7b' :: Nat.toDigits 10 place ++ ['\x7d']

def writeFrom (place : Nat) : List (Part α) → List Char
  | [] => []
  | .literal c :: rest => escaped c ++ writeFrom place rest
  | .filling _ :: rest => placeholder place ++ writeFrom (place + 1) rest

def write (parts : List (Part α)) : List Char := writeFrom 0 parts

/-- The filling for the place that begins after an opening brace, and its length from there. -/
def place? (fillings : List α) (s : List Char) : Option (α × Nat) :=
  let digits := s.takeWhile Char.isDigit
  if digits.isEmpty ∨ (s.drop digits.length).head? ≠ some '\x7d' then none
  else (fillings[Nat.ofDigitChars 10 digits 0]?).map (·, digits.length + 1)

def readFrom (fillings : List α) : Nat → List Char → List (Part α)
  | _, [] => []
  | skip + 1, _ :: rest => readFrom fillings skip rest
  | 0, c :: rest =>
    if isBrace c ∧ rest.head? = some c then .literal c :: readFrom fillings 1 rest
    else if c = '\x7b' then
      match place? fillings rest with
      | some (a, length) => .filling a :: readFrom fillings length rest
      | none => .literal c :: readFrom fillings 0 rest
    else .literal c :: readFrom fillings 0 rest

def read (fillings : List α) (s : List Char) : List (Part α) := readFrom fillings 0 s

def render {m : Type → Type} [Monad m] (f : α → m (List Char)) : List (Part α) → m (List Char)
  | [] => return []
  | .literal c :: rest => return c :: (← render f rest)
  | .filling a :: rest => do
    let text ← f a
    let following ← render f rest
    return text ++ following

theorem readFrom_eq_drop (fillings : List α) (skip : Nat) (s : List Char) :
    readFrom fillings skip s = readFrom fillings 0 (s.drop skip) := by
  induction skip generalizing s with
  | zero => rfl
  | succ skip ih =>
    cases s with
    | nil => simp [readFrom]
    | cons c s => simpa [readFrom] using ih s

theorem takeWhile_toDigits (n : Nat) (c : Char) (rest : List Char) (h : c.isDigit = false) :
    (Nat.toDigits 10 n ++ c :: rest).takeWhile Char.isDigit = Nat.toDigits 10 n := by
  rw [List.takeWhile_append_of_pos fun d hd =>
    Nat.isDigit_of_mem_toDigits (by decide) (by decide) hd]
  simp [h]

theorem place?_toDigits (fillings : List α) (n : Nat) (rest : List Char) :
    place? fillings (Nat.toDigits 10 n ++ '\x7d' :: rest) =
      (fillings[n]?).map (·, (Nat.toDigits 10 n).length + 1) := by
  have : Nat.toDigits 10 n ≠ [] := Nat.toDigits_ne_nil
  simp [place?, takeWhile_toDigits, this, Nat.ofDigitChars_toDigits]

theorem isBrace_of_isDigit {c : Char} (h : c.isDigit = true) : isBrace c = false := by
  refine Bool.eq_false_iff.mpr fun brace => ?_
  simp only [isBrace, Bool.or_eq_true, decide_eq_true_eq] at brace
  rcases brace with rfl | rfl <;> cases h

theorem read_escaped (fillings : List α) (c : Char) (rest : List Char) :
    read fillings (escaped c ++ rest) = .literal c :: read fillings rest := by
  by_cases h : isBrace c
  · simp [read, readFrom, escaped, h]
  · have : c ≠ '\x7b' := by rintro rfl; exact h rfl
    simp [read, readFrom, escaped, h, this]

/-- The place of something given is read as that; of any other place the brace is read, and then
the rest as it comes. -/
theorem read_placeholder (fillings : List α) (n : Nat) (rest : List Char) :
    read fillings (placeholder n ++ rest) =
      match fillings[n]? with
      | some a => .filling a :: read fillings rest
      | none => .literal '\x7b' :: read fillings (Nat.toDigits 10 n ++ '\x7d' :: rest) := by
  have single : (Nat.toDigits 10 n ++ '\x7d' :: rest).head? ≠ some '\x7b' := by
    obtain ⟨d, ds, hd⟩ := List.exists_cons_of_ne_nil (Nat.toDigits_ne_nil (b := 10) (n := n))
    have digit : d.isDigit = true :=
      Nat.isDigit_of_mem_toDigits (b := 10) (n := n) (by decide) (by decide) (by simp [hd])
    rw [hd]
    rintro ⟨⟩
    cases digit
  have opening : placeholder n ++ rest = '\x7b' :: (Nat.toDigits 10 n ++ '\x7d' :: rest) := by
    simp [placeholder]
  rw [opening, read, readFrom, if_neg (fun h => single h.2), if_pos rfl, place?_toDigits]
  cases fillings[n]? with
  | some a => simp [read, readFrom_eq_drop fillings (_ + 1)]
  | none => rfl

theorem read_writeFrom (fillings : List α) (place : Nat) (parts : List (Part α))
    (h : fillings.drop place = Part.fillings parts) :
    read fillings (writeFrom place parts) = parts := by
  induction parts generalizing place with
  | nil => rfl
  | cons part parts ih =>
    cases part with
    | literal c =>
      rw [writeFrom, read_escaped, ih place (by simpa [Part.fillings] using h)]
    | filling a =>
      have given : fillings[place]? = some a := by rw [← List.head?_drop, h]; rfl
      have others : fillings.drop (place + 1) = Part.fillings parts := by
        rw [← List.tail_drop, h]
        rfl
      rw [writeFrom, read_placeholder, given, ih (place + 1) others]

theorem read_write (parts : List (Part α)) : read (Part.fillings parts) (write parts) = parts :=
  read_writeFrom _ 0 parts rfl

end Template
end DiceChat

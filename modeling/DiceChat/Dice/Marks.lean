import DiceChat.Dice.Basic

/-!
# Marks on a row of values

Which values of a row are the lowest or the highest is told by a mark for each of them. Of equal
values the later ones count as lower. All rules come down to the lowest `n`: the values below the
`n`-th in order, which halving the range of all values finds, and as many of its last occurrences
as are still wanted.
-/

namespace DiceChat

abbrev Marks := List Bool

namespace Marks

def complement (marks : Marks) : Marks := marks.map (!·)

def countBelow (limit : Nat) (values : List UInt16) : Nat := values.countP (·.toNat < limit)

/-- The `n`-th lowest value, which lies from `low` on in a range of `2 ^ halvings`. -/
def nthLowest (n : Nat) (values : List UInt16) : Nat → Nat → Nat
  | 0, low => low
  | halvings + 1, low =>
    let middle := low + 1 <<< halvings
    if n ≤ countBelow middle values then nthLowest n values halvings low
    else nthLowest n values halvings middle

/-- Marks every value below `limit` and the last `n` that equal it. Also gives how many of those
were not found. -/
def below (limit n : Nat) : List UInt16 → Marks × Nat
  | [] => ([], n)
  | v :: rest =>
    let after := below limit n rest
    if v.toNat < limit then (true :: after.1, after.2)
    else if v.toNat = limit ∧ 0 < after.2 then (true :: after.1, after.2 - 1)
    else (false :: after.1, after.2)

def lowest (n : Nat) (values : List UInt16) : Marks :=
  let limit := nthLowest n values 16 0
  (below limit (n - countBelow limit values) values).1

def highest (n : Nat) (values : List UInt16) : Marks :=
  (lowest (values.length - n) values).complement

def places (marks : Marks) : List Nat :=
  marks.zipIdx.filterMap fun (mark, place) => if mark then some place else none

def ofPlaces (length : Nat) (places : List Nat) : Marks :=
  (places.foldl (fun marks place => marks.setIfInBounds place true)
    (Array.replicate length false)).toList

def select : Marks → List UInt16 → List UInt16
  | mark :: marks, v :: values => if mark then v :: select marks values else select marks values
  | _, _ => []

@[simp] theorem length_complement (marks : Marks) : marks.complement.length = marks.length := by
  simp [complement]

/-- Fewer than `n` values are lower than the `n`-th, and at least `n` are not higher, unless it lies
at that end of the range. -/
theorem countBelow_nthLowest (n : Nat) (values : List UInt16) (halvings low : Nat) :
    (countBelow (nthLowest n values halvings low) values < n ∨
      nthLowest n values halvings low = low) ∧
    (n ≤ countBelow (nthLowest n values halvings low + 1) values ∨
      nthLowest n values halvings low + 1 = low + 1 <<< halvings) := by
  induction halvings generalizing low with
  | zero => exact ⟨.inr rfl, .inr rfl⟩
  | succ halvings ih =>
    rw [nthLowest]
    split
    · next h =>
      obtain ⟨least, greatest⟩ := ih low
      refine ⟨least, .inl (greatest.elim id fun top => ?_)⟩
      rwa [top]
    · next h =>
      obtain ⟨least, greatest⟩ := ih (low + 1 <<< halvings)
      refine ⟨.inl (least.elim id fun bottom => ?_), greatest.imp id fun top => ?_⟩
      · rw [bottom]
        omega
      · simp only [Nat.shiftLeft_eq, Nat.pow_succ] at top ⊢
        omega

@[simp] theorem length_below (limit n : Nat) (values : List UInt16) :
    (below limit n values).1.length = values.length := by
  induction values with
  | nil => rfl
  | cons v rest ih =>
    simp only [below]
    split
    · simp [ih]
    · split <;> simp [ih]

@[simp] theorem length_lowest (n : Nat) (values : List UInt16) :
    (lowest n values).length = values.length := by
  simp [lowest]

@[simp] theorem length_highest (n : Nat) (values : List UInt16) :
    (highest n values).length = values.length := by
  simp [highest]

end Marks

def total? (values : List UInt16) : Option Nat :=
  let sum := values.foldr (fun v sum => v.toNat + sum) 0
  if sum < UInt32.size then some sum else none

namespace Rule

def crossedOut (rule : Rule) (n : Nat) (values : List UInt16) : Marks :=
  match rule with
  | .dropLowest => Marks.lowest n values
  | .dropHighest => Marks.highest n values
  | .keepHighest => Marks.lowest (values.length - n) values
  | .keepLowest => Marks.highest (values.length - n) values

/-- The values that are summed: those that are not crossed out, except that dropping the highest
sums what is dropped. -/
def summed (rule : Rule) (n : Nat) (values : List UInt16) : List UInt16 :=
  let marks := rule.crossedOut n values
  (if rule = .dropHighest then marks else marks.complement).select values

@[simp] theorem length_crossedOut (rule : Rule) (n : Nat) (values : List UInt16) :
    (rule.crossedOut n values).length = values.length := by
  cases rule <;> simp [crossedOut]

end Rule
end DiceChat

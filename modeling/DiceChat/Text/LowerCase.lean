import DiceChat.Text.CaseTable

/-!
# Lower case

Full lowercasing of Unicode text. All but two characters map on their own: a dotted capital I
becomes two characters, and a capital sigma takes its final form at the end of a word.
-/

namespace DiceChat.Text

def isCased (c : Char) : Bool := inRanges c.toNat casedRanges

def isCaseIgnorable (c : Char) : Bool := inRanges c.toNat ignorableRanges

def lowerChar (c : Char) : Char :=
  if c.toNat < 128 then c.toLower
  else
    match caseRuns.find? (·.covers c.toNat) with
    | some run => Char.ofNat (c.toNat + run.shift).toNat
    | none => c

def casedNext : List Char → Bool
  | [] => false
  | c :: rest => if isCaseIgnorable c then casedNext rest else isCased c

/-- Lowercases what follows `before`, which is given in reverse. A sigma ends a word if a letter
with case comes before it and none after it. -/
def lowerAfter (before : List Char) : List Char → List Char
  | [] => []
  | c :: rest =>
    let lowered :=
      if c = 'Σ' then [if casedNext before && !casedNext rest then 'ς' else 'σ']
      else if c = 'İ' then ['i', '\u0307']
      else [lowerChar c]
    lowered ++ lowerAfter (c :: before) rest

def lowerCase (s : List Char) : List Char := lowerAfter [] s

theorem lowerAfter_of_lower (before s : List Char)
    (h : ∀ c ∈ s, c.toNat < 128 ∧ c.toLower = c) : lowerAfter before s = s := by
  induction s generalizing before with
  | nil => rfl
  | cons c s ih =>
    obtain ⟨ascii, lower⟩ := h c (by simp)
    have hSigma : c ≠ 'Σ' := by rintro rfl; revert ascii; decide
    have hDotted : c ≠ 'İ' := by rintro rfl; revert ascii; decide
    simp [lowerAfter, hSigma, hDotted, lowerChar, ascii, lower,
      ih (c :: before) fun d hd => h d (by simp [hd])]

theorem lowerCase_of_lower {s : List Char} (h : ∀ c ∈ s, c.toNat < 128 ∧ c.toLower = c) :
    lowerCase s = s :=
  lowerAfter_of_lower [] s h

end DiceChat.Text

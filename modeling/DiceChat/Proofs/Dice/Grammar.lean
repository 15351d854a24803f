import DiceChat.Dice.Notation
import DiceChat.Proofs.Reader.Consumption
import DiceChat.Proofs.Reader.Whole
import DiceChat.Text.Blank

/-!
# The grammar of dice

Which texts are notation of which dice, said without a reader, and that the reader takes exactly
these off the front of a text. Reading is greedy: it finds the notation that it was given if what
follows cannot be taken for a part of it.
-/

namespace DiceChat

open Reader

def Word (w : List Char) (n : UInt16) : Prop := Whole w ∧ Nat.ofDigitChars 10 w 0 = n.toNat

def Optionally {α : Type} (Written : List Char → α → Prop) (a : α) (w : List Char) (b : α) : Prop :=
  w = [] ∧ b = a ∨ Written w b

inductive CountForm where
  | one
  | required
  | omissible
deriving DecidableEq

def CountForm.Written : CountForm → List Char → UInt16 → Prop
  | .one, w, n => w = [] ∧ n = 1
  | .required, w, n => Word w n
  | .omissible, w, n => Optionally Word 1 w n

def Rule.spellings : List (List Char × CountForm × Rule) := [
  (['-', 'l'], .one, .dropLowest),
  (['-', 'h'], .one, .dropHighest),
  (['d', 'h'], .required, .dropHighest),
  (['d', 'l'], .required, .dropLowest),
  (['d'], .required, .dropLowest),
  (['k', 'l'], .omissible, .keepLowest),
  (['v'], .required, .keepLowest),
  (['k', 'h'], .omissible, .keepHighest),
  (['k'], .omissible, .keepHighest),
  (['^'], .required, .keepHighest)]

def Selection.Written (w : List Char) (s : Selection) : Prop :=
  ∃ word form digits, (word, form, s.rule) ∈ Rule.spellings ∧ form.Written digits s.count ∧
    w = word ++ digits

/-- The notation of dice: their number, which is one if it is left out, a `d`, the number of their
sides, and a selection if there is one. There is at least one die with at least one side. -/
def Dice.Written (w : List Char) (d : Dice) : Prop :=
  ∃ count sides selection, w = count ++ 'd' :: (sides ++ selection) ∧
    Optionally Word 1 count d.count ∧ Word sides d.sides ∧
    Optionally (fun w o => ∃ s, o = some s ∧ s.Written w) none selection d.selection ∧
    d.isValid = true

/-- Notation of dice that looks as it should, whether or not they can be rolled. -/
def Dice.Shaped (w : List Char) (d : Dice) : Prop :=
  ∃ count sides selection, w = count ++ 'd' :: (sides ++ selection) ∧
    Optionally Word 1 count d.count ∧ Word sides d.sides ∧
    Optionally (fun w o => ∃ s, o = some s ∧ s.Written w) none selection d.selection

theorem Dice.written_iff {w : List Char} {d : Dice} :
    d.Written w ↔ d.Shaped w ∧ d.isValid = true := by
  simp only [Written, Shaped, exists_and_right, ← and_assoc]

/-- No value before this text can take a part of it for its own: it ends, or goes on with white
space, a closing parenthesis or an operator that does not begin a selection. -/
def endsValue : List Char → Bool
  | [] => true
  | c :: rest => (Text.isBlank c || c ∈ ['+', '-', '*', '/', ')']) &&
      !(c == '-' && (rest.head? == some 'l' || rest.head? == some 'h'))

-- ---------------------------------------------------------------------------
-- What follows a value
-- ---------------------------------------------------------------------------

theorem Text.isDigit_of_isBlank {c : Char} (h : isBlank c = true) : c.isDigit = false := by
  rw [Bool.eq_false_iff]
  intro hd
  have : '0'.toNat ≤ c.toNat ∧ c.toNat ≤ '9'.toNat := Char.isDigit_iff_toNat.mp hd
  have h0 : '0'.toNat = 48 := rfl
  have h9 : '9'.toNat = 57 := rfl
  simp [isBlank] at h
  omega

theorem endsValue_nil : endsValue [] = true := rfl

theorem endsValue_cons {c : Char} {rest : List Char} (h : endsValue (c :: rest) = true) :
    c.isDigit = false ∧ c ∉ ['.', 'd', 'k', 'v', '^', 'l', 'h'] := by
  simp only [endsValue, Bool.and_eq_true, Bool.or_eq_true, decide_eq_true_eq] at h
  obtain ⟨hc | hc, -⟩ := h
  · refine ⟨Text.isDigit_of_isBlank hc, fun hm => ?_⟩
    simp only [List.mem_cons, List.not_mem_nil, or_false] at hm
    rcases hm with rfl | rfl | rfl | rfl | rfl | rfl | rfl <;> exact absurd hc (by decide)
  · simp only [List.mem_cons, List.not_mem_nil, or_false] at hc
    rcases hc with rfl | rfl | rfl | rfl | rfl <;> decide

theorem head_ne_of_endsValue {rest : List Char} (h : endsValue rest = true) {c : Char}
    (hc : c ∈ ['.', 'd', 'k', 'v', '^', 'l', 'h']) : rest.head? ≠ some c := by
  cases rest with
  | nil => simp
  | cons d rest =>
    rintro ⟨⟩
    exact (endsValue_cons h).2 hc

theorem noDigitNext_of_endsValue {rest : List Char} (h : endsValue rest = true) :
    NoDigitNext rest := by
  intro c hc
  cases rest with
  | nil => cases hc
  | cons d rest =>
    cases hc
    exact (endsValue_cons h).1

theorem endsValue_of_blank {c : Char} {rest : List Char} (h : Text.isBlank c = true) :
    endsValue (c :: rest) = true := by
  have : c ≠ '-' := by rintro rfl; exact absurd h (by decide)
  simp [endsValue, h, this]

-- ---------------------------------------------------------------------------
-- Numbers of sixteen bits
-- ---------------------------------------------------------------------------

namespace Dice

theorem number_eq_ok {part : Part} {w : List Char} {n : UInt16} :
    number part w = .ok n ↔ Nat.ofDigitChars 10 w 0 = n.toNat := by
  simp only [number]
  split
  · next h =>
    constructor
    · rintro ⟨rfl⟩
      simp
    · intro hn
      simp [hn]
  · next h =>
    constructor
    · intro hn
      cases hn
    · intro hn
      exact absurd (hn ▸ n.toNat_lt) h

theorem toOption_number {part : Part} {w : List Char} {n : UInt16} :
    (number part w).toOption = some n ↔ Nat.ofDigitChars 10 w 0 = n.toNat := by
  rw [toOption_eq_some, number_eq_ok]

theorem selectionCount_sound {s rest : List Char} {n : UInt16}
    (h : selectionCount.run? s = some (n, rest)) : ∃ w, s = w ++ rest ∧ Word w n := by
  simp only [selectionCount, run?_check, Option.bind_eq_some_iff, Option.map_eq_some_iff] at h
  obtain ⟨⟨w, next⟩, hw, _, hn, ⟨⟩⟩ := h
  obtain ⟨rfl, whole⟩ := wholeNumber_sound hw
  exact ⟨w, rfl, whole, toOption_number.mp hn⟩

theorem selectionCount_complete {w rest : List Char} {n : UInt16} (h : Word w n)
    (hr : NoDigitNext rest) : selectionCount.run? (w ++ rest) = some (n, rest) := by
  simp only [selectionCount, run?_check, wholeNumber_complete h.1 hr, Option.bind_some,
    toOption_number.mpr h.2, Option.map_some]

theorem optionalCount_sound {s rest : List Char} {n : UInt16}
    (h : optionalCount.run? s = some (n, rest)) :
    ∃ w, s = w ++ rest ∧ Optionally Word 1 w n := by
  simp only [optionalCount, run?_check, run?_optional, Option.bind_some,
    Option.map_eq_some_iff] at h
  obtain ⟨_, hn, ⟨⟩⟩ := h
  cases hw : (wholeNumber : Reader Objection _).run? s with
  | none =>
    simp only [hw, Option.map_none, Option.getD_none] at hn ⊢
    rw [toOption_number] at hn
    exact ⟨[], rfl, .inl ⟨rfl, UInt16.toNat_inj.mp hn.symm⟩⟩
  | some p =>
    obtain ⟨rfl, whole⟩ := wholeNumber_sound hw
    simp only [hw, Option.map_some, Option.getD_some] at hn ⊢
    exact ⟨p.1, rfl, .inr ⟨whole, toOption_number.mp hn⟩⟩

theorem optionalCount_complete {w rest : List Char} {n : UInt16} (h : Optionally Word 1 w n)
    (hr : NoDigitNext rest) : optionalCount.run? (w ++ rest) = some (n, rest) := by
  simp only [optionalCount, run?_check, run?_optional]
  rcases h with ⟨rfl, rfl⟩ | h
  · simp only [List.nil_append, wholeNumber_of_not_digit hr, Option.map_none, Option.getD_none,
      Option.bind_some]
    rfl
  · simp only [wholeNumber_complete h.1 hr, Option.map_some, Option.getD_some, Option.bind_some,
      toOption_number.mpr h.2]

end Dice

-- ---------------------------------------------------------------------------
-- Selections
-- ---------------------------------------------------------------------------

namespace CountForm

def reader : CountForm → Reader Dice.Objection UInt16
  | .one => succeed 1
  | .required => Dice.selectionCount
  | .omissible => Dice.optionalCount

theorem reader_sound {form : CountForm} {s rest : List Char} {n : UInt16}
    (h : form.reader.run? s = some (n, rest)) : ∃ w, s = w ++ rest ∧ form.Written w n := by
  cases form with
  | one =>
    cases h
    exact ⟨[], rfl, rfl, rfl⟩
  | required => exact Dice.selectionCount_sound h
  | omissible => exact Dice.optionalCount_sound h

theorem reader_complete {form : CountForm} {w rest : List Char} {n : UInt16}
    (h : form.Written w n) (hr : NoDigitNext rest) :
    form.reader.run? (w ++ rest) = some (n, rest) := by
  cases form with
  | one =>
    obtain ⟨rfl, rfl⟩ := h
    rfl
  | required => exact Dice.selectionCount_complete h hr
  | omissible => exact Dice.optionalCount_complete h hr

end CountForm

theorem Word.exists_digit {w : List Char} {n : UInt16} (h : Word w n) :
    ∃ c v, w = c :: v ∧ c.isDigit = true := by
  obtain ⟨hne, hw⟩ := h.1.digitRow
  obtain ⟨c, v, rfl⟩ := List.exists_cons_of_ne_nil hne
  exact ⟨c, v, rfl, hw c List.mem_cons_self⟩

/-- Where a count stands or could stand, no letter follows that would make another rule. -/
theorem CountForm.Written.head_ne {form : CountForm} {w rest : List Char} {n : UInt16}
    (h : form.Written w n) (hr : endsValue rest = true) :
    (w ++ rest).head? ≠ some 'l' ∧ (w ++ rest).head? ≠ some 'h' := by
  have letters : w = [] ∨ ∃ c v, w = c :: v ∧ c.isDigit = true := by
    cases form with
    | one => exact .inl h.1
    | required => exact .inr h.exists_digit
    | omissible =>
      rcases h with h | h
      · exact .inl h.1
      · exact .inr h.exists_digit
  rcases letters with rfl | ⟨c, v, rfl, hc⟩
  · exact ⟨head_ne_of_endsValue hr (by decide), head_ne_of_endsValue hr (by decide)⟩
  · constructor <;> rintro ⟨⟩ <;> exact absurd hc (by decide)

theorem Selection.Written.noDigitNext {w : List Char} {s : Selection} (h : s.Written w)
    (rest : List Char) : NoDigitNext (w ++ rest) := by
  obtain ⟨word, form, digits, hmem, -, rfl⟩ := h
  have words : ∀ entry ∈ Rule.spellings, entry.1 ≠ [] ∧ entry.1.any Char.isDigit = false := by
    decide
  obtain ⟨hne, hdigits⟩ := words _ hmem
  obtain ⟨c, word, rfl⟩ := List.exists_cons_of_ne_nil hne
  rw [List.any_cons, Bool.or_eq_false_iff] at hdigits
  exact noDigitNext_cons hdigits.1 _

namespace Dice

theorem selectionReader_eq : selectionReader =
    firstOf (Rule.spellings.map fun (word, form, rule) => spelled word rule form.reader) := rfl

theorem selectionReader_sound {s rest : List Char} {selection : Selection}
    (h : selectionReader.run? s = some (selection, rest)) :
    ∃ w, s = w ++ rest ∧ selection.Written w := by
  rw [selectionReader_eq] at h
  obtain ⟨r, hr, h⟩ := exists_of_firstOf_eq_some h
  obtain ⟨⟨word, form, rule⟩, hmem, rfl⟩ := List.mem_map.mp hr
  obtain ⟨_, next, hword, h⟩ := andThen_eq_some.mp h
  obtain ⟨n, last, hn, h⟩ := andThen_eq_some.mp h
  cases h
  obtain rfl := (run?_literal_eq_some _ _ _).mp hword
  obtain ⟨digits, rfl, hdigits⟩ := CountForm.reader_sound hn
  exact ⟨word ++ digits, by simp, word, form, digits, hmem, hdigits, rfl⟩

theorem selectionReader_complete {w rest : List Char} {selection : Selection}
    (h : selection.Written w) (hr : endsValue rest = true) :
    selectionReader.run? (w ++ rest) = some (selection, rest) := by
  obtain ⟨rule, n⟩ := selection
  obtain ⟨word, form, digits, hmem, hdigits, rfl⟩ := h
  obtain ⟨hl, hh⟩ := hdigits.head_ne hr
  have hcount := form.reader_complete hdigits (noDigitNext_of_endsValue hr)
  rw [List.append_assoc, selectionReader_eq]
  generalize digits ++ rest = next at hl hh hcount
  simp only [Rule.spellings, List.mem_cons, List.not_mem_nil, or_false, Prod.mk.injEq] at hmem
  -- Only a spelling that begins with the one at hand could be found before it.
  rcases hmem with ⟨rfl, rfl, rfl⟩ | ⟨rfl, rfl, rfl⟩ | ⟨rfl, rfl, rfl⟩ | ⟨rfl, rfl, rfl⟩ |
      ⟨rfl, rfl, rfl⟩ | ⟨rfl, rfl, rfl⟩ | ⟨rfl, rfl, rfl⟩ | ⟨rfl, rfl, rfl⟩ |
      ⟨rfl, rfl, rfl⟩ | ⟨rfl, rfl, rfl⟩ <;>
    simp [Rule.spellings, spelled, literal, char_of_head_ne hl, char_of_head_ne hh, hcount]

theorem selectionReader_of_endsValue {rest : List Char} (hr : endsValue rest = true) :
    selectionReader.run? rest = none := by
  rw [selectionReader_eq]
  cases rest with
  | nil => simp [Rule.spellings, spelled, literal]
  | cons c rest =>
    have hc := (endsValue_cons hr).2
    simp only [List.mem_cons, List.not_mem_nil, or_false, not_or] at hc
    by_cases hminus : c = '-'
    · subst hminus
      have hnext : rest.head? ≠ some 'l' ∧ rest.head? ≠ some 'h' := by
        simpa [endsValue] using hr
      simp [Rule.spellings, spelled, literal, char_of_head_ne hnext.1, char_of_head_ne hnext.2]
    · simp [Rule.spellings, spelled, literal, hminus, hc]

-- ---------------------------------------------------------------------------
-- Dice
-- ---------------------------------------------------------------------------

theorem ofDigits_eq_ok {count : Option (List Char)} {sides : List Char}
    {selection : Option Selection} {d : Dice} :
    ofDigits count sides selection = .ok d ↔
      Nat.ofDigitChars 10 (count.getD ['1']) 0 = d.count.toNat ∧
      Nat.ofDigitChars 10 sides 0 = d.sides.toNat ∧ selection = d.selection ∧
      d.isValid = true := by
  simp only [ofDigits, except_bind_eq_ok, number_eq_ok]
  constructor
  · rintro ⟨c, hc, n, hn, h⟩
    split at h
    · next valid =>
      cases h
      exact ⟨hc, hn, rfl, valid⟩
    · cases h
  · rintro ⟨hc, hn, rfl, valid⟩
    exact ⟨d.count, hc, d.sides, hn, by rw [if_pos valid]⟩

theorem reader_sound {s rest : List Char} {d : Dice} (h : reader.run? s = some (d, rest)) :
    ∃ w, s = w ++ rest ∧ d.Written w := by
  simp only [reader, run?_check, run?_bind, run?_pure, Option.bind_eq_some_iff,
    Option.map_eq_some_iff] at h
  obtain ⟨_, ⟨⟨count, s₁⟩, hcount, ⟨_, s₂⟩, hd, ⟨sides, s₃⟩, hsides, ⟨selection, s₄⟩, hselection,
    ⟨⟩⟩, _, hok, ⟨⟩⟩ := h
  obtain ⟨count_eq, sides_eq, rfl, valid⟩ := ofDigits_eq_ok.mp (toOption_eq_some.mp hok)
  obtain ⟨-, rfl⟩ := char_eq_some.mp hd
  obtain ⟨rfl, whole⟩ := wholeNumber_sound hsides
  have hcount : ∃ w, s = w ++ 'd' :: (sides ++ s₃) ∧ Optionally Word 1 w d.count := by
    rcases optional_eq_some.mp hcount with ⟨w, rfl, hw⟩ | ⟨rfl, -, rfl⟩
    · obtain ⟨rfl, whole⟩ := wholeNumber_sound hw
      exact ⟨w, rfl, .inr ⟨whole, count_eq⟩⟩
    · exact ⟨[], rfl, .inl ⟨rfl, UInt16.toNat_inj.mp count_eq.symm⟩⟩
  have hselection : ∃ w, s₃ = w ++ s₄ ∧
      Optionally (fun w o => ∃ s, o = some s ∧ s.Written w) none w d.selection := by
    rcases optional_eq_some.mp hselection with ⟨selection, hs, h⟩ | ⟨hs, -, rfl⟩
    · obtain ⟨w, rfl, written⟩ := selectionReader_sound h
      exact ⟨w, rfl, .inr ⟨selection, hs, written⟩⟩
    · exact ⟨[], rfl, .inl ⟨rfl, hs⟩⟩
  obtain ⟨v, rfl, hv⟩ := hcount
  obtain ⟨w, rfl, hw⟩ := hselection
  exact ⟨v ++ 'd' :: (sides ++ w), by simp, v, sides, w, rfl, hv, ⟨whole, sides_eq⟩, hw, valid⟩

theorem toOption_ofDigits {count : Option (List Char)} {sides : List Char} {d : Dice}
    (hcount : Nat.ofDigitChars 10 (count.getD ['1']) 0 = d.count.toNat)
    (hsides : Nat.ofDigitChars 10 sides 0 = d.sides.toNat) :
    (ofDigits count sides d.selection).toOption = if d.isValid then some d else none := by
  simp only [ofDigits, number_eq_ok.mpr hcount, number_eq_ok.mpr hsides]
  show Except.toOption (if d.isValid then .ok d else .error _) = _
  split <;> rfl

/-- Notation that no following text can change is read to its end. It is refused just if the dice
cannot be rolled. -/
theorem reader_of_shaped {w rest : List Char} {d : Dice} (h : d.Shaped w)
    (hr : endsValue rest = true) :
    reader.run? (w ++ rest) = if d.isValid then some (d, rest) else none := by
  obtain ⟨count, sides, selection, rfl, hcount, hsides, hselection⟩ := h
  have hselection : NoDigitNext (selection ++ rest) ∧
      selectionReader.optional.run? (selection ++ rest) = some (d.selection, rest) := by
    rcases hselection with ⟨rfl, hs⟩ | ⟨s, hs, written⟩
    · exact ⟨noDigitNext_of_endsValue hr,
        optional_eq_some.mpr (.inr ⟨hs, selectionReader_of_endsValue hr, rfl⟩)⟩
    · exact ⟨written.noDigitNext rest,
        optional_eq_some.mpr (.inl ⟨s, hs, selectionReader_complete written hr⟩)⟩
  have hd : NoDigitNext ('d' :: (sides ++ (selection ++ rest))) := noDigitNext_cons rfl _
  have hcount : ∃ o, (wholeNumber : Reader Objection _).optional.run?
        (count ++ 'd' :: (sides ++ (selection ++ rest))) =
          some (o, 'd' :: (sides ++ (selection ++ rest))) ∧
      Nat.ofDigitChars 10 (o.getD ['1']) 0 = d.count.toNat := by
    rcases hcount with ⟨rfl, hone⟩ | ⟨whole, value⟩
    · exact ⟨none, optional_eq_some.mpr (.inr ⟨rfl, wholeNumber_of_not_digit hd, rfl⟩),
        by rw [hone]; rfl⟩
    · exact ⟨some count, optional_eq_some.mpr (.inl ⟨count, rfl, wholeNumber_complete whole hd⟩),
        value⟩
  obtain ⟨o, hcount, value⟩ := hcount
  have hsides' : (wholeNumber : Reader Objection _).run? (sides ++ (selection ++ rest)) =
      some (sides, selection ++ rest) := wholeNumber_complete hsides.1 hselection.1
  simp only [List.append_assoc, List.cons_append, reader, run?_check, run?_bind, run?_pure, hcount,
    hsides', hselection.2, run?_char_cons, ↓reduceIte, Option.bind_some,
    toOption_ofDigits value hsides.2]
  split <;> rfl

theorem reader_complete {w rest : List Char} {d : Dice} (h : d.Written w)
    (hr : endsValue rest = true) : reader.run? (w ++ rest) = some (d, rest) := by
  obtain ⟨shaped, valid⟩ := written_iff.mp h
  rw [reader_of_shaped shaped hr, if_pos valid]

theorem reader_of_head_ne {s next : List Char} {count : Option (List Char)}
    (h : (wholeNumber : Reader Objection _).optional.run? s = some (count, next))
    (hd : next.head? ≠ some 'd') : reader.run? s = none := by
  simp only [reader, run?_check, run?_bind, h, Option.bind_some, char_of_head_ne hd,
    Option.bind_none]

end Dice
end DiceChat

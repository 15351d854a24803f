import DiceChat.Json.Reading
import DiceChat.Json.Text
import DiceChat.Proofs.Number.Scaling

/-!
# Numbers in JSON

A number is read by its parts: a whole number, digits behind a point, and an exponent. Integers
are written without the last two, floats never, so that each is read as what it was. The decimal
that a float is written from has its value, in any notation.
-/

namespace DiceChat

open Reader (Whole DigitRow NoDigitNext takeWhile_digits dropWhile_digits noDigitNext_cons)

theorem Reader.DigitRow.append_ne_cons {w rest following : List Char} {c : Char} (h : DigitRow w)
    (hc : c.isDigit = false) : w ++ rest ≠ c :: following := by
  obtain ⟨d, ds, rfl⟩ := List.exists_cons_of_ne_nil h.1
  rintro ⟨⟩
  exact absurd (h.2 _ (.head _)) (by simp [hc])

namespace Json

def EndsNumber (rest : List Char) : Prop :=
  ∀ c ∈ rest.head?, c.isDigit = false ∧ c ≠ '.' ∧ c ≠ 'e' ∧ c ≠ 'E'

theorem EndsNumber.noDigitNext {rest : List Char} (h : EndsNumber rest) : NoDigitNext rest :=
  fun c hc => (h c hc).1

-- ---------------------------------------------------------------------------
-- The parts of a number
-- ---------------------------------------------------------------------------

def signChars (negative : Bool) : List Char := if negative then ['-'] else []

def fractionChars : Option (List Char) → List Char
  | none => []
  | some digits => '.' :: digits

def exponentChars : Option Int → List Char
  | none => []
  | some n => 'e' :: n.repr.toList

structure Parts (s whole : List Char) (fraction : Option (List Char)) (exponent : Option Int) :
    Prop where
  text : s = whole ++ (fractionChars fraction ++ exponentChars exponent)
  whole : Whole whole
  fraction : ∀ digits ∈ fraction, DigitRow digits

section reading

variable {s whole rest : List Char} {fraction : Option (List Char)} {exponent : Option Int}

theorem readDigits_append {w : List Char} (h : DigitRow w) (hr : NoDigitNext rest) :
    readDigits (w ++ rest) = some (w, rest) := by
  rw [readDigits, takeWhile_digits h.2 hr, dropWhile_digits h.2 hr, if_neg]
  simpa using h.1

theorem readWhole_append (h : Whole whole) (hr : NoDigitNext rest) :
    readWhole (whole ++ rest) = some (whole, rest) := by
  cases h with
  | zero => rfl
  | @digits c ds hc hds =>
    have row : DigitRow (c :: ds) := (Whole.digits hc hds).digitRow
    rw [readWhole, readDigits_append row hr]
    rintro w ⟨⟩
    exact absurd hc (by decide)

theorem repr_toList (n : Int) :
    n.repr.toList = signChars (n < 0) ++ Nat.toDigits 10 n.natAbs := by
  cases n with
  | ofNat n => simp [signChars, Int.repr, Nat.repr]
  | negSucc n => simp [signChars, Int.repr, Nat.repr, Int.negSucc_lt_zero]

theorem digitRow_toDigits (n : Nat) : DigitRow (Nat.toDigits 10 n) :=
  (whole_toDigits n).digitRow

theorem readSigned_repr (n : Int) (hr : NoDigitNext rest) :
    readSigned (n.repr.toList ++ rest) = some (n, rest) := by
  have hread := readDigits_append (digitRow_toDigits n.natAbs) hr
  have hvalue : Nat.ofDigitChars 10 (Nat.toDigits 10 n.natAbs) 0 = n.natAbs :=
    Nat.ofDigitChars_ten_toDigits
  by_cases hn : n < 0
  · have hnegative : -(n.natAbs : Int) = n := by omega
    simp only [repr_toList, signChars, hn, decide_true, if_true, List.cons_append,
      List.nil_append, readSigned, hread, Option.map_some, hvalue, hnegative]
  · have hpositive : (n.natAbs : Int) = n := by omega
    simp only [repr_toList, signChars, hn, decide_false, Bool.false_eq_true, if_false,
      List.nil_append]
    rw [readSigned]
    · simp only [hread, Option.map_some, hvalue, hpositive]
    · exact fun _ => (digitRow_toDigits _).append_ne_cons (by decide)
    · exact fun _ => (digitRow_toDigits _).append_ne_cons (by decide)

theorem readFraction_append (h : ∀ digits ∈ fraction, DigitRow digits) (hr : NoDigitNext rest)
    (hpoint : rest.head? ≠ some '.') :
    readFraction (fractionChars fraction ++ rest) = some (fraction, rest) := by
  cases fraction with
  | some digits =>
    rw [fractionChars, List.cons_append, readFraction, readDigits_append (h digits rfl) hr]
    rfl
  | none =>
    rw [fractionChars, List.nil_append, readFraction]
    rintro following rfl
    exact hpoint rfl

theorem readExponent_append (exponent : Option Int) (h : EndsNumber rest) :
    readExponent (exponentChars exponent ++ rest) = some (exponent, rest) := by
  cases exponent with
  | some n =>
    rw [exponentChars, List.cons_append, readExponent, readSigned_repr n h.noDigitNext]
    rfl
  | none =>
    rw [exponentChars, List.nil_append, readExponent]
    · rintro following rfl
      exact (h 'e' rfl).2.2.1 rfl
    · rintro following rfl
      exact (h 'E' rfl).2.2.2 rfl

theorem head_exponentChars (exponent : Option Int) (h : EndsNumber rest) :
    ∀ c ∈ (exponentChars exponent ++ rest).head?, c.isDigit = false ∧ c ≠ '.' := by
  cases exponent with
  | some n =>
    rintro c ⟨⟩
    decide
  | none => exact fun c hc => ⟨(h c hc).1, (h c hc).2.1⟩

theorem noDigitNext_fractionChars (fraction : Option (List Char)) (h : NoDigitNext rest) :
    NoDigitNext (fractionChars fraction ++ rest) := by
  cases fraction with
  | some digits => exact noDigitNext_cons (by decide) _
  | none => exact h

theorem readMagnitude_append (negative : Bool) (h : Parts s whole fraction exponent)
    (hr : EndsNumber rest) :
    readMagnitude negative (s ++ rest) =
      some (numberOfParts negative whole fraction exponent, rest) := by
  have behind := head_exponentChars exponent hr
  have hexponent : NoDigitNext (exponentChars exponent ++ rest) := fun c hc => (behind c hc).1
  have hpoint : (exponentChars exponent ++ rest).head? ≠ some '.' :=
    fun hc => (behind '.' hc).2 rfl
  rw [h.text, readMagnitude, List.append_assoc, List.append_assoc,
    readWhole_append h.whole (noDigitNext_fractionChars fraction hexponent)]
  simp [readFraction_append h.fraction hexponent hpoint, readExponent_append exponent hr]

theorem readNumber_append (negative : Bool) (h : Parts s whole fraction exponent)
    (hr : EndsNumber rest) :
    readNumber (signChars negative ++ (s ++ rest)) =
      some (numberOfParts negative whole fraction exponent, rest) := by
  have hread := readMagnitude_append negative h hr
  cases negative with
  | true => exact hread
  | false =>
    rw [signChars, if_neg (by decide), List.nil_append, readNumber, hread]
    rw [h.text, List.append_assoc]
    exact fun _ => h.whole.digitRow.append_ne_cons (by decide)

end reading

-- ---------------------------------------------------------------------------
-- Integers
-- ---------------------------------------------------------------------------

theorem readNumber_repr {n : Int} {rest : List Char} (h : isIntegral n = true)
    (hr : EndsNumber rest) : readNumber (n.repr.toList ++ rest) = some (.integer n, rest) := by
  have parts : Parts (Nat.toDigits 10 n.natAbs) (Nat.toDigits 10 n.natAbs) none none :=
    ⟨(List.append_nil _).symm, whole_toDigits _, nofun⟩
  have value : Number.signed (n < 0) n.natAbs = n := by
    by_cases hn : n < 0
    · rw [Number.signed, if_pos (decide_eq_true hn)]
      omega
    · rw [Number.signed, if_neg (by simpa using hn)]
      omega
  have sign : ¬ (decide (n < 0) = true ∧ n = 0) := by
    rintro ⟨hn, rfl⟩
    exact absurd hn (by decide)
  rw [repr_toList, List.append_assoc, readNumber_append _ parts hr, numberOfParts,
    Nat.ofDigitChars_ten_toDigits, value, if_pos ⟨rfl, rfl, h, sign⟩]

-- ---------------------------------------------------------------------------
-- Floats
-- ---------------------------------------------------------------------------

theorem numberOfParts_float {negative : Bool} {whole : List Char}
    {fraction : Option (List Char)} {exponent : Option Int}
    (h : ¬ (fraction.isNone = true ∧ exponent.isNone = true)) {d : Decimal}
    (hd : Decimal.toNumber false ⟨Nat.ofDigitChars 10 (whole ++ fraction.getD []) 0,
      exponent.getD 0 - (fraction.getD []).length⟩ = d.toNumber false)
    (hfinite : (d.toNumber false).isFinite = true) :
    numberOfParts negative whole fraction exponent = .float (d.toNumber negative) := by
  have value : Decimal.toNumber negative ⟨Nat.ofDigitChars 10 (whole ++ fraction.getD []) 0,
      exponent.getD 0 - (fraction.getD []).length⟩ = d.toNumber negative := by
    cases negative with
    | false => exact hd
    | true => rw [Decimal.toNumber_true, hd, ← Decimal.toNumber_true]
  have finite : (d.toNumber negative).isFinite = true := by
    cases negative with
    | false => exact hfinite
    | true => rwa [Decimal.toNumber_true, Number.isFinite_neg]
  rw [numberOfParts, if_neg fun both => h ⟨both.1, both.2.1⟩]
  simp only [value, finite, if_true]

/-- The parts of a decimal in any notation have its value. -/
theorem exists_parts_decimalChars {d : Decimal} (hd : 0 < d.digits) (high : d.exponent ≤ 310) :
    ∃ whole fraction exponent, Parts (decimalChars d) whole fraction exponent ∧
      ¬ (fraction.isNone = true ∧ exponent.isNone = true) ∧
      Decimal.toNumber false ⟨Nat.ofDigitChars 10 (whole ++ fraction.getD []) 0,
        exponent.getD 0 - (fraction.getD []).length⟩ = d.toNumber false := by
  simp only [decimalChars]
  -- Positional notation without and with digits behind the point, then scientific notation.
  split
  · split
    · next he =>
      refine ⟨_, some ['0'], none, ⟨rfl, Decimal.whole_positional hd he, ?_⟩, nofun, ?_⟩
      · rintro _ ⟨⟩
        exact Whole.zero.digitRow
      · rw [← Decimal.toNumber_positional hd he high, ← Decimal.toNumber_pointZero]
        simp [Nat.ofDigitChars_append, Nat.ofDigitChars_cons]
    · next he =>
      obtain ⟨whole, fraction, text, hw, hf, value, exponent⟩ :=
        Decimal.exists_fraction_positional hd (Int.not_le.mp he)
      refine ⟨whole, some fraction, none, ⟨?_, hw, ?_⟩, nofun, ?_⟩
      · simp [text, fractionChars, exponentChars]
      · rintro _ ⟨⟩
        exact hf
      · simp [value, exponent]
  · obtain ⟨c, ds, hcs, hc⟩ := exists_leadingDigit hd
    have row : ∀ d ∈ ds, d.isDigit = true := fun _ hd =>
      isDigit_of_mem_toDigits (hcs ▸ List.mem_cons_of_mem c hd)
    have value : Nat.ofDigitChars 10 (c :: ds) 0 = d.digits :=
      hcs ▸ Nat.ofDigitChars_ten_toDigits
    simp only [scientific, hcs]
    cases ds with
    | nil =>
      refine ⟨[c], none, some d.exponent, ⟨?_, .digits hc row, nofun⟩, nofun, ?_⟩
      · simp [fractionChars, exponentChars]
      · simp [value]
    | cons second ds =>
      have exponent : d.exponent + (c :: second :: ds).length - 1 - (second :: ds).length =
          d.exponent := by
        simp only [List.length_cons]
        omega
      refine ⟨[c], some (second :: ds), some (d.exponent + (c :: second :: ds).length - 1),
        ⟨?_, .digits hc nofun, ?_⟩, nofun, ?_⟩
      · simp [fractionChars, exponentChars]
      · rintro _ ⟨⟩
        exact ⟨nofun, row⟩
      · simp only [Option.getD_some, exponent, List.singleton_append, value]

theorem readNumber_floatChars {x : Number} {rest : List Char} (h : x.isFinite = true)
    (hr : EndsNumber rest) : readNumber (floatChars x ++ rest) = some (.float x, rest) := by
  cases x with
  | nan => cases h
  | infinity negative => cases h
  | finite negative m e canonical =>
    rw [floatChars, List.append_assoc]
    by_cases hm : m = 0
    · subst hm
      obtain rfl := canonical.least
      have parts : Parts ['0', '.', '0'] ['0'] (some ['0']) none :=
        ⟨rfl, .zero, by rintro _ ⟨⟩; exact Whole.zero.digitRow⟩
      refine (readNumber_append negative parts hr).trans ?_
      rw [numberOfParts_float (d := ⟨0, 0⟩) (by simp) (by decide) rfl]
      rfl
    · have hpos := Nat.pos_of_ne_zero hm
      have readsBack := Decimal.toNumber_shortest .toEven canonical hpos
      have hd := Decimal.digits_shortest_pos .toEven canonical hpos
      have hfinite : ((Decimal.shortest .toEven m e).toNumber false).isFinite = true :=
        readsBack ▸ rfl
      obtain ⟨whole, fraction, exponent, parts, float, value⟩ :=
        exists_parts_decimalChars hd (Decimal.exponent_le_of_isFinite hd hfinite)
      rw [if_neg hm]
      refine (readNumber_append negative parts hr).trans ?_
      rw [numberOfParts_float float value hfinite]
      cases negative with
      | false => rw [readsBack]
      | true =>
        rw [Decimal.toNumber_true, readsBack]
        rfl

end Json
end DiceChat

import DiceChat.Proofs.Expr.Grammar
import DiceChat.Proofs.Number.Exact

/-!
# The text of a number reads back

The shortest decimal of a number is read as that number: every grid only offers decimals that are,
and the exact value, which is taken where no grid has an offer, is its own nearest number. The
positional notation of a decimal is a number of the grammar, with zeros in front of or behind its
digits where the point is not among them.
-/

namespace DiceChat

-- ---------------------------------------------------------------------------
-- The shortest decimal
-- ---------------------------------------------------------------------------

namespace Decimal

variable {m : Nat} {e : Int}

theorem Tie.choose_eq (tie : Tie) (low : Nat) :
    tie.choose low = low ∨ tie.choose low = low + 1 := by
  cases tie with
  | up => exact .inr rfl
  | toEven => by_cases even : low % 2 = 0 <;> simp [choose, even]

theorem toNumber_of_onGrid? {tie : Tie} {grid : Int} {d : Decimal}
    (h : onGrid? tie m e grid = some d) : d.toNumber false = .pack false m e := by
  simp only [onGrid?] at h
  generalize m <<< e.toNat * Nat.pow 10 (-grid).toNat /
    (1 <<< (-e).toNat * Nat.pow 10 grid.toNat) = low at h
  split at h
  · cases h
  · next hlow _ =>
    cases h
    exact of_decide_eq_true hlow
  · next _ hhigh =>
    cases h
    exact of_decide_eq_true hhigh
  · next hlow hhigh =>
    have either : ∀ n, n = low ∨ n = low + 1 →
        toNumber false ⟨n, grid⟩ = .pack false m e := by
      rintro n (rfl | rfl)
      · exact of_decide_eq_true hlow
      · exact of_decide_eq_true hhigh
    split at h
    · cases h
      exact either _ (.inl rfl)
    · split at h
      · cases h
        exact either _ (.inr rfl)
      · cases h
        exact either _ (tie.choose_eq low)

theorem toNumber_of_nearest {d : Decimal} (hd : 0 < d.digits) (high : d.exponent ≤ 310)
    (low : 0 ≤ d.exponent + d.digits.log2) (negative : Bool) :
    d.toNumber negative = .nearest negative (d.digits * Nat.pow 10 d.exponent.toNat)
      (Nat.pow 10 (-d.exponent).toNat) := by
  have hlow : ¬ d.exponent + d.digits.log2 < -330 := by omega
  simp only [toNumber, Nat.ne_of_gt hd, Int.not_lt.mpr high, hlow, if_false]

theorem pow_pos {b : Nat} (h : 0 < b) (k : Nat) : 0 < Nat.pow b k := Nat.pow_pos h

theorem pow_five_shiftLeft (k : Nat) : Nat.pow 5 k <<< k = Nat.pow 10 k := by
  rw [Nat.shiftLeft_eq]
  exact (Nat.mul_pow 5 2 k).symm

theorem le_log2_mul_pow_five (hm : 0 < m) (k : Nat) : k ≤ (m * Nat.pow 5 k).log2 := by
  have hpos : 0 < m * Nat.pow 5 k := Nat.mul_pos hm (pow_pos (by decide) k)
  refine (Nat.le_log2 (Nat.ne_of_gt hpos)).mpr ?_
  exact Nat.le_trans (Nat.pow_le_pow_left (by decide) k) (Nat.le_mul_of_pos_left _ hm)

theorem toNumber_exact (h : Canonical m e) (hm : 0 < m) :
    (exact m e).toNumber false = .pack false m e := by
  by_cases he : 0 ≤ e
  · have hdigits : 0 < m <<< e.toNat := shiftLeft_pos hm _
    have places : (-e).toNat = 0 := by omega
    rw [exact, if_pos he, toNumber_of_nearest hdigits (by simp) (by simp)]
    refine Number.nearest_of_eq h hm (pow_pos (by decide) _) ?_ false
    simp [places, Nat.shiftLeft_eq]
  · have places : e.toNat = 0 := by omega
    have hdigits : 0 < m * Nat.pow 5 (-e).toNat := Nat.mul_pos hm (pow_pos (by decide) _)
    have hlog := le_log2_mul_pow_five hm (-e).toNat
    rw [exact, if_neg he, toNumber_of_nearest hdigits (by dsimp only; omega)
      (by dsimp only; omega)]
    refine Number.nearest_of_eq h hm (pow_pos (by decide) _) ?_ false
    have one : Nat.pow 10 e.toNat = 1 := by rw [places]
    dsimp only
    rw [one, places, Nat.shiftLeft_zero, ← pow_five_shiftLeft, Nat.mul_one]
    simp only [Nat.shiftLeft_eq, Nat.mul_assoc]

theorem toNumber_search (tie : Tie) (h : Canonical m e) (hm : 0 < m) (steps : Nat) (grid : Int) :
    (search tie m e steps grid).toNumber false = .pack false m e := by
  induction steps generalizing grid with
  | zero => exact toNumber_exact h hm
  | succ steps ih =>
    rw [search]
    cases hgrid : onGrid? tie m e grid with
    | none => exact ih _
    | some d => exact toNumber_of_onGrid? hgrid

theorem toNumber_shortest (tie : Tie) (h : Canonical m e) (hm : 0 < m) :
    (shortest tie m e).toNumber false = .finite false m e h :=
  (toNumber_search tie h hm _ _).trans (Number.pack_of_canonical h false)

theorem digits_shortest_pos (tie : Tie) (h : Canonical m e) (hm : 0 < m) :
    0 < (shortest tie m e).digits := by
  refine Nat.pos_of_ne_zero fun hz => Nat.ne_of_gt hm ?_
  have readsBack := toNumber_shortest tie h hm
  rw [toNumber, if_pos hz] at readsBack
  exact (Number.finite.inj readsBack).2.1.symm

end Decimal

-- ---------------------------------------------------------------------------
-- Digits
-- ---------------------------------------------------------------------------

open Reader (Whole DigitRow isLeadingDigit)

theorem isDigit_of_mem_toDigits {n : Nat} {c : Char} (h : c ∈ Nat.toDigits 10 n) :
    c.isDigit = true :=
  Nat.isDigit_of_mem_toDigits (by decide) (by decide) h

theorem exists_leadingDigit {n : Nat} (h : 0 < n) :
    ∃ c ds, Nat.toDigits 10 n = c :: ds ∧ isLeadingDigit c = true := by
  induction n using Nat.strongRecOn with
  | ind n ih =>
    by_cases small : n < 10
    · refine ⟨n.digitChar, [], Nat.toDigits_of_lt_base small, ?_⟩
      have : ∀ i < 10, 0 < i → isLeadingDigit i.digitChar = true := by decide
      exact this n small h
    · obtain ⟨c, ds, hcs, hc⟩ := ih (n / 10) (by omega) (by omega)
      refine ⟨c, ds ++ [(n % 10).digitChar], ?_, hc⟩
      rw [Nat.toDigits_of_base_le (by decide) (by omega), hcs, List.cons_append]

theorem whole_toDigits_append {n : Nat} (h : 0 < n) {ds : List Char}
    (hds : ∀ d ∈ ds, d.isDigit = true) : Whole (Nat.toDigits 10 n ++ ds) := by
  obtain ⟨c, rest, hcs, hc⟩ := exists_leadingDigit h
  rw [hcs]
  refine .digits hc fun d hd => ?_
  rcases List.mem_append.mp hd with hd | hd
  · exact isDigit_of_mem_toDigits (hcs ▸ List.mem_cons_of_mem c hd)
  · exact hds d hd

theorem whole_toDigits (n : Nat) : Whole (Nat.toDigits 10 n) := by
  rcases Nat.eq_zero_or_pos n with rfl | h
  · exact .zero
  · rw [← List.append_nil (Nat.toDigits 10 n)]
    exact whole_toDigits_append h fun d hd => absurd hd List.not_mem_nil

theorem whole_take_toDigits {n k : Nat} (h : 0 < n) (hk : 0 < k) :
    Whole ((Nat.toDigits 10 n).take k) := by
  obtain ⟨c, rest, hcs, hc⟩ := exists_leadingDigit h
  obtain ⟨k, rfl⟩ : ∃ j, k = j + 1 := ⟨k - 1, by omega⟩
  rw [hcs, List.take_succ_cons]
  exact .digits hc fun d hd =>
    isDigit_of_mem_toDigits (hcs ▸ List.mem_cons_of_mem c (List.mem_of_mem_take hd))

theorem isDigit_of_mem_zeros {k : Nat} {c : Char} (h : c ∈ List.replicate k '0') :
    c.isDigit = true := by
  rw [List.eq_of_mem_replicate h]
  rfl

theorem Number.written_whole {whole : List Char} (h : Whole whole) :
    (Expr.numberOfDigits whole []).Written whole :=
  ⟨whole, [], h, rfl, .inl ⟨rfl, rfl⟩⟩

theorem Number.written_fraction {whole fraction : List Char} (hw : Whole whole)
    (hf : DigitRow fraction) :
    (Expr.numberOfDigits whole fraction).Written (whole ++ '.' :: fraction) :=
  ⟨whole, fraction, hw, rfl, .inr ⟨rfl, hf⟩⟩

-- ---------------------------------------------------------------------------
-- Positional notation
-- ---------------------------------------------------------------------------

namespace Decimal

variable {d : Decimal}

theorem exponent_le_of_isFinite (hd : 0 < d.digits) (h : (d.toNumber false).isFinite = true) :
    d.exponent ≤ 310 := by
  refine Int.not_lt.mp fun high => ?_
  simp [toNumber, Nat.ne_of_gt hd, high, Number.isFinite] at h

theorem toNumber_shifted (hd : 0 < d.digits) (he : 0 ≤ d.exponent) (high : d.exponent ≤ 310) :
    toNumber false ⟨Nat.pow 10 d.exponent.toNat * d.digits, 0⟩ = d.toNumber false := by
  have places : (-d.exponent).toNat = 0 := by omega
  rw [toNumber_of_nearest (Nat.mul_pos (pow_pos (by decide) _) hd) (by simp) (by simp),
    toNumber_of_nearest hd high (by omega), places]
  simp [Nat.mul_comm]

theorem toList_positional (he : 0 ≤ d.exponent) :
    d.positional.toList = Nat.toDigits 10 d.digits ++ List.replicate d.exponent.toNat '0' := by
  simp only [positional, ge_iff_le, if_pos he, String.toList_ofList]

theorem whole_positional (hd : 0 < d.digits) (he : 0 ≤ d.exponent) :
    Whole d.positional.toList := by
  rw [toList_positional he]
  exact whole_toDigits_append hd fun _ hc => isDigit_of_mem_zeros hc

theorem toNumber_positional (hd : 0 < d.digits) (he : 0 ≤ d.exponent) (high : d.exponent ≤ 310) :
    toNumber false ⟨Nat.ofDigitChars 10 d.positional.toList 0, 0⟩ = d.toNumber false := by
  rw [← toNumber_shifted hd he high, toList_positional he, Nat.ofDigitChars_append,
    Nat.ofDigitChars_ten_toDigits, Nat.ofDigitChars_replicate_zero]
  rfl

theorem exists_fraction_positional (hd : 0 < d.digits) (he : d.exponent < 0) :
    ∃ whole fraction, d.positional.toList = whole ++ '.' :: fraction ∧ Whole whole ∧
      DigitRow fraction ∧ Nat.ofDigitChars 10 (whole ++ fraction) 0 = d.digits ∧
      -(fraction.length : Int) = d.exponent := by
  have hplaces : 0 < (-d.exponent).toNat := by omega
  simp only [positional, ge_iff_le, if_neg (Int.not_le.mpr he)]
  split
  · next hlt =>
    rw [String.toList_ofList]
    refine ⟨_, _, rfl, whole_take_toDigits hd (by omega), ⟨?_, ?_⟩, ?_, ?_⟩
    · intro empty
      have := congrArg List.length empty
      rw [List.length_drop, List.length_nil] at this
      omega
    · intro c hc
      exact isDigit_of_mem_toDigits (List.mem_of_mem_drop hc)
    · rw [List.take_append_drop, Nat.ofDigitChars_ten_toDigits]
    · rw [List.length_drop]
      omega
  · next hle =>
    rw [String.toList_ofList, List.cons_append, List.cons_append, ← List.singleton_append]
    refine ⟨_, _, rfl, .zero, ⟨?_, ?_⟩, ?_, ?_⟩
    · exact List.append_ne_nil_of_right_ne_nil _ Nat.toDigits_ne_nil
    · intro c hc
      rcases List.mem_append.mp hc with hc | hc
      · exact isDigit_of_mem_zeros hc
      · exact isDigit_of_mem_toDigits hc
    · rw [Nat.ofDigitChars_append, Nat.ofDigitChars_append, Nat.ofDigitChars_replicate_zero]
      exact Nat.ofDigitChars_ten_toDigits
    · rw [List.length_append, List.length_replicate]
      omega

/-- A finite decimal other than zero is written as a number of the grammar. -/
theorem written_positional (hd : 0 < d.digits) (h : (d.toNumber false).isFinite = true) :
    (d.toNumber false).Written d.positional.toList := by
  by_cases he : 0 ≤ d.exponent
  · rw [← toNumber_positional hd he (exponent_le_of_isFinite hd h)]
    have written := Number.written_whole (whole_positional hd he)
    rwa [Expr.numberOfDigits, List.append_nil] at written
  · obtain ⟨whole, fraction, text, hw, hf, value, exponent⟩ :=
      exists_fraction_positional hd (Int.not_le.mp he)
    have written := Number.written_fraction hw hf
    rwa [Expr.numberOfDigits, value, exponent, ← text] at written

end Decimal

-- ---------------------------------------------------------------------------
-- Numbers
-- ---------------------------------------------------------------------------

namespace Number

theorem written_text {x : Number} (h : x.isFinite = true) (hn : x.isNegative = false) :
    x.Written x.text.toList := by
  cases x with
  | nan => cases h
  | infinity negative => cases h
  | finite negative m e canonical =>
    obtain rfl : negative = false := hn
    simp only [text, Bool.false_eq_true, if_false]
    split
    · next hm =>
      subst hm
      obtain rfl := canonical.least
      exact written_whole .zero
    · next hm =>
      have hpos := Nat.pos_of_ne_zero hm
      have readsBack := Decimal.toNumber_shortest .up canonical hpos
      rw [← readsBack]
      exact Decimal.written_positional (Decimal.digits_shortest_pos .up canonical hpos)
        (readsBack ▸ rfl)

theorem isNegative_nearest (num den : Nat) : (nearest false num den).isNegative = false := by
  unfold nearest
  split
  · rfl
  · unfold pack
    dsimp only
    split
    · rfl
    · split <;> rfl

theorem Written.isNegative {w : List Char} {x : Number} (h : x.Written w) :
    x.isNegative = false := by
  obtain ⟨whole, fraction, -, rfl, -⟩ := h
  unfold Expr.numberOfDigits Decimal.toNumber
  split
  · rfl
  · split
    · rfl
    · split
      · rfl
      · exact isNegative_nearest _ _

end Number
end DiceChat

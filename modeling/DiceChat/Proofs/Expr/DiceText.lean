import DiceChat.Proofs.Expr.RoundTrip

/-!
# Dice in full

Of the many notations of dice one is written: all numbers are there, without leading zeros, and
rules go by their two letters. It reads as the dice that it was written for, alone and as an
expression. Dice that cannot be rolled have such a text too, but nothing reads it.
-/

namespace DiceChat

open Reader

def Rule.names : List (List Char × Rule) := [
  (['d', 'l'], .dropLowest),
  (['d', 'h'], .dropHighest),
  (['k', 'h'], .keepHighest),
  (['k', 'l'], .keepLowest)]

def Selection.WrittenInFull (w : List Char) (s : Selection) : Prop :=
  ∃ name digits, (name, s.rule) ∈ Rule.names ∧ Word digits s.count ∧ w = name ++ digits

/-- Notation of dice that leaves nothing out. -/
def Dice.WrittenInFull (w : List Char) (d : Dice) : Prop :=
  ∃ count sides selection, w = count ++ 'd' :: (sides ++ selection) ∧
    Word count d.count ∧ Word sides d.sides ∧
    Optionally (fun w o => ∃ s, o = some s ∧ s.WrittenInFull w) none selection d.selection

-- ---------------------------------------------------------------------------
-- One text for each
-- ---------------------------------------------------------------------------

theorem Word.eq_repr {w : List Char} {n : UInt16} (h : Word w n) : w = n.toNat.repr.toList := by
  rw [Nat.toList_repr, ← h.2, h.1.toDigits_eq]

theorem Rule.eq_text_of_mem_names {name : List Char} {rule : Rule}
    (h : (name, rule) ∈ names) : name = rule.text.toList := by
  have each : ∀ entry ∈ names, entry.1 = entry.2.text.toList := by decide
  exact each _ h

theorem Rule.text_mem_names (rule : Rule) : (rule.text.toList, rule) ∈ names := by
  cases rule <;> decide

namespace Selection

theorem WrittenInFull.eq_text {w : List Char} {s : Selection} (h : s.WrittenInFull w) :
    w = s.text.toList := by
  obtain ⟨name, digits, hname, hdigits, rfl⟩ := h
  rw [Rule.eq_text_of_mem_names hname, hdigits.eq_repr, text, String.toList_append]

theorem writtenInFull_text (s : Selection) : s.WrittenInFull s.text.toList :=
  ⟨_, _, s.rule.text_mem_names, word_repr s.count, by rw [text, String.toList_append]⟩

end Selection

namespace Dice

theorem WrittenInFull.eq_text {w : List Char} {d : Dice} (h : d.WrittenInFull w) :
    w = d.text.toList := by
  obtain ⟨count, sides, selection, rfl, hcount, hsides, hselection⟩ := h
  have same : selection = ((d.selection.map Selection.text).getD "").toList := by
    rcases hselection with ⟨rfl, hs⟩ | ⟨s, hs, written⟩
    · rw [hs]
      rfl
    · rw [hs, written.eq_text]
      rfl
  rw [toList_text, hcount.eq_repr, hsides.eq_repr, same]

theorem writtenInFull_text (d : Dice) : d.WrittenInFull d.text.toList :=
  ⟨_, _, _, d.toList_text, word_repr d.count, word_repr d.sides,
    Selection.optionally_text Selection.writtenInFull_text d.selection⟩

theorem parse_eq_ok {s : String} {d : Dice} :
    parse s = .ok d ↔ d.Written (Text.lowerCase s.toList) := by
  unfold parse
  rw [readAll_eq_ok]
  constructor
  · intro h
    obtain ⟨w, hw, written⟩ := reader_sound h
    rwa [hw, List.append_nil]
  · intro written
    have found := reader_complete written endsValue_nil
    rwa [List.append_nil] at found

-- ---------------------------------------------------------------------------
-- Dice that cannot be rolled
-- ---------------------------------------------------------------------------

def isTextChar (c : Char) : Bool := c.isDigit || c ∈ ['d', 'h', 'k', 'l']

theorem isTextChar_of_mem_text (d : Dice) : ∀ c ∈ d.text.toList, isTextChar c = true := by
  have word (n : UInt16) : ∀ c ∈ n.toNat.repr.toList, isTextChar c = true := fun c hc => by
    simp [isTextChar, (word_repr n).1.digitRow.2 c hc]
  have selection : ∀ c ∈ ((d.selection.map Selection.text).getD "").toList,
      isTextChar c = true := by
    cases d.selection with
    | none => simp
    | some s =>
      have name : s.rule.text.toList.all isTextChar = true := by cases s.rule <;> decide
      intro c hc
      rw [Option.map_some, Option.getD_some, Selection.text, String.toList_append,
        List.mem_append] at hc
      exact hc.elim (List.all_eq_true.mp name c) (word s.count c)
  rw [toList_text]
  simp only [List.mem_append, List.mem_cons]
  rintro c (hc | rfl | hc | hc)
  · exact word _ c hc
  · rfl
  · exact word _ c hc
  · exact selection c hc

theorem not_mem_text (d : Dice) {c : Char} (h : isTextChar c = false) : c ∉ d.text.toList :=
  fun hc => by
    rw [d.isTextChar_of_mem_text c hc] at h
    cases h

theorem isTextChar_cases {c : Char} (h : isTextChar c = true) :
    Text.isLower c = true ∧ Text.isBlank c = false ∧ c ∉ ['+', '-', '*', '/', '(', ')'] := by
  simp only [isTextChar, Bool.or_eq_true, decide_eq_true_eq] at h
  rcases h with digit | letter
  · refine ⟨Text.isLower_of_isDigit digit, ?_, fun mark => ?_⟩
    · rw [Bool.eq_false_iff]
      intro blank
      rw [Text.isDigit_of_isBlank blank] at digit
      cases digit
    · simp only [List.mem_cons, List.not_mem_nil, or_false] at mark
      rcases mark with rfl | rfl | rfl | rfl | rfl | rfl <;> cases digit
  · simp only [List.mem_cons, List.not_mem_nil, or_false] at letter
    rcases letter with rfl | rfl | rfl | rfl <;> decide

theorem lowerCase_text (d : Dice) : Text.lowerCase d.text.toList = d.text.toList := by
  refine Text.lowerCase_of_lower fun c hc => ?_
  have lower := (isTextChar_cases (d.isTextChar_of_mem_text c hc)).1
  simpa [Text.isLower] using lower

theorem not_written_text {d : Dice} (h : d.isValid = false) (other : Dice) :
    ¬other.Written d.text.toList := by
  intro written
  have found := reader_complete written endsValue_nil
  rw [reader_of_shaped d.shaped_text endsValue_nil, h] at found
  cases found

end Dice

theorem Number.Written.not_mem {w : List Char} {x : Number} (h : x.Written w) {c : Char}
    (noDigit : c.isDigit = false) (noPoint : c ≠ '.') : c ∉ w := by
  have digits {v : List Char} (row : DigitRow v) : c ∉ v := fun hc => by
    rw [row.2 c hc] at noDigit
    cases noDigit
  obtain ⟨whole, fraction, hwhole, -, ⟨rfl, -⟩ | ⟨rfl, row⟩⟩ := h
  · exact digits hwhole.digitRow
  · simp [digits hwhole.digitRow, digits row, noPoint]

/-- The text of any number has nothing but digits, a point and a sign, or the letters of one that
is not finite. -/
theorem Number.not_mem_text (x : Number) {c : Char} (noDigit : c.isDigit = false)
    (noMark : c ∉ ['.', '-', 'N', 'a', 'i', 'n', 'f']) : c ∉ x.text.toList := by
  have apart {w : List Char} (h : w ⊆ ['.', '-', 'N', 'a', 'i', 'n', 'f']) : c ∉ w :=
    fun hc => noMark (h hc)
  have noPoint : c ≠ '.' := fun same => noMark (same ▸ .head _)
  have positive {m : Nat} {e : Int} (h : Canonical m e) : c ∉ (finite false m e h).text.toList :=
    (written_text rfl rfl).not_mem noDigit noPoint
  cases x with
  | nan => exact apart (by decide)
  | infinity negative => cases negative <;> exact apart (by decide)
  | finite negative m e h =>
    cases negative with
    | false => exact positive h
    | true =>
      have signed : (finite true m e h).text = "-" ++ (finite false m e h).text := rfl
      rw [signed, String.toList_append]
      exact List.not_mem_append (apart (by decide)) (positive h)

namespace Expr

theorem value_of_derives {level : Level} {w : List Char} {e : Expr}
    (h : Derives lexis level w e) (marks : ∀ c ∈ w, c ∉ ['+', '-', '*', '/', '(', ')']) :
    lexis.Value w e := by
  induction h with
  | value h => exact h
  | atom _ ih | unary _ ih | product _ ih => exact ih marks
  | group ho _ _ _ =>
    obtain ⟨l, rfl, -⟩ := ho
    exact absurd (by decide) (marks '(' (by simp))
  | neg ho _ _ =>
    obtain ⟨l, r, rfl, -⟩ := ho
    exact absurd (by decide) (marks '-' (by simp))
  | @multiplicative op _ _ _ _ _ _ _ ho _ _ _ | @additive op _ _ _ _ _ _ _ ho _ _ _ =>
    obtain ⟨l, r, rfl, -⟩ := ho
    exact absurd (by cases op <;> decide) (marks op.symbol (by simp))

theorem bare_of_value {w : List Char} {e : Expr} (h : lexis.Value w e)
    (solid : ∀ c ∈ w, Text.isBlank c = false) : Bare w e := by
  obtain ⟨l, v, r, rfl, hl, bare, hr⟩ := h
  have noBlanks {b : List Char} (hb : Blanks b) (inside : ∀ c ∈ b, c ∈ l ++ (v ++ r)) : b = [] :=
    List.eq_nil_iff_forall_not_mem.mpr fun c hc => by
      have := solid c (inside c hc)
      simp [hb c hc] at this
  obtain rfl := noBlanks hl (by simp +contextual)
  obtain rfl := noBlanks hr (by simp +contextual)
  simpa using bare

/-- The text of dice that cannot be rolled is no expression either: it is no number, since it has a
letter. -/
theorem not_written_text {d : Dice} (h : d.isValid = false) (e : Expr) :
    ¬Written d.text.toList e := by
  intro written
  have chars := fun c hc => Dice.isTextChar_cases (d.isTextChar_of_mem_text c hc)
  have value := value_of_derives written fun c hc => (chars c hc).2.2
  have bare := bare_of_value value fun c hc => (chars c hc).2.1
  cases bare with
  | number hx => exact hx.not_mem (c := 'd') rfl (by decide) (by rw [Dice.toList_text]; simp)
  | dice hd => exact Dice.not_written_text h _ hd

end Expr

-- ---------------------------------------------------------------------------
-- Texts of dice
-- ---------------------------------------------------------------------------

namespace Dice

/-- The text of dice is their notation in full. It reads as these dice, by themselves and as an
expression, and so do all other notations that read as them. If there are no dice or no sides, it
reads as nothing. -/
theorem text_in_full (d : Dice) :
    (∀ w, d.WrittenInFull w ↔ w = d.text.toList) ∧
    (0 < d.count ∧ 0 < d.sides → parse d.text = .ok d ∧ Expr.parse d.text = .ok (.dice d)) ∧
    (∀ s, parse s = .ok d ↔ d.Written (Text.lowerCase s.toList)) ∧
    (∀ s, parse s = .ok d → parse d.text = .ok d ∧ Expr.parse d.text = .ok (.dice d)) ∧
    (d.count = 0 ∨ d.sides = 0 →
      (∃ failure, parse d.text = .error failure) ∧ ∃ failure, Expr.parse d.text = .error failure) := by
  have reads (valid : d.isValid = true) :
      parse d.text = .ok d ∧ Expr.parse d.text = .ok (.dice d) := by
    have alone : parse d.text = .ok d := by
      rw [parse_eq_ok, lowerCase_text]
      exact written_text valid
    exact ⟨alone, Expr.parse_text (e := .dice d) valid trivial⟩
  refine ⟨fun w => ⟨WrittenInFull.eq_text, ?_⟩, fun ⟨count, sides⟩ => ?_, fun s => parse_eq_ok,
    fun s h => ?_, fun absent => ?_⟩
  · rintro rfl
    exact d.writtenInFull_text
  · exact reads (by simp [isValid, count, sides])
  · exact reads (written_iff.mp (parse_eq_ok.mp h)).2
  · have invalid : d.isValid = false := by
      rcases absent with absent | absent <;> simp [isValid, absent]
    refine ⟨exists_error_of_ne_ok fun other h => ?_, exists_error_of_ne_ok fun e h => ?_⟩
    · rw [parse_eq_ok, lowerCase_text] at h
      exact not_written_text invalid other h
    · unfold Expr.parse at h
      rw [lowerCase_text] at h
      exact Expr.not_written_text invalid e (Expr.written_of_readAll h)

theorem text_in_full_signed :
    parse "D20-L" = .ok ⟨1, 20, some ⟨.dropLowest, 1⟩⟩ ∧
      parse (text ⟨1, 20, some ⟨.dropLowest, 1⟩⟩) = .ok ⟨1, 20, some ⟨.dropLowest, 1⟩⟩ ∧
      Expr.parse (text ⟨1, 20, some ⟨.dropLowest, 1⟩⟩) =
        .ok (.dice ⟨1, 20, some ⟨.dropLowest, 1⟩⟩) ∧
      parse (text ⟨65535, 1, some ⟨.keepHighest, 0⟩⟩) = .ok ⟨65535, 1, some ⟨.keepHighest, 0⟩⟩ ∧
      ∃ failure, Expr.parse (text ⟨2, 0, some ⟨.keepLowest, 3⟩⟩) = .error failure := by
  have h : parse "D20-L" = .ok ⟨1, 20, some ⟨.dropLowest, 1⟩⟩ := by
    rw [← toOption_eq_some]
    decide +kernel
  obtain ⟨-, -, -, again, -⟩ := text_in_full ⟨1, 20, some ⟨.dropLowest, 1⟩⟩
  obtain ⟨-, reads, -⟩ := text_in_full ⟨65535, 1, some ⟨.keepHighest, 0⟩⟩
  obtain ⟨-, -, -, -, rejected⟩ := text_in_full ⟨2, 0, some ⟨.keepLowest, 3⟩⟩
  exact ⟨h, (again _ h).1, (again _ h).2, (reads ⟨by decide, by decide⟩).1, (rejected (.inr rfl)).2⟩

end Dice
end DiceChat

import DiceChat.Proofs.Expr.Complete

/-!
# What was matched stands alone

A reader that is not asked to come to the end of a text stops where nothing more fits. On the way
it may have looked further and come back: a count that is too large, an operator without an operand.
Cut off there, the text reads as the same, and now to its end. This holds of whatever is sound and
complete for a grammar, since what was matched derives its value whether or not something follows.
-/

namespace DiceChat

namespace Reader

variable {ε α : Type} {r : Reader ε α}

/-- What is taken off the front of a text is taken in the same way where nothing follows it. -/
def StandsAlone (r : Reader ε α) : Prop :=
  ∀ s a rest, r.run? s = some (a, rest) → ∃ front, s = front ++ rest ∧ r.run? front = some (a, [])

theorem standsAlone_of_written {Written : List Char → α → Prop}
    (sound : ∀ s a rest, r.run? s = some (a, rest) → ∃ w, s = w ++ rest ∧ Written w a)
    (complete : ∀ w a, Written w a → r.run? w = some (a, [])) : StandsAlone r := by
  intro s a rest h
  obtain ⟨w, hw, written⟩ := sound s a rest h
  exact ⟨w, hw, complete w a written⟩

-- ---------------------------------------------------------------------------
-- Bytes
-- ---------------------------------------------------------------------------

theorem byteLength_append (s t : List Char) :
    byteLength (s ++ t) = byteLength s + byteLength t := by
  induction s with
  | nil => simp [byteLength]
  | cons c s ih => simp only [List.cons_append, byteLength, ih, Nat.add_assoc]

theorem byteLength_eq_zero {s : List Char} : byteLength s = 0 ↔ s = [] := by
  cases s with
  | nil => simp [byteLength]
  | cons c s =>
    have := c.utf8Size_pos
    simp only [byteLength, reduceCtorEq, iff_false]
    omega

theorem byteOffset_append (front rest : List Char) :
    byteOffset (front ++ rest) rest.length = byteLength front := by
  simp [byteOffset]

theorem size_utf8Encode (s : List Char) : s.utf8Encode.size = byteLength s := by
  induction s with
  | nil => rfl
  | cons c s ih =>
    rw [List.utf8Encode_cons, ByteArray.size_append, ih, byteLength]
    simp [List.utf8Encode]

-- ---------------------------------------------------------------------------
-- Cutting off the rest
-- ---------------------------------------------------------------------------

theorem StandsAlone.readAll_front (h : StandsAlone r) {s rest : List Char} {a : α}
    (matched : readFront r s = .ok (a, rest)) :
    ∃ front, s = front ++ rest ∧
      front.utf8Encode = s.utf8Encode.extract 0 (byteOffset s rest.length) ∧
      readAll r front = .ok a := by
  obtain ⟨front, rfl, alone⟩ := h _ _ _ ((readFront_eq_ok r s rest a).mp matched)
  refine ⟨front, rfl, ?_, (readAll_eq_ok r front a).mpr alone⟩
  rw [byteOffset_append, List.utf8Encode_append,
    ByteArray.extract_append_eq_left (size_utf8Encode front).symm]

theorem StandsAlone.readAll_iff (h : StandsAlone r) {s : List Char} {a : α} :
    readAll r s = .ok a ↔
      ∃ rest, readFront r s = .ok (a, rest) ∧ byteOffset s rest.length = byteLength s := by
  constructor
  · intro whole
    refine ⟨[], (readFront_eq_ok r s [] a).mpr ((readAll_eq_ok r s a).mp whole), ?_⟩
    simpa using byteOffset_append s []
  · rintro ⟨rest, matched, ends⟩
    obtain ⟨front, rfl, -, alone⟩ := h.readAll_front matched
    rw [byteOffset_append, byteLength_append] at ends
    obtain rfl : rest = [] := byteLength_eq_zero.mp (by omega)
    rwa [List.append_nil]

end Reader

open Reader

theorem Dice.standsAlone_reader : StandsAlone Dice.reader := by
  refine standsAlone_of_written (fun _ _ _ => reader_sound) fun w d written => ?_
  have found := reader_complete written endsValue_nil
  rwa [List.append_nil] at found

theorem Expr.standsAlone_reader : StandsAlone Expr.reader :=
  standsAlone_of_written reader_sound fun w e written =>
    (readAll_eq_ok reader w e).mp (readAll_of_written written)

/-- Whatever is matched at the front of a text, as an expression or as dice, is read from the bytes
up to where the match ends as the same, and to the end. The whole text is read just if the match
ends where the text does. -/
theorem readAll_matched :
    (∀ (s rest : List Char) (e : Expr), readFront Expr.reader s = .ok (e, rest) →
      ∃ front, s = front ++ rest ∧
        front.utf8Encode = s.utf8Encode.extract 0 (byteOffset s rest.length) ∧
        readAll Expr.reader front = .ok e) ∧
    (∀ (s rest : List Char) (d : Dice), readFront Dice.reader s = .ok (d, rest) →
      ∃ front, s = front ++ rest ∧
        front.utf8Encode = s.utf8Encode.extract 0 (byteOffset s rest.length) ∧
        readAll Dice.reader front = .ok d) ∧
    (∀ (s : List Char) (e : Expr), readAll Expr.reader s = .ok e ↔
      ∃ rest, readFront Expr.reader s = .ok (e, rest) ∧
        byteOffset s rest.length = byteLength s) ∧
    ∀ (s : List Char) (d : Dice), readAll Dice.reader s = .ok d ↔
      ∃ rest, readFront Dice.reader s = .ok (d, rest) ∧
        byteOffset s rest.length = byteLength s :=
  ⟨fun _ _ _ => Expr.standsAlone_reader.readAll_front,
    fun _ _ _ => Dice.standsAlone_reader.readAll_front,
    fun _ _ => Expr.standsAlone_reader.readAll_iff,
    fun _ _ => Dice.standsAlone_reader.readAll_iff⟩

/-- A count that is too large for the lowest leaves the letter of another rule behind, and dice
without sides leave a number. -/
theorem readAll_matched_backtracking :
    (readFront Dice.reader "3d6kl70000".toList =
        .ok (⟨3, 6, some ⟨.keepHighest, 1⟩⟩, "l70000".toList) ∧
      ∃ front, "3d6kl70000".toList = front ++ "l70000".toList ∧
        readAll Dice.reader front = .ok ⟨3, 6, some ⟨.keepHighest, 1⟩⟩) ∧
    (readFront Expr.reader "\u2003(2)-2d0".toList =
        .ok (.binary .sub (.group (.number (.ofNat 2))) (.number (.ofNat 2)), "d0".toList) ∧
      ∃ front, front.utf8Encode = "\u2003(2)-2d0".toList.utf8Encode.extract 0 8 ∧
        readAll Expr.reader front =
          .ok (.binary .sub (.group (.number (.ofNat 2))) (.number (.ofNat 2)))) := by
  obtain ⟨expr, dice, -, -⟩ := readAll_matched
  have kept : readFront Dice.reader "3d6kl70000".toList =
      .ok (⟨3, 6, some ⟨.keepHighest, 1⟩⟩, "l70000".toList) := by
    rw [← toOption_eq_some]
    decide +kernel
  have difference : readFront Expr.reader "\u2003(2)-2d0".toList =
      .ok (.binary .sub (.group (.number (.ofNat 2))) (.number (.ofNat 2)), "d0".toList) := by
    rw [← toOption_eq_some]
    decide +kernel
  obtain ⟨front, split, -, alone⟩ := dice _ _ _ kept
  obtain ⟨left, -, bytes, whole⟩ := expr _ _ _ difference
  exact ⟨⟨kept, front, split, alone⟩, difference, left, bytes, whole⟩

end DiceChat

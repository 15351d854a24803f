import DiceChat.Proofs.Json.Numbers

/-!
# Written JSON reads back

Text written from a value is read as that value, in any layout that puts nothing but blanks
between the tokens. A value has to have a text of its own: its floats are finite, its integers
have at most 64 bits, and it is not nested deeper than the reader goes.
-/

namespace DiceChat

theorem mapM_map_eq_some {α β γ : Type} {f : β → Option γ} {g : α → β} {k : α → γ}
    {items : List α} (h : ∀ a ∈ items, f (g a) = some (k a)) :
    (items.map g).mapM f = some (items.map k) := by
  induction items with
  | nil => rfl
  | cons a items ih =>
    rw [List.map_cons, List.mapM_cons, h a (.head _), ih fun b hb => h b (.tail _ hb)]
    rfl

theorem mapM_map_of_inverse {α β : Type} {f : β → Option α} {g : α → β} {items : List α}
    (h : ∀ a ∈ items, f (g a) = some a) : (items.map g).mapM f = some items :=
  (mapM_map_eq_some h).trans (congrArg some items.map_id)

namespace Json

-- ---------------------------------------------------------------------------
-- Strings
-- ---------------------------------------------------------------------------

theorem unitOfHex?_of_lt {n : Nat} (h : n < 32) :
    unitOfHex? '0' '0' (Nat.digitChar (n / 16)) (Nat.digitChar (n % 16)) = some n := by
  have : ∀ n < 32,
      unitOfHex? '0' '0' (Nat.digitChar (n / 16)) (Nat.digitChar (n % 16)) = some n := by
    decide
  exact this n h

theorem escapedChar_cases (c : Char) :
    (∃ x, escapedChar c = ['\\', x] ∧ x ≠ 'u' ∧ unescaped? x = some c) ∨
    (c.toNat < 32 ∧ escapedChar c =
      ['\\', 'u', '0', '0', Nat.digitChar (c.toNat / 16), Nat.digitChar (c.toNat % 16)]) ∨
    (¬ c.toNat < 32 ∧ c ≠ '"' ∧ c ≠ '\\' ∧ escapedChar c = [c]) := by
  unfold escapedChar
  -- The seven characters that have a letter of their own.
  iterate 7
    split
    · next h => exact .inl ⟨_, rfl, by decide, by rw [h]; rfl⟩
  split
  · next h => exact .inr (.inl ⟨h, rfl⟩)
  · next h => exact .inr (.inr ⟨h, ‹_›, ‹_›, rfl⟩)

theorem readCodes_escapedChar (c : Char) (s : List Char) :
    readCodes (escapedChar c ++ s) =
      (readCodes s).map fun (codes, rest) => (c.toNat :: codes, rest) := by
  rcases escapedChar_cases c with
    ⟨x, hc, hx, hunescaped⟩ | ⟨hcode, hc⟩ | ⟨hcode, hquote, hslash, hc⟩
  · rw [hc, List.cons_append, List.singleton_append, readCodes]
    · rw [hunescaped]
      cases readCodes s <;> rfl
    · rintro _ _ _ _ _ rfl
      exact absurd rfl hx
  · rw [hc]
    simp only [List.cons_append, List.nil_append, readCodes, unitOfHex?_of_lt hcode]
    cases readCodes s <;> rfl
  · rw [hc, List.singleton_append, readCodes]
    · simp [hcode, hslash]
    · exact hquote
    · exact fun _ _ _ _ _ h _ => hslash h
    · exact fun _ _ h _ => hslash h

theorem readCodes_flatMap (cs rest : List Char) :
    readCodes (cs.flatMap escapedChar ++ '"' :: rest) = some (cs.map Char.toNat, rest) := by
  induction cs with
  | nil => rfl
  | cons c cs ih => rw [List.flatMap_cons, List.append_assoc, readCodes_escapedChar, ih]; rfl

theorem charsOfCodes?_map_toNat (cs : List Char) :
    charsOfCodes? (cs.map Char.toNat) = some cs := by
  have alone (c : Char) : isHighSurrogate c.toNat = false ∧ isLowSurrogate c.toNat = false := by
    have valid : c.toNat < 0xD800 ∨ 0xDFFF < c.toNat ∧ c.toNat < 0x110000 := c.valid
    simp only [isHighSurrogate, isLowSurrogate, Bool.and_eq_false_iff, decide_eq_false_iff_not]
    omega
  induction cs with
  | nil => rfl
  | cons c cs ih =>
    cases cs with
    | nil => simp [charsOfCodes?, alone]
    | cons d cs =>
      simp only [List.map_cons] at ih
      simp [charsOfCodes?, alone, ih]

theorem readString_quoted (s : String) (rest : List Char) :
    readString (s.toList.flatMap escapedChar ++ '"' :: rest) = some (some s, rest) := by
  simp [readString, readCodes_flatMap, charsOfCodes?_map_toNat]

theorem quoted_append (s : String) (rest : List Char) :
    quoted s ++ rest = '"' :: (s.toList.flatMap escapedChar ++ '"' :: rest) := by
  simp [quoted]

-- ---------------------------------------------------------------------------
-- Blanks
-- ---------------------------------------------------------------------------

structure Layout.IsBlank (layout : Layout) : Prop where
  newline : ∀ depth, ∀ c ∈ layout.newline depth, isBlank c = true
  gap : ∀ c ∈ layout.gap, isBlank c = true

theorem Layout.isBlank_compact : Layout.compact.IsBlank := ⟨nofun, nofun⟩

theorem Layout.isBlank_indented : Layout.indented.IsBlank where
  newline depth c hc := by
    rcases List.mem_cons.mp hc with rfl | hc
    · rfl
    · rw [List.eq_of_mem_replicate hc]
      rfl
  gap c hc := by
    rw [List.mem_singleton.mp hc]
    rfl

@[simp] theorem skipBlanks_comma (rest : List Char) : skipBlanks (',' :: rest) = ',' :: rest := rfl

@[simp] theorem skipBlanks_colon (rest : List Char) : skipBlanks (':' :: rest) = ':' :: rest := rfl

theorem skipBlanks_append {w : List Char} (h : ∀ c ∈ w, isBlank c = true) (rest : List Char) :
    skipBlanks (w ++ rest) = skipBlanks rest :=
  List.dropWhile_append_of_pos h

theorem skipBlanks_cons {c : Char} (h : isBlank c = false) (rest : List Char) :
    skipBlanks (c :: rest) = c :: rest :=
  List.dropWhile_cons_of_neg (by simp [h])

theorem endsNumber_cons {c : Char} (h : c = ',' ∨ c = ']' ∨ c = '\x7d' ∨ isBlank c = true)
    (rest : List Char) : EndsNumber (c :: rest) := by
  rintro _ ⟨⟩
  simp only [isBlank, Bool.or_eq_true, decide_eq_true_eq] at h
  rcases h with rfl | rfl | rfl | ((rfl | rfl) | rfl) | rfl <;> decide

theorem endsNumber_append {w rest : List Char} (h : ∀ c ∈ w, isBlank c = true)
    (hr : EndsNumber rest) : EndsNumber (w ++ rest) := by
  cases w with
  | nil => exact hr
  | cons c w => exact endsNumber_cons (.inr (.inr (.inr (h c (.head _))))) _

-- ---------------------------------------------------------------------------
-- Values
-- ---------------------------------------------------------------------------

mutual
/-- A value with a text of its own, which is nested at most `room` levels deep. -/
def Fits : Nat → Json → Prop
  | _, .null | _, .bool _ | _, .string _ => True
  | _, .integer n => isIntegral n = true
  | _, .float x => x.isFinite = true
  | room + 1, .array items => FitAll room items
  | room + 1, .object members => FitMembers room members
  | 0, .array _ | 0, .object _ | _, .unusable => False
def FitAll : Nat → List Json → Prop
  | _, [] => True
  | room, j :: rest => Fits room j ∧ FitAll room rest
def FitMembers : Nat → List (String × Json) → Prop
  | _, [] => True
  | room, (_, j) :: rest => Fits room j ∧ FitMembers room rest
end

mutual
theorem Fits.isUsable : ∀ {room : Nat} {j : Json}, Fits room j → j.isUsable = true
  | _, .null, _ | _, .bool _, _ | _, .string _, _ | _, .integer _, _ | _, .float _, _ => rfl
  | _ + 1, .array _, h => FitAll.areUsable h
  | _ + 1, .object _, h => FitMembers.haveUsable h
theorem FitAll.areUsable : ∀ {room : Nat} {items : List Json}, FitAll room items →
    Json.areUsable items = true
  | _, [], _ => rfl
  | _, _ :: _, h => Bool.and_eq_true_iff.mpr ⟨h.1.isUsable, FitAll.areUsable h.2⟩
theorem FitMembers.haveUsable : ∀ {room : Nat} {members : List (String × Json)},
    FitMembers room members → Json.haveUsable members = true
  | _, [], _ => rfl
  | _, _ :: _, h => Bool.and_eq_true_iff.mpr ⟨h.1.isUsable, FitMembers.haveUsable h.2⟩
end

theorem fitAll_map {α : Type} {f : α → Json} {room : Nat} {items : List α}
    (h : ∀ a ∈ items, Fits room (f a)) : FitAll room (items.map f) := by
  induction items with
  | nil => trivial
  | cons a items ih => exact ⟨h a (.head _), ih fun b hb => h b (.tail _ hb)⟩

def StartsNumber (c : Char) : Prop := c = '-' ∨ c.isDigit = true

instance (c : Char) : Decidable (StartsNumber c) := inferInstanceAs (Decidable (_ ∨ _))

theorem readNumber_of_not_starts {c : Char} (h : ¬ StartsNumber c) (rest : List Char) :
    readNumber (c :: rest) = none := by
  have hsign : c ≠ '-' := fun hc => h (.inl hc)
  have hdigit : c.isDigit = false := by simpa using fun hc => h (.inr hc)
  have hzero : c ≠ '0' := by
    rintro rfl
    exact absurd hdigit (by decide)
  have hwhole : readWhole (c :: rest) = none := by
    rw [readWhole]
    · simp [readDigits, hdigit]
    · rintro _ ⟨⟩
      exact hzero rfl
  rw [readNumber]
  · rw [readMagnitude, hwhole]
    rfl
  · rintro _ ⟨⟩
    exact hsign rfl

theorem startsNumber_of_readNumber {s : List Char} {r : Json × List Char}
    (h : readNumber s = some r) : ∃ c rest, s = c :: rest ∧ StartsNumber c := by
  cases s with
  | nil => cases h
  | cons c rest =>
    refine ⟨c, rest, rfl, Decidable.by_contra fun hc => ?_⟩
    rw [readNumber_of_not_starts hc] at h
    cases h

theorem StartsNumber.ne {c d : Char} (h : StartsNumber c) (hd : ¬ StartsNumber d) : c ≠ d := by
  rintro rfl
  exact hd h

theorem readValue_number {fuel room : Nat} {s : List Char} {r : Json × List Char}
    (h : readNumber s = some r) : readValue (fuel + 1) room s = some r := by
  obtain ⟨c, rest, rfl, hc⟩ := startsNumber_of_readNumber h
  rw [readValue, h]
  -- No other value begins like a number.
  all_goals
    rintro _ ⟨⟩
    exact absurd hc (by decide)

theorem write_head {room : Nat} {j : Json} (h : Fits room j) (layout : Layout) (depth : Nat) :
    ∃ c rest, write layout depth j = c :: rest ∧ isBlank c = false ∧ c ≠ ']' := by
  have number {s : List Char} (h : readNumber (s ++ []) = some (j, [])) :
      ∃ c rest, s = c :: rest ∧ isBlank c = false ∧ c ≠ ']' := by
    rw [List.append_nil] at h
    obtain ⟨c, rest, hs, hc⟩ := startsNumber_of_readNumber h
    refine ⟨c, rest, hs, ?_, hc.ne (by decide)⟩
    simp only [isBlank, Bool.or_eq_false_iff, decide_eq_false_iff_not]
    exact ⟨⟨⟨hc.ne (by decide), hc.ne (by decide)⟩, hc.ne (by decide)⟩, hc.ne (by decide)⟩
  cases j with
  | null => exact ⟨_, _, rfl, rfl, by decide⟩
  | bool b => cases b <;> exact ⟨_, _, rfl, rfl, by decide⟩
  | string s => exact ⟨_, _, rfl, rfl, by decide⟩
  | array items => cases items <;> exact ⟨_, _, rfl, rfl, by decide⟩
  | object members => cases members <;> exact ⟨_, _, rfl, rfl, by decide⟩
  | integer n => exact number (readNumber_repr (by simpa [Fits] using h) nofun)
  | float x => exact number (readNumber_floatChars (by simpa [Fits] using h) nofun)
  | unusable => cases h

-- ---------------------------------------------------------------------------
-- Reading what was written
-- ---------------------------------------------------------------------------

/-- With so many steps, whatever is short enough is read from its text. -/
structure ReadsWritten (layout : Layout) (fuel : Nat) : Prop where
  value : ∀ {room : Nat} {j : Json} (depth : Nat) (rest : List Char), Fits room j →
    2 * (write layout depth j).length + 1 ≤ fuel → EndsNumber rest →
    readValue fuel room (write layout depth j ++ rest) = some (j, rest)
  items : ∀ {room : Nat} {j : Json} {items : List Json} (depth : Nat) (rest : List Char),
    Fits room j → FitAll room items →
    2 * (write layout (depth + 1) j ++ writeItems layout depth items).length + 2 ≤ fuel →
    readItems fuel room (write layout (depth + 1) j ++ (writeItems layout depth items ++ rest)) =
      some (j :: items, rest)
  members : ∀ {room : Nat} {j : Json} {members : List (String × Json)} (depth : Nat)
    (key : String) (rest : List Char), Fits room j → FitMembers room members →
    2 * (write layout (depth + 1) j ++ writeMembers layout depth members).length + 2 ≤ fuel →
    readMembers fuel room (quoted key ++ ':' :: (layout.gap ++ (write layout (depth + 1) j ++
      (writeMembers layout depth members ++ rest)))) =
        some ((some key, j) :: members.map fun m => (some m.1, m.2), rest)

section steps

variable {layout : Layout} {fuel room depth : Nat} {j : Json} {rest : List Char}

theorem endsNumber_writeItems (hl : layout.IsBlank) (depth : Nat) (items : List Json)
    (rest : List Char) : EndsNumber (writeItems layout depth items ++ rest) := by
  cases items with
  | nil =>
    rw [writeItems, List.append_assoc]
    exact endsNumber_append (hl.newline depth) (endsNumber_cons (by simp) rest)
  | cons j items => exact endsNumber_cons (by simp) _

theorem endsNumber_writeMembers (hl : layout.IsBlank) (depth : Nat)
    (members : List (String × Json)) (rest : List Char) :
    EndsNumber (writeMembers layout depth members ++ rest) := by
  cases members with
  | nil =>
    rw [writeMembers, List.append_assoc]
    exact endsNumber_append (hl.newline depth) (endsNumber_cons (by simp) rest)
  | cons member members => exact endsNumber_cons (by simp) _

theorem objectOf_map (members : List (String × Json)) :
    objectOf (members.map fun m => (some m.1, m.2)) = .object members := by
  rw [objectOf, mapM_map_of_inverse]
  exact fun _ _ => rfl

theorem skipBlanks_write (h : Fits room j) (layout : Layout) (depth : Nat) (rest : List Char) :
    skipBlanks (write layout depth j ++ rest) = write layout depth j ++ rest := by
  obtain ⟨c, s, hs, hc, -⟩ := write_head h layout depth
  rw [hs]
  exact skipBlanks_cons hc _

theorem skipBlanks_quoted (s : String) (rest : List Char) :
    skipBlanks (quoted s ++ rest) = quoted s ++ rest :=
  skipBlanks_cons (by decide) _

theorem readItems_step (hl : layout.IsBlank) (ih : ReadsWritten layout fuel) {items : List Json}
    (hj : Fits room j) (hitems : FitAll room items)
    (hfuel : 2 * (write layout (depth + 1) j ++ writeItems layout depth items).length + 2 ≤
      fuel + 1) :
    readItems (fuel + 1) room
      (write layout (depth + 1) j ++ (writeItems layout depth items ++ rest)) =
        some (j :: items, rest) := by
  rw [List.length_append] at hfuel
  rw [readItems, ih.value _ _ hj (by omega) (endsNumber_writeItems hl depth items rest)]
  cases items with
  | nil =>
    have close : skipBlanks (writeItems layout depth [] ++ rest) = ']' :: rest := by
      rw [writeItems, List.append_assoc, skipBlanks_append (hl.newline depth),
        List.singleton_append, skipBlanks_cons (by decide)]
    simp [close]
  | cons next items =>
    obtain ⟨hnext, hitems⟩ := hitems
    have following : skipBlanks (writeItems layout depth (next :: items) ++ rest) =
        ',' :: (layout.newline (depth + 1) ++ (write layout (depth + 1) next ++
          (writeItems layout depth items ++ rest))) := by
      simp [writeItems]
    simp only [writeItems, List.length_append, List.length_cons] at hfuel
    have hread := ih.items depth rest hnext hitems
      (by rw [List.length_append]; omega)
    simp [following, skipBlanks_append (hl.newline (depth + 1)), skipBlanks_write hnext, hread]

theorem readMembers_step (hl : layout.IsBlank) (ih : ReadsWritten layout fuel) {key : String}
    {members : List (String × Json)} (hj : Fits room j) (hmembers : FitMembers room members)
    (hfuel : 2 * (write layout (depth + 1) j ++ writeMembers layout depth members).length + 2 ≤
      fuel + 1) :
    readMembers (fuel + 1) room (quoted key ++ ':' :: (layout.gap ++
      (write layout (depth + 1) j ++ (writeMembers layout depth members ++ rest)))) =
        some ((some key, j) :: members.map fun m => (some m.1, m.2), rest) := by
  rw [List.length_append] at hfuel
  have hread := ih.value (depth + 1) _ hj (by omega)
    (endsNumber_writeMembers hl depth members rest)
  rw [quoted_append, readMembers, readString_quoted]
  cases members with
  | nil =>
    have close : skipBlanks (writeMembers layout depth [] ++ rest) = '\x7d' :: rest := by
      rw [writeMembers, List.append_assoc, skipBlanks_append (hl.newline depth),
        List.singleton_append, skipBlanks_cons (by decide)]
    simp [skipBlanks_append hl.gap, skipBlanks_write hj, hread, close]
  | cons member members =>
    obtain ⟨nextKey, next⟩ := member
    obtain ⟨hnext, hmembers⟩ := hmembers
    have following : skipBlanks (writeMembers layout depth ((nextKey, next) :: members) ++ rest) =
        ',' :: (layout.newline (depth + 1) ++ (quoted nextKey ++ ':' :: (layout.gap ++
          (write layout (depth + 1) next ++ (writeMembers layout depth members ++ rest))))) := by
      simp [writeMembers]
    simp only [writeMembers, List.length_append, List.length_cons] at hfuel
    have hreadMembers := ih.members depth nextKey rest hnext hmembers
      (by rw [List.length_append]; omega)
    simp [skipBlanks_append hl.gap, skipBlanks_write hj, hread, following,
      skipBlanks_append (hl.newline (depth + 1)), skipBlanks_quoted, hreadMembers]

theorem readValue_array (hl : layout.IsBlank) (ih : ReadsWritten layout fuel) {items : List Json}
    (hj : Fits room j) (hitems : FitAll room items)
    (hfuel : 2 * (write layout depth (.array (j :: items))).length + 1 ≤ fuel + 1) :
    readValue (fuel + 1) (room + 1) (write layout depth (.array (j :: items)) ++ rest) =
      some (.array (j :: items), rest) := by
  have opened : write layout depth (.array (j :: items)) ++ rest =
      '[' :: (layout.newline (depth + 1) ++ (write layout (depth + 1) j ++
        (writeItems layout depth items ++ rest))) := by
    simp [write]
  simp only [write, List.length_append, List.length_cons] at hfuel
  have hread := ih.items depth rest hj hitems (by rw [List.length_append]; omega)
  -- What follows the bracket is not taken for the end of an empty array.
  obtain ⟨c, s, hs, -, hc⟩ := write_head hj layout (depth + 1)
  rw [opened, readValue, skipBlanks_append (hl.newline _), skipBlanks_write hj]
  rw [hs, List.cons_append] at hread ⊢
  simp [hc, hread]

theorem readValue_object (hl : layout.IsBlank) (ih : ReadsWritten layout fuel) {key : String}
    {members : List (String × Json)} (hj : Fits room j) (hmembers : FitMembers room members)
    (hfuel : 2 * (write layout depth (.object ((key, j) :: members))).length + 1 ≤ fuel + 1) :
    readValue (fuel + 1) (room + 1) (write layout depth (.object ((key, j) :: members)) ++ rest) =
      some (.object ((key, j) :: members), rest) := by
  have opened : write layout depth (.object ((key, j) :: members)) ++ rest =
      '\x7b' :: (layout.newline (depth + 1) ++ (quoted key ++ ':' :: (layout.gap ++
        (write layout (depth + 1) j ++ (writeMembers layout depth members ++ rest))))) := by
    simp [write]
  simp only [write, List.length_append, List.length_cons] at hfuel
  have hread := ih.members depth key rest hj hmembers (by rw [List.length_append]; omega)
  have hobject := objectOf_map ((key, j) :: members)
  rw [opened, readValue, skipBlanks_append (hl.newline _), skipBlanks_quoted]
  rw [quoted_append] at hread ⊢
  rw [List.map_cons] at hobject
  simp [hread, hobject]

theorem readValue_step (hl : layout.IsBlank) (ih : ReadsWritten layout fuel) (hj : Fits room j)
    (hfuel : 2 * (write layout depth j).length + 1 ≤ fuel + 1) (hr : EndsNumber rest) :
    readValue (fuel + 1) room (write layout depth j ++ rest) = some (j, rest) := by
  cases j with
  | null => rfl
  | bool b => cases b <;> rfl
  | integer n => exact readValue_number (readNumber_repr (by simpa [Fits] using hj) hr)
  | float x => exact readValue_number (readNumber_floatChars (by simpa [Fits] using hj) hr)
  | string s =>
    rw [write, quoted_append, readValue, readString_quoted]
    rfl
  | array items =>
    obtain _ | room := room
    · cases hj
    obtain _ | ⟨j, items⟩ := items
    · rfl
    · exact readValue_array hl ih hj.1 hj.2 hfuel
  | object members =>
    obtain _ | room := room
    · cases hj
    obtain _ | ⟨⟨key, j⟩, members⟩ := members
    · rfl
    · exact readValue_object hl ih hj.1 hj.2 hfuel
  | unusable => cases hj

end steps

theorem readsWritten {layout : Layout} (hl : layout.IsBlank) (fuel : Nat) :
    ReadsWritten layout fuel := by
  -- What is inside a value is shorter than its text, and so are the items left to read.
  induction fuel with
  | zero =>
    exact ⟨fun _ _ _ h => by omega, fun _ _ _ _ h => by omega, fun _ _ _ _ _ h => by omega⟩
  | succ fuel ih =>
    exact ⟨fun _ _ => readValue_step hl ih, fun _ _ => readItems_step hl ih,
      fun _ _ _ => readMembers_step hl ih⟩

/-- What is written in any layout is read as it was, also with blanks behind it. -/
theorem parseWithin_write_append {layout : Layout} (hl : layout.IsBlank) {room : Nat} {j : Json}
    {w : List Char} (h : Fits room j) (blank : ∀ c ∈ w, isBlank c = true) :
    parseWithin room (String.ofList (write layout 0 j ++ w)) = some j := by
  have ends : EndsNumber w := by
    rw [← List.append_nil w]
    exact endsNumber_append blank nofun
  have behind : skipBlanks w = [] := by
    rw [← List.append_nil w, skipBlanks_append blank]
    rfl
  have start := skipBlanks_write h layout 0 w
  have hread := (readsWritten hl (2 * (write layout 0 j ++ w).length + 1)).value 0 w h
    (by rw [List.length_append]; omega) ends
  simp only [parseWithin, String.toList_ofList, start, hread, behind]
  rfl

theorem parseWithin_write {layout : Layout} (hl : layout.IsBlank) {room : Nat} {j : Json}
    (h : Fits room j) : parseWithin room (String.ofList (write layout 0 j)) = some j := by
  simpa using parseWithin_write_append (w := []) hl h nofun

end Json
end DiceChat

import DiceChat.Proofs.Chat.Hydration

/-!
# Filling any template

A template may name its places in any order, more than once, and name places that nothing is given
for. Such a place is not read as a whole: its opening brace stands alone, and its closing brace may
be paired with one of a doubled brace after it, which then leaves the other one alone. The text is
the same in every case.
-/

namespace DiceChat

/-- A stretch of text, or the place with some number. -/
inductive Slot where
  | text (s : List Char)
  | place (n : Nat)

namespace Slot

variable {α : Type} {m : Type → Type} [Monad m]

def written : Slot → List Char
  | .text s => s.flatMap Template.escaped
  | .place n => Template.placeholder n

/-- A place that nothing is given for shows as it is written. -/
def shown (render : α → m (List Char)) (fillings : List α) : Slot → m (List Char)
  | .text s => return s
  | .place n =>
    match fillings[n]? with
    | some a => render a
    | none => return Template.placeholder n

def parts (fillings : List α) : Slot → List (Part α)
  | .text s => Part.ofText s
  | .place n =>
    match fillings[n]? with
    | some a => [.filling a]
    | none => Part.ofText (Template.placeholder n)

end Slot

namespace Template

variable {α : Type} (fillings : List α)

-- ---------------------------------------------------------------------------
-- What is read off the front of a template
-- ---------------------------------------------------------------------------

theorem read_text (s rest : List Char) :
    read fillings (s.flatMap escaped ++ rest) = Part.ofText s ++ read fillings rest := by
  induction s with
  | nil => rfl
  | cons c s ih =>
    rw [List.flatMap_cons, List.append_assoc, read_escaped, ih]
    rfl

theorem read_of_no_brace {s : List Char} (h : ∀ c ∈ s, isBrace c = false) (rest : List Char) :
    read fillings (s ++ rest) = Part.ofText s ++ read fillings rest := by
  induction s with
  | nil => rfl
  | cons c s ih =>
    obtain ⟨hc, hs⟩ := List.forall_mem_cons.mp h
    have single : escaped c = [c] := if_neg (by simp [hc])
    have first := read_escaped fillings c (s ++ rest)
    rw [single] at first
    exact first.trans (congrArg _ (ih hs))

theorem read_closing_of_head_ne {rest : List Char} (h : rest.head? ≠ some '\x7d') :
    read fillings ('\x7d' :: rest) = .literal '\x7d' :: read fillings rest := by
  simp [read, readFrom, h]

/-- A place that nothing is given for reads as its characters, but what its closing brace reads as
depends on what follows. -/
theorem read_placeholder_of_none {n : Nat} (h : fillings[n]? = none) (rest : List Char) :
    read fillings (placeholder n ++ rest) =
      .literal '\x7b' :: (Part.ofText (Nat.toDigits 10 n) ++ read fillings ('\x7d' :: rest)) := by
  have digits : ∀ c ∈ Nat.toDigits 10 n, isBrace c = false := fun c hc =>
    isBrace_of_isDigit (Nat.isDigit_of_mem_toDigits (by decide) (by decide) hc)
  rw [read_placeholder, h]
  exact congrArg _ (read_of_no_brace fillings digits _)

/-- A closing brace in front of slots stands for itself, though it may be read together with the
first of two that stand for another one. -/
theorem read_closing_written (slots : List Slot) :
    read fillings ('\x7d' :: slots.flatMap Slot.written) =
      .literal '\x7d' :: read fillings (slots.flatMap Slot.written) := by
  induction slots with
  | nil => rfl
  | cons slot slots ih =>
    cases slot with
    | place n => exact read_closing_of_head_ne fillings (by simp [Slot.written, placeholder])
    | text s =>
      rw [List.flatMap_cons, Slot.written]
      induction s with
      | nil => exact ih
      | cons c s ihs =>
        rw [List.flatMap_cons, List.append_assoc, read_escaped]
        -- Of three closing braces the first two are read together, and the third one is left over.
        by_cases h : c = '\x7d'
        · subst h
          exact (read_escaped fillings '\x7d' _).trans (congrArg _ ihs)
        · rw [read_closing_of_head_ne, read_escaped]
          unfold escaped
          split <;> simp [h]

theorem read_written (slots : List Slot) :
    read fillings (slots.flatMap Slot.written) = slots.flatMap (Slot.parts fillings) := by
  induction slots with
  | nil => rfl
  | cons slot slots ih =>
    rw [List.flatMap_cons, List.flatMap_cons]
    cases slot with
    | text s => rw [Slot.written, read_text, ih, Slot.parts]
    | place n =>
      rw [Slot.written, Slot.parts]
      cases given : fillings[n]? with
      | some a =>
        rw [read_placeholder, given, ih]
        rfl
      | none =>
        rw [read_placeholder_of_none fillings given, read_closing_written, ih]
        simp [Part.ofText, placeholder]

theorem render_parts {m : Type → Type} [Monad m] [LawfulMonad m] (f : α → m (List Char))
    (slots : List Slot) :
    render f (slots.flatMap (Slot.parts fillings)) =
      List.flatten <$> slots.mapM (Slot.shown f fillings) := by
  induction slots with
  | nil => simp [render]
  | cons slot slots ih =>
    rw [List.flatMap_cons, List.mapM_cons]
    cases slot with
    | text s => simp [Slot.parts, Slot.shown, ih]
    | place n =>
      simp only [Slot.parts, Slot.shown]
      cases fillings[n]? with
      | some a => simp [render, ih]
      | none => simp [ih]

end Template

namespace Segmented

/-- Hydrating shows the slots of a template in turn: the text as it was before its braces were
doubled, what the renderer makes of a result at each of its places, and every other place as it
is written. -/
theorem hydrate_slots {m : Type → Type} [Monad m] [LawfulMonad m]
    (render : RollResult → m (List Char)) {results : List RollResult} (h : results ≠ [])
    (slots : List Slot) :
    (Segmented.mk (String.ofList (slots.flatMap Slot.written)) results).hydrate render =
      List.flatten <$> slots.mapM (Slot.shown render results) := by
  rw [hydrate, parts, if_neg (by simpa using h), String.toList_ofList, Template.read_written,
    Template.render_parts]

/-- A renderer that counts its calls. The place of no result stands between braces of the text, and
a result that is rendered as a place is not filled again. -/
theorem hydrate_slots_counting :
    [RollResult.mk (.ofNat 4) []] ≠ [] ∧
    (Segmented.mk "\x7b\x7b\x7b7\x7d\x7d\x7d \x7b0\x7d\x7b18446744073709551616\x7d\x7d\x7d\x7b0\x7d"
      [⟨.ofNat 4, []⟩]).hydrate (m := StateM Nat) (fun _ n => (Template.placeholder n, n + 1)) 0 =
      ("\x7b\x7b7\x7d\x7d \x7b0\x7d\x7b18446744073709551616\x7d\x7d\x7b1\x7d".toList, 2) := by
  have results : [RollResult.mk (.ofNat 4) []] ≠ [] := by simp
  have hydrated := hydrate_slots (m := StateM Nat) (fun _ n => (Template.placeholder n, n + 1))
    results [.text ['\x7b'], .place 7, .text ['\x7d', ' '], .place 0,
      .place 18446744073709551616, .text ['\x7d'], .place 0]
  refine ⟨results, (congrFun hydrated 0).trans ?_⟩
  show @Eq (List Char × Nat) _ _
  decide +kernel

end Segmented
end DiceChat

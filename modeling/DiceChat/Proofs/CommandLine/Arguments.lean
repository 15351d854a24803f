import DiceChat.CommandLine.Options

/-!
# Arguments for given options

All options can be given by arguments, and every text can be the input: after two dashes it is
taken as it stands, whatever it looks like.
-/

namespace DiceChat.CommandLine

theorem longNumber?_repr {n : Nat} (h : n < UInt64.size) : longNumber? n.repr.toList = some n := by
  have digits : ∀ c ∈ Nat.toDigits 10 n, c.isDigit = true := fun c hc =>
    Nat.isDigit_of_mem_toDigits (by decide) (by decide) hc
  have filled : (Nat.toDigits 10 n).isEmpty = false :=
    List.isEmpty_eq_false_iff.mpr Nat.toDigits_ne_nil
  rw [Nat.toList_repr, longNumber?]
  · simp [filled, List.all_eq_true.mpr digits, h]
  · intro rest plus
    have digit := digits '+' (plus ▸ .head _)
    cases digit

namespace Options

def switchIf (s : Switch) (given : Bool) : List String := if given then [s.text] else []

def numberArguments (s : Switch) (number : Option Nat) : List String :=
  (number.map fun n => [s.text, n.repr]).getD []

def arguments (o : Options) : List String :=
  switchIf .chat o.chat ++ (switchIf .json o.json ++
    (numberArguments .seed (o.seed.map UInt64.toNat) ++
      (numberArguments .listLimit o.listLimit ++ "--" :: o.input)))

section steps

variable {o : Options} {s : Switch} {rest : List String}

theorem readLong_text (o : Options) (s : Switch) :
    ∃ c name, s.text.toList = '-' :: '-' :: c :: name ∧ o.readLong (c :: name) =
      if s.takesValue then .ok ⟨o, some s⟩ else (o.turnOn s).map (⟨·, none⟩) := by
  cases s <;> exact ⟨_, _, rfl, rfl⟩

theorem readFrom_text :
    readFrom ⟨o, none⟩ (s.text :: rest) =
      (if s.takesValue then .ok ⟨o, some s⟩ else (o.turnOn s).map (⟨·, none⟩)) >>=
        (readFrom · rest) := by
  obtain ⟨c, name, text, long⟩ := readLong_text o s
  rw [readFrom, text, ← long]
  rfl

theorem readFrom_turnOn (h : s.takesValue = false) :
    readFrom ⟨o, none⟩ (s.text :: rest) = o.turnOn s >>= fun o => readFrom ⟨o, none⟩ rest := by
  rw [readFrom_text, h]
  cases o.turnOn s <;> rfl

theorem readFrom_setNumber (h : s.takesValue = true) {n : Nat} (small : n < UInt64.size) :
    readFrom ⟨o, none⟩ (s.text :: n.repr :: rest) =
      o.setNumber s n >>= fun o => readFrom ⟨o, none⟩ rest := by
  have first : n.repr.toList.head? ≠ some '-' := by
    intro dash
    have digit := Nat.isDigit_of_mem_toDigits (b := 10) (n := n) (c := '-') (by decide) (by decide)
      (by rw [← Nat.toList_repr]; exact List.mem_of_head? dash)
    cases digit
  rw [readFrom_text, if_pos h]
  show readFrom ⟨o, some s⟩ (n.repr :: rest) = _
  rw [readFrom, if_neg first, setValue, longNumber?_repr small]

theorem readFrom_dashes :
    readFrom ⟨o, none⟩ ("--" :: rest) = .ok { o with input := o.input ++ rest } := by
  rw [readFrom]
  rfl

end steps

section

variable {chat json : Bool} {seed : Option UInt64} {limit : Option Nat} {rest input : List String}

theorem readFrom_chat (given : Bool) :
    readFrom ⟨⟨false, json, seed, limit, input⟩, none⟩ (switchIf .chat given ++ rest) =
      readFrom ⟨⟨given, json, seed, limit, input⟩, none⟩ rest := by
  cases given with
  | false => rfl
  | true => exact readFrom_turnOn rfl

theorem readFrom_json (given : Bool) :
    readFrom ⟨⟨chat, false, seed, limit, input⟩, none⟩ (switchIf .json given ++ rest) =
      readFrom ⟨⟨chat, given, seed, limit, input⟩, none⟩ rest := by
  cases given with
  | false => rfl
  | true => exact readFrom_turnOn rfl

theorem readFrom_seed (given : Option UInt64) :
    readFrom ⟨⟨chat, json, none, limit, input⟩, none⟩
        (numberArguments .seed (given.map UInt64.toNat) ++ rest) =
      readFrom ⟨⟨chat, json, given, limit, input⟩, none⟩ rest := by
  cases given with
  | none => rfl
  | some n =>
    refine (readFrom_setNumber rfl n.toNat_lt).trans ?_
    rw [setNumber, UInt64.ofNat_toNat]
    rfl

theorem readFrom_listLimit {given : Option Nat} (small : ∀ n ∈ given, n < UInt64.size) :
    readFrom ⟨⟨chat, json, seed, none, input⟩, none⟩ (numberArguments .listLimit given ++ rest) =
      readFrom ⟨⟨chat, json, seed, given, input⟩, none⟩ rest := by
  cases given with
  | none => rfl
  | some n => exact readFrom_setNumber rfl (small n rfl)

end

/-- Options are read from their arguments. Without a seed of their own they need that there is none
elsewhere. -/
theorem read_arguments {o : Options} {otherSeed : Option String}
    (small : ∀ n ∈ o.listLimit, n < UInt64.size) (alone : o.seed = none → otherSeed = none) :
    read o.arguments otherSeed = .ok o := by
  obtain ⟨chat, json, seed, limit, input⟩ := o
  have whole : readFrom ⟨initial, none⟩ (arguments ⟨chat, json, seed, limit, input⟩) =
      .ok ⟨chat, json, seed, limit, input⟩ := by
    rw [arguments, initial, readFrom_chat, readFrom_json, readFrom_seed, readFrom_listLimit small,
      readFrom_dashes]
    rfl
  rw [read, whole]
  cases seed with
  | none =>
    rw [alone rfl]
    rfl
  | some n => rfl

end Options
end DiceChat.CommandLine

import DiceChat.Proofs.Wire.RoundTrip
import DiceChat.Proofs.Wire.Shape

/-!
# Members of the domain's records

Every record of the domain is read by the names of its members, in a message down to the dice of
its results. So neither their order nor other members matter, and only the selection of dice may be
left out. Which members a node has is told by its kind, wherever that stands.
-/

namespace DiceChat

open Json

-- ---------------------------------------------------------------------------
-- Shapes
-- ---------------------------------------------------------------------------

def Dice.fields : List (String × Shape) :=
  [("count", .value), ("sides", .value), ("selection", .selection)]

def DieDetail.fields : List (String × Shape) :=
  [("value", .value), ("crossedOut", .value), ("category", .value)]

namespace Node

def diceFields : List (String × Shape) :=
  [("content", .value), ("min", .value), ("max", .value),
    ("rolls", .list (.record DieDetail.fields))]

def tokenFields : List (String × Shape) := [("content", .value)]

/-- What a node of each kind has besides its kind. -/
def kinds : List (String × List (String × Shape)) :=
  [("DiceRoll", diceFields), ("Constant", tokenFields), ("Operator", tokenFields),
    ("OpenParen", tokenFields), ("CloseParen", tokenFields)]

end Node

def RollResult.fields : List (String × Shape) :=
  [("result", .value), ("detail", .list (.tagged Node.kinds))]

def Segmented.fields : List (String × Shape) :=
  [("content", .value), ("diceRolls", .list (.record RollResult.fields))]

def Message.fields : List (String × Shape) :=
  [("id", .value), ("author", .value), ("content", .value),
    ("diceRolls", .list (.record RollResult.fields))]

-- ---------------------------------------------------------------------------
-- Dice
-- ---------------------------------------------------------------------------

theorem Selection.length_of_ofJson? {members : List (String × Json)} {s : Selection}
    (h : ofJson? (.object members) = some s) : members.length = 1 := by
  obtain _ | ⟨_, _ | ⟨_, _⟩⟩ := members
  · cases h
  · rfl
  · cases h

theorem Selection.follows {α : Type} (part : α → Option Selection) :
    FollowsEntry .selection fun a v => optionOfJson? v = some (part a) where
  rearranged := by
    rintro _ _ a ⟨inside⟩
    cases inside with
    | here change => cases change
  damaged := by
    rintro _ _ a b (inside | required) given given'
    · cases inside with
      | here change =>
        cases change
        obtain ⟨s, hs, -⟩ := Option.map_eq_some_iff.mp given
        obtain ⟨t, ht, -⟩ := Option.map_eq_some_iff.mp given'
        have one := length_of_ofJson? hs
        have two := length_of_ofJson? ht
        simp only [List.length_append, List.length_cons] at one two
        omega
    · cases required

theorem Dice.readsEntries : ReadsEntries fields ofJson? := by
  have count := (follows_value word?).required fun (d : Dice) n => d.count = n
  have sides := (follows_value word?).required fun (d : Dice) n => d.sides = n
  have selection := Selection.follows Dice.selection
  refine ⟨_, .cons count (.cons sides (.cons selection .nil)), fun j d => ?_⟩
  simp only [List.forall₂_cons_left_iff, List.forall₂_nil_left_iff]
  unfold ofJson? Entries fields
  split
  · next u v w entries =>
    cases d
    simp [entries, Option.bind_eq_some_iff]
  · next other =>
    refine iff_of_false nofun ?_
    rintro ⟨_, entries, _, _, _, ⟨_, _, _, ⟨_, _, _, rfl, rfl⟩, rfl⟩, rfl⟩
    exact other _ _ _ entries

theorem DieDetail.readsEntries (inNode : Bool) : ReadsEntries fields (ofJson? inNode) := by
  have value := (follows_value word?).required fun (d : DieDetail) n => d.value = n
  have crossedOut := (follows_value bool?).required fun (d : DieDetail) b => d.crossedOut = b
  have category := (follows_value (Category.ofJson? inNode)).required
    fun (d : DieDetail) c => d.category = c
  refine ⟨_, .cons value (.cons crossedOut (.cons category .nil)), fun j d => ?_⟩
  simp only [List.forall₂_cons_left_iff, List.forall₂_nil_left_iff]
  unfold ofJson? Entries fields
  split
  · next u v w entries =>
    rcases d with ⟨_, _ | _, _⟩ <;> simp [entries, Option.bind_eq_some_iff]
  · next other =>
    refine iff_of_false nofun ?_
    rintro ⟨_, entries, _, _, _, ⟨_, _, _, ⟨_, _, _, rfl, rfl⟩, rfl⟩, rfl⟩
    exact other _ _ _ entries

theorem DieDetail.follows (inNode : Bool) : Follows (.record fields) (ofJson? inNode) :=
  (readsEntries inNode).follows (by decide)

-- ---------------------------------------------------------------------------
-- Nodes
-- ---------------------------------------------------------------------------

namespace Node

def ofDice? (j : Json) : Option Node :=
  match j.record? ["content", "min", "max", "rolls"] with
  | some [content, least, greatest, rolls] => do
    return .dice (← required? string? content) (← required? word? least)
      (← required? word? greatest) (← required? (list? (DieDetail.ofJson? true)) rolls)
  | _ => none

theorem readsEntries_dice : ReadsEntries diceFields ofDice? := by
  have content := (follows_value string?).required fun (n : Node) content =>
    ∃ least greatest rolls, n = .dice content least greatest rolls
  have least := (follows_value word?).required fun (n : Node) least =>
    ∃ content greatest rolls, n = .dice content least greatest rolls
  have greatest := (follows_value word?).required fun (n : Node) greatest =>
    ∃ content least rolls, n = .dice content least greatest rolls
  have rolls := (DieDetail.follows true).list.required fun (n : Node) rolls =>
    ∃ content least greatest, n = .dice content least greatest rolls
  refine ⟨_, .cons content (.cons least (.cons greatest (.cons rolls .nil))), fun j n => ?_⟩
  simp only [List.forall₂_cons_left_iff, List.forall₂_nil_left_iff]
  unfold ofDice? Entries diceFields
  split
  · next entries => cases n <;> simp [entries, Option.bind_eq_some_iff]
  · next other =>
    refine iff_of_false nofun ?_
    rintro ⟨_, entries, _, _, _, ⟨_, _, _, ⟨_, _, _, ⟨_, _, _, rfl, rfl⟩, rfl⟩, rfl⟩, rfl⟩
    exact other _ _ _ _ entries

def ofContent? (node : String → Node) (j : Json) : Option Node :=
  match j.record? ["content"] with
  | some [content] => (required? string? content).map node
  | _ => none

theorem readsEntries_content (node : String → Node) :
    ReadsEntries tokenFields (ofContent? node) := by
  have content := (follows_value string?).required fun (n : Node) content => node content = n
  refine ⟨_, .cons content .nil, fun j n => ?_⟩
  simp only [List.forall₂_cons_left_iff, List.forall₂_nil_left_iff]
  unfold ofContent? Entries tokenFields
  split
  · next entries => simp [entries]
  · next other =>
    refine iff_of_false nofun ?_
    rintro ⟨_, entries, _, _, _, rfl, rfl⟩
    exact other _ entries

theorem readsEntries_of_mem {entry : String × List (String × Shape)} (h : entry ∈ kinds) :
    ReadsEntries entry.2 (ofKind? entry.1) := by
  simp only [kinds, List.mem_cons, List.not_mem_nil, or_false] at h
  rcases h with rfl | rfl | rfl | rfl | rfl
  · exact readsEntries_dice
  · exact readsEntries_content .constant
  · exact readsEntries_content .operator
  · exact readsEntries_content .openParen
  · exact readsEntries_content .closeParen

theorem ofJson?_eq_some {j : Json} {n : Node} :
    ofJson? j = some n ↔
      j.isUsable = true ∧ ∃ kind, j.kind? = some kind ∧ ofKind? kind j.untagged = some n := by
  unfold ofJson? kind? untagged
  split
  · next usable =>
    cases j with
    | object members =>
      simp only [usable, true_and]
      constructor
      · intro given
        obtain ⟨v, found, given⟩ := Option.bind_eq_some_iff.mp given
        obtain ⟨kind, told, given⟩ := Option.bind_eq_some_iff.mp given
        exact ⟨kind, Option.bind_eq_some_iff.mpr ⟨v, found, told⟩, given⟩
      · rintro ⟨kind, told, given⟩
        obtain ⟨v, found, told⟩ := Option.bind_eq_some_iff.mp told
        refine Option.bind_eq_some_iff.mpr ⟨v, found, ?_⟩
        exact Option.bind_eq_some_iff.mpr ⟨kind, told, given⟩
    | array items =>
      obtain _ | ⟨first, rest⟩ := items
      · simp
      · cases first <;> simp [usable]
    | _ => simp
  · next unusable => simp [unusable]

theorem follows : Follows (.tagged kinds) ofJson? :=
  follows_tagged (fun entry h => ⟨by revert entry; decide, readsEntries_of_mem h⟩)
    fun _ _ => ofJson?_eq_some

end Node

-- ---------------------------------------------------------------------------
-- Results
-- ---------------------------------------------------------------------------

theorem RollResult.readsEntries : ReadsEntries fields ofJson? := by
  have value := (follows_value number?).required fun (r : RollResult) x => r.value = x
  have detail := Node.follows.list.required fun (r : RollResult) nodes => r.detail = nodes
  refine ⟨_, .cons value (.cons detail .nil), fun j r => ?_⟩
  simp only [List.forall₂_cons_left_iff, List.forall₂_nil_left_iff]
  unfold ofJson? Entries fields
  split
  · next entries =>
    cases r
    simp [entries, Option.bind_eq_some_iff]
  · next other =>
    refine iff_of_false nofun ?_
    rintro ⟨_, entries, _, _, _, ⟨_, _, _, rfl, rfl⟩, rfl⟩
    exact other _ _ entries

theorem RollResult.follows : Follows (.record fields) ofJson? :=
  readsEntries.follows (by decide)

theorem Segmented.readsEntries : ReadsEntries fields ofJson? := by
  have content := (follows_value string?).required fun (s : Segmented) text => s.content = text
  have results := RollResult.follows.list.required fun (s : Segmented) rs => s.results = rs
  refine ⟨_, .cons content (.cons results .nil), fun j s => ?_⟩
  simp only [List.forall₂_cons_left_iff, List.forall₂_nil_left_iff]
  unfold ofJson? Entries fields
  split
  · next entries =>
    cases s
    simp [entries, Option.bind_eq_some_iff]
  · next other =>
    refine iff_of_false nofun ?_
    rintro ⟨_, entries, _, _, _, ⟨_, _, _, rfl, rfl⟩, rfl⟩
    exact other _ _ entries

theorem Message.readsEntries : ReadsEntries fields ofJson? := by
  have id := (follows_value longWord?).required fun (m : Message) n => m.id = n
  have author := (follows_value string?).required fun (m : Message) text => m.author = text
  have content := (follows_value string?).required fun (m : Message) text => m.content = text
  have results := RollResult.follows.list.required fun (m : Message) rs => m.results = rs
  refine ⟨_, .cons id (.cons author (.cons content (.cons results .nil))), fun j m => ?_⟩
  simp only [List.forall₂_cons_left_iff, List.forall₂_nil_left_iff]
  unfold ofJson? Entries fields
  split
  · next entries =>
    cases m
    simp [entries, Option.bind_eq_some_iff]
  · next other =>
    refine iff_of_false nofun ?_
    rintro ⟨_, entries, _, _, _, ⟨_, _, _, ⟨_, _, _, ⟨_, _, _, rfl, rfl⟩, rfl⟩, rfl⟩, rfl⟩
    exact other _ _ _ _ entries

/-- Whatever is read of the domain is read by the names of members: what was written, and that and
all else that is read however its records are rearranged, at any depth. It is not read without a
member that is required or with another key in a selection. -/
theorem read_by_names :
    (Follows (.record Dice.fields) Dice.ofJson? ∧ ∀ d : Dice, Dice.ofJson? d.toJson = some d) ∧
    (∀ inNode, Follows (.record DieDetail.fields) (DieDetail.ofJson? inNode) ∧
      ∀ d : DieDetail, DieDetail.ofJson? inNode d.toJson = some d) ∧
    (Follows (.tagged Node.kinds) Node.ofJson? ∧ ∀ n : Node, Node.ofJson? n.toJson = some n) ∧
    (Follows (.record RollResult.fields) RollResult.ofJson? ∧
      ∀ r : RollResult, RollResult.ofJson? r.toJson = some r) ∧
    (Follows (.record Segmented.fields) Segmented.ofJson? ∧
      ∀ s : Segmented, Segmented.ofJson? s.toJson = some s) ∧
    Follows (.record Message.fields) Message.ofJson? ∧
      ∀ m : Message, Message.ofJson? m.toJson = some m := by
  have dice := Dice.readsEntries.follows (by decide)
  have segmented := Segmented.readsEntries.follows (by decide)
  have message := Message.readsEntries.follows (by decide)
  exact ⟨⟨dice, Dice.ofJson?_toJson⟩,
    fun inNode => ⟨DieDetail.follows inNode, fun d => d.ofJson?_toJson inNode⟩,
    ⟨Node.follows, Node.ofJson?_toJson⟩, ⟨RollResult.follows, RollResult.ofJson?_toJson⟩,
    ⟨segmented, Segmented.ofJson?_toJson⟩, message, Message.ofJson?_toJson⟩

theorem read_by_names_constant :
    RollResult.ofJson? (.object [("result", .integer 1), ("detail", .array [.object
        [("content", .string "1"), ("min", .null), ("type", .string "Constant")]])]) =
      some ⟨.nearest false 1 1, [.constant "1"]⟩ ∧
    RollResult.ofJson? (.object [("result", .integer 1), ("detail", .array [.object
        [("content", .string "1")]])]) = none := by
  obtain ⟨-, -, -, ⟨follows, -⟩, -⟩ := read_by_names
  have given : RollResult.ofJson? (.object [("result", .integer 1), ("detail", .array [.object
      [("type", .string "Constant"), ("content", .string "1")]])]) =
      some ⟨.nearest false 1 1, [.constant "1"]⟩ := rfl
  have listed : ("Constant", Node.tokenFields) ∈ Node.kinds := by simp [Node.kinds]
  have inside (change : Shape → Json → Json → Prop) (members members' : List (String × Json))
      (told : (Json.object members).kind? = some "Constant")
      (h : change (.record (("type", .value) :: Node.tokenFields)) (.object members)
        (.object members')) :
      Within change (.record RollResult.fields)
        (.object ([("result", .integer 1)] ++ [("detail", .array ([] ++ [.object members]))]))
        (.object ([("result", .integer 1)] ++ [("detail", .array ([] ++ [.object members']))])) :=
    .member (by simp [RollResult.fields]) (.item (.kind told listed (.here h)))
  constructor
  · have add := inside Rearranges [("type", .string "Constant"), ("content", .string "1")]
      [("min", .null), ("type", .string "Constant"), ("content", .string "1")] rfl
      (.add (by decide) rfl)
    have reorder := inside Rearranges
      [("min", .null), ("type", .string "Constant"), ("content", .string "1")]
      [("content", .string "1"), ("min", .null), ("type", .string "Constant")] rfl
      (.reorder (@List.perm_append_comm _ [_, _] [_]))
    exact follows.rearranged (.tail (.single add) reorder) given
  · have leaveOut := inside Damages [("type", .string "Constant"), ("content", .string "1")]
      [("content", .string "1")] rfl
      (@Damages.leaveOut _ "type" .value (.string "Constant") [] _ (.head _) rfl)
    exact follows.damaged leaveOut given

end DiceChat

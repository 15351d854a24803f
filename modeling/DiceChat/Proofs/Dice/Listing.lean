import DiceChat.Dice.Rolled
import DiceChat.Proofs.Number.ReadBack

/-!
# Lists of rolls

Rolled dice are described by the first of their rolls, up to a limit, and by how many more there
are. These are the items of a list between brackets, and cutting the list at its separators finds
them again, each with its mark. There is one exception: if a limit of zero leaves out all rolls, the
separator stands in front of the only item.
-/

namespace DiceChat

open Reader (NoDigitNext)

-- ---------------------------------------------------------------------------
-- Items
-- ---------------------------------------------------------------------------

/-- What is listed: a die, or how many more there are. -/
inductive Item where
  | die (d : Die)
  | more (n : Nat)

namespace Item

def text : Item → String
  | .die d => d.text
  | .more n => n.repr ++ " more..."

def number : Item → Nat
  | .die d => d.value.toNat
  | .more n => n

def ending : Item → List Char
  | .die d => if d.crossedOut then [' ', '(', 'x', ')'] else []
  | .more _ => [' ', 'm', 'o', 'r', 'e', '.', '.', '.']

theorem toList_text (item : Item) :
    item.text.toList = Nat.toDigits 10 item.number ++ item.ending := by
  cases item with
  | die d => cases h : d.crossedOut <;> simp [text, number, ending, Die.text, h]
  | more n => simp [text, number, ending]

theorem noDigitNext_ending (item : Item) : NoDigitNext item.ending := by
  cases item with
  | die d => cases h : d.crossedOut <;> simp [NoDigitNext, ending, h]
  | more n => simp [NoDigitNext, ending]

theorem eq_of_number_of_ending {a b : Item} (number : a.number = b.number)
    (ending : a.ending = b.ending) : a = b := by
  cases a with
  | die d =>
    cases b with
    | die e =>
      obtain ⟨v, crossed⟩ := d
      obtain ⟨w, other⟩ := e
      obtain rfl := UInt16.toNat_inj.mp number
      cases crossed <;> cases other <;> simp [Item.ending] at ending <;> rfl
    | more n => cases h : d.crossedOut <;> simp [Item.ending, h] at ending
  | more n =>
    cases b with
    | die e => cases h : e.crossedOut <;> simp [Item.ending, h] at ending
    | more m => exact congrArg Item.more number

theorem text_injective {a b : Item} (h : a.text.toList = b.text.toList) : a = b := by
  rw [toList_text, toList_text] at h
  have digits (n : Nat) : ∀ c ∈ Nat.toDigits 10 n, c.isDigit = true :=
    fun _ => isDigit_of_mem_toDigits
  refine eq_of_number_of_ending ?_ ?_
  · have same := congrArg (List.takeWhile Char.isDigit) h
    rw [Reader.takeWhile_digits (digits _) a.noDigitNext_ending,
      Reader.takeWhile_digits (digits _) b.noDigitNext_ending] at same
    rw [← Nat.ofDigitChars_ten_toDigits (n := a.number), same, Nat.ofDigitChars_ten_toDigits]
  · have same := congrArg (List.dropWhile Char.isDigit) h
    rwa [Reader.dropWhile_digits (digits _) a.noDigitNext_ending,
      Reader.dropWhile_digits (digits _) b.noDigitNext_ending] at same

theorem text_ne_nil (item : Item) : item.text.toList ≠ [] := by
  rw [toList_text]
  exact List.append_ne_nil_of_left_ne_nil Nat.toDigits_ne_nil _

theorem not_mem_text (item : Item) {c : Char} (h : c ∈ [',', '[', ']']) :
    c ∉ item.text.toList := by
  have marks : c.isDigit = false ∧ c ∉ [' ', '(', 'x', ')'] ∧
      c ∉ [' ', 'm', 'o', 'r', 'e', '.', '.', '.'] := by
    simp only [List.mem_cons, List.not_mem_nil, or_false] at h
    rcases h with rfl | rfl | rfl <;> decide
  obtain ⟨noDigit, noMark, noWord⟩ := marks
  have notInEnding : c ∉ item.ending := by
    cases item with
    | die d => cases hd : d.crossedOut <;> simp [ending, hd, noMark]
    | more n => exact noWord
  rw [toList_text]
  refine List.not_mem_append (fun digit => ?_) notInEnding
  rw [isDigit_of_mem_toDigits digit] at noDigit
  cases noDigit

/-- The items for dice that are shown and a number of others. -/
def row (shown : List Die) (left : Nat) : List Item :=
  shown.map .die ++ if left = 0 then [] else [.more left]

end Item

-- ---------------------------------------------------------------------------
-- Separators
-- ---------------------------------------------------------------------------

/-- The parts of a text between its separators, which are a comma and a space each. -/
def cut : List Char → List (List Char)
  | [] => [[]]
  | ',' :: ' ' :: rest => [] :: cut rest
  | c :: rest => (cut rest).modifyHead (c :: ·)

def parts (text : List Char) : List (List Char) := if text = [] then [] else cut text

theorem cut_cons {c : Char} (h : c ≠ ',') (s : List Char) :
    cut (c :: s) = (cut s).modifyHead (c :: ·) := by
  rw [cut]
  rintro rest rfl -
  exact h rfl

theorem cut_of_not_mem {part : List Char} (h : ',' ∉ part) : cut part = [part] := by
  induction part with
  | nil => rfl
  | cons c part ih =>
    obtain ⟨hc, hpart⟩ := List.ne_and_not_mem_of_not_mem_cons h
    rw [cut_cons (Ne.symm hc), ih hpart]
    rfl

theorem cut_append {part : List Char} (h : ',' ∉ part) (rest : List Char) :
    cut (part ++ ',' :: ' ' :: rest) = part :: cut rest := by
  induction part with
  | nil => rfl
  | cons c part ih =>
    obtain ⟨hc, hpart⟩ := List.ne_and_not_mem_of_not_mem_cons h
    rw [List.cons_append, cut_cons (Ne.symm hc), ih hpart]
    rfl

theorem cut_intercalate {items : List (List Char)} (hitems : items ≠ [])
    (h : ∀ item ∈ items, ',' ∉ item) : cut ([',', ' '].intercalate items) = items := by
  induction items with
  | nil => exact absurd rfl hitems
  | cons item items ih =>
    obtain ⟨first, others⟩ := List.forall_mem_cons.mp h
    cases items with
    | nil => simpa using cut_of_not_mem first
    | cons next items =>
      rw [List.intercalate_cons_cons, List.append_assoc]
      exact (cut_append first _).trans (congrArg (item :: ·) (ih (by simp) others))

theorem parts_intercalate {items : List (List Char)}
    (h : ∀ item ∈ items, item ≠ [] ∧ ',' ∉ item) : parts ([',', ' '].intercalate items) = items := by
  cases items with
  | nil => rfl
  | cons item items =>
    have found := cut_intercalate (List.cons_ne_nil item items) fun item hi => (h item hi).2
    have joined : [',', ' '].intercalate (item :: items) ≠ [] := by
      -- Cutting the empty text finds one empty part.
      intro empty
      rw [empty] at found
      obtain ⟨rfl, -⟩ := List.cons.inj found
      exact (h [] List.mem_cons_self).1 rfl
    rw [parts, if_neg joined, found]

theorem not_mem_intercalate {c : Char} {separator : List Char} {items : List (List Char)}
    (between : c ∉ separator) (h : ∀ item ∈ items, c ∉ item) :
    c ∉ separator.intercalate items := by
  induction items with
  | nil => exact List.not_mem_nil
  | cons item items ih =>
    obtain ⟨first, others⟩ := List.forall_mem_cons.mp h
    cases items with
    | nil => simpa using first
    | cons next items =>
      rw [List.intercalate_cons_cons]
      exact List.not_mem_append (List.not_mem_append first between) (ih others)

-- ---------------------------------------------------------------------------
-- Rolled dice
-- ---------------------------------------------------------------------------

namespace Rolled

def shown (limit : Option Nat) (r : Rolled) : List Die := r.rolls.take (limit.getD r.rolls.length)

def left (limit : Option Nat) (r : Rolled) : List Die := r.rolls.drop (limit.getD r.rolls.length)

def items (limit : Option Nat) (r : Rolled) : List Item :=
  Item.row (r.shown limit) (r.left limit).length

def list (limit : Option Nat) (r : Rolled) : String :=
  ", ".intercalate ((r.shown limit).map Die.text) ++
    if r.left limit = [] then "" else ", " ++ (Item.more (r.left limit).length).text

/-- Nothing is shown although there are rolls. -/
def ShowsNone (limit : Option Nat) (r : Rolled) : Prop := limit = some 0 ∧ r.rolls ≠ []

variable (limit : Option Nat) (r : Rolled)

theorem describe_eq : r.describe limit = r.dice.text ++ "[" ++ r.list limit ++ "]" := by
  have described : r.describe limit =
      r.dice.text ++ "[" ++ ", ".intercalate ((r.shown limit).map Die.text) ++
        (if 0 < r.rolls.length - (r.shown limit).length then
          ", " ++ (r.rolls.length - (r.shown limit).length).repr ++ " more..." else "") ++ "]" := by
    cases limit with
    | none => simp [describe, shown]
    | some n => rfl
  have hidden : r.rolls.length - (r.shown limit).length = (r.left limit).length := by
    simp only [shown, left, List.length_take, List.length_drop]
    omega
  simp only [described, hidden, list, List.length_pos_iff, Item.text, ite_not, ne_eq,
    String.append_assoc]

theorem showsNone_iff : r.ShowsNone limit ↔ r.shown limit = [] ∧ r.left limit ≠ [] := by
  unfold ShowsNone Rolled.shown Rolled.left
  cases limit with
  | none => simp
  | some n =>
    cases r.rolls with
    | nil => simp
    | cons die rolls => cases n <;> simp

theorem items_eq : r.items limit =
    (r.shown limit).map .die ++
      if r.left limit = [] then [] else [.more (r.left limit).length] := by
  simp only [items, Item.row, List.length_eq_zero_iff]

theorem list_eq_intercalate (h : ¬r.ShowsNone limit) :
    r.list limit = ", ".intercalate ((r.items limit).map Item.text) := by
  have texts : (r.shown limit).map Die.text = ((r.shown limit).map Item.die).map Item.text := by
    simp [Item.text]
  rw [list, items_eq, texts, List.map_append]
  by_cases hleft : r.left limit = []
  · simp [hleft]
  · have hshown : r.shown limit ≠ [] :=
      fun empty => h ((r.showsNone_iff limit).mpr ⟨empty, hleft⟩)
    simp [hleft, String.intercalate_append_of_ne_nil, hshown, String.append_assoc]

theorem list_of_showsNone (h : r.ShowsNone limit) :
    r.list limit = ", " ++ ", ".intercalate ((r.items limit).map Item.text) := by
  obtain ⟨hshown, hleft⟩ := (r.showsNone_iff limit).mp h
  simp [list, items_eq, hshown, hleft]

theorem parts_list (h : ¬r.ShowsNone limit) :
    parts (r.list limit).toList = (r.items limit).map (·.text.toList) := by
  rw [list_eq_intercalate limit r h, String.toList_intercalate, List.map_map]
  refine parts_intercalate fun text member => ?_
  obtain ⟨item, -, rfl⟩ := List.mem_map.mp member
  exact ⟨item.text_ne_nil, item.not_mem_text (by simp)⟩

theorem not_mem_list {c : Char} (h : c ∈ ['[', ']']) : c ∉ (r.list limit).toList := by
  have separator : c ∉ [',', ' '] := by
    simp only [List.mem_cons, List.not_mem_nil, or_false] at h
    rcases h with rfl | rfl <;> decide
  have joined : c ∉ (", ".intercalate ((r.items limit).map Item.text)).toList := by
    rw [String.toList_intercalate, List.map_map]
    refine not_mem_intercalate separator fun text member => ?_
    obtain ⟨item, -, rfl⟩ := List.mem_map.mp member
    exact item.not_mem_text (List.mem_cons_of_mem _ h)
  by_cases bare : r.ShowsNone limit
  · rw [list_of_showsNone limit r bare, String.toList_append]
    exact List.not_mem_append separator joined
  · rwa [list_eq_intercalate limit r bare]

theorem separator_append_ne (text : String) : ", " ++ text ≠ text := by
  intro h
  have lengths := congrArg String.length h
  simp [String.length_append] at lengths

/-- A description is that of the dice and, between brackets, a list: the first rolls up to the limit
and, if others were left out, how many. It joins these items, so its parts are their texts and of no
other items, unless all rolls are left out: then a separator stands in front of how many. -/
theorem describe_lists (limit : Option Nat) (r : Rolled) :
    ∃ (shown left : List Die) (list : String),
      r.rolls = shown ++ left ∧
      shown.length = min (limit.getD r.rolls.length) r.rolls.length ∧
      r.describe limit = r.dice.text ++ "[" ++ list ++ "]" ∧
      (list = ", ".intercalate ((Item.row shown left.length).map Item.text) ↔
        ¬r.ShowsNone limit) ∧
      (r.ShowsNone limit → list = ", " ++ (Item.more r.rolls.length).text) ∧
      (¬r.ShowsNone limit → ∀ items : List Item,
        parts list.toList = items.map (·.text.toList) ↔ items = Item.row shown left.length) := by
  refine ⟨r.shown limit, r.left limit, r.list limit, (List.take_append_drop _ _).symm, ?_,
    r.describe_eq limit, ⟨fun joined bare => ?_, r.list_eq_intercalate limit⟩, fun bare => ?_,
    fun listed items => ⟨fun h => ?_, ?_⟩⟩
  · exact List.length_take
  · rw [list_of_showsNone limit r bare] at joined
    exact separator_append_ne _ joined
  · obtain ⟨empty, -⟩ := (r.showsNone_iff limit).mp bare
    have all : r.left limit = r.rolls := by
      have whole := List.take_append_drop (limit.getD r.rolls.length) r.rolls
      rwa [show r.rolls.take _ = [] from empty] at whole
    have rolls : r.rolls ≠ [] := bare.2
    rw [list_of_showsNone limit r bare, items_eq, empty, all, if_neg rolls]
    rfl
  · rw [parts_list limit r listed] at h
    exact ((List.map_inj_right fun _ _ => Item.text_injective).mp h).symm
  · rintro rfl
    exact parts_list limit r listed

theorem describe_lists_marked :
    let r : Rolled := ⟨⟨4, 6, some ⟨.keepHighest, 2⟩⟩,
      [⟨6, false⟩, ⟨2, true⟩, ⟨5, false⟩, ⟨3, true⟩]⟩
    (r.describe (some 2) = "4d6kh2[6, 2 (x), 2 more...]" ∧ ¬r.ShowsNone (some 2) ∧
      ∃ shown left list, r.rolls = shown ++ left ∧ shown.length = 2 ∧
        r.describe (some 2) = r.dice.text ++ "[" ++ list ++ "]" ∧
        ∀ items : List Item,
          parts list.toList = items.map (·.text.toList) ↔ items = Item.row shown left.length) ∧
    (r.ShowsNone (some 0) ∧
      ∃ list, r.describe (some 0) = r.dice.text ++ "[" ++ list ++ "]" ∧
        list = ", 4 more...") := by
  intro r
  have listed : ¬r.ShowsNone (some 2) := by simp [ShowsNone]
  have bare : r.ShowsNone (some 0) := ⟨rfl, by simp [r]⟩
  obtain ⟨shown, left, list, split, length, described, -, -, items⟩ := describe_lists (some 2) r
  obtain ⟨-, -, others, -, -, hidden, -, separated, -⟩ := describe_lists (some 0) r
  exact ⟨⟨by decide, listed, shown, left, list, split, length, described, items listed⟩, bare,
    others, hidden, (separated bare).trans (by decide)⟩

/-- If none of two rolls is listed, a separator stands before how many there are. -/
theorem describe_separates_nothing :
    ¬∀ (limit : Option Nat) (r : Rolled), r.describe limit =
      r.dice.text ++ "[" ++ ", ".intercalate ((r.items limit).map Item.text) ++ "]" := by
  intro h
  have joined := h (some 0) ⟨⟨2, 6, none⟩, [⟨3, false⟩, ⟨4, false⟩]⟩
  revert joined
  decide

end Rolled

end DiceChat

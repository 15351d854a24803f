import DiceChat.Wire.Decode
import Mathlib.Data.List.Forall2
import Mathlib.Logic.Relation

/-!
# Shapes of JSON values

A shape names the members of the records in a value. What a shape governs is read by these names:
members that change places and members with other names make no difference to a reader that follows
the shape, at whatever depth they are, and a record that lacks a member is not read. What reads the
entries of a record one by one follows the shape of the record if each entry follows its own.
-/

namespace DiceChat

/-- What a value is read as. A tagged record tells its kind in a member of its own, and the kind
tells its other members. -/
inductive Shape where
  | value
  | selection
  | list (item : Shape)
  | record (fields : List (String × Shape))
  | tagged (kinds : List (String × List (String × Shape)))

def Shape.isOptional : Shape → Bool
  | .selection => true
  | _ => false

namespace Json

def kind? : Json → Option String
  | .object members => (member? members "type").bind (required? string?)
  | .array (.string kind :: _) => some kind
  | _ => none

def untagged : Json → Json
  | .object members => .object (members.filter (·.1 != "type"))
  | .array (_ :: rest) => .array rest
  | j => j

-- ---------------------------------------------------------------------------
-- Changes
-- ---------------------------------------------------------------------------

/-- One part of a value, at some depth, is changed as `change` says. All else stays the same. -/
inductive Within (change : Shape → Json → Json → Prop) : Shape → Json → Json → Prop
  | here {shape : Shape} {j j' : Json} : change shape j j' → Within change shape j j'
  | item {shape : Shape} {j j' : Json} {before after : List Json} : Within change shape j j' →
      Within change (.list shape) (.array (before ++ j :: after)) (.array (before ++ j' :: after))
  | member {fields : List (String × Shape)} {name : String} {shape : Shape} {j j' : Json}
      {before after : List (String × Json)} : (name, shape) ∈ fields → Within change shape j j' →
      Within change (.record fields) (.object (before ++ (name, j) :: after))
        (.object (before ++ (name, j') :: after))
  | position {fields : List (String × Shape)} {name : String} {shape : Shape} {j j' : Json}
      {before after : List Json} : fields[before.length]? = some (name, shape) →
      Within change shape j j' →
      Within change (.record fields) (.array (before ++ j :: after))
        (.array (before ++ j' :: after))
  | kind {kinds : List (String × List (String × Shape))} {kind : String}
      {fields : List (String × Shape)} {j j' : Json} : j.kind? = some kind →
      (kind, fields) ∈ kinds → Within change (.record (("type", .value) :: fields)) j j' →
      Within change (.tagged kinds) j j'

/-- The members of a record change places, or one is added with a name that the record does not
have. -/
inductive Rearranges : Shape → Json → Json → Prop
  | reorder {fields : List (String × Shape)} {members members' : List (String × Json)} :
      members.Perm members' → Rearranges (.record fields) (.object members) (.object members')
  | add {fields : List (String × Shape)} {members : List (String × Json)} {name : String}
      {j : Json} : name ∉ fields.map Prod.fst → j.isUsable = true →
      Rearranges (.record fields) (.object members) (.object ((name, j) :: members))

/-- A member of a record is left out, or a selection gets another key. -/
inductive Damages : Shape → Json → Json → Prop
  | leaveOut {fields : List (String × Shape)} {name : String} {shape : Shape} {j : Json}
      {before after : List (String × Json)} : (name, shape) ∈ fields → shape.isOptional = false →
      Damages (.record fields) (.object (before ++ (name, j) :: after)) (.object (before ++ after))
  | anotherKey {key : String × Json} {before after : List (String × Json)} :
      Damages .selection (.object (before ++ after)) (.object (before ++ key :: after))

/-- Any number of rearrangements, one after the other. -/
abbrev Rearranged (shape : Shape) : Json → Json → Prop :=
  Relation.ReflTransGen (Within Rearranges shape)

/-- However its records are rearranged, a value is read as it was, and once damaged it is not read
at all. -/
structure Follows {α : Type} (shape : Shape) (read : Json → Option α) : Prop where
  rearranged : ∀ {j j' : Json} {a : α}, Rearranged shape j j' → read j = some a → read j' = some a
  damaged : ∀ {j j' : Json} {a : α}, Within Damages shape j j' → read j = some a → read j' = none

-- ---------------------------------------------------------------------------
-- Parts that denote values
-- ---------------------------------------------------------------------------

theorem areUsable_eq_all (items : List Json) : areUsable items = items.all isUsable := by
  induction items with
  | nil => rfl
  | cons j items ih => rw [areUsable, ih, List.all_cons]

theorem haveUsable_eq_all (members : List (String × Json)) :
    haveUsable members = members.all fun m => m.2.isUsable := by
  induction members with
  | nil => rfl
  | cons m members ih => rw [haveUsable, ih, List.all_cons]

theorem isUsable_array {items : List Json} :
    (array items).isUsable = true ↔ ∀ j ∈ items, j.isUsable = true := by
  rw [isUsable, areUsable_eq_all, List.all_eq_true]

theorem isUsable_object {members : List (String × Json)} :
    (object members).isUsable = true ↔ ∀ m ∈ members, m.2.isUsable = true := by
  rw [isUsable, haveUsable_eq_all, List.all_eq_true]

theorem Within.isUsable {shape : Shape} {j j' : Json} (h : Within Rearranges shape j j')
    (usable : j.isUsable = true) : j'.isUsable = true := by
  induction h with
  | here change =>
    cases change with
    | reorder perm =>
      rw [isUsable_object] at usable ⊢
      exact fun m hm => usable m (perm.mem_iff.mpr hm)
    | add fresh usableToo =>
      rw [isUsable_object] at usable ⊢
      exact List.forall_mem_cons.mpr ⟨usableToo, usable⟩
  | item _ ih =>
    rw [isUsable_array, List.forall_mem_append, List.forall_mem_cons] at usable ⊢
    exact ⟨usable.1, ih usable.2.1, usable.2.2⟩
  | member _ _ ih =>
    rw [isUsable_object, List.forall_mem_append, List.forall_mem_cons] at usable ⊢
    exact ⟨usable.1, ih usable.2.1, usable.2.2⟩
  | position _ _ ih =>
    rw [isUsable_array, List.forall_mem_append, List.forall_mem_cons] at usable ⊢
    exact ⟨usable.1, ih usable.2.1, usable.2.2⟩
  | kind _ _ _ ih => exact ih usable

-- ---------------------------------------------------------------------------
-- Members by name
-- ---------------------------------------------------------------------------

theorem member?_eq_some {members : List (String × Json)} {name : String} {v : Option Json} :
    member? members name = some v ↔
      members.filter (·.1 == name) = (v.map fun j => (name, j)).toList := by
  have named : ∀ m ∈ members.filter (·.1 == name), m.1 = name :=
    fun m hm => eq_of_beq (List.mem_filter.mp hm).2
  unfold member?
  split
  · next h => cases v <;> simp [h]
  · next key j h =>
    obtain rfl : key = name := named (key, j) (by simp [h])
    cases v <;> simp [h, eq_comm]
  · next absent single =>
    refine iff_of_false nofun fun h => ?_
    cases v with
    | none => exact absent h
    | some j => exact single name j h

section members

variable {members members' before after : List (String × Json)} {name other : String}
  {v : Option Json} {j : Json}

theorem member?_of_perm (h : members.Perm members') (found : member? members name = some v) :
    member? members' name = some v := by
  rw [member?_eq_some] at found ⊢
  have perm := h.filter (·.1 == name)
  rw [found] at perm
  cases v with
  | none => exact perm.nil_eq.symm
  | some j => exact (List.singleton_perm.mp perm).symm

theorem member?_of_ne (h : other ≠ name) :
    member? (before ++ (name, j) :: after) other = member? (before ++ after) other := by
  simp [member?, h.symm]

theorem member?_middle (found : member? (before ++ (name, j) :: after) name = some v) :
    v = some j ∧ member? (before ++ after) name = some none := by
  rw [member?_eq_some, List.filter_append, List.filter_cons_of_pos (by simp)] at found
  cases v with
  | none => simp at found
  | some x =>
    obtain ⟨front, same⟩ | ⟨-, impossible⟩ := List.append_eq_singleton_iff.mp found
    · obtain ⟨entry, back⟩ := List.cons.inj same
      obtain rfl : j = x := congrArg Prod.snd entry
      refine ⟨rfl, member?_eq_some.mpr ?_⟩
      rw [List.filter_append, front, back]
      rfl
    · cases impossible

theorem member?_insert (absent : member? (before ++ after) name = some none) :
    member? (before ++ (name, j) :: after) name = some (some j) := by
  rw [member?_eq_some, List.filter_append] at absent
  obtain ⟨front, back⟩ := List.append_eq_nil_iff.mp absent
  rw [member?_eq_some, List.filter_append, List.filter_cons_of_pos (by simp), front, back]
  rfl

end members

-- ---------------------------------------------------------------------------
-- Entries
-- ---------------------------------------------------------------------------

theorem mapM_eq_some {α β : Type} {f : α → Option β} {items : List α} {results : List β} :
    items.mapM f = some results ↔ List.Forall₂ (fun a b => f a = some b) items results := by
  induction items generalizing results with
  | nil => cases results <;> simp
  | cons a items ih =>
    rw [List.mapM_cons]
    cases results with
    | nil => cases h : f a <;> cases items.mapM f <;> simp
    | cons b results =>
      rw [List.forall₂_cons, ← ih]
      cases h : f a <;> cases items.mapM f <;> simp

def Entries (fields : List (String × Shape)) (j : Json) (values : List (Option Json)) : Prop :=
  record? (fields.map Prod.fst) j = some values

/-- Two rows of entries that differ in one place, as `change` says. -/
inductive DifferAt (change : Shape → Option Json → Option Json → Prop) :
    List (String × Shape) → List (Option Json) → List (Option Json) → Prop
  | here {name : String} {shape : Shape} {fields : List (String × Shape)} {v v' : Option Json}
      {values : List (Option Json)} : change shape v v' →
      DifferAt change ((name, shape) :: fields) (v :: values) (v' :: values)
  | there {field : String × Shape} {fields : List (String × Shape)} {v : Option Json}
      {values values' : List (Option Json)} : DifferAt change fields values values' →
      DifferAt change (field :: fields) (v :: values) (v :: values')

inductive RearrangedEntry : Shape → Option Json → Option Json → Prop
  | inside {shape : Shape} {j j' : Json} : Within Rearranges shape j j' →
      RearrangedEntry shape (some j) (some j')

/-- An entry in which something is damaged, or that is missing. -/
inductive DamagedEntry : Shape → Option Json → Option Json → Prop
  | inside {shape : Shape} {j j' : Json} : Within Damages shape j j' →
      DamagedEntry shape (some j) (some j')
  | leftOut {shape : Shape} {j : Json} : shape.isOptional = false →
      DamagedEntry shape (some j) none

section entries

variable {fields : List (String × Shape)} {values : List (Option Json)} {name : String}
  {shape : Shape} {j j' : Json} {change : Shape → Option Json → Option Json → Prop}

theorem entries_object {members : List (String × Json)} :
    Entries fields (.object members) values ↔
      List.Forall₂ (fun field v => member? members field.1 = some v) fields values := by
  rw [Entries, record?, mapM_eq_some, List.forall₂_map_left_iff]

theorem entries_array {items : List Json} :
    Entries fields (.array items) values ↔
      items.length = fields.length ∧ values = items.map some := by
  rw [Entries, record?, List.length_map]
  split
  · next h => simp [h, eq_comm]
  · next h => simp [h]

theorem entries_of_members {members members' : List (String × Json)}
    (found : ∀ field ∈ fields, ∀ v, member? members field.1 = some v →
      member? members' field.1 = some v)
    (h : Entries fields (.object members) values) : Entries fields (.object members') values := by
  rw [entries_object] at h ⊢
  induction h with
  | nil => exact .nil
  | cons hv rest ih =>
    obtain ⟨first, others⟩ := List.forall_mem_cons.mp found
    exact .cons (first _ hv) (ih others)

theorem differAt_of_member {members members' : List (String × Json)} {v' : Option Json}
    (nodup : (fields.map Prod.fst).Nodup) (field : (name, shape) ∈ fields)
    (others : ∀ other, other ≠ name → member? members' other = member? members other)
    (differ : ∀ v, member? members name = some v →
      member? members' name = some v' ∧ change shape v v')
    (h : Entries fields (.object members) values) :
    ∃ values', Entries fields (.object members') values' ∧
      DifferAt change fields values values' := by
  simp only [entries_object] at h ⊢
  induction h with
  | nil => cases field
  | @cons first v fields values hv rest ih =>
    obtain ⟨fresh, nodup⟩ := List.nodup_cons.mp nodup
    rcases List.mem_cons.mp field with rfl | field
    · obtain ⟨given, differ⟩ := differ v hv
      -- The fields after this one have other names.
      have after : Entries fields (.object members') values := by
        refine entries_of_members (fun other hother w hw => ?_) (entries_object.mpr rest)
        rwa [others other.1 (ne_of_mem_of_not_mem (List.mem_map_of_mem hother) fresh)]
      exact ⟨v' :: values, .cons given (entries_object.mp after), .here differ⟩
    · obtain ⟨values', hvalues', hdiffer⟩ := ih nodup field
      have other : name ≠ first.1 := ne_of_mem_of_not_mem (List.mem_map_of_mem field) fresh
      exact ⟨v :: values', .cons (by rw [others first.1 other.symm, hv]) hvalues', .there hdiffer⟩

theorem differAt_of_value {before after : List (String × Json)}
    (nodup : (fields.map Prod.fst).Nodup) (field : (name, shape) ∈ fields)
    (differ : change shape (some j) (some j'))
    (h : Entries fields (.object (before ++ (name, j) :: after)) values) :
    ∃ values', Entries fields (.object (before ++ (name, j') :: after)) values' ∧
      DifferAt change fields values values' := by
  have others (other : String) (h : other ≠ name) :
      member? (before ++ (name, j') :: after) other =
        member? (before ++ (name, j) :: after) other := by
    rw [member?_of_ne h, member?_of_ne h]
  have found (v : Option Json) (h : member? (before ++ (name, j) :: after) name = some v) :
      member? (before ++ (name, j') :: after) name = some (some j') ∧
        change shape v (some j') := by
    obtain ⟨rfl, absent⟩ := member?_middle h
    exact ⟨member?_insert absent, differ⟩
  exact differAt_of_member nodup field others found h

theorem differAt_of_position {before after : List Json}
    (field : fields[before.length]? = some (name, shape)) (differ : change shape (some j) (some j'))
    (h : Entries fields (.array (before ++ j :: after)) values) :
    ∃ values', Entries fields (.array (before ++ j' :: after)) values' ∧
      DifferAt change fields values values' := by
  simp only [entries_array] at h ⊢
  obtain ⟨length, rfl⟩ := h
  refine ⟨_, ⟨by simpa using length, rfl⟩, ?_⟩
  clear length
  induction before generalizing fields with
  | nil =>
    cases fields with
    | nil => cases field
    | cons first fields =>
      obtain rfl : first = (name, shape) := by simpa using field
      exact .here differ
  | cons b before ih =>
    cases fields with
    | nil => cases field
    | cons first fields => exact .there (ih (by simpa using field))

theorem entries_rearranged (nodup : (fields.map Prod.fst).Nodup)
    (h : Within Rearranges (.record fields) j j') (given : Entries fields j values) :
    ∃ values', Entries fields j' values' ∧
      (values' = values ∨ DifferAt RearrangedEntry fields values values') := by
  cases h with
  | here change =>
    cases change with
    | reorder perm =>
      have same := entries_of_members (fun _ _ _ => member?_of_perm perm) given
      exact ⟨values, same, .inl rfl⟩
    | add fresh _ =>
      refine ⟨values, entries_of_members (fun field hfield v hv => ?_) given, .inl rfl⟩
      have other := ne_of_mem_of_not_mem (List.mem_map_of_mem hfield) fresh
      rw [← List.nil_append (_ :: _), member?_of_ne other, List.nil_append, hv]
  | member field inside =>
    have differ := RearrangedEntry.inside inside
    obtain ⟨values', h, differ⟩ := differAt_of_value nodup field differ given
    exact ⟨values', h, .inr differ⟩
  | position field inside =>
    have differ := RearrangedEntry.inside inside
    obtain ⟨values', h, differ⟩ := differAt_of_position field differ given
    exact ⟨values', h, .inr differ⟩

theorem entries_damaged (nodup : (fields.map Prod.fst).Nodup)
    (h : Within Damages (.record fields) j j') (given : Entries fields j values) :
    ∃ values', Entries fields j' values' ∧ DifferAt DamagedEntry fields values values' := by
  cases h with
  | here change =>
    cases change with
    | @leaveOut _ name shape j before after field required =>
      have differ (v : Option Json) (found : member? (before ++ (name, j) :: after) name = some v) :
          member? (before ++ after) name = some none ∧ DamagedEntry shape v none := by
        obtain ⟨rfl, absent⟩ := member?_middle found
        exact ⟨absent, .leftOut required⟩
      exact differAt_of_member nodup field (fun _ other => (member?_of_ne other).symm) differ given
  | member field inside => exact differAt_of_value nodup field (.inside inside) given
  | position field inside => exact differAt_of_position field (.inside inside) given

end entries

-- ---------------------------------------------------------------------------
-- Readers of entries
-- ---------------------------------------------------------------------------

/-- A condition on the entry that a value was read from: it survives rearrangement, and no value
is read from the entry once it is damaged or left out. -/
structure FollowsEntry {α : Type} (shape : Shape) (holds : α → Option Json → Prop) : Prop where
  rearranged : ∀ {v v' : Option Json} {a : α}, RearrangedEntry shape v v' → holds a v → holds a v'
  damaged : ∀ {v v' : Option Json} {a b : α}, DamagedEntry shape v v' → holds a v → ¬holds b v'

def ReadsEntries {α : Type} (fields : List (String × Shape)) (read : Json → Option α) : Prop :=
  ∃ conditions : List (α → Option Json → Prop),
    List.Forall₂ (fun field holds => FollowsEntry field.2 holds) fields conditions ∧
    ∀ j a, read j = some a ↔
      ∃ values, Entries fields j values ∧ List.Forall₂ (fun holds v => holds a v) conditions values

section readers

variable {α β : Type} {shape : Shape} {fields : List (String × Shape)} {read : Json → Option α}
  {conditions : List (α → Option Json → Prop)} {values values' : List (Option Json)} {a b : α}

theorem not_within_value {change : Shape → Json → Json → Prop} {j j' : Json}
    (h : Within change .value j j') : change .value j j' := by
  cases h with
  | here change => exact change

/-- Single changes are enough. -/
theorem Follows.of_steps
    (rearranged : ∀ {j j' : Json} {a : α}, Within Rearranges shape j j' → read j = some a →
      read j' = some a)
    (damaged : ∀ {j j' : Json} {a : α}, Within Damages shape j j' → read j = some a →
      read j' = none) : Follows shape read where
  rearranged h given := by
    induction h with
    | refl => exact given
    | tail _ step ih => exact rearranged step ih
  damaged := damaged

theorem follows_value (read : Json → Option α) : Follows .value read := by
  refine .of_steps (fun h => ?_) (fun h => ?_)
  · cases not_within_value h
  · cases not_within_value h

theorem Follows.list (h : Follows shape read) : Follows (.list shape) (list? read) := by
  have middle (before after : List Json) (j : Json) : list? read (.array (before ++ j :: after)) =
      (do
        let first ← before.mapM read
        let a ← read j
        let rest ← after.mapM read
        return first ++ a :: rest) := by
    simp [list?, Option.bind_assoc]
  refine .of_steps (fun step given => ?_) (fun step given => ?_)
  · cases step with
    | here change => cases change
    | item inside =>
      rw [middle] at given ⊢
      obtain ⟨first, hfirst, given⟩ := Option.bind_eq_some_iff.mp given
      obtain ⟨a, ha, given⟩ := Option.bind_eq_some_iff.mp given
      rw [hfirst, h.rearranged (.single inside) ha]
      exact given
  · cases step with
    | here change => cases change
    | @item _ j j' before after inside =>
      rw [middle] at given ⊢
      obtain ⟨first, hfirst, given⟩ := Option.bind_eq_some_iff.mp given
      obtain ⟨a, ha, -⟩ := Option.bind_eq_some_iff.mp given
      rw [hfirst, h.damaged inside ha]
      rfl

theorem Follows.required (h : Follows shape read) (part : β → α → Prop) :
    FollowsEntry shape fun b v => ∃ a, required? read v = some a ∧ part b a where
  rearranged := by
    rintro _ _ b ⟨inside⟩ ⟨a, given, hpart⟩
    exact ⟨a, h.rearranged (.single inside) given, hpart⟩
  damaged := by
    rintro _ _ b c (inside | required) ⟨a, given, -⟩ ⟨a', given', -⟩
    · rw [required?, Option.bind_some, h.damaged inside given] at given'
      cases given'
    · cases given'

theorem rearranged_of_differAt
    (follow : List.Forall₂ (fun field holds => FollowsEntry field.2 holds) fields conditions)
    (differ : DifferAt RearrangedEntry fields values values')
    (given : List.Forall₂ (fun holds v => holds a v) conditions values) :
    List.Forall₂ (fun holds v => holds a v) conditions values' := by
  induction differ generalizing conditions with
  | here change =>
    cases follow with
    | cons follows _ =>
      cases given with
      | cons hv rest => exact .cons (follows.rearranged change hv) rest
  | there _ ih =>
    cases follow with
    | cons _ follow =>
      cases given with
      | cons hv rest => exact .cons hv (ih follow rest)

theorem not_of_damaged_differAt
    (follow : List.Forall₂ (fun field holds => FollowsEntry field.2 holds) fields conditions)
    (differ : DifferAt DamagedEntry fields values values')
    (given : List.Forall₂ (fun holds v => holds a v) conditions values) :
    ¬List.Forall₂ (fun holds v => holds b v) conditions values' := by
  induction differ generalizing conditions with
  | here change =>
    cases follow with
    | cons follows _ =>
      cases given with
      | cons hv _ =>
        rintro (_ | ⟨hv', _⟩)
        exact follows.damaged change hv hv'
  | there _ ih =>
    cases follow with
    | cons _ follow =>
      cases given with
      | cons _ rest =>
        rintro (_ | ⟨_, rest'⟩)
        exact ih follow rest rest'

theorem ReadsEntries.follows (h : ReadsEntries fields read) (nodup : (fields.map Prod.fst).Nodup) :
    Follows (.record fields) read := by
  obtain ⟨conditions, follow, reads⟩ := h
  refine .of_steps (fun {j j' a} step given => ?_) (fun {j j' a} step given => ?_)
  · obtain ⟨values, entries, hold⟩ := (reads j a).mp given
    obtain ⟨values', entries', rfl | differ⟩ := entries_rearranged nodup step entries
    · exact (reads j' a).mpr ⟨values', entries', hold⟩
    · exact (reads j' a).mpr ⟨values', entries', rearranged_of_differAt follow differ hold⟩
  · obtain ⟨values, entries, hold⟩ := (reads j a).mp given
    obtain ⟨values', entries', differ⟩ := entries_damaged nodup step entries
    refine Option.eq_none_iff_forall_ne_some.mpr fun b given' => ?_
    obtain ⟨_, same, hold'⟩ := (reads j' b).mp given'
    obtain rfl := Option.some.inj (entries'.symm.trans same)
    exact not_of_damaged_differAt follow differ hold hold'

end readers

-- ---------------------------------------------------------------------------
-- Tagged records
-- ---------------------------------------------------------------------------

section tagged

variable {fields : List (String × Shape)} {values : List (Option Json)} {j : Json} {kind : String}

theorem kind?_of_entries {v : Option Json}
    (h : Entries (("type", .value) :: fields) j (v :: values)) : j.kind? = v.bind string? := by
  cases j with
  | object members =>
    obtain ⟨found, -⟩ := List.forall₂_cons.mp (entries_object.mp h)
    rw [kind?, found]
    rfl
  | array items =>
    obtain ⟨-, same⟩ := entries_array.mp h
    cases items with
    | nil => cases same
    | cons item items =>
      obtain ⟨rfl, -⟩ := List.cons.inj same
      cases item <;> rfl
  | _ => cases h

theorem member?_untagged {members : List (String × Json)} {name : String} (h : name ≠ "type") :
    member? (members.filter (·.1 != "type")) name = member? members name := by
  have same : ∀ m : String × Json, ((m.1 == name) && (m.1 != "type")) = (m.1 == name) := by
    rintro ⟨key, j⟩
    by_cases hkey : key = name <;> simp [hkey, h]
  simp only [member?, List.filter_filter, same]

theorem entries_tagged {members : List (String × Json)} {v : Option Json} :
    Entries (("type", .value) :: fields) (.object members) (v :: values) ↔
      member? members "type" = some v ∧ Entries fields (.object members) values := by
  rw [entries_object, List.forall₂_cons, entries_object]

theorem member?_type_of_told {members : List (String × Json)}
    (told : (Json.object members).kind? = some kind) :
    member? members "type" = some (some (.string kind)) := by
  obtain ⟨v, found, named⟩ := Option.bind_eq_some_iff.mp told
  obtain ⟨j, rfl, named⟩ := Option.bind_eq_some_iff.mp named
  cases j with
  | string s => rw [found, Option.some.inj named]
  | _ => cases named

theorem entries_untagged (told : j.kind? = some kind) (fresh : "type" ∉ fields.map Prod.fst) :
    Entries fields j.untagged values ↔
      Entries (("type", .value) :: fields) j (some (.string kind) :: values) := by
  cases j with
  | object members =>
    have others : ∀ field ∈ fields, member? (members.filter (·.1 != "type")) field.1 =
        member? members field.1 :=
      fun field hfield =>
        member?_untagged (ne_of_mem_of_not_mem (List.mem_map_of_mem hfield) fresh)
    rw [untagged, entries_tagged]
    constructor
    · intro h
      have all := entries_of_members (fun field hfield v hv => others field hfield ▸ hv) h
      exact ⟨member?_type_of_told told, all⟩
    · rintro ⟨-, h⟩
      exact entries_of_members (fun field hfield v hv => (others field hfield).trans hv) h
  | array items =>
    obtain _ | ⟨first, rest⟩ := items
    · cases told
    · cases first with
      | string s =>
        obtain rfl : s = kind := Option.some.inj told
        simp [untagged, entries_array]
      | _ => cases told
  | _ => cases told

theorem rearranged_tagged {values : List (Option Json)} {j' : Json}
    (nodup : ((("type", Shape.value) :: fields).map Prod.fst).Nodup) (told : j.kind? = some kind)
    (step : Within Rearranges (.record (("type", .value) :: fields)) j j')
    (given : Entries fields j.untagged values) :
    j'.kind? = some kind ∧ ∃ values', Entries fields j'.untagged values' ∧
      (values' = values ∨ DifferAt RearrangedEntry fields values values') := by
  have fresh : "type" ∉ fields.map Prod.fst := (List.nodup_cons.mp nodup).1
  have whole := (entries_untagged told fresh).mp given
  obtain ⟨_, whole', rfl | differ⟩ := entries_rearranged nodup step whole
  · have told' : j'.kind? = some kind := kind?_of_entries whole'
    exact ⟨told', values, (entries_untagged told' fresh).mpr whole', .inl rfl⟩
  · cases differ with
    | here change =>
      obtain ⟨inside⟩ := change
      cases not_within_value inside
    | there differ =>
      have told' : j'.kind? = some kind := kind?_of_entries whole'
      exact ⟨told', _, (entries_untagged told' fresh).mpr whole', .inr differ⟩

theorem damaged_tagged {values : List (Option Json)} {j' : Json}
    (nodup : ((("type", Shape.value) :: fields).map Prod.fst).Nodup) (told : j.kind? = some kind)
    (step : Within Damages (.record (("type", .value) :: fields)) j j')
    (given : Entries fields j.untagged values) :
    j'.kind? = none ∨ j'.kind? = some kind ∧ ∃ values', Entries fields j'.untagged values' ∧
      DifferAt DamagedEntry fields values values' := by
  have fresh : "type" ∉ fields.map Prod.fst := (List.nodup_cons.mp nodup).1
  have whole := (entries_untagged told fresh).mp given
  obtain ⟨_, whole', differ⟩ := entries_damaged nodup step whole
  cases differ with
  | here change =>
    cases change with
    | inside inside => cases not_within_value inside
    | leftOut => exact .inl (kind?_of_entries whole')
  | there differ =>
    have told' : j'.kind? = some kind := kind?_of_entries whole'
    exact .inr ⟨told', _, (entries_untagged told' fresh).mpr whole', differ⟩

theorem follows_tagged {α : Type} {kinds : List (String × List (String × Shape))}
    {read : Json → Option α} {readAs : String → Json → Option α}
    (each : ∀ entry ∈ kinds, ((("type", Shape.value) :: entry.2).map Prod.fst).Nodup ∧
      ReadsEntries entry.2 (readAs entry.1))
    (reads : ∀ j a, read j = some a ↔
      j.isUsable = true ∧ ∃ kind, j.kind? = some kind ∧ readAs kind j.untagged = some a) :
    Follows (.tagged kinds) read := by
  refine .of_steps (fun {j j' a} step given => ?_) (fun {j j' a} step given => ?_)
  · cases step with
    | here change => cases change
    | @kind _ kind fields _ _ told listed inside =>
      obtain ⟨usable, _, told', given⟩ := (reads j a).mp given
      obtain rfl := Option.some.inj (told.symm.trans told')
      obtain ⟨nodup, conditions, follow, readsAs⟩ := each _ listed
      obtain ⟨values, entries, hold⟩ := (readsAs j.untagged a).mp given
      obtain ⟨told', values', entries', differ⟩ := rearranged_tagged nodup told inside entries
      have hold' : List.Forall₂ (fun holds v => holds a v) conditions values' := by
        rcases differ with rfl | differ
        · exact hold
        · exact rearranged_of_differAt follow differ hold
      have given' := (readsAs j'.untagged a).mpr ⟨values', entries', hold'⟩
      exact (reads j' a).mpr ⟨inside.isUsable usable, kind, told', given'⟩
  · cases step with
    | here change => cases change
    | @kind _ kind fields _ _ told listed inside =>
      obtain ⟨-, _, told', given⟩ := (reads j a).mp given
      obtain rfl := Option.some.inj (told.symm.trans told')
      obtain ⟨nodup, conditions, follow, readsAs⟩ := each _ listed
      obtain ⟨values, entries, hold⟩ := (readsAs j.untagged a).mp given
      refine Option.eq_none_iff_forall_ne_some.mpr fun b given' => ?_
      obtain ⟨-, _, told', given'⟩ := (reads j' b).mp given'
      obtain untold | ⟨same, values', entries', differ⟩ := damaged_tagged nodup told inside entries
      · cases untold.symm.trans told'
      · obtain rfl := Option.some.inj (same.symm.trans told')
        obtain ⟨_, also, hold'⟩ := (readsAs j'.untagged b).mp given'
        obtain rfl := Option.some.inj (entries'.symm.trans also)
        exact not_of_damaged_differAt follow differ hold hold'

end tagged

end Json
end DiceChat

import DiceChat.History.Basic

/-!
# Rooms

A history with named subscribers. Each has its place in the feed, which it keeps when the history
is closed, until it has received what is held for it.
-/

namespace DiceChat

structure Room where
  history : History
  isOpen : Bool
  /-- The places of the subscribers by their names, which do not repeat. -/
  places : List (String × Nat)

inductive Delivery where
  | message (m : Message)
  | lagged (missed : Nat)
  | empty
  | closed
deriving DecidableEq, Repr

namespace Room

def ofHistory (h : History) : Room := ⟨h, true, []⟩

def place? (r : Room) (name : String) : Option Nat := r.places.lookup name

def setPlace (r : Room) (name : String) (place : Nat) : Room :=
  { r with places := (name, place) :: r.places.filter (·.1 != name) }

/-- A subscriber sees what is published from now on. One of the same name is replaced. -/
def subscribe (r : Room) (name : String) : Room :=
  r.setPlace name r.history.feed.published

def unsubscribe (r : Room) (name : String) : Room :=
  { r with places := r.places.filter (·.1 != name) }

def pending? (r : Room) (name : String) : Option Nat :=
  (r.place? name).map r.history.feed.pending

def receive? (r : Room) (name : String) : Option (Delivery × Room) :=
  (r.place? name).map fun place =>
    match r.history.feed.receive place with
    | (.item m, place) => (.message m, r.setPlace name place)
    | (.missed n, place) => (.lagged n, r.setPlace name place)
    | (.nothing, _) => (if r.isOpen then .empty else .closed, r)

def close (r : Room) : Room := { r with isOpen := false }

theorem lookup_filter_ne (places : List (String × Nat)) (name who : String) :
    (places.filter (·.1 != who)).lookup name =
      if who = name then none else places.lookup name := by
  induction places with
  | nil => simp
  | cons entry places ih =>
    obtain ⟨other, place⟩ := entry
    by_cases hother : other = who
    · subst hother
      by_cases hname : other = name
      · simpa [hname] using ih
      · simpa [hname, List.lookup_cons, beq_eq_false_iff_ne.mpr (Ne.symm hname)] using ih
    · by_cases hname : name = other
      · simp [hother, hname, Ne.symm hother]
      · simpa [hother, List.lookup_cons, beq_eq_false_iff_ne.mpr hname] using ih

theorem place?_unsubscribe (r : Room) (name who : String) :
    (r.unsubscribe who).place? name = if who = name then none else r.place? name :=
  lookup_filter_ne r.places name who

theorem place?_setPlace (r : Room) (name who : String) (place : Nat) :
    (r.setPlace who place).place? name = if who = name then some place else r.place? name := by
  by_cases h : who = name
  · simp [setPlace, place?, h]
  · simp [setPlace, place?, List.lookup_cons, beq_eq_false_iff_ne.mpr (Ne.symm h),
      lookup_filter_ne, h]

theorem place?_subscribe (r : Room) (name who : String) :
    (r.subscribe who).place? name =
      if who = name then some r.history.feed.published else r.place? name :=
  place?_setPlace r name who _

theorem history_of_receive? {r next : Room} {name : String} {d : Delivery}
    (h : r.receive? name = some (d, next)) : next.history = r.history := by
  obtain ⟨place, -, h⟩ := Option.map_eq_some_iff.mp h
  split at h <;> cases h <;> rfl

end Room
end DiceChat

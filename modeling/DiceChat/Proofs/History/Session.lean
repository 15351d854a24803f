import DiceChat.History.Room
import DiceChat.Proofs.Source.Draw

/-!
# Sessions

What happens in a room, one action after the other. Every action is logged as the event that it
came to, so that whatever is said of a session is said of its log. A post draws from a source of
its own, and what it has done to the room by the time its source runs dry stays done.
-/

namespace DiceChat

-- ---------------------------------------------------------------------------
-- Visits
-- ---------------------------------------------------------------------------

def Room.withHistory (r : Room) (h : History) : Room := { r with history := h }

abbrev Visit (σ : Type) := Draw (Room × σ)

namespace Visit

variable {σ α : Type}

def drawing (x : Draw σ α) : Visit σ α :=
  OptionT.mk fun (r, s) => ((x.runFrom s).1, r, (x.runFrom s).2)

def append (author : String) (segmented : Segmented) : Visit σ Message :=
  OptionT.mk fun (r, s) =>
    let (m, h) := r.history.append author segmented
    (some m, r.withHistory h, s)

/-- Segments raw text, and touches the history only after that. -/
def post [Source σ] (author raw : String) : Visit σ Message := do
  append author (← drawing (Segmented.segment raw))

theorem runFrom_drawing (x : Draw σ α) (r : Room) (s : σ) :
    (drawing x).runFrom (r, s) = ((x.runFrom s).1, r, (x.runFrom s).2) := rfl

theorem runFrom_append (author : String) (segmented : Segmented) (r : Room) (s : σ) :
    (append author segmented).runFrom (r, s) =
      (some (r.history.append author segmented).1,
        r.withHistory (r.history.append author segmented).2, s) := rfl

variable [Source σ] {author raw : String} {r : Room} {s s' : σ}

theorem runFrom_post_of_gives {segmented : Segmented}
    (h : (Segmented.segment raw).Gives s segmented s') :
    (post author raw).runFrom (r, s) =
      (some (r.history.append author segmented).1,
        r.withHistory (r.history.append author segmented).2, s') := by
  rw [post, Draw.runFrom_bind, runFrom_drawing, h]
  exact runFrom_append author segmented r s'

theorem runFrom_post_of_dry (h : (Segmented.segment raw).runFrom s = (none, s')) :
    (post author raw).runFrom (r, s) = (none, r, s') := by
  rw [post, Draw.runFrom_bind, runFrom_drawing, h]

/-- A visit posts just what the history posts by itself. -/
theorem runFrom_post (author raw : String) (r : Room) (s : σ) :
    (post author raw).runFrom (r, s) = match (r.history.post author raw).runFrom s with
      | (some (m, h), s') => (some m, r.withHistory h, s')
      | (none, s') => (none, r, s') := by
  rw [History.post, Draw.runFrom_bind]
  cases hs : (Segmented.segment raw).runFrom s with
  | mk drawn s' =>
    cases drawn with
    | some segmented => exact runFrom_post_of_gives hs
    | none => exact runFrom_post_of_dry hs

end Visit

-- ---------------------------------------------------------------------------
-- Actions and events
-- ---------------------------------------------------------------------------

inductive Action : Type 1 where
  | post {σ : Type} [Source σ] (source : σ) (author raw : String)
  | append (author : String) (segmented : Segmented)
  | subscribe (name : String)
  /-- Subscribes by means of another subscription. -/
  | resubscribe (name other : String)
  | unsubscribe (name : String)
  | receive (name : String)
  | close

inductive Event where
  | appended (m : Message)
  | ranDry
  | joined (name : String)
  | left (name : String)
  | delivered (name : String) (d : Delivery)
  | closed
  /-- The action needs a history or a subscriber that is not there. -/
  | refused
deriving DecidableEq, Repr

namespace Room

/-- A closed room is still there for those who have subscribed. -/
def act (r : Room) : Action → Event × Room
  | @Action.post _ _ source author raw =>
    if r.isOpen then
      match (Visit.post author raw).runFrom (r, source) with
      | (some m, r, _) => (.appended m, r)
      | (none, r, _) => (.ranDry, r)
    else (.refused, r)
  | .append author segmented =>
    if r.isOpen then
      let (m, h) := r.history.append author segmented
      (.appended m, r.withHistory h)
    else (.refused, r)
  | .subscribe name => if r.isOpen then (.joined name, r.subscribe name) else (.refused, r)
  | .resubscribe name other =>
    if (r.place? other).isSome then (.joined name, r.subscribe name) else (.refused, r)
  | .unsubscribe name =>
    if (r.place? name).isSome then (.left name, r.unsubscribe name) else (.refused, r)
  | .receive name =>
    match r.receive? name with
    | some (d, r) => (.delivered name d, r)
    | none => (.refused, r)
  | .close => if r.isOpen then (.closed, r.close) else (.refused, r)

def actAll (log : List Event) (r : Room) : List Action → List Event × Room
  | [] => (log, r)
  | a :: rest => actAll ((r.act a).1 :: log) (r.act a).2 rest

def session (capacity buffer : Nat) (actions : List Action) : List Event × Room :=
  actAll [] (ofHistory (.create capacity buffer)) actions

/-- All that can become of a room, and the event that tells of it. -/
inductive Changes (r : Room) : Event → Room → Prop
  | appended (author : String) (segmented : Segmented) :
      Changes r (.appended (r.history.append author segmented).1)
        (r.withHistory (r.history.append author segmented).2)
  | ranDry : Changes r .ranDry r
  | joined (name : String) : Changes r (.joined name) (r.subscribe name)
  | left (name : String) : Changes r (.left name) (r.unsubscribe name)
  | delivered {name : String} {d : Delivery} {next : Room} :
      r.receive? name = some (d, next) → Changes r (.delivered name d) next
  | closed : Changes r .closed r.close
  | refused : Changes r .refused r

theorem changes_act (r : Room) (a : Action) : Changes r (r.act a).1 (r.act a).2 := by
  cases a with
  | @post σ _ source author raw =>
    simp only [act]
    split
    · rcases h : (Segmented.segment raw).runFrom source with ⟨_ | segmented, source'⟩
      · rw [Visit.runFrom_post_of_dry h]
        exact .ranDry
      · rw [Visit.runFrom_post_of_gives h]
        exact .appended author segmented
    · exact .refused
  | append author segmented =>
    simp only [act]
    split
    · exact .appended author segmented
    · exact .refused
  | subscribe name | resubscribe name other =>
    simp only [act]
    split
    · exact .joined name
    · exact .refused
  | unsubscribe name =>
    simp only [act]
    split
    · exact .left name
    · exact .refused
  | receive name =>
    simp only [act]
    split
    · next received => exact .delivered received
    · exact .refused
  | close =>
    simp only [act]
    split
    · exact .closed
    · exact .refused

/-- What holds at first and is kept by every change holds of every session. -/
theorem session_induction {P : List Event → Room → Prop} {capacity buffer : Nat}
    (start : P [] (ofHistory (.create capacity buffer)))
    (change : ∀ {log r e next}, P log r → Changes r e next → P (e :: log) next)
    (actions : List Action) :
    P (session capacity buffer actions).1 (session capacity buffer actions).2 := by
  suffices ∀ log r, P log r → P (actAll log r actions).1 (actAll log r actions).2 from
    this _ _ start
  induction actions with
  | nil => exact fun _ _ h => h
  | cons a rest ih => exact fun log r h => ih _ _ (change h (changes_act r a))

end Room

-- ---------------------------------------------------------------------------
-- Logs
-- ---------------------------------------------------------------------------

def Event.message? : Event → Option Message
  | .appended m => some m
  | _ => none

def appended (log : List Event) : List Message := log.filterMap Event.message?

end DiceChat

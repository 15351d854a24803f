import DiceChat.Proofs.History.Session

/-!
# What a history keeps

After any session the history keeps the latest messages, as many as it has room for, as they were
appended and oldest first, and the messages are numbered in the order in which they were appended.
Only appending changes this; what subscribers do does not, nor does a post whose source runs dry.
-/

namespace DiceChat

def Action.isSubscribers : Action → Bool
  | .subscribe _ | .resubscribe _ _ | .unsubscribe _ | .receive _ => true
  | @Action.post _ _ _ _ _ | .append _ _ | .close => false

namespace Room

-- ---------------------------------------------------------------------------
-- What actions do
-- ---------------------------------------------------------------------------

section act

variable {r : Room} {author raw : String} {segmented : Segmented}

theorem act_append (hopen : r.isOpen = true) :
    r.act (.append author segmented) =
      (.appended ⟨r.history.nextId, author, segmented.content, segmented.results⟩,
        r.withHistory (r.history.append author segmented).2) := by
  rw [act, if_pos hopen]
  rfl

theorem act_post_of_gives {σ : Type} [Source σ] {source source' : σ} (hopen : r.isOpen = true)
    (h : (Segmented.segment raw).Gives source segmented source') :
    r.act (.post source author raw) = r.act (.append author segmented) := by
  rw [act_append hopen, act, if_pos hopen, Visit.runFrom_post_of_gives h]
  rfl

theorem act_post_of_dry {σ : Type} [Source σ] {source source' : σ} (hopen : r.isOpen = true)
    (h : (Segmented.segment raw).runFrom source = (none, source')) :
    r.act (.post source author raw) = (.ranDry, r) := by
  rw [act, if_pos hopen, Visit.runFrom_post_of_dry h]

theorem history_act_of_isSubscribers {a : Action} (h : a.isSubscribers = true) :
    (r.act a).2.history = r.history := by
  cases a with
  | post _ _ _ => cases h
  | append _ _ => cases h
  | close => cases h
  | subscribe name | resubscribe name other | unsubscribe name =>
    simp only [act]
    split <;> rfl
  | receive name =>
    simp only [act]
    split
    · next received => exact history_of_receive? received
    · rfl

end act

-- ---------------------------------------------------------------------------
-- What every session keeps
-- ---------------------------------------------------------------------------

/-- The history keeps the latest of the appended messages, and all are numbered in order. -/
structure Keeps (capacity : Nat) (log : List Event) (r : Room) : Prop where
  capacity_eq : r.history.capacity = max 1 capacity
  messages_eq : r.history.messages = ((appended log).take (max 1 capacity)).reverse
  nextId_eq : r.history.nextId = UInt64.ofNat (appended log).length
  ids_eq : (appended log).reverse.map Message.id =
    (List.range (appended log).length).map UInt64.ofNat

variable {capacity buffer : Nat} {log : List Event} {r next : Room} {e : Event}

theorem take_cons_take {α : Type} (a : α) (items : List α) (n : Nat) :
    (a :: items.take n).take n = (a :: items).take n := by
  cases n <;> simp [List.take_take]

theorem drop_reverse_take_append {α : Type} (a : α) (items : List α) (n : Nat) :
    ((items.take n).reverse ++ [a]).drop (((items.take n).reverse ++ [a]).length - n) =
      ((a :: items).take n).reverse := by
  rw [← List.reverse_cons, List.drop_reverse, List.length_reverse, ← take_cons_take a items n]
  congr 1
  apply List.take_eq_take_iff.mpr
  omega

theorem Keeps.start : Keeps capacity [] (ofHistory (.create capacity buffer)) :=
  ⟨rfl, by simp [appended, ofHistory, History.create], rfl, rfl⟩

theorem Keeps.change (h : Keeps capacity log r) (c : Changes r e next) :
    Keeps capacity (e :: log) next := by
  cases c with
  | appended author segmented =>
    have hlog : appended (.appended (r.history.append author segmented).1 :: log) =
        (r.history.append author segmented).1 :: appended log := rfl
    refine ⟨h.capacity_eq, ?_, ?_, ?_⟩
    · show (r.history.messages ++ [_]).drop ((r.history.messages ++ [_]).length -
        r.history.capacity) = _
      rw [h.capacity_eq, h.messages_eq, hlog]
      exact drop_reverse_take_append _ _ _
    · show r.history.nextId + 1 = _
      rw [h.nextId_eq, hlog, List.length_cons, UInt64.ofNat_add]
      rfl
    · rw [hlog, List.reverse_cons, List.map_append, h.ids_eq, List.length_cons,
        List.range_succ, List.map_append]
      exact congrArg (_ ++ [·]) h.nextId_eq
  | ranDry | refused | joined name | left name | closed =>
    exact ⟨h.capacity_eq, h.messages_eq, h.nextId_eq, h.ids_eq⟩
  | delivered received =>
    have same := history_of_receive? received
    exact ⟨same ▸ h.capacity_eq, same ▸ h.messages_eq, same ▸ h.nextId_eq, h.ids_eq⟩

theorem session_keeps (capacity buffer : Nat) (actions : List Action) :
    Keeps capacity (session capacity buffer actions).1 (session capacity buffer actions).2 :=
  session_induction .start .change actions

/-- As long as ids do not wrap around, the message with id `k` is the one appended `k`-th. -/
theorem Keeps.toNat_ids (h : Keeps capacity log r) (few : (appended log).length < UInt64.size) :
    (appended log).reverse.map (·.id.toNat) = List.range (appended log).length := by
  have ids := congrArg (List.map UInt64.toNat) h.ids_eq
  rw [List.map_map, List.map_map] at ids
  refine ids.trans ((List.map_congr_left fun k hk => ?_).trans (List.map_id _))
  have := List.mem_range.mp hk
  exact UInt64.toNat_ofNat_of_lt' (by omega)

theorem Keeps.messages_eq_drop (h : Keeps capacity log r) :
    r.history.messages =
      (appended log).reverse.drop ((appended log).length - max 1 capacity) := by
  rw [h.messages_eq, List.reverse_take]

theorem Keeps.length_messages (h : Keeps capacity log r) :
    r.history.messages.length = min (max 1 capacity) (appended log).length := by
  rw [h.messages_eq, List.length_reverse, List.length_take]

theorem Keeps.toNat_ids_messages (h : Keeps capacity log r)
    (few : (appended log).length < UInt64.size) :
    r.history.messages.map (·.id.toNat) =
      List.range' ((appended log).length - r.history.messages.length)
        r.history.messages.length := by
  rw [h.length_messages, h.messages_eq_drop, List.map_drop, h.toNat_ids few,
    List.range_eq_range', List.drop_range']
  congr 1 <;> omega

/-- The history keeps the latest messages. Only what is appended is numbered and kept. -/
theorem session_keeps_latest (capacity buffer : Nat) (actions : List Action) :
    let r := (session capacity buffer actions).2
    let sent := (appended (session capacity buffer actions).1).reverse
    r.history.messages = sent.drop (sent.length - max 1 capacity) ∧
    r.history.messages.length = min (max 1 capacity) sent.length ∧
    r.history.nextId = UInt64.ofNat sent.length ∧
    (sent.length < UInt64.size →
      sent.map (·.id.toNat) = List.range sent.length ∧
      r.history.messages.map (·.id.toNat) =
        List.range' (sent.length - r.history.messages.length) r.history.messages.length) ∧
    (∀ a : Action, a.isSubscribers = true → (r.act a).2.history = r.history) ∧
    (r.isOpen = true → ∀ (author : String),
      (∀ segmented, r.act (.append author segmented) =
        (.appended ⟨r.history.nextId, author, segmented.content, segmented.results⟩,
          r.withHistory (r.history.append author segmented).2)) ∧
      ∀ (σ : Type) (_ : Source σ) (source source' : σ) (raw : String),
        (∀ segmented, (Segmented.segment raw).Gives source segmented source' →
          r.act (.post source author raw) = r.act (.append author segmented)) ∧
        ((Segmented.segment raw).runFrom source = (none, source') →
          r.act (.post source author raw) = (.ranDry, r))) := by
  have keeps := session_keeps capacity buffer actions
  simp only [List.length_reverse]
  refine ⟨keeps.messages_eq_drop, keeps.length_messages, keeps.nextId_eq,
    fun few => ⟨keeps.toNat_ids few, keeps.toNat_ids_messages few⟩,
    fun a => history_act_of_isSubscribers, fun hopen author => ⟨fun _ => act_append hopen, ?_⟩⟩
  intro σ _ source source' raw
  exact ⟨fun segmented => act_post_of_gives hopen, act_post_of_dry hopen⟩

/-- A history that is to keep nothing keeps one message, and a post that runs dry leaves no gap. -/
theorem session_keeps_latest_one :
    ∃ (actions : List Action) (rolled : RollResult),
      actions = [.subscribe "Bo", .post (Roller.sequence [4]) "Ann" "[d6]",
        .post (Roller.sequence [1]) "Ann" "[2d6]", .append "Bo" ⟨"hi", []⟩, .receive "Bo"] ∧
      (session 0 1 actions).1 = [.delivered "Bo" (.lagged 1), .appended ⟨1, "Bo", "hi", []⟩,
        .ranDry, .appended ⟨0, "Ann", "\x7b0\x7d", [rolled]⟩, .joined "Bo"] ∧
      (session 0 1 actions).2.history.messages = [⟨1, "Bo", "hi", []⟩] ∧
      (session 0 1 actions).2.history.messages.map (·.id.toNat) = [1] ∧
      ((session 0 1 actions).2.act (.receive "Bo")).2.history =
        (session 0 1 actions).2.history ∧
      (session 0 1 actions).2.act (.post (Roller.sequence [1]) "Ann" "[2d6]") =
        (.ranDry, (session 0 1 actions).2) := by
  have dry : (Segmented.segment "[2d6]").runFrom (Roller.sequence [1]) = (none, .sequence []) := by
    decide +kernel
  let rolled : RollResult := ⟨.ofNat 4, [.dice "1d6" 1 6 [⟨4, false, .ordinary⟩]]⟩
  obtain ⟨actions, hactions, hlog, hmessages, hopen⟩ : ∃ actions : List Action,
      actions = [.subscribe "Bo", .post (Roller.sequence [4]) "Ann" "[d6]",
        .post (Roller.sequence [1]) "Ann" "[2d6]", .append "Bo" ⟨"hi", []⟩, .receive "Bo"] ∧
      (session 0 1 actions).1 = [.delivered "Bo" (.lagged 1), .appended ⟨1, "Bo", "hi", []⟩,
        .ranDry, .appended ⟨0, "Ann", "\x7b0\x7d", [rolled]⟩, .joined "Bo"] ∧
      (session 0 1 actions).2.history.messages = [⟨1, "Bo", "hi", []⟩] ∧
      (session 0 1 actions).2.isOpen = true :=
    ⟨_, rfl, by decide +kernel, by decide +kernel, by decide +kernel⟩
  obtain ⟨-, -, -, ids, subscribers, acts⟩ := session_keeps_latest 0 1 actions
  refine ⟨actions, rolled, hactions, hlog, hmessages, ?_, subscribers (.receive "Bo") rfl,
    ((acts hopen "Ann").2 Roller _ _ _ "[2d6]").2 dry⟩
  rw [hlog, hmessages] at ids
  rw [hmessages]
  exact (ids (by decide)).2

end Room
end DiceChat

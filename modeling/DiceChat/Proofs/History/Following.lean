import DiceChat.Proofs.History.Keeping

/-!
# What subscribers are told

An account of a subscription says when it began, how many messages were received and how many the
subscriber was told to have missed. It is drawn up from the log alone, and it says at any time
which message the subscriber is to receive next. So no message is received twice, out of order, or
lost without being counted as missed, and nothing depends on what others do or on how many messages
the history keeps.
-/

namespace DiceChat

-- ---------------------------------------------------------------------------
-- Accounts
-- ---------------------------------------------------------------------------

structure Account where
  /-- How many messages had been appended when the subscription began. -/
  start : Nat
  received : Nat
  missed : Nat
deriving DecidableEq, Repr

namespace Account

/-- How many messages have been appended before the one to receive next. -/
def place (a : Account) : Nat := a.start + a.received + a.missed

def enter (a : Account) : Delivery → Account
  | .message _ => { a with received := a.received + 1 }
  | .lagged n => { a with missed := a.missed + n }
  | .empty | .closed => a

@[simp] theorem place_enter_message (a : Account) (m : Message) :
    (a.enter (.message m)).place = a.place + 1 := by
  simp only [enter, place]
  omega

@[simp] theorem place_enter_lagged (a : Account) (n : Nat) :
    (a.enter (.lagged n)).place = a.place + n := by
  simp only [enter, place]
  omega

@[simp] theorem enter_ite (a : Account) (b : Bool) :
    a.enter (if b then .empty else .closed) = a := by
  cases b <;> rfl

end Account

/-- The account of a subscriber, as the log tells it. -/
def account? (name : String) : List Event → Option Account
  | [] => none
  | .joined who :: log =>
    if who = name then some ⟨(appended log).length, 0, 0⟩ else account? name log
  | .left who :: log => if who = name then none else account? name log
  | .delivered who d :: log =>
    if who = name then (account? name log).map (·.enter d) else account? name log
  | .appended _ :: log | .ranDry :: log | .closed :: log | .refused :: log => account? name log

/-- What a subscriber is to be told: the message that its account comes to, unless that is no
longer held for it or has not been appended yet. -/
inductive Answers (buffer : Nat) (log : List Event) (a : Account) : Delivery → Prop
  | message {m : Message} (held : (appended log).length - a.place ≤ Feed.sizeFor buffer)
      (next : (appended log).reverse[a.place]? = some m) : Answers buffer log a (.message m)
  | lagged (lag : Feed.sizeFor buffer < (appended log).length - a.place) :
      Answers buffer log a (.lagged ((appended log).length - a.place - Feed.sizeFor buffer))
  | empty (nothing : (appended log).length - a.place = 0) (alive : .closed ∉ log) :
      Answers buffer log a .empty
  | closed (nothing : (appended log).length - a.place = 0) (ended : .closed ∈ log) :
      Answers buffer log a .closed

-- ---------------------------------------------------------------------------
-- Rooms follow their logs
-- ---------------------------------------------------------------------------

namespace Room

/-- The feed holds the latest messages, and each subscriber stands where its account says. -/
structure Follows (buffer : Nat) (log : List Event) (r : Room) : Prop where
  size_eq : r.history.feed.size = Feed.sizeFor buffer
  published_eq : r.history.feed.published = (appended log).length
  recent_eq : r.history.feed.recent = (appended log).take (Feed.sizeFor buffer)
  place?_eq : ∀ name, r.place? name = (account? name log).map Account.place
  place_le : ∀ name, ∀ a ∈ account? name log, a.place ≤ (appended log).length
  isOpen_iff : r.isOpen = true ↔ .closed ∉ log

variable {capacity buffer : Nat} {log : List Event} {r next : Room} {e : Event} {name : String}
  {a : Account}

theorem Follows.start (capacity buffer : Nat) :
    Follows buffer [] (ofHistory (.create capacity buffer)) where
  size_eq := rfl
  published_eq := rfl
  recent_eq := by simp [ofHistory, History.create, Feed.empty, appended]
  place?_eq _ := rfl
  place_le _ _ h := by cases h
  isOpen_iff := by simp [ofHistory]

/-- A subscriber is told what its account says, and the account goes on from there. -/
theorem Follows.receive? (h : Follows buffer log r) (ha : account? name log = some a) :
    ∃ d next, r.receive? name = some (d, next) ∧ Answers buffer log a d ∧
      (a.enter d).place ≤ (appended log).length ∧ next.isOpen = r.isOpen ∧
      ∀ who, next.place? who = if name = who then some (a.enter d).place else r.place? who := by
  have hplace : r.place? name = some a.place := by rw [h.place?_eq, ha]; rfl
  have hle := h.place_le name a ha
  have hpending : r.history.feed.pending a.place = (appended log).length - a.place := by
    rw [Feed.pending, h.published_eq]
  simp only [Room.receive?, hplace, Option.map_some]
  by_cases nothing : (appended log).length - a.place = 0
  · rw [Feed.receive_of_nothing (by omega)]
    refine ⟨_, _, rfl, ?_, ?_, rfl, fun who => ?_⟩
    · split
      · next alive => exact .empty nothing (h.isOpen_iff.mp alive)
      · next ended => exact .closed nothing (by simpa [h.isOpen_iff] using ended)
    · rw [Account.enter_ite]
      exact hle
    · rw [Account.enter_ite]
      split
      · next same => rw [← same, hplace]
      · rfl
  · by_cases lag : Feed.sizeFor buffer < (appended log).length - a.place
    · rw [Feed.receive_of_lag (by rw [h.size_eq]; omega), hpending, h.size_eq, h.published_eq]
      refine ⟨_, _, rfl, .lagged lag, ?_, rfl, fun who => ?_⟩
      · rw [Account.place_enter_lagged]
        omega
      · rw [place?_setPlace, Account.place_enter_lagged]
        congr 2
        omega
    · have some_left : 0 < r.history.feed.pending a.place := by omega
      obtain ⟨m, hm, hreceive⟩ := Feed.receive_of_held some_left (by rw [h.size_eq]; omega)
      rw [hreceive]
      refine ⟨_, _, rfl, .message (by omega) ?_, ?_, rfl, fun who => ?_⟩
      · -- The feed counts from its latest message, an account from the first one.
        rw [hpending, h.recent_eq, List.getElem?_take_of_lt (by omega)] at hm
        rw [List.getElem?_reverse (by omega), ← hm]
        congr 1
        omega
      · rw [Account.place_enter_message]
        omega
      · rw [place?_setPlace, Account.place_enter_message]

theorem Follows.of_receive? {d : Delivery} (h : Follows buffer log r)
    (received : r.receive? name = some (d, next)) :
    ∃ a, account? name log = some a ∧ Answers buffer log a d ∧
      (a.enter d).place ≤ (appended log).length ∧ next.isOpen = r.isOpen ∧
      ∀ who, next.place? who = if name = who then some (a.enter d).place else r.place? who := by
  obtain ⟨place, hplace, -⟩ := Option.map_eq_some_iff.mp received
  rw [h.place?_eq] at hplace
  obtain ⟨a, ha, -⟩ := Option.map_eq_some_iff.mp hplace
  obtain ⟨_, _, received', told⟩ := h.receive? ha
  cases received.symm.trans received'
  exact ⟨a, ha, told⟩

theorem Follows.change (h : Follows buffer log r) (c : Changes r e next) :
    Follows buffer (e :: log) next := by
  cases c with
  | appended author segmented =>
    have hlog : appended (.appended (r.history.append author segmented).1 :: log) =
        (r.history.append author segmented).1 :: appended log := rfl
    refine ⟨h.size_eq, ?_, ?_, h.place?_eq, fun who a ha => ?_, h.isOpen_iff.trans (by simp)⟩
    · rw [hlog, List.length_cons, ← h.published_eq]
      rfl
    · show (_ :: r.history.feed.recent).take r.history.feed.size = _
      rw [h.size_eq, h.recent_eq, hlog, take_cons_take]
      rfl
    · have := h.place_le who a ha
      rw [hlog, List.length_cons]
      omega
  | ranDry | refused =>
    exact ⟨h.size_eq, h.published_eq, h.recent_eq, h.place?_eq, h.place_le,
      h.isOpen_iff.trans (by simp)⟩
  | closed =>
    exact ⟨h.size_eq, h.published_eq, h.recent_eq, h.place?_eq, h.place_le, by simp [close]⟩
  | joined name =>
    refine ⟨h.size_eq, h.published_eq, h.recent_eq, fun who => ?_, fun who a ha => ?_,
      h.isOpen_iff.trans (by simp)⟩
    · rw [place?_subscribe, h.place?_eq, h.published_eq, account?]
      split <;> rfl
    · rw [account?] at ha
      split at ha
      · cases ha
        exact Nat.le_refl _
      · exact h.place_le who a ha
  | left name =>
    refine ⟨h.size_eq, h.published_eq, h.recent_eq, fun who => ?_, fun who a ha => ?_,
      h.isOpen_iff.trans (by simp)⟩
    · rw [place?_unsubscribe, h.place?_eq, account?]
      split <;> rfl
    · rw [account?] at ha
      split at ha
      · cases ha
      · exact h.place_le who a ha
  | @delivered name d next received =>
    obtain ⟨a, ha, -, hle, hopen, places⟩ := h.of_receive? received
    have same := history_of_receive? received
    have haccount : account? name (.delivered name d :: log) = some (a.enter d) := by
      rw [account?, if_pos rfl, ha]
      rfl
    have stands : ∀ who, next.place? who =
        (account? who (.delivered name d :: log)).map Account.place := by
      intro who
      by_cases hwho : name = who
      · subst hwho
        rw [places, if_pos rfl, haccount]
        rfl
      · rw [places, if_neg hwho, account?, if_neg hwho, h.place?_eq]
    have within : ∀ who, ∀ b ∈ account? who (.delivered name d :: log),
        b.place ≤ (appended log).length := by
      intro who b hb
      by_cases hwho : name = who
      · subst hwho
        cases haccount.symm.trans hb
        exact hle
      · rw [account?, if_neg hwho] at hb
        exact h.place_le who b hb
    exact ⟨same ▸ h.size_eq, same ▸ h.published_eq, same ▸ h.recent_eq, stands, within,
      hopen ▸ h.isOpen_iff.trans (by simp)⟩

theorem session_follows (capacity buffer : Nat) (actions : List Action) :
    Follows buffer (session capacity buffer actions).1 (session capacity buffer actions).2 :=
  session_induction (.start capacity buffer) .change actions

theorem Follows.pending?_eq (h : Follows buffer log r) (name : String) :
    r.pending? name = (account? name log).map fun a => (appended log).length - a.place := by
  rw [pending?, h.place?_eq, Option.map_map]
  congr 1
  funext a
  exact congrArg (· - a.place) h.published_eq

theorem Follows.act_receive (h : Follows buffer log r) (ha : account? name log = some a) :
    ∃ d, (r.act (.receive name)).1 = .delivered name d ∧ Answers buffer log a d := by
  obtain ⟨d, next, received, answers, -⟩ := h.receive? ha
  refine ⟨d, ?_, answers⟩
  rw [act, received]

theorem Follows.act_receive_of_none (h : Follows buffer log r) (ha : account? name log = none) :
    (r.act (.receive name)).1 = .refused := by
  have : r.receive? name = none := by
    rw [Room.receive?, h.place?_eq, ha]
    rfl
  rw [act, this]

theorem Keeps.id_of_getElem? (h : Keeps capacity log r) {k : Nat} {m : Message}
    (hm : (appended log).reverse[k]? = some m) : m.id = UInt64.ofNat k := by
  have ids := congrArg (·[k]?) h.ids_eq
  have hk := (List.getElem?_eq_some_iff.mp hm).1
  rw [List.length_reverse] at hk
  simpa only [List.getElem?_map, hm, List.getElem?_range hk, Option.map_some,
    Option.some.injEq] using ids

end Room

-- ---------------------------------------------------------------------------
-- What an account rests on
-- ---------------------------------------------------------------------------

/-- What bears on a subscriber: messages, the end, and what it does itself. -/
def Event.concerns (name : String) : Event → Bool
  | .appended _ | .closed => true
  | .joined who | .left who | .delivered who _ => who == name
  | .ranDry | .refused => false

def concerning (name : String) (log : List Event) : List Event := log.filter (Event.concerns name)

def Event.untold : Event → Event
  | .delivered name _ => .delivered name .empty
  | e => e

/-- The subscriber was always told what its account said. -/
def Told (buffer : Nat) (name : String) : List Event → Prop
  | [] => True
  | e :: log => (∀ d, e = .delivered name d → ∃ a, account? name log = some a ∧
      Answers buffer log a d) ∧ Told buffer name log

section concerning

variable {buffer : Nat} {name : String} {log : List Event} {a : Account}

theorem appended_concerning (name : String) (log : List Event) :
    appended (concerning name log) = appended log := by
  rw [appended, concerning, List.filterMap_filter, appended]
  congr 1
  funext e
  cases e <;> simp [Event.concerns, Event.message?]

theorem closed_mem_concerning : .closed ∈ concerning name log ↔ .closed ∈ log := by
  simp [concerning, Event.concerns]

theorem account?_concerning (name : String) (log : List Event) :
    account? name (concerning name log) = account? name log := by
  induction log with
  | nil => rfl
  | cons e log ih =>
    have hcons : concerning name (e :: log) =
        if e.concerns name then e :: concerning name log else concerning name log :=
      List.filter_cons
    rw [hcons]
    cases e with
    | appended _ | closed | ranDry | refused => exact ih
    | joined who | left who | delivered who d =>
      by_cases h : who = name
      · simp [Event.concerns, h, account?, appended_concerning, ih]
      · simp [Event.concerns, h, account?, ih]

theorem answers_concerning {d : Delivery} (name : String) (h : Answers buffer log a d) :
    Answers buffer (concerning name log) a d := by
  cases h with
  | message held next =>
    exact .message (by rwa [appended_concerning]) (by rwa [appended_concerning])
  | lagged lag =>
    rw [← appended_concerning name] at lag ⊢
    exact .lagged lag
  | empty nothing alive =>
    exact .empty (by rwa [appended_concerning]) (mt closed_mem_concerning.mp alive)
  | closed nothing ended =>
    exact .closed (by rwa [appended_concerning]) (closed_mem_concerning.mpr ended)

theorem Answers.unique {d d' : Delivery} (h : Answers buffer log a d)
    (h' : Answers buffer log a d') : d = d' := by
  have ahead : ∀ {m : Message}, (appended log).reverse[a.place]? = some m →
      a.place < (appended log).length := fun next =>
    List.length_reverse ▸ (List.getElem?_eq_some_iff.mp next).1
  cases h <;> cases h' <;> grind

theorem Told.concerning (h : Told buffer name log) : Told buffer name (concerning name log) := by
  induction log with
  | nil => trivial
  | cons e log ih =>
    rw [DiceChat.concerning, List.filter_cons]
    split
    · refine ⟨fun d he => ?_, ih h.2⟩
      obtain ⟨a, ha, answers⟩ := h.1 d he
      exact ⟨a, (account?_concerning name log).trans ha, answers_concerning name answers⟩
    · exact ih h.2

theorem Told.unique {log' : List Event} (h : Told buffer name log) (h' : Told buffer name log')
    (own : ∀ e ∈ log, e.concerns name = true) (own' : ∀ e ∈ log', e.concerns name = true)
    (same : log.map Event.untold = log'.map Event.untold) : log = log' := by
  induction log generalizing log' with
  | nil => exact (List.map_eq_nil_iff.mp same.symm).symm
  | cons e log ih =>
    cases log' with
    | nil => cases same
    | cons e' log' =>
      obtain ⟨head, tail⟩ := List.cons_eq_cons.mp same
      have hlog : log = log' := ih h.2 h'.2 (fun e he => own e (.tail _ he))
        (fun e he => own' e (.tail _ he)) tail
      subst hlog
      have he := own e (.head _)
      have he' := own' e' (.head _)
      congr 1
      -- Only deliveries leave anything to be told.
      cases e <;> cases e' <;> first | exact head | cases head
      obtain rfl := eq_of_beq he
      obtain ⟨a, ha, answers⟩ := h.1 _ rfl
      obtain ⟨a', ha', answers'⟩ := h'.1 _ rfl
      cases ha.symm.trans ha'
      rw [answers.unique answers']

end concerning

namespace Room

variable {buffer : Nat}

theorem session_told (capacity buffer : Nat) (actions : List Action) (name : String) :
    Told buffer name (session capacity buffer actions).1 := by
  refine (session_induction (P := fun log r => Follows buffer log r ∧ Told buffer name log)
    ⟨.start capacity buffer, trivial⟩ ?_ actions).2
  rintro log r e next ⟨follows, told⟩ c
  refine ⟨follows.change c, fun d he => ?_, told⟩
  subst he
  cases c with
  | delivered received =>
    obtain ⟨a, ha, answers, -⟩ := follows.of_receive? received
    exact ⟨a, ha, answers⟩

/-- Neither the capacity of the history nor other subscribers change what a subscriber sees. -/
theorem session_concerning {capacity capacity' : Nat} {actions actions' : List Action}
    {name : String} {log log' : List Event} {r r' : Room}
    (h : session capacity buffer actions = (log, r))
    (h' : session capacity' buffer actions' = (log', r'))
    (same : (concerning name log).map Event.untold = (concerning name log').map Event.untold) :
    concerning name log = concerning name log' ∧ r.pending? name = r'.pending? name ∧
      (r.act (.receive name)).1 = (r'.act (.receive name)).1 := by
  have told := session_told capacity buffer actions name
  have told' := session_told capacity' buffer actions' name
  have follows := session_follows capacity buffer actions
  have follows' := session_follows capacity' buffer actions'
  rw [h] at told follows
  rw [h'] at told' follows'
  have equal : concerning name log = concerning name log' :=
    told.concerning.unique told'.concerning (fun _ he => (List.mem_filter.mp he).2)
      (fun _ he => (List.mem_filter.mp he).2) same
  have hsent : appended log = appended log' := by
    rw [← appended_concerning name log, equal, appended_concerning]
  have haccount : account? name log = account? name log' := by
    rw [← account?_concerning name log, equal, account?_concerning]
  refine ⟨equal, by rw [follows.pending?_eq, follows'.pending?_eq, hsent, haccount], ?_⟩
  cases ha : account? name log with
  | none =>
    rw [follows.act_receive_of_none ha, follows'.act_receive_of_none (haccount ▸ ha)]
  | some a =>
    obtain ⟨d, hd, answers⟩ := follows.act_receive ha
    obtain ⟨d', hd', answers'⟩ := follows'.act_receive (haccount ▸ ha)
    have hanswers := answers_concerning name answers
    rw [equal] at hanswers
    rw [hd, hd', hanswers.unique (answers_concerning name answers')]

/-- The next that a subscriber is told accounts for every message since it subscribed. -/
theorem session_accounts (capacity buffer : Nat) (actions : List Action) (name : String) :
    let log := (session capacity buffer actions).1
    let r := (session capacity buffer actions).2
    let sent := (appended log).reverse
    r.history.nextId = UInt64.ofNat sent.length ∧
    (r.isOpen = true ↔ .closed ∉ log) ∧
    max 1 buffer ≤ Feed.sizeFor buffer ∧
    (account? name log = none → (r.act (.receive name)).1 = .refused) ∧
    (∀ a, account? name log = some a →
      let next := a.start + a.received + a.missed
      let pending := sent.length - a.start - a.received - a.missed
      next ≤ sent.length ∧ r.pending? name = some pending ∧
      (pending = 0 → (r.act (.receive name)).1 =
        .delivered name (if r.isOpen then .empty else .closed)) ∧
      (0 < pending → pending ≤ Feed.sizeFor buffer →
        ∃ m, sent[next]? = some m ∧ m.id = UInt64.ofNat next ∧
          (r.act (.receive name)).1 = .delivered name (.message m)) ∧
      (Feed.sizeFor buffer < pending → (r.act (.receive name)).1 =
        .delivered name (.lagged (pending - Feed.sizeFor buffer)))) ∧
    ∀ (capacity' : Nat) (actions' : List Action),
      let log' := (session capacity' buffer actions').1
      let r' := (session capacity' buffer actions').2
      (concerning name log).map Event.untold = (concerning name log').map Event.untold →
        concerning name log = concerning name log' ∧ r.pending? name = r'.pending? name ∧
          (r.act (.receive name)).1 = (r'.act (.receive name)).1 := by
  have keeps := session_keeps capacity buffer actions
  have follows := session_follows capacity buffer actions
  refine ⟨?_, follows.isOpen_iff, Feed.le_sizeFor buffer, follows.act_receive_of_none,
    fun a ha => ?_, fun capacity' actions' => session_concerning rfl rfl⟩
  · rw [List.length_reverse]
    exact keeps.nextId_eq
  · obtain ⟨d, hd, answers⟩ := follows.act_receive ha
    have hnext : a.start + a.received + a.missed = a.place := rfl
    simp only [List.length_reverse, Nat.sub_sub, hnext, hd]
    refine ⟨follows.place_le name a ha, by rw [follows.pending?_eq, ha]; rfl, ?_⟩
    cases answers with
    | message held next =>
      have ahead := (List.getElem?_eq_some_iff.mp next).1
      rw [List.length_reverse] at ahead
      exact ⟨fun nothing => by omega,
        fun _ _ => ⟨_, next, keeps.id_of_getElem? next, rfl⟩, fun lag => by omega⟩
    | lagged lag => exact ⟨fun nothing => by omega, fun _ held => by omega,
      fun _ => by rw [Nat.sub_sub]⟩
    | empty nothing alive =>
      exact ⟨fun _ => by rw [if_pos (follows.isOpen_iff.mpr alive)], fun _ _ => by omega,
        fun _ => by omega⟩
    | closed nothing ended =>
      have shut : ¬ (session capacity buffer actions).2.isOpen = true :=
        fun alive => follows.isOpen_iff.mp alive ended
      exact ⟨fun _ => by rw [if_neg shut], fun _ _ => by omega, fun _ => by omega⟩

theorem session_accounts_lagging :
    ∃ actions actions' : List Action,
      actions = [.subscribe "Bo", .append "Ann" ⟨"a", []⟩, .append "Ann" ⟨"b", []⟩,
        .append "Ann" ⟨"c", []⟩, .receive "Bo", .close] ∧
      actions' = [.subscribe "Cy", .resubscribe "Bo" "Cy", .append "Ann" ⟨"a", []⟩, .receive "Cy",
        .append "Ann" ⟨"b", []⟩, .unsubscribe "Cy", .append "Ann" ⟨"c", []⟩, .receive "Bo",
        .close] ∧
      account? "Bo" (session 1 2 actions).1 = some ⟨0, 0, 1⟩ ∧
      ((session 1 2 actions).2.act (.receive "Bo")).1 =
        .delivered "Bo" (.message ⟨1, "Ann", "b", []⟩) ∧
      ((session 9 2 actions').2.act (.receive "Bo")).1 =
        .delivered "Bo" (.message ⟨1, "Ann", "b", []⟩) := by
  obtain ⟨actions, actions', hactions, hactions', haccount, hsent, same⟩ :
      ∃ actions actions' : List Action,
        actions = [.subscribe "Bo", .append "Ann" ⟨"a", []⟩, .append "Ann" ⟨"b", []⟩,
          .append "Ann" ⟨"c", []⟩, .receive "Bo", .close] ∧
        actions' = [.subscribe "Cy", .resubscribe "Bo" "Cy", .append "Ann" ⟨"a", []⟩,
          .receive "Cy", .append "Ann" ⟨"b", []⟩, .unsubscribe "Cy", .append "Ann" ⟨"c", []⟩,
          .receive "Bo", .close] ∧
        account? "Bo" (session 1 2 actions).1 = some ⟨0, 0, 1⟩ ∧
        (appended (session 1 2 actions).1).reverse =
          [⟨0, "Ann", "a", []⟩, ⟨1, "Ann", "b", []⟩, ⟨2, "Ann", "c", []⟩] ∧
        (concerning "Bo" (session 1 2 actions).1).map Event.untold =
          (concerning "Bo" (session 9 2 actions').1).map Event.untold :=
    ⟨_, _, rfl, rfl, by decide +kernel, by decide +kernel, by decide +kernel⟩
  obtain ⟨-, -, -, -, accounts, others⟩ := session_accounts 1 2 actions "Bo"
  obtain ⟨-, -, -, received, -⟩ := accounts _ haccount
  rw [hsent] at received
  obtain ⟨m, hm, -, hreceive⟩ := received (by decide) (by decide)
  cases hm
  exact ⟨actions, actions', hactions, hactions', haccount, hreceive,
    (others 9 actions' same).2.2 ▸ hreceive⟩

end Room
end DiceChat

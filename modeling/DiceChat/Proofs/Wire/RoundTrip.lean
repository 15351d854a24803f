import DiceChat.Proofs.Chat.Hydration
import DiceChat.Proofs.Json.RoundTrip
import DiceChat.Proofs.Result.Explanation
import DiceChat.Wire.Decode

/-!
# Values of the domain read back from JSON

Each type is read from its tree by the names of its members, and the tree from its text. Only
results have a condition, that their numbers are finite; whatever was evaluated, segmented or
posted meets it.
-/

namespace DiceChat

open Json

-- ---------------------------------------------------------------------------
-- Words
-- ---------------------------------------------------------------------------

namespace Json

theorem filter_name {members : List (String × Json)} (h : (members.map Prod.fst).Nodup)
    {m : String × Json} (hm : m ∈ members) : members.filter (·.1 == m.1) = [m] := by
  induction members with
  | nil => cases hm
  | cons first members ih =>
    obtain ⟨fresh, h⟩ := List.nodup_cons.mp h
    rcases List.mem_cons.mp hm with rfl | hm
    · have others : members.filter (·.1 == m.1) = [] := by
        refine List.filter_eq_nil_iff.mpr fun other hother same => fresh ?_
        rw [← eq_of_beq same]
        exact List.mem_map_of_mem hother
      rw [List.filter_cons_of_pos (by simp), others]
    · have other : (first.1 == m.1) = false :=
        beq_eq_false_iff_ne.mpr fun same => fresh (same ▸ List.mem_map_of_mem hm)
      rw [List.filter_cons_of_neg (by simp [other]), ih h hm]

theorem record?_object {members : List (String × Json)} (h : (members.map Prod.fst).Nodup) :
    record? (members.map Prod.fst) (.object members) = some (members.map fun m => some m.2) := by
  refine mapM_map_eq_some fun m hm => ?_
  rw [member?, filter_name h hm]

@[simp] theorem required?_some {α : Type} (value? : Json → Option α) (j : Json) :
    required? value? (some j) = value? j := by
  rw [required?, Option.bind_some]

@[simp] theorem word?_ofWord (n : UInt16) : (ofWord n).word? = some n := by
  have := n.toNat_lt
  have bound : (n.toNat : Int) < UInt16.size := by
    rw [UInt16.size]
    omega
  rw [ofWord, word?, natBelow?, if_pos ⟨Int.natCast_nonneg _, bound⟩]
  simp

@[simp] theorem longWord?_integer (n : UInt64) : longWord? (.integer n.toNat) = some n := by
  have := n.toNat_lt
  have bound : (n.toNat : Int) < UInt64.size := by
    rw [UInt64.size]
    omega
  rw [longWord?, natBelow?, if_pos ⟨Int.natCast_nonneg _, bound⟩]
  simp

theorem fits_integer {n : Nat} (h : n < 0x10000000000000000) (room : Nat) :
    Fits room (.integer n) := by
  simp only [Fits, isIntegral, Bool.and_eq_true, decide_eq_true_eq]
  omega

@[simp] theorem fits_ofWord (n : UInt16) (room : Nat) : Fits room (ofWord n) :=
  fits_integer (Nat.lt_trans n.toNat_lt (by decide)) room

end Json

-- ---------------------------------------------------------------------------
-- Dice
-- ---------------------------------------------------------------------------

theorem Rule.ofName?_name (r : Rule) : Rule.ofName? r.name = some r := by
  cases r <;> rfl

theorem Selection.ofJson?_toJson (s : Selection) : ofJson? s.toJson = some s := by
  simp [toJson, ofJson?, Rule.ofName?_name]

theorem Selection.optionOfJson?_map_toJson (s : Option Selection) :
    optionOfJson? (some ((s.map toJson).getD .null)) = some s := by
  cases s with
  | none => rfl
  | some s => exact congrArg (Option.map some) (ofJson?_toJson s)

theorem Dice.ofJson?_toJson (d : Dice) : ofJson? d.toJson = some d := by
  have fields : record? ["count", "sides", "selection"] d.toJson =
      some [some (.ofWord d.count), some (.ofWord d.sides),
        some ((d.selection.map Selection.toJson).getD .null)] :=
    record?_object (by simp)
  rw [ofJson?, fields]
  simp [Selection.optionOfJson?_map_toJson]

theorem Selection.fits_toJson (s : Selection) (room : Nat) : Fits (room + 1) s.toJson := by
  simp [toJson, Fits, FitMembers]

theorem Dice.fits_toJson (d : Dice) (room : Nat) : Fits (room + 2) d.toJson := by
  obtain ⟨count, sides, selection⟩ := d
  cases selection <;> simp [toJson, Fits, FitMembers, Selection.fits_toJson]

-- ---------------------------------------------------------------------------
-- Nodes
-- ---------------------------------------------------------------------------

theorem Category.ofJson?_toJson (inNode : Bool) (c : Category) :
    ofJson? inNode c.toJson = some c := by
  cases c <;> rfl

theorem DieDetail.ofJson?_toJson (inNode : Bool) (d : DieDetail) :
    ofJson? inNode d.toJson = some d := by
  have fields : record? ["value", "crossedOut", "category"] d.toJson =
      some [some (.ofWord d.value), some (.bool d.crossedOut), some d.category.toJson] :=
    record?_object (by simp)
  rw [ofJson?, fields]
  simp [bool?, Category.ofJson?_toJson]

theorem Category.fits_toJson (c : Category) (room : Nat) : Fits room c.toJson := by
  simp [toJson, Fits]

theorem DieDetail.fits_toJson (d : DieDetail) (room : Nat) : Fits (room + 1) d.toJson := by
  simp [toJson, Category.fits_toJson, Fits, FitMembers]

theorem Node.fits_toJson (n : Node) (room : Nat) : Fits (room + 3) n.toJson := by
  cases n with
  | dice content least greatest rolls =>
    have := fitAll_map fun d (_ : d ∈ rolls) => d.fits_toJson room
    simpa [toJson, Fits, FitMembers] using this
  | _ => simp [toJson, Fits, FitMembers]

theorem Node.ofJson?_object {kind : String} {fields : List (String × Json)}
    (usable : (Json.object (("type", .string kind) :: fields)).isUsable = true)
    (others : ∀ m ∈ fields, m.1 ≠ "type") :
    ofJson? (.object (("type", .string kind) :: fields)) = ofKind? kind (.object fields) := by
  have hkind : member? (("type", .string kind) :: fields) "type" = some (some (.string kind)) := by
    have untagged : fields.filter (·.1 == "type") = [] :=
      List.filter_eq_nil_iff.mpr fun m hm => by simpa using others m hm
    rw [member?, List.filter_cons_of_pos (by simp), untagged]
  have hfields : (("type", .string kind) :: fields).filter (·.1 != "type") = fields := by
    rw [List.filter_cons_of_neg (by simp)]
    exact List.filter_eq_self.mpr fun m hm => by simpa using others m hm
  simp [ofJson?, usable, hkind, hfields, string?]

theorem Node.ofJson?_toJson (n : Node) : ofJson? n.toJson = some n := by
  have usable := (n.fits_toJson 0).isUsable
  cases n with
  | dice content least greatest rolls =>
    have fields : record? ["content", "min", "max", "rolls"] (.object [
        ("content", .string content), ("min", .ofWord least), ("max", .ofWord greatest),
        ("rolls", .array (rolls.map DieDetail.toJson))]) = some [some (.string content),
          some (.ofWord least), some (.ofWord greatest),
          some (.array (rolls.map DieDetail.toJson))] := record?_object (by simp)
    have hrolls : list? (DieDetail.ofJson? true) (.array (rolls.map DieDetail.toJson)) =
        some rolls := mapM_map_of_inverse fun d _ => d.ofJson?_toJson true
    rw [toJson, ofJson?_object usable (by simp)]
    simp [ofKind?, fields, hrolls, string?]
  | constant content | operator content | openParen content | closeParen content =>
    have fields : record? ["content"] (.object [("content", .string content)]) =
        some [some (.string content)] := record?_object (by simp)
    rw [toJson, ofJson?_object usable (by simp)]
    simp [ofKind?, fields, string?]

-- ---------------------------------------------------------------------------
-- Results and messages
-- ---------------------------------------------------------------------------

theorem RollResult.ofJson?_toJson (r : RollResult) : ofJson? r.toJson = some r := by
  have fields : record? ["result", "detail"] r.toJson =
      some [some (.float r.value), some (.array (r.detail.map Node.toJson))] :=
    record?_object (by simp)
  have hdetail : list? Node.ofJson? (.array (r.detail.map Node.toJson)) = some r.detail :=
    mapM_map_of_inverse fun n _ => n.ofJson?_toJson
  rw [ofJson?, fields]
  simp [number?, hdetail]

theorem list?_map_toJson (results : List RollResult) :
    list? RollResult.ofJson? (.array (results.map RollResult.toJson)) = some results :=
  mapM_map_of_inverse fun r _ => r.ofJson?_toJson

theorem Segmented.ofJson?_toJson (s : Segmented) : ofJson? s.toJson = some s := by
  have fields : record? ["content", "diceRolls"] s.toJson =
      some [some (.string s.content), some (.array (s.results.map RollResult.toJson))] :=
    record?_object (by simp)
  rw [ofJson?, fields]
  simp [string?, list?_map_toJson]

theorem Message.ofJson?_toJson (m : Message) : ofJson? m.toJson = some m := by
  have fields : record? ["id", "author", "content", "diceRolls"] m.toJson =
      some [some (.integer m.id.toNat), some (.string m.author), some (.string m.content),
        some (.array (m.results.map RollResult.toJson))] :=
    record?_object (by simp)
  rw [ofJson?, fields]
  simp [string?, list?_map_toJson]

theorem RollResult.fits_toJson {r : RollResult} (h : r.value.isFinite = true) (room : Nat) :
    Fits (room + 5) r.toJson := by
  have := fitAll_map fun n (_ : n ∈ r.detail) => n.fits_toJson room
  simpa [toJson, Fits, FitMembers, h] using this

theorem fitAll_results {results : List RollResult}
    (h : ∀ r ∈ results, r.value.isFinite = true) (room : Nat) :
    FitAll (room + 5) (results.map RollResult.toJson) :=
  fitAll_map fun r hr => RollResult.fits_toJson (h r hr) room

theorem Segmented.fits_toJson {s : Segmented} (h : ∀ r ∈ s.results, r.value.isFinite = true)
    (room : Nat) : Fits (room + 7) s.toJson := by
  simpa [toJson, Fits, FitMembers] using fitAll_results h room

theorem Message.fits_toJson {m : Message} (h : ∀ r ∈ m.results, r.value.isFinite = true)
    (room : Nat) : Fits (room + 7) m.toJson := by
  have hid : Fits (room + 6) (.integer m.id.toNat) := fits_integer m.id.toNat_lt _
  simpa [toJson, Fits, FitMembers] using ⟨hid, fitAll_results h room⟩

-- ---------------------------------------------------------------------------
-- Texts
-- ---------------------------------------------------------------------------

/-- The text of a value is read as that value, whether it is on one line or on many. -/
def Json.ReadsBack {α : Type} (toJson : α → Json) (ofJson? : Json → Option α) (a : α) : Prop :=
  (parse (toJson a).compact).bind ofJson? = some a ∧
    (parse (toJson a).pretty).bind ofJson? = some a

theorem Json.readsBack_of_fits {α : Type} {toJson : α → Json} {ofJson? : Json → Option α} {a : α}
    (fits : Fits maxDepth (toJson a)) (inverse : ofJson? (toJson a) = some a) :
    ReadsBack toJson ofJson? a := by
  constructor
  · rw [parse, compact, parseWithin_write Layout.isBlank_compact fits]
    exact inverse
  · rw [parse, pretty, parseWithin_write Layout.isBlank_indented fits]
    exact inverse

-- ---------------------------------------------------------------------------
-- Results are finite
-- ---------------------------------------------------------------------------

section finite

variable {σ : Type} [Source σ] {source source' : σ}

theorem RollResult.isFinite_of_gives {s : String} {r : RollResult}
    (h : (evaluate s).Gives source (.ok r) source') : r.value.isFinite = true := by
  obtain ⟨_, _, -, -, hvalue, -⟩ := evaluate_gives h
  exact Evaluated.isFinite_of_calculate hvalue

theorem Outcomes.isFinite {os : List Outcome} (h : Outcomes source os source') :
    ∀ r ∈ os.filterMap Outcome.result, r.value.isFinite = true := by
  induction h with
  | done => exact fun _ hr => absurd hr List.not_mem_nil
  | text _ ih => exact ih
  | failure _ _ ih => exact ih
  | result h _ ih =>
    intro r hr
    rcases List.mem_cons.mp hr with rfl | hr
    · exact RollResult.isFinite_of_gives h
    · exact ih r hr

theorem Segmented.isFinite_of_gives {raw : String} {s : Segmented}
    (h : (segment raw).Gives source s source') : ∀ r ∈ s.results, r.value.isFinite = true := by
  obtain ⟨os, outcomes, -, results, -⟩ := gives_segment h
  rw [results]
  exact outcomes.isFinite

theorem Message.isFinite_of_gives {h h' : History} {author raw : String} {m : Message}
    (posted : (h.post author raw).Gives source (m, h') source') :
    ∀ r ∈ m.results, r.value.isFinite = true := by
  obtain ⟨s, next, hs, posted⟩ := Draw.gives_bind.mp posted
  obtain ⟨same, -⟩ := Draw.gives_pure.mp posted
  cases same
  exact Segmented.isFinite_of_gives hs

end finite

/-- Everything that goes over the wire reads back, and only finite numbers are ever sent. -/
theorem wire_reads_back :
    (∀ d : Dice, ReadsBack Dice.toJson Dice.ofJson? d) ∧
    (∀ s : Selection, ReadsBack Selection.toJson Selection.ofJson? s) ∧
    (∀ c : Category, ReadsBack Category.toJson (Category.ofJson? false) c) ∧
    (∀ d : DieDetail, ReadsBack DieDetail.toJson (DieDetail.ofJson? false) d) ∧
    (∀ n : Node, ReadsBack Node.toJson Node.ofJson? n) ∧
    (∀ r : RollResult, r.value.isFinite = true →
      ReadsBack RollResult.toJson RollResult.ofJson? r) ∧
    (∀ s : Segmented, (∀ r ∈ s.results, r.value.isFinite = true) →
      ReadsBack Segmented.toJson Segmented.ofJson? s) ∧
    (∀ m : Message, (∀ r ∈ m.results, r.value.isFinite = true) →
      ReadsBack Message.toJson Message.ofJson? m) ∧
    ∀ (σ : Type) (_ : Source σ) (source source' : σ) (author raw : String),
      (∀ r, (RollResult.evaluate raw).Gives source (.ok r) source' → r.value.isFinite = true) ∧
      (∀ s, (Segmented.segment raw).Gives source s source' →
        ∀ r ∈ s.results, r.value.isFinite = true) ∧
      ∀ (h h' : History) (m : Message), (h.post author raw).Gives source (m, h') source' →
        ∀ r ∈ m.results, r.value.isFinite = true :=
  ⟨fun d => readsBack_of_fits (d.fits_toJson _) d.ofJson?_toJson,
    fun s => readsBack_of_fits (s.fits_toJson _) s.ofJson?_toJson,
    fun c => readsBack_of_fits (c.fits_toJson _) (c.ofJson?_toJson false),
    fun d => readsBack_of_fits (d.fits_toJson _) (d.ofJson?_toJson false),
    fun n => readsBack_of_fits (n.fits_toJson _) n.ofJson?_toJson,
    fun r h => readsBack_of_fits (RollResult.fits_toJson h _) r.ofJson?_toJson,
    fun s h => readsBack_of_fits (Segmented.fits_toJson h _) s.ofJson?_toJson,
    fun m h => readsBack_of_fits (Message.fits_toJson h _) m.ofJson?_toJson,
    fun _ _ _ _ _ _ => ⟨fun _ => RollResult.isFinite_of_gives,
      fun _ => Segmented.isFinite_of_gives, fun _ _ _ => Message.isFinite_of_gives⟩⟩

theorem wire_reads_back_thirds :
    ∃ (r : RollResult) (s : Segmented) (m : Message) (h' : History),
      r.value = .nearest true 5 3 ∧ s.content = "🎲\x7b0\x7d" ∧ m.author = "\"A\\n\"\n\x00" ∧
      (RollResult.evaluate "2d6kh1 / -3").Gives (Roller.sequence [2, 5]) (.ok r) (.sequence []) ∧
      (Segmented.segment "🎲[2d6kh1 / -3]").Gives (Roller.sequence [2, 5]) s (.sequence []) ∧
      ((History.create 1 1).post "\"A\\n\"\n\x00" "🎲[2d6kh1 / -3]").Gives
        (Roller.sequence [2, 5]) (m, h') (.sequence []) ∧
      ReadsBack RollResult.toJson RollResult.ofJson? r ∧
      ReadsBack Segmented.toJson Segmented.ofJson? s ∧
      ReadsBack Message.toJson Message.ofJson? m := by
  let r : RollResult := ⟨.nearest true 5 3,
    [.dice "2d6" 1 6 [⟨2, true, .ordinary⟩, ⟨5, false, .ordinary⟩], .operator "/", .operator "-",
      .constant "3"]⟩
  let s : Segmented := ⟨"🎲\x7b0\x7d", [r]⟩
  have evaluated : (RollResult.evaluate "2d6kh1 / -3").Gives (Roller.sequence [2, 5]) (.ok r)
      (.sequence []) := by
    rw [Draw.gives_ok_iff]
    decide +kernel
  have segmented : (Segmented.segment "🎲[2d6kh1 / -3]").Gives (Roller.sequence [2, 5]) s
      (.sequence []) := by
    unfold Draw.Gives
    decide +kernel
  have posted : ((History.create 1 1).post "\"A\\n\"\n\x00" "🎲[2d6kh1 / -3]").Gives
      (Roller.sequence [2, 5]) ((History.create 1 1).append "\"A\\n\"\n\x00" s)
      (.sequence []) :=
    Draw.gives_bind.mpr ⟨s, _, segmented, Draw.gives_pure.mpr ⟨rfl, rfl⟩⟩
  obtain ⟨-, -, -, -, -, ofResult, ofChat, ofMessage, produced⟩ := wire_reads_back
  have value := (produced Roller _ _ _ "" "2d6kh1 / -3").1 r evaluated
  obtain ⟨-, chat, message⟩ := produced Roller _ _ _ "\"A\\n\"\n\x00" "🎲[2d6kh1 / -3]"
  exact ⟨r, s, _, _, rfl, rfl, rfl, evaluated, segmented, posted, ofResult r value,
    ofChat s (chat s segmented), ofMessage _ (message _ _ _ posted)⟩

end DiceChat

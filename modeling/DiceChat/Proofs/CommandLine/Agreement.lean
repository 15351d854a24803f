import DiceChat.CommandLine.Run
import DiceChat.Proofs.CommandLine.Arguments
import DiceChat.Proofs.Expr.DiceText
import DiceChat.Proofs.Expr.Regrouping
import DiceChat.Proofs.Wire.RoundTrip

/-!
# What a run shows is what was evaluated

A run evaluates its input as anybody else would with the same source, and shows what came of it.
The JSON reads back as that; the text tells the same values and, for an expression, another text
that comes to the same. Only a run that has to ask for its input shows something before that.
-/

namespace DiceChat

-- ---------------------------------------------------------------------------
-- Single lines
-- ---------------------------------------------------------------------------

theorem Formula.newline_not_mem_describe {δ : Type} {leaf : δ → String}
    (h : ∀ d, '\n' ∉ (leaf d).toList) (f : Formula δ) : '\n' ∉ (f.describe leaf).toList := by
  have parenthesizedIf (wrap : Bool) {text : String} (h : '\n' ∉ text.toList) :
      '\n' ∉ (parenthesizedIf wrap text).toList := by
    cases wrap with
    | false => exact h
    | true => simpa [DiceChat.parenthesizedIf, toList_parenthesized] using h
  induction f with
  | number x => exact x.not_mem_text rfl (by simp)
  | dice d => exact h d
  | group f ih => simpa [describe, toList_parenthesized] using ih
  | neg f ih =>
    have inner := parenthesizedIf (f.kind != .value) ih
    simpa [describe] using inner
  | binary op a b iha ihb =>
    have left := parenthesizedIf (op.setsApart a.kind) iha
    have right := parenthesizedIf (op.setsApart b.kind) ihb
    have symbol : '\n' ≠ op.symbol := by cases op <;> simp [Operator.symbol]
    simp [describe, left, right, symbol]

theorem Expr.newline_not_mem_text (e : Expr) : '\n' ∉ e.text.toList :=
  Formula.newline_not_mem_describe (fun d => d.not_mem_text rfl) e

-- ---------------------------------------------------------------------------
-- Messages
-- ---------------------------------------------------------------------------

def Outcome.rendered (text : RollResult → List Char) : Outcome → List Char
  | ⟨_, some r⟩ => text r
  | ⟨piece, none⟩ => piece.source

namespace Segmented

theorem run_render_flatMap_parts (text : RollResult → List Char) (os : List Outcome) :
    Id.run (Template.render (fun r => pure (text r)) (os.flatMap Outcome.parts)) =
      os.flatMap (Outcome.rendered text) := by
  induction os with
  | nil => rfl
  | cons o os ih =>
    obtain ⟨piece, _ | r⟩ := o
    · simp [Outcome.parts, Outcome.rendered, ih]
    · simp [Outcome.parts, Outcome.rendered, Template.render, ih]

end Segmented

namespace CommandLine

-- ---------------------------------------------------------------------------
-- Runs
-- ---------------------------------------------------------------------------

namespace Options

/-- The input of a run, with the line that is typed in if it is asked for one. -/
def inputOf (o : Options) (stdin : String) : String :=
  if o.input.isEmpty then String.ofList (firstLine stdin.toList) else " ".intercalate o.input

def promptText (o : Options) : String := if o.input.isEmpty then prompt else ""

def source (o : Options) (freshSeed : UInt64) : Roller := .ofSeed (o.seed.getD freshSeed)

end Options

def Outcome.after (text : String) (shown : Outcome) : Outcome :=
  { shown with stdout := text ++ shown.stdout }

section

variable {o : Options} {input stdin : String} {otherSeed : Option String} {seed freshSeed : UInt64}
  {source source' : Roller}

theorem run_eq {arguments : List String} (h : Options.read arguments otherSeed = .ok o) :
    run arguments stdin otherSeed freshSeed =
      (runOn o (o.seed.getD freshSeed) (o.inputOf stdin)).after o.promptText := by
  unfold run runWith Options.inputOf Options.promptText
  simp only [h]
  cases o.input.isEmpty with
  | true => rfl
  | false => rfl

/-- The outcome when an expression was evaluated, or has dice that cannot be rolled. What an
expression comes to is a function of the same draw (`RollResult.ofOutcome`). -/
def expressionOutcome (o : Options) (input : String) (e : Expr) :
    Except Dice Evaluated → Outcome
  | .error d => .failure ("Evaluation error: " ++ d.evaluationText ++ "\n")
  | .ok evaluated =>
    match RollResult.ofEvaluated evaluated with
    | .error error => .failure ("Calculation error: " ++ error.text ++ "\n")
    | .ok result =>
      .success (if o.json then lines [result.toJson.pretty]
        else expressionText o input e evaluated result)

theorem runExpression_eq_map {e : Expr} (h : Expr.parse input = .ok e) :
    runExpression o input = expressionOutcome o input e <$> e.eval.run := by
  unfold runExpression
  rw [h, map_eq_pure_bind]
  refine congrArg (_ >>= ·) (funext fun outcome => ?_)
  obtain d | evaluated := outcome
  · rfl
  · simp only [expressionOutcome]
    cases RollResult.ofEvaluated evaluated <;> rfl

theorem expressionOutcome_of_error {e : Expr} {outcome : Except Dice Evaluated}
    {error : EvaluationError} (h : RollResult.ofOutcome outcome = .error error) :
    ∃ stderr, expressionOutcome o input e outcome = .failure stderr := by
  obtain d | evaluated := outcome
  · exact ⟨_, rfl⟩
  · simp only [expressionOutcome]
    cases result : RollResult.ofEvaluated evaluated with
    | error cause => exact ⟨_, rfl⟩
    | ok r =>
      rw [RollResult.ofOutcome, result] at h
      cases h

theorem gives_runExpression_error {error : EvaluationError}
    (h : (RollResult.evaluate input).Gives source (.error error) source') :
    ∃ stderr, (runExpression o input).Gives source (.failure stderr) source' := by
  unfold RollResult.evaluate at h
  split at h
  · next e read =>
    rw [RollResult.ofExpr_eq_map, Draw.gives_map] at h
    obtain ⟨outcome, drawn, failed⟩ := h
    obtain ⟨stderr, failure⟩ := expressionOutcome_of_error failed
    rw [runExpression_eq_map read]
    exact ⟨stderr, Draw.gives_map.mpr ⟨outcome, drawn, failure⟩⟩
  · next unread =>
    obtain ⟨-, rfl⟩ := Draw.gives_pure.mp h
    unfold runExpression
    rw [unread]
    exact ⟨_, Draw.gives_pure.mpr ⟨rfl, rfl⟩⟩

theorem gives_runExpression_ok {r : RollResult} {e : Expr} {evaluated : Evaluated}
    (read : Expr.parse input = .ok e) (drawn : e.eval.run.Gives source (.ok evaluated) source')
    (result : RollResult.ofEvaluated evaluated = .ok r) :
    (runExpression o input).Gives source (.success (if o.json then lines [r.toJson.pretty]
      else expressionText o input e evaluated r)) source' := by
  rw [runExpression_eq_map read]
  refine Draw.gives_map.mpr ⟨_, drawn, ?_⟩
  simp only [expressionOutcome, result]

theorem runOn_of_gives {mode : Draw Roller Outcome} {shown : Outcome}
    (chosen : (if o.chat then runMessage o input else runExpression o input) = mode)
    (h : mode.Gives (.ofSeed seed) shown source') : runOn o seed input = shown := by
  have drawn : mode (Roller.ofSeed seed) = (some shown, source') := h
  simp only [runOn, chosen, drawn]

theorem gives_runMessage {s : Segmented} (h : (Segmented.segment input).Gives source s source') :
    (runMessage o input).Gives source (.success (if o.json then lines [s.toJson.pretty]
      else messageText s)) source' :=
  Draw.gives_bind.mpr ⟨s, source', h, Draw.gives_pure.mpr ⟨rfl, rfl⟩⟩

theorem parse_lines_pretty {j : Json} (h : Json.Fits Json.maxDepth j) :
    Json.parse (lines [j.pretty]) = some j := by
  have text : lines [j.pretty] = String.ofList (j.write .indented 0 ++ ['\n']) := by
    rw [String.ofList_append]
    simp [lines, Json.pretty]
  rw [text]
  exact Json.parseWithin_write_append Json.Layout.isBlank_indented h (by simp [Json.isBlank])

-- ---------------------------------------------------------------------------
-- What is shown
-- ---------------------------------------------------------------------------

/-- A run in expression mode agrees with what its input evaluates to. -/
structure ShowsResult (o : Options) (input : String) (source source' : Roller)
    (evaluated : Except EvaluationError RollResult) (shown : Outcome) : Prop where
  succeeds : shown.code = 0 ↔ ∃ r, evaluated = .ok r
  silent : ∀ error, evaluated = .error error → shown.stdout = ""
  json : ∀ r, evaluated = .ok r → o.json = true →
    (Json.parse shown.stdout).bind RollResult.ofJson? = some r
  /-- The text that is shown for the expression is read again as an expression with the same dice and
  the same value. -/
  text : ∀ r, evaluated = .ok r → o.json = false →
    ∃ (e e' : Expr) (ev ev' : Evaluated),
      Expr.parse input = .ok e ∧ e.eval.run.Gives source (.ok ev) source' ∧
      Expr.parse e.text = .ok e' ∧ e'.eval.run.Gives source (.ok ev') source' ∧
      ev'.leaves = ev.leaves ∧ ev.calculate = .ok r.value ∧ ev'.calculate = .ok r.value ∧
      '\n' ∉ e.text.toList ∧ '\n' ∉ r.value.text.toList ∧
      shown.stdout = lines [
        "Input: " ++ input,
        "Parsed: " ++ e.text,
        "Deterministic: " ++ (if e.isDeterministic then "true" else "false"),
        "",
        "Described: " ++ ev.describe o.listLimit,
        "Total: " ++ r.value.text]

/-- A run in chat mode agrees with what its input is segmented to. -/
structure ShowsMessage (o : Options) (input : String) (source source' : Roller) (s : Segmented)
    (shown : Outcome) : Prop where
  succeeds : shown.code = 0
  json : o.json = true → (Json.parse shown.stdout).bind Segmented.ofJson? = some s
  text : o.json = false →
    ∃ os : List DiceChat.Outcome, Outcomes source os source' ∧
      os.map DiceChat.Outcome.piece = Piece.split input.toList ∧
      (os.map DiceChat.Outcome.piece).flatMap Piece.source = input.toList ∧
      s.results = os.filterMap DiceChat.Outcome.result ∧
      shown.stdout = lines (["Content: " ++ s.content] ++ placeLines s.results ++
        ["", "Rendered: " ++
          String.ofList (os.flatMap (DiceChat.Outcome.rendered fun r => r.value.text.toList))])

theorem showsResult_of_gives {evaluated : Except EvaluationError RollResult}
    (chat : o.chat = false)
    (h : (RollResult.evaluate input).Gives (.ofSeed seed) evaluated source') :
    ShowsResult o input (.ofSeed seed) source' evaluated (runOn o seed input) := by
  have expression : (if o.chat then runMessage o input else runExpression o input) =
      runExpression o input := if_neg (by simp [chat])
  -- Without a result there is nothing on the standard output, whichever step failed.
  obtain error | r := evaluated
  · obtain ⟨stderr, failure⟩ := gives_runExpression_error (o := o) h
    rw [runOn_of_gives expression failure]
    refine ⟨by simp [Outcome.failure], fun _ _ => rfl, ?_, ?_⟩
    · rintro _ ⟨⟩
    · rintro _ ⟨⟩
  · obtain ⟨e, ev, read, drawn, value, nodes⟩ := RollResult.evaluate_gives h
    have success := gives_runExpression_ok (o := o) read drawn
      (RollResult.ofEvaluated_eq_ok.mpr ⟨value, nodes⟩)
    rw [runOn_of_gives expression success]
    refine ⟨by simp [Outcome.success], ?_, ?_, ?_⟩
    · rintro _ ⟨⟩
    · rintro _ ⟨⟩ json
      have fits : Json.Fits Json.maxDepth r.toJson :=
        RollResult.fits_toJson (RollResult.isFinite_of_gives h) _
      rw [Outcome.success, if_pos json, parse_lines_pretty fits, Option.bind_some,
        RollResult.ofJson?_toJson]
    · rintro _ ⟨⟩ json
      obtain ⟨e', ev', read', drawn', leaves, value'⟩ := Expr.eval_text read drawn value
      have parsed := e.newline_not_mem_text
      have total : '\n' ∉ r.value.text.toList := r.value.not_mem_text rfl (by simp)
      refine ⟨e, e', ev, ev', read, drawn, read', drawn', leaves, value, value', parsed, total, ?_⟩
      rw [Outcome.success, if_neg (by simp [json]), expressionText]

theorem showsMessage_of_gives {s : Segmented} (chat : o.chat = true)
    (h : (Segmented.segment input).Gives (.ofSeed seed) s source') :
    ShowsMessage o input (.ofSeed seed) source' s (runOn o seed input) := by
  rw [runOn_of_gives (if_pos chat) (gives_runMessage h)]
  refine ⟨rfl, fun json => ?_, fun json => ?_⟩
  · have fits : Json.Fits Json.maxDepth s.toJson :=
      Segmented.fits_toJson (Segmented.isFinite_of_gives h) _
    rw [Outcome.success, if_pos json, parse_lines_pretty fits, Option.bind_some,
      Segmented.ofJson?_toJson]
  · obtain ⟨os, outcomes, pieces, results, parts⟩ := Segmented.gives_segment h
    have whole : (os.map DiceChat.Outcome.piece).flatMap Piece.source = input.toList := by
      rw [pieces, Piece.flatMap_source_split]
    refine ⟨os, outcomes, pieces, whole, results, ?_⟩
    have rendered := Segmented.run_render_flatMap_parts (fun r => r.value.text.toList) os
    rw [← parts] at rendered
    rw [Outcome.success, if_neg (by simp [json]), ← rendered]
    rfl

/-- Every text, seed and mode can be given by arguments, and whatever the arguments are, as long as
they make sense, the run shows what the library makes of its input and nothing else but the question
for an input that is not given. -/
theorem run_agrees :
    (∀ (chat json : Bool) (seed : UInt64) (text : String), ∃ (o : Options) (arguments : List String),
      (∀ otherSeed, Options.read arguments otherSeed = .ok o) ∧
      o.chat = chat ∧ o.json = json ∧ (∀ freshSeed, o.source freshSeed = .ofSeed seed) ∧
      (∀ stdin, o.inputOf stdin = text) ∧ o.promptText = "") ∧
    ∀ (arguments : List String) (stdin : String) (otherSeed : Option String) (freshSeed : UInt64)
      (o : Options), Options.read arguments otherSeed = .ok o →
      ∃ (shown : Outcome) (source' : Roller),
        run arguments stdin otherSeed freshSeed = shown.after o.promptText ∧
        (o.chat = false → ∃ evaluated,
          (RollResult.evaluate (o.inputOf stdin)).Gives (o.source freshSeed) evaluated source' ∧
          ShowsResult o (o.inputOf stdin) (o.source freshSeed) source' evaluated shown) ∧
        (o.chat = true → ∃ s : Segmented,
          (Segmented.segment (o.inputOf stdin)).Gives (o.source freshSeed) s source' ∧
          ShowsMessage o (o.inputOf stdin) (o.source freshSeed) source' s shown) := by
  constructor
  · intro chat json seed text
    let o : Options := ⟨chat, json, some seed, none, [text]⟩
    have read (otherSeed : Option String) : Options.read o.arguments otherSeed = .ok o :=
      Options.read_arguments nofun nofun
    have alone (stdin : String) : o.inputOf stdin = text := by simp [o, Options.inputOf]
    exact ⟨o, o.arguments, read, rfl, rfl, fun _ => rfl, alone, rfl⟩
  · intro arguments stdin otherSeed freshSeed o given
    have endless := Roller.endless
    cases chat : o.chat with
    | false =>
      obtain ⟨evaluated, source', drawn, -⟩ := RollResult.alwaysGives_evaluate endless
        (o.inputOf stdin) (o.source freshSeed) rfl
      refine ⟨_, source', run_eq given, fun _ => ⟨evaluated, drawn, ?_⟩, nofun⟩
      exact showsResult_of_gives chat drawn
    | true =>
      obtain ⟨s, source', drawn, -⟩ := Segmented.alwaysGives_segment endless
        (o.inputOf stdin) (o.source freshSeed) rfl
      refine ⟨_, source', run_eq given, nofun, fun _ => ⟨s, drawn, ?_⟩⟩
      exact showsMessage_of_gives chat drawn

theorem run_agrees_product :
    (run ["-js7", "2", "*0.75"] "" none 0).code = 0 ∧
    (Json.parse (run ["-js7", "2", "*0.75"] "" none 0).stdout).bind RollResult.ofJson? =
      some ⟨.nearest false 3 2, [.constant "2", .operator "*", .constant "0.75"]⟩ ∧
    (run ["--chat", "-s", "+7", "--", "-c [0/0]"] "" none 0).code = 0 := by
  obtain ⟨-, agrees⟩ := run_agrees
  obtain ⟨shown, source', ran, expression, -⟩ := agrees ["-js7", "2", "*0.75"] "" none 0
    ⟨false, true, some 7, none, ["2", "*0.75"]⟩ rfl
  obtain ⟨evaluated, drawn, shows⟩ := expression rfl
  have result : (RollResult.evaluate "2 *0.75").Gives (Roller.ofSeed 7)
      (.ok ⟨.nearest false 3 2, [.constant "2", .operator "*", .constant "0.75"]⟩)
      (Roller.ofSeed 7) := by
    rw [Draw.gives_ok_iff]
    decide +kernel
  obtain ⟨same, -⟩ := Prod.mk.inj (drawn.symm.trans result)
  have same := Option.some.inj same
  obtain ⟨message, _, ranToo, -, chat⟩ := agrees ["--chat", "-s", "+7", "--", "-c [0/0]"] "" none 0
    ⟨true, false, some 7, none, ["-c [0/0]"]⟩ rfl
  obtain ⟨s, -, shows'⟩ := chat rfl
  rw [ran, ranToo]
  exact ⟨shows.succeeds.mpr ⟨_, same⟩, shows.json _ same rfl, shows'.succeeds⟩

end
end CommandLine
end DiceChat

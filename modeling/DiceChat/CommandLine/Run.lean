import DiceChat.CommandLine.Options
import DiceChat.Json.Text
import DiceChat.Source.Roller
import DiceChat.Wire.Encode

/-!
# Runs

One expression, or in chat mode one message, is evaluated and shown as text or as JSON. The input
is what the arguments leave over, joined by spaces, or else the first line that is typed in.
-/

namespace DiceChat.CommandLine

structure Outcome where
  code : Nat
  stdout : String
  stderr : String
deriving DecidableEq, Repr

namespace Outcome

def success (stdout : String) : Outcome := ⟨0, stdout, ""⟩

def failure (stderr : String) : Outcome := ⟨1, "", stderr⟩

end Outcome

def lines (texts : List String) : String := String.join (texts.map (· ++ "\n"))

def seedVariable : String := "ROLLWRIGHT_SEED"

def versionText : String := lines ["rollwright 0.1.0"]

/-- Also tells which seed the environment holds. The first line is the description that the package
gives of itself. -/
def helpText (otherSeed : Option String) : String :=
  lines [
    "Dice expression evaluation (drop/keep selection, render-ready roll details) and chat " ++
      "message segmentation for tabletop game aids",
    "",
    "Usage: rollwright [OPTIONS] [INPUT]...",
    "",
    "Arguments:",
    "  [INPUT]...  Expression or message; read from stdin when omitted",
    "",
    "Options:",
    "  -c, --chat                     Treat the input as a chat message with bracketed dice expressions",
    "  -j, --json                     Print results as JSON",
    "  -s, --seed <SEED>              Seed for the dice roller (random if not given) [env: " ++
      seedVariable ++ "=" ++ otherSeed.getD "" ++ "]",
    "  -l, --list-limit <LIST_LIMIT>  Maximum number of individual dice to list per dice group",
    "  -h, --help                     Print help",
    "  -V, --version                  Print version"]

def Outcome.refused (otherSeed : Option String) : Refusal → Outcome
  | .help => .success (helpText otherSeed)
  | .version => .success versionText
  | refusal => ⟨2, "", refusal.text⟩

/-- The text before the first line break, which may have a carriage return before it. -/
def firstLine (s : List Char) : List Char :=
  let line := s.takeWhile (· != '\n')
  if line.length < s.length ∧ line.getLast? = some '\r' then line.dropLast else line

def prompt : String := "Enter dice expression: "

def expressionText (o : Options) (input : String) (e : Expr) (evaluated : Evaluated)
    (result : RollResult) : String :=
  lines [
    "Input: " ++ input,
    "Parsed: " ++ e.text,
    "Deterministic: " ++ (if e.isDeterministic then "true" else "false"),
    "",
    "Described: " ++ evaluated.describe o.listLimit,
    "Total: " ++ result.value.text]

/-- A text that is no expression is told in one line, `Error: ...`, on the error output. The report
that marks the place of the failure in the text is not modelled: neither the standard output nor the
exit code depends on its layout. -/
def runExpression (o : Options) (input : String) : Draw Roller Outcome := do
  match Expr.parse input with
  | .error failure => return .failure ("Error: " ++ failure.text ++ "\n")
  | .ok e =>
    match ← e.eval.run with
    | .error dice => return .failure ("Evaluation error: " ++ dice.evaluationText ++ "\n")
    | .ok evaluated =>
      match RollResult.ofEvaluated evaluated with
      | .error error => return .failure ("Calculation error: " ++ error.text ++ "\n")
      | .ok result =>
        return .success (if o.json then lines [result.toJson.pretty]
          else expressionText o input e evaluated result)

def placeLines (results : List RollResult) : List String :=
  results.zipIdx.map fun (result, place) =>
    String.ofList (Template.placeholder place) ++ ": " ++ result.value.text

def messageText (s : Segmented) : String :=
  let rendered := Id.run (s.hydrate fun result => result.value.text.toList)
  lines (["Content: " ++ s.content] ++ placeLines s.results ++
    ["", "Rendered: " ++ String.ofList rendered])

def runMessage (o : Options) (input : String) : Draw Roller Outcome := do
  let s ← Segmented.segment input
  return .success (if o.json then lines [s.toJson.pretty] else messageText s)

def runOn (o : Options) (seed : UInt64) (input : String) : Outcome :=
  let run := if o.chat then runMessage o input else runExpression o input
  match run (Roller.ofSeed seed) with
  | (some outcome, _) => outcome
  | (none, _) => .failure "Error: no rolls left\n"

/-- A whole run, in which `ask` gives the line that is typed in. Without a seed from the arguments
or `otherSeed` it uses `freshSeed`. -/
def runWith {m : Type → Type} [Monad m] (ask : m String) (arguments : List String)
    (otherSeed : Option String) (freshSeed : UInt64) : m Outcome := do
  match Options.read arguments otherSeed with
  | .error refusal => return .refused otherSeed refusal
  | .ok o =>
    let input ← if o.input.isEmpty then ask else pure (" ".intercalate o.input)
    return runOn o (o.seed.getD freshSeed) input

def askIn (stdin : String) : StateM String String := do
  modify (· ++ prompt)
  return String.ofList (firstLine stdin.toList)

def run (arguments : List String) (stdin : String) (otherSeed : Option String)
    (freshSeed : UInt64) : Outcome :=
  let (outcome, shown) := (runWith (askIn stdin) arguments otherSeed freshSeed).run ""
  { outcome with stdout := shown ++ outcome.stdout }

end DiceChat.CommandLine

/-!
# Arguments

Switches may stand anywhere among the words of the input and come at most once. After two dashes
everything belongs to the input. The first argument that makes no sense ends reading.
-/

namespace DiceChat.CommandLine

structure Options where
  chat : Bool
  json : Bool
  seed : Option UInt64
  listLimit : Option Nat
  input : List String
deriving DecidableEq, Repr

inductive Switch where
  | chat
  | json
  | seed
  | listLimit
  | help
  | version
deriving DecidableEq, Repr

namespace Switch

def text : Switch → String
  | .chat => "--chat"
  | .json => "--json"
  | .seed => "--seed"
  | .listLimit => "--list-limit"
  | .help => "--help"
  | .version => "--version"

def ofShort? : Char → Option Switch
  | 'c' => some .chat
  | 'j' => some .json
  | 's' => some .seed
  | 'l' => some .listLimit
  | 'h' => some .help
  | 'V' => some .version
  | _ => none

def ofLong? : String → Option Switch
  | "chat" => some .chat
  | "json" => some .json
  | "seed" => some .seed
  | "list-limit" => some .listLimit
  | "help" => some .help
  | "version" => some .version
  | _ => none

def takesValue : Switch → Bool
  | .seed | .listLimit => true
  | _ => false

end Switch

/-- Why the arguments do not lead to a run. A request for help or for the version is no error. -/
inductive Refusal where
  | help
  | version
  | unexpected (argument : String)
  | repeated (s : Switch)
  | valueMissing (s : Switch)
  | valueInvalid (s : Switch) (value : String)
deriving DecidableEq, Repr

def Refusal.text : Refusal → String
  | .help | .version => ""
  | .unexpected argument => "error: unexpected argument '" ++ argument ++ "'\n"
  | .repeated s => "error: " ++ s.text ++ " is given more than once\n"
  | .valueMissing s => "error: " ++ s.text ++ " needs a value\n"
  | .valueInvalid s value => "error: invalid value '" ++ value ++ "' for " ++ s.text ++ "\n"

/-- A number of 64 bits: digits, with a plus sign before them or not. -/
def longNumber? (s : List Char) : Option Nat :=
  let digits := match s with
    | '+' :: rest => rest
    | s => s
  if digits.isEmpty || !digits.all Char.isDigit then none
  else
    let n := Nat.ofDigitChars 10 digits 0
    if n < UInt64.size then some n else none

structure Progress where
  options : Options
  awaiting : Option Switch

namespace Options

def initial : Options := ⟨false, false, none, none, []⟩

def turnOn (o : Options) : Switch → Except Refusal Options
  | .chat => if o.chat then .error (.repeated .chat) else .ok { o with chat := true }
  | .json => if o.json then .error (.repeated .json) else .ok { o with json := true }
  | .help => .error .help
  | .version => .error .version
  | s => .error (.valueMissing s)

def setNumber (o : Options) (s : Switch) (n : Nat) : Except Refusal Options :=
  match s with
  | .seed =>
    if o.seed.isSome then .error (.repeated s) else .ok { o with seed := some (.ofNat n) }
  | .listLimit =>
    if o.listLimit.isSome then .error (.repeated s) else .ok { o with listLimit := some n }
  | s => .error (.unexpected s.text)

def setValue (o : Options) (s : Switch) (value : List Char) : Except Refusal Options :=
  match longNumber? value with
  | some n => o.setNumber s n
  | none => .error (.valueInvalid s (String.ofList value))

/-- Switches that are joined in one argument. The rest of it is the value of the first one that
takes a value, with an equals sign before it or not. -/
def readShort (o : Options) : List Char → Except Refusal Progress
  | [] => .ok ⟨o, none⟩
  | c :: rest =>
    match Switch.ofShort? c with
    | none => .error (.unexpected (String.ofList ['-', c]))
    | some s =>
      if s.takesValue then
        match rest with
        | [] => .ok ⟨o, some s⟩
        | '=' :: value => (o.setValue s value).map (⟨·, none⟩)
        | value => (o.setValue s value).map (⟨·, none⟩)
      else do readShort (← o.turnOn s) rest

def readLong (o : Options) (argument : List Char) : Except Refusal Progress :=
  let name := argument.takeWhile (· != '=')
  match Switch.ofLong? (String.ofList name), argument.drop name.length with
  | none, _ => .error (.unexpected (String.ofList ('-' :: '-' :: name)))
  | some s, [] =>
    if s.takesValue then .ok ⟨o, some s⟩ else (o.turnOn s).map (⟨·, none⟩)
  | some s, _ :: value =>
    if s.takesValue then (o.setValue s value).map (⟨·, none⟩)
    else .error (.unexpected (String.ofList ('-' :: '-' :: argument)))

/-- A value in an argument of its own may not look like a switch. -/
def readFrom : Progress → List String → Except Refusal Options
  | ⟨o, none⟩, [] => .ok o
  | ⟨_, some s⟩, [] => .error (.valueMissing s)
  | ⟨o, some s⟩, value :: rest =>
    if value.toList.head? = some '-' then .error (.valueMissing s)
    else do readFrom ⟨← o.setValue s value.toList, none⟩ rest
  | ⟨o, none⟩, argument :: rest =>
    match argument.toList with
    | ['-', '-'] => .ok { o with input := o.input ++ rest }
    | '-' :: '-' :: name => do readFrom (← o.readLong name) rest
    | '-' :: c :: others => do readFrom (← o.readShort (c :: others)) rest
    | _ => readFrom ⟨{ o with input := o.input ++ [argument] }, none⟩ rest

/-- The options that arguments give. A seed from elsewhere counts if they give none, and has to
make sense then. -/
def read (arguments : List String) (otherSeed : Option String) : Except Refusal Options := do
  let o ← readFrom ⟨initial, none⟩ arguments
  match o.seed, otherSeed with
  | none, some value => o.setValue .seed value.toList
  | _, _ => return o

end Options
end DiceChat.CommandLine

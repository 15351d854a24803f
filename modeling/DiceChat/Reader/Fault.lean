/-!
# What a reader wanted

A reader that backtracks keeps one account of what it could not use: the one that lies furthest
in the text. Accounts of one place are joined. Places are counted from the end of the text, as
the number of characters left, so that they do not depend on where a reader was started.
-/

namespace DiceChat.Reader

inductive Wanted where
  | char (c : Char)
  | endOfText
deriving DecidableEq, Repr

def Wanted.text : Wanted → String
  | .char c => String.ofList ['\'', c, '\'']
  | .endOfText => "end of input"

/-- Why a place was of no use: something else was wanted there, what starts there was read and
refused, or it failed for reasons of different kinds. -/
inductive Cause (ε : Type) where
  | expected (wanted : List Wanted) (found : Option Char)
  | refused (objection : ε)
  | several
deriving DecidableEq, Repr

namespace Cause

variable {ε : Type}

def join : Cause ε → Cause ε → Cause ε
  | .expected wanted found, .expected more _ =>
    .expected (wanted ++ more.filter (!wanted.contains ·)) found
  | _, _ => .several

def foundText : Option Char → String
  | none => "end of input"
  | some c => c.toString

def alternatives : List Wanted → String
  | [] => "something else"
  | [w] => w.text
  | w :: rest => ", ".intercalate ((w :: rest).dropLast.map Wanted.text) ++
      ", or " ++ ((rest.getLast?.map Wanted.text).getD "")

def message (describe : ε → String) : Cause ε → String
  | .expected wanted found =>
    "found " ++ foundText found ++ " expected " ++ alternatives wanted
  | .refused objection => describe objection
  | .several => "multiple errors"

end Cause

/-- It concerns the text from where `left` characters are left to where `stop` are left. -/
structure Fault (ε : Type) where
  left : Nat
  stop : Nat
  cause : Cause ε
deriving DecidableEq, Repr

def Fault.join {ε : Type} (f g : Fault ε) : Fault ε :=
  if g.left < f.left then g
  else if f.left < g.left then f
  else { f with cause := f.cause.join g.cause }

/-- What a reader leaves behind: its furthest fault, and whether it discarded those before it. -/
structure Trace (ε : Type) where
  discards : Bool
  fault : Option (Fault ε)
deriving Repr

namespace Trace

variable {ε : Type}

def empty : Trace ε := ⟨false, none⟩

def cleared : Trace ε := ⟨true, none⟩

def ofFault (f : Fault ε) : Trace ε := ⟨false, some f⟩

def joinFaults : Option (Fault ε) → Option (Fault ε) → Option (Fault ε)
  | none, g => g
  | f, none => f
  | some f, some g => some (f.join g)

def append (a b : Trace ε) : Trace ε :=
  if b.discards then b else ⟨a.discards, joinFaults a.fault b.fault⟩

instance : Append (Trace ε) := ⟨append⟩

end Trace
end DiceChat.Reader

import DiceChat.CommandLine.Run

/-!
# The program

Reads the arguments, the environment and standard input, and writes what the run comes to.
-/

namespace DiceChat.CommandLine

def freshSeed : IO UInt64 := do
  return UInt64.ofNat (← IO.rand 0 (UInt64.size - 1))

def askUser : IO String := do
  let stdout ← IO.getStdout
  stdout.putStr prompt
  stdout.flush
  let line ← (← IO.getStdin).getLine
  return String.ofList (firstLine line.toList)

end DiceChat.CommandLine

open DiceChat.CommandLine in
def main (arguments : List String) : IO UInt32 := do
  let outcome ← runWith askUser arguments (← IO.getEnv seedVariable) (← freshSeed)
  (← IO.getStdout).putStr outcome.stdout
  (← IO.getStderr).putStr outcome.stderr
  return UInt32.ofNat outcome.code

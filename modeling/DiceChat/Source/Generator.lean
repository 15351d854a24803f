/-!
# A generator of rolls

A state of 64 bits is advanced by a constant and scrambled by a product of 128 bits. A die takes
the high half of the product of a 32-bit value and its sides; products in the part of the range
that would favour some values are rejected and drawn again.
-/

namespace DiceChat

structure Generator where
  state : UInt64
deriving DecidableEq, Repr

namespace Generator

def increment : UInt64 := 0x2d358dccaa6c78a5

def scramble : UInt64 := 0x8bb84b93962eacc9

def advance (g : Generator) : Generator := ⟨g.state + increment⟩

def output (g : Generator) : UInt64 :=
  let product := g.state.toNat * (g.state ^^^ scramble).toNat
  UInt64.ofNat product ^^^ UInt64.ofNat (product / UInt64.size)

def product (sides : Nat) (g : Generator) : Nat := g.output.toNat % UInt32.size * sides

def threshold (sides : Nat) : Nat := (UInt32.size - sides) % sides

def drawUpTo (sides : Nat) : Nat → Generator → Nat × Generator
  | 0, g => (g.product sides / UInt32.size, g)
  | rejections + 1, g =>
    if g.product sides % UInt32.size < threshold sides then drawUpTo sides rejections g.advance
    else (g.product sides / UInt32.size, g)

/-- A value below `sides`. After as many draws as there are states they repeat, so no more are of
use. -/
def draw (sides : Nat) (g : Generator) : Nat × Generator := drawUpTo sides UInt64.size g.advance

/-- A die without sides always shows zero and draws nothing. -/
def rollDie (sides : UInt16) (g : Generator) : UInt16 × Generator :=
  if sides = 0 then (0, g)
  else
    let (n, g) := g.draw sides.toNat
    (UInt16.ofNat (n + 1), g)

end Generator
end DiceChat

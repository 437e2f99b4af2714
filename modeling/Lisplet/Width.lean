import Lisplet.Value.Written

/-!
# Widths that are asked for

A width that comes from outside is checked before it is used: it has to have a bit, and the machine
has to hold the power of two that goes with it.  The range of a width needs `2 ^ (bits - 1)`,
wrapping needs `2 ^ bits`.

The machine holds an integer in digits of thirty bits.  A power of two gets room for one digit more
than its lowest bits fill, and for a spare one if its top bit does not start a digit.  Above a
number of digits that cannot be counted no machine holds the power; below it the greatest exponent
there is memory for depends on the machine, and is a parameter.
-/

namespace Lisplet.Width

/-- the digits of thirty bits that `2 ^ e` gets room for -/
def room (e : Nat) : Nat := e / 30 + 1 + if e % 30 = 0 then 0 else 1

/-- more digits cannot be counted -/
def maxRoom : Nat := Nat.pow 2 61 - 7

/-- whether a machine with memory for exponents up to `memory` holds `2 ^ e` -/
def hold (memory e : Nat) : Except Failure Unit :=
  if maxRoom < room e then .error (.fault .tooWide)
  else if memory < e then .error (.fault .noMemory)
  else .ok ()

def positive (bits : Int) : Except Failure Nat :=
  if 0 < bits then .ok bits.toNat else .error (.fault .noWidth)

def ranged (memory : Nat) (bits : Int) : Except Failure Nat := do
  let b ← positive bits
  hold memory (b - 1)
  return b

def wrap (memory : Nat) (bits n : Int) : Except Failure Int := do
  let b ← positive bits
  hold memory b
  return Integer.wrap b n

/-- the ends of the range of a width, to be written; with more than four bits for every digit that
is written they are too long in any case -/
def bounds (memory : Nat) (bits : Int) : Except Failure (Int × Int) := do
  let b ← ranged memory bits
  if 4 * Integer.maxDigits < b - 1 then .error (.fault .tooLong)
  else return (← Integer.written (Integer.least b), ← Integer.written (Integer.greatest b))

end Lisplet.Width

import Lisplet.Failure

/-!
# Values that are handed out

A value is handed out as text only if there are stack levels enough to print it, and if no integer
in it is too long to be written.
-/

namespace Lisplet

def Integer.written (n : Int) : Except Failure Int :=
  if Integer.writable n then .ok n else .error (.fault .tooLong)

/-- the readable form of a value, printed with so many stack levels -/
def Value.printed (levels : Nat) (v : Value) : Except Failure String :=
  if v.printLevels true ≤ levels then .ok v.readable else .error (.exhausted .calling)

def Value.written (levels : Nat) (v : Value) : Except Failure String :=
  if v.writable then v.printed levels else .error (.fault .tooLong)

end Lisplet

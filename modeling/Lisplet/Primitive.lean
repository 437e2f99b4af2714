import Lisplet.World

/-!
# The primitives

Arithmetic and comparison take two integers, negation one boolean, and printing anything.
Arithmetic is exact and its result is then wrapped to the width of the language; division goes
toward zero.  The number of arguments is checked before their kinds.  Printing takes stack levels,
as many as the arguments do and two more.
-/

namespace Lisplet.Primitive

def integers (p : Primitive) : List Value → Except EvalError (Int × Int)
  | [.int a, .int b] => .ok (a, b)
  | [_, _] => .error (.notIntegers p)
  | args => .error (.argumentCount p 2 args.length)

def boolean (p : Primitive) : List Value → Except EvalError Bool
  | [.bool b] => .ok b
  | [_] => .error (.notBoolean p)
  | args => .error (.argumentCount p 1 args.length)

def arithmetic (p : Primitive) (f : Int → Int → Int) (args : List Value) :
    Except EvalError Value := do
  let (a, b) ← p.integers args
  return .int (Integer.wrapped (f a b))

def comparison (p : Primitive) (f : Int → Int → Bool) (args : List Value) :
    Except EvalError Value := do
  let (a, b) ← p.integers args
  return .bool (f a b)

/-- the quotient of the sizes, negative if the signs differ; zero counts as positive -/
def quotient (a b : Int) : Int :=
  let q : Int := (a.natAbs / b.natAbs : Nat)
  if decide (a < 0) = decide (b < 0) then q else -q

def value : Primitive → List Value → Except EvalError Value
  | .plus, args => arithmetic .plus (· + ·) args
  | .minus, args => arithmetic .minus (· - ·) args
  | .mul, args => arithmetic .mul (· * ·) args
  | .div, args => do
    let (a, b) ← integers .div args
    if b = 0 then .error .divisionByZero else return .int (Integer.wrapped (quotient a b))
  | .lt, args => comparison .lt (fun a b => decide (a < b)) args
  | .le, args => comparison .le (fun a b => decide (a ≤ b)) args
  | .gt, args => comparison .gt (fun a b => decide (b < a)) args
  | .ge, args => comparison .ge (fun a b => decide (b ≤ a)) args
  | .not, args => do
    let b ← boolean .not args
    return .bool (!b)
  | .println, _ => .ok .nil

def printLine (args : List Value) : String :=
  String.intercalate " " (args.map Value.plain) ++ "\n"

/-- prints a line, unless there are too few levels to put it together -/
def print (levels : Nat) (args : List Value) : Run Unit :=
  if Value.printLevelsOf false args + 2 ≤ levels then Run.note (.printed (printLine args))
  else throw (.exhausted .calling)

def run (levels : Nat) (p : Primitive) (args : List Value) : Run Value := do
  if p = .println then print levels args
  match p.value args with
  | .ok v => return v
  | .error e => Run.fail e

end Lisplet.Primitive

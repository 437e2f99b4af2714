import Lisplet.Symbol

/-!
# Values

Programs are values: what the reader makes of a text, what the evaluator works on and what it gives
back belong to one type.

* atoms: nil, booleans, integers of any size, strings, symbols;
* lists of values;
* functions: native ones, which stand for a procedure of the host, and lambdas, which keep their
  parameters and their body and nothing of the scope they were made in;
* foreign things, which belong to the host and are shown by a text of their own.

The parameters of a lambda are values, since a host may build a lambda whose parameters are no
symbols; the evaluator itself makes none.
-/

namespace Lisplet

inductive Primitive where
  | plus
  | minus
  | mul
  | div
  | lt
  | le
  | gt
  | ge
  | not
  | println
  deriving DecidableEq, Repr

/-- what a native function runs: a primitive, or a procedure that the host has numbered -/
inductive Procedure where
  | primitive (p : Primitive)
  | host (id : Nat)
  deriving DecidableEq, Repr

/-- a native function: the name it was registered under, and what it runs -/
structure Native where
  name : Symbol
  code : Procedure
  deriving DecidableEq, Repr

inductive Value where
  | nil
  | bool (b : Bool)
  | int (n : Int)
  | str (s : String)
  | symbol (s : Symbol)
  | list (items : List Value)
  | native (f : Native)
  | lambda (params : List Value) (body : Value)
  | foreign (text : String)
  deriving Repr, Inhabited

namespace Primitive

/-- all primitives, in the order in which a session registers them -/
def all : List Primitive := [.plus, .minus, .mul, .div, .lt, .le, .gt, .ge, .not, .println]

def name : Primitive → String
  | .plus => "plus"
  | .minus => "minus"
  | .mul => "mul"
  | .div => "div"
  | .lt => "lt"
  | .le => "le"
  | .gt => "gt"
  | .ge => "ge"
  | .not => "not"
  | .println => "println"

def ofName? (s : String) : Option Primitive := all.find? fun p => p.name = s

end Primitive

namespace Value

/-- nil, false, zero, the empty string and the empty list count as false for the host -/
def truthy : Value → Bool
  | .nil => false
  | .bool b => b
  | .int n => n != 0
  | .str s => !s.isEmpty
  | .list items => !items.isEmpty
  | _ => true

def isFunction : Value → Bool
  | .native _ => true
  | .lambda _ _ => true
  | _ => false

def symbol? : Value → Option Symbol
  | .symbol s => some s
  | _ => none

end Value

end Lisplet

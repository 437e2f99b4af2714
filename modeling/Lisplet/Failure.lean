import Lisplet.Reading.Error
import Lisplet.Value.Render

/-!
# Why a run fails

A run can fail in four ways.

* The text it was given cannot be read (`ParseError`).
* The program breaks a rule of the language (`EvalError`).
* The host is misused or gives up (`Fault`).
* The stack is exhausted.  This is kept apart from the errors of the language, because it says
  nothing about the program: with more levels the same run may go on.

Causes are data; their wording is in `message`.  To word an error of the language takes stack levels
where a value is shown in it (`EvalError.levels`).
-/

namespace Lisplet

inductive ErrorKind where
  | general
  | unboundSymbol
  | notAFunction
  | invalidSymbol
  | arity
  | type
  deriving DecidableEq, Repr

/-- rules of the language that a program can break -/
inductive EvalError where
  | emptyCall
  /-- a list to be evaluated starts with something that is no symbol -/
  | headNotSymbol (head : Value)
  | unbound (name : Value)
  /-- the head of a call is bound to something that is no function -/
  | notCallable (head : Symbol) (value : Value)
  /-- something that is no function was to be applied -/
  | notFunction (value : Value)
  /-- something that is no symbol was to be bound -/
  | undefinable (name : Value)
  | ifShort
  | ifCondition
  | lambdaWithoutParams
  | lambdaWithoutBody
  | lambdaParams (found : Value)
  | lambdaParam (found : Value)
  | letWithoutName
  | letName (found : Value)
  | letWithoutValue
  | argumentCount (p : Primitive) (wanted got : Nat)
  | notIntegers (p : Primitive)
  | notBoolean (p : Primitive)
  | divisionByZero
  /-- the stack was exhausted below a call of the session -/
  | tooDeep
  /-- a procedure of the host refuses its arguments -/
  | rejected (message : String)
  deriving Repr

inductive Fault where
  | rootPop
  | noFrame (handle : Nat)
  /-- an index lies outside a row of text -/
  | noCharacter (index : Nat)
  | noWidth
  /-- there is no memory for integers of a width -/
  | noMemory
  /-- the digits of integers of a width cannot be counted -/
  | tooWide
  | tooLong
  /-- more stack levels are asked for than can be counted -/
  | tooManyLevels
  | nullInName
  /-- a procedure of the host gives up -/
  | broken (message : String)
  deriving DecidableEq, Repr

/-- what the host was about to do when the stack was exhausted: to call something, to put the text
of an error together, or to inspect a value -/
inductive Overrun where
  | calling
  | wording
  | inspecting
  deriving DecidableEq, Repr

inductive Failure where
  | parse (e : ParseError)
  | eval (e : EvalError)
  | fault (f : Fault)
  | exhausted (o : Overrun)
  deriving Repr

namespace EvalError

def kind : EvalError → ErrorKind
  | .emptyCall | .tooDeep => .general
  | .unbound _ => .unboundSymbol
  | .notCallable _ _ | .notFunction _ => .notAFunction
  | .headNotSymbol _ | .undefinable _ | .lambdaParam _ | .letName _ => .invalidSymbol
  | .ifShort | .lambdaWithoutParams | .lambdaWithoutBody | .letWithoutName | .letWithoutValue
  | .argumentCount _ _ _ => .arity
  | .ifCondition | .lambdaParams _ | .notIntegers _ | .notBoolean _ | .divisionByZero
  | .rejected _ => .type

/-- `n` things of a name -/
def counted (n : Nat) (one many : String) : String :=
  String.ofList (Integer.digits n) ++ " " ++ if n = 1 then one else many

def message : EvalError → String
  | .emptyCall => "tried to invoke empty list"
  | .headNotSymbol v => "expected symbol, found " ++ v.readable
  | .unbound v => "undefined symbol: " ++ v.display
  | .notCallable s v => "not a function: " ++ s.name ++ " is " ++ v.readable
  | .notFunction v => "not a function: " ++ v.inspect
  | .undefinable v => "cannot define " ++ v.inspect ++ " as a symbol"
  | .ifShort => "too few values for 'if' expression"
  | .ifCondition => "'if' condition must be a boolean value"
  | .lambdaWithoutParams => "'lambda' requires a parameter list"
  | .lambdaWithoutBody => "'lambda' requires a body"
  | .lambdaParams v => "'lambda' parameters must be a list, got " ++ v.inspect
  | .lambdaParam v => "'lambda' parameter must be a symbol, got " ++ v.inspect
  | .letWithoutName => "'let' requires a name"
  | .letName v => "'let' name must be a symbol, got " ++ v.inspect
  | .letWithoutValue => "'let' requires a value expression"
  | .argumentCount p wanted got =>
    "'" ++ p.name ++ "' expected " ++ counted wanted "argument" "arguments" ++ ", got "
      ++ String.ofList (Integer.digits got)
  | .notIntegers p => "invalid arguments for '" ++ p.name ++ "': expected integers"
  | .notBoolean p => "invalid arguments for '" ++ p.name ++ "': expected a boolean"
  | .divisionByZero => "division by zero in 'div'"
  | .tooDeep => "maximum recursion depth exceeded"
  | .rejected m => m

def levels : EvalError → Nat
  | .headNotSymbol v | .notCallable _ v => v.printLevels true
  | .notFunction v | .undefinable v | .lambdaParams v | .lambdaParam v | .letName v =>
      v.inspectLevels
  | _ => 0

/-- what the host is about to do if they are not there -/
def overrun : EvalError → Overrun
  | .notFunction _ | .undefinable _ | .lambdaParams _ | .lambdaParam _ | .letName _ => .inspecting
  | _ => .calling

end EvalError

namespace Fault

/-- indexes from here on are not even compared with a length -/
def indexBound : Nat := Nat.pow 2 63

/-- the wording for an index that names nothing in a sequence of some kind -/
def indexMessage (kind : String) (index : Nat) : String :=
  if index < indexBound then kind ++ " index out of range"
  else "cannot fit 'int' into an index-sized integer"

def message : Fault → String
  | .rootPop => "cannot pop the root frame"
  | .noFrame handle => indexMessage "list" handle
  | .noCharacter index => indexMessage "string" index
  | .noWidth => "negative shift count"
  | .noMemory => ""
  | .tooWide => "too many digits in integer"
  | .tooLong =>
    "Exceeds the limit (" ++ String.ofList (Integer.digits Integer.maxDigits)
      ++ " digits) for integer string conversion; "
      ++ "use sys.set_int_max_str_digits() to increase the limit"
  | .tooManyLevels => "Python int too large to convert to C int"
  | .nullInName => "embedded null byte"
  | .broken m => m

end Fault

def Overrun.message : Overrun → String
  | .calling => ""
  | .wording => " while getting the str of an object"
  | .inspecting => " while getting the repr of an object"

def Failure.message : Failure → String
  | .parse e => e.text
  | .eval e => e.message
  | .fault f => f.message
  | .exhausted o => EvalError.tooDeep.message ++ o.message

end Lisplet

import Lisplet.Failure
import Lisplet.Reading.Basic

/-!
# The trace of a run

A run leaves a trace: what it printed, what it read, applied and called, in order.  Printed text and
log lines are both read off the trace, so neither is kept anywhere else.
-/

namespace Lisplet

open Text (Place)

inductive Level where
  | unset
  | debug
  | info
  | warning
  | error
  | critical
  deriving DecidableEq, Repr

namespace Level

def number : Level → Nat
  | .unset => 0
  | .debug => 10
  | .info => 20
  | .warning => 30
  | .error => 40
  | .critical => 50

def name : Level → String
  | .unset => "NOTSET"
  | .debug => "DEBUG"
  | .info => "INFO"
  | .warning => "WARNING"
  | .error => "ERROR"
  | .critical => "CRITICAL"

/-- the names that select a level; two levels have two names each -/
def ofName? (s : String) : Option Level :=
  if s = "CRITICAL" ∨ s = "FATAL" then some .critical
  else if s = "ERROR" then some .error
  else if s = "WARNING" ∨ s = "WARN" then some .warning
  else if s = "INFO" then some .info
  else if s = "DEBUG" then some .debug
  else if s = "NOTSET" then some .unset
  else none

end Level

inductive Event where
  /-- the primitives were registered -/
  | registered (count : Nat)
  /-- a file is about to be run -/
  | running (path : String)
  /-- the forms of a program are about to be evaluated -/
  | evaluating (forms : Nat)
  /-- a name or an integer was read -/
  | read (l : Lexeme)
  /-- a function is about to be applied under the name it was called by -/
  | applying (head : Symbol) (args : List Value)
  /-- a lambda got more or fewer arguments than it has parameters -/
  | mismatch (params : List Value) (body : Value) (args : List Value)
  | called (f : Native) (args : List Value)
  | printed (text : String)

structure LogLine where
  level : Level
  source : String
  text : String
  deriving DecidableEq, Repr

def countText (n : Nat) : String := String.ofList (Integer.digits n)

def Lexeme.logLine : Lexeme → LogLine
  | .name s p =>
    ⟨.debug, "minilisp.reader.parser",
      "read symbol " ++ s ++ " at " ++ countText p.line ++ ":" ++ countText p.column⟩
  | .integer n => ⟨.debug, "minilisp.reader.parser", "read integer " ++ countText n⟩

namespace Event

def logLine? : Event → Option LogLine
  | .registered n =>
    some ⟨.debug, "minilisp.builtins", "registered " ++ countText n ++ " built-ins"⟩
  | .running path => some ⟨.info, "minilisp.interpreter", "running " ++ path⟩
  | .evaluating n =>
    some ⟨.info, "minilisp.interpreter", "evaluating " ++ countText n ++ " top-level form(s)"⟩
  | .read l => some l.logLine
  | .applying head args =>
    some ⟨.debug, "minilisp.evaluation.evaluator",
      "apply " ++ head.name ++ " to " ++ countText args.length ++ " argument(s)"⟩
  | .mismatch params body args =>
    some ⟨.debug, "minilisp.evaluation.apply",
      (Value.lambda params body).display ++ " called with " ++ countText args.length
        ++ " argument(s) for " ++ countText params.length ++ " parameter(s)"⟩
  | .called _ _ => none
  | .printed _ => none

def output : Event → String
  | .printed text => text
  | _ => ""

end Event

def LogLine.render (l : LogLine) :
    String := l.level.name ++ " " ++ l.source ++ ": " ++ l.text ++ "\n"

def printedText (events : List Event) : String := String.join (events.map Event.output)

def logText (level : Nat) (events : List Event) : String :=
  String.join ((events.filterMap Event.logLine?).filterMap fun l =>
    if level ≤ l.level.number then some l.render else none)

end Lisplet

import Lisplet.Primitive

/-!
# Evaluation

An atom evaluates to itself and a symbol to its binding.  A list is a special form or a call, and
its head must be a symbol.  The special forms are those of the table of the world: they go before
any binding of their names.  The head of a call is looked up before the arguments are evaluated, and
these are evaluated from left to right.

A lambda is applied in a new frame on top of the caller's current one, so its free names are looked
up at the call.  Parameters and arguments are paired as far as both go.  The frame is popped
afterwards, whether the body gives a value or fails.

Evaluation has a budget of stack levels.  It needs three levels for itself; an argument or a branch
has two levels less than the list it stands in, and the body of a lambda three less than the call.
Without levels left the run is exhausted.  So it is if an error shows a value that takes more levels
than are left: below the evaluation of a list there are two more than below a call, and below a
special form one more.  An exhausted run pops its frames only where there is a level left to do so;
`guarded` brings the frames in order again.

`evaluate` is the iteration of `step`, which takes the evaluation of parts as parameters: what holds
for parts is carried to the whole by a lemma on `step`.
-/

namespace Lisplet

inductive SpecialForm where
  | ifForm
  | lambdaForm
  | letForm
  deriving DecidableEq, Repr

namespace SpecialForm

/-- the names of the special forms, in the order in which a session interns them -/
def names : List String := ["if", "lambda", "let"]

/-- the special form of a symbol: the symbol has to come from the given table -/
def of? (table : Nat) (s : Symbol) : Option SpecialForm :=
  if s.table = table then
    if s.name = "if" then some .ifForm
    else if s.name = "lambda" then some .lambdaForm
    else if s.name = "let" then some .letForm
    else none
  else none

end SpecialForm

/-- what a procedure of the host may ask of the session that calls it: to run a program, and to
evaluate an expression, in the current frame -/
structure Reentry where
  runUnit : String → Run Value
  runExpression : String → Run Value

abbrev HostProcedure := Reentry → List Value → Run Value

abbrev Host := Nat → HostProcedure

namespace Eval

/-! ## special forms -/

/-- the condition must be a boolean; only the branch it selects is evaluated -/
def ifForm (ev : Value → Run Value) : List Value → Run Value
  | condition :: yes :: rest => do
    match ← ev condition with
    | .bool true => ev yes
    | .bool false =>
      match rest with
      | [] => return .nil
      | no :: _ => ev no
    | _ => Run.fail .ifCondition
  | _ => Run.fail .ifShort

def notSymbol? (vs : List Value) : Option Value := vs.find? fun v => v.symbol?.isNone

/-- the body is kept as it is, and nothing of the scope is kept -/
def lambdaForm (levels : Nat) : List Value → Run Value
  | [] => Run.fail .lambdaWithoutParams
  | [_] => Run.fail .lambdaWithoutBody
  | .list params :: body :: _ =>
    match notSymbol? params with
    | some v => Run.raise levels (.lambdaParam v)
    | none => return .lambda params body
  | v :: _ :: _ => Run.raise levels (.lambdaParams v)

/-- binds in the current frame and gives nil -/
def letForm (levels : Nat) (ev : Value → Run Value) : List Value → Run Value
  | [] => Run.fail .letWithoutName
  | .symbol s :: rest =>
    match rest with
    | [] => Run.fail .letWithoutValue
    | e :: _ => do
      let v ← ev e
      Run.define (.symbol s) v
      return .nil
  | v :: _ => Run.raise levels (.letName v)

/-! ## calls -/

def arguments (ev : Value → Run Value) : List Value → Run (List Value)
  | [] => return []
  | e :: es => do
    let v ← ev e
    let vs ← arguments ev es
    return v :: vs

def bindAll (levels : Nat) : List Value → List Value → Run Unit
  | p :: ps, a :: as => do
    Run.worded levels (Run.define p a)
    bindAll levels ps as
  | _, _ => return ()

/-- pops a frame after a run has ended: with a value or an error always, and in an exhausted run if
there is a level left -/
def leaving {α : Type} (levels : Nat) (act : Run α) : Run α := fun w =>
  match act w with
  | .ok v w' =>
    match w'.frames.pop with
    | .ok s => .ok v { w' with frames := s }
    | .error e => .error e w'
  | .error (.exhausted o) w' =>
    if levels = 0 then .error (.exhausted o) w'
    else match w'.frames.pop with
      | .ok s => .error (.exhausted o) { w' with frames := s }
      | .error e => .error e w'
  | .error e w' =>
    match w'.frames.pop with
    | .ok s => .error e { w' with frames := s }
    | .error e' => .error e' w'

/-- applies a lambda in a new frame; `levels` is the budget of its body -/
def applyLambda (levels : Nat) (ev : Value → Run Value) (params : List Value) (body : Value)
    (args : List Value) : Run Value := do
  if args.length ≠ params.length then Run.note (.mismatch params body args)
  Run.push
  leaving levels do
    bindAll levels params args
    ev body

def applyNative (host : Host) (levels : Nat) (re : Reentry) (f : Native) (args : List Value) :
    Run Value := do
  Run.note (.called f args)
  match f.code with
  | .primitive p => p.run levels args
  | .host id => host id re args

/-! ## programs -/

/-- evaluates forms one after the other; the value is that of the last one, or `last` if there is
none -/
def formsFrom (ev : Value → Run Value) (last : Value) : List Value → Run Value
  | [] => return last
  | e :: es => do
    let v ← ev e
    formsFrom ev v es

def forms (ev : Value → Run Value) (es : List Value) : Run Value := formsFrom ev .nil es

/-- an exhausted run is an error of the language, and leaves the frames as deep as they were -/
def guarded {α : Type} (act : Run α) : Run α := fun w =>
  match act w with
  | .error (.exhausted _) w' =>
    .error (.eval .tooDeep) { w' with frames := w'.frames.unwind w.frames.current }
  | r => r

def runUnit (levels : Nat) (ev : Value → Run Value) (text : String) : Run Value := do
  let es ← Run.read levels Reading.unit text
  Run.note (.evaluating es.length)
  guarded (forms ev es)

def runExpression (levels : Nat) (ev : Value → Run Value) (text : String) : Run Value := do
  let e ← Run.read levels Reading.expression text
  guarded (ev e)

def reentry (levels : Nat) (ev : Value → Run Value) : Reentry :=
  ⟨runUnit levels ev, runExpression levels ev⟩

/-! ## one level of evaluation -/

/-- applies a function; `levels` and `ev` are for what runs below it -/
def apply (host : Host) (levels : Nat) (ev : Value → Run Value) (f : Value) (args : List Value) :
    Run Value :=
  match f with
  | .native g => applyNative host levels (reentry levels ev) g args
  | .lambda params body => applyLambda levels ev params body args
  | v => Run.raise (levels + 1) (.notFunction v)

/-- a call: the head, then the arguments, then the application -/
def call (host : Host) (levels : Nat) (part below : Value → Run Value) (head : Symbol)
    (tail : List Value) : Run Value := do
  let f ← Run.lookup (.symbol head)
  if f.isFunction then
    let args ← arguments part tail
    Run.note (.applying head args)
    apply host levels below f args
  else Run.raise (levels + 2) (.notCallable head f)

/-- evaluates an expression, given the evaluation of its parts and of what runs below a call -/
def step (host : Host) (levels : Nat) (part below : Value → Run Value) : Value → Run Value
  | .list [] => Run.fail .emptyCall
  | .list (.symbol head :: tail) => do
    match SpecialForm.of? (← get).table.id head with
    | some .ifForm => ifForm part tail
    | some .lambdaForm => lambdaForm (levels + 1) tail
    | some .letForm => letForm (levels + 1) part tail
    | none => call host levels part below head tail
  | .list (head :: _) => Run.raise (levels + 2) (.headNotSymbol head)
  | .symbol s => Run.lookup (.symbol s)
  | v => return v

def evaluate (host : Host) : (levels : Nat) → Value → Run Value
  | n + 3 => step host n (evaluate host (n + 1)) (evaluate host n)
  | _ => fun _ => throw (.exhausted .calling)

theorem evaluate_add_three (host : Host) (n : Nat) :
    evaluate host (n + 3) = step host n (evaluate host (n + 1)) (evaluate host n) := by
  rw [evaluate]

theorem evaluate_exhausted (host : Host) {n : Nat} (h : n < 3) (e : Value) :
    evaluate host n e = throw (.exhausted .calling) := by
  match n, h with
  | 0, _ => rfl
  | 1, _ => rfl
  | 2, _ => rfl

end Eval

end Lisplet

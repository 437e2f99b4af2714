import Lisplet.Eval

/-!
# Sessions

A session keeps what one program run needs from text to text: the world, the procedures of its host,
and the number of stack levels.  What a text binds at the top stays bound for the next one.
-/

namespace Lisplet

structure Session where
  world : World
  host : Host
  levels : Nat

namespace Session

/-- the number of the symbol table of every session -/
def tableId : Nat := 0

/-- the stack levels that a session asks for, unless a setting says otherwise -/
def standardLevels : Nat := 10000

def noHost : Host := fun _ _ _ => throw (.fault (.broken "no such procedure"))

/-- a world that knows the special forms and nothing else -/
def emptyWorld : World :=
  ⟨.root, (SymbolTable.empty tableId).internAll SpecialForm.names, #[]⟩

def nativeIn (w : World) (name : String) (code : Procedure) : Value :=
  .native ⟨(w.table.symFor name).1, code⟩

/-- the world after a procedure has been bound in the root frame under a name -/
def registerIn (w : World) (name : String) (code : Procedure) : World :=
  { w with
    frames := w.frames.bindAt 0 (w.table.symFor name).1 (nativeIn w name code)
    table := (w.table.symFor name).2 }

def standardWorld : World :=
  (Primitive.all.foldl (fun w p => registerIn w p.name (.primitive p)) emptyWorld).note
    (.registered Primitive.all.length)

/-- what is true without primitives and stays true with each of them is true of a world with all -/
theorem standardWorld_induction {P : World → Prop} (empty : P emptyWorld)
    (register : ∀ w, P w → ∀ p : Primitive, P (registerIn w p.name (.primitive p)))
    (note : ∀ w, P w → P (w.note (.registered Primitive.all.length))) : P standardWorld := by
  have hall : ∀ (ps : List Primitive) (w : World), P w →
      P (ps.foldl (fun w p => registerIn w p.name (.primitive p)) w) := by
    intro ps
    induction ps with
    | nil => exact fun _ hw => hw
    | cons p ps ih => exact fun w hw => ih _ (register w hw p)
  exact note _ (hall Primitive.all _ empty)

def new (primitives : Bool) (levels : Nat) : Session :=
  ⟨if primitives then standardWorld else emptyWorld, noHost, levels⟩

/-- the result of a run, and the session after it -/
def run {α : Type} (s : Session) (act : Run α) : Except Failure α × Session :=
  match act s.world with
  | .ok a w => (.ok a, { s with world := w })
  | .error e w => (.error e, { s with world := w })

section
variable {α : Type} {s : Session} {act : Run α} {w : World}

theorem run_ok {a : α} (h : act s.world = .ok a w) :
    s.run act = (.ok a, { s with world := w }) := by
  rw [run, h]

theorem run_error {e : Failure} (h : act s.world = .error e w) :
    s.run act = (.error e, { s with world := w }) := by
  rw [run, h]

end

def evaluator (s : Session) : Value → Run Value := Eval.evaluate s.host s.levels

/-- reads a program and evaluates it; the value is that of its last form -/
def eval (s : Session) (text : String) : Except Failure Value × Session :=
  s.run (Eval.runUnit s.levels s.evaluator text)

def evalExpression (s : Session) (text : String) : Except Failure Value × Session :=
  s.run (Eval.runExpression s.levels s.evaluator text)

def parse (s : Session) (text : String) : Except Failure (List Value) × Session :=
  s.run (Run.read s.levels Reading.unit text)

def parseExpression (s : Session) (text : String) : Except Failure Value × Session :=
  s.run (Run.read s.levels Reading.expression text)

/-- evaluates an expression that is not guarded against exhaustion -/
def evaluate (s : Session) (e : Value) : Except Failure Value × Session := s.run (s.evaluator e)

def apply (s : Session) (f : Value) (args : List Value) : Except Failure Value × Session :=
  s.run (Eval.apply s.host s.levels s.evaluator f args)

def register (s : Session) (name : String) (code : Procedure) : Value × Session :=
  (nativeIn s.world name code, { s with world := registerIn s.world name code })

def runText (s : Session) (path text : String) : Except Failure Value × Session :=
  Session.eval { s with world := s.world.note (.running path) } text

end Session

end Lisplet

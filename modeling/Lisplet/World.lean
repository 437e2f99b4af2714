import Lisplet.Frames
import Lisplet.Reading.Reader
import Lisplet.Trace

/-!
# What a run works on

A `World` holds the frames, the symbol table and the trace.  A `Run` changes it and gives a value or
fails; a run that fails keeps the world it has reached, so bindings, names and printed text made
before the failure stay.

Reading and the wording of errors take stack levels.  Reading takes two for every list that is open,
and an `overhead` besides; it is prepared to run out while it reads expressions, which is an error
of the text then, but not while it is entered or left.
-/

namespace Lisplet

/-- frames, symbols and what has happened so far -/
structure World where
  frames : FrameStack
  table : SymbolTable
  trace : Array Event

abbrev Run := EStateM Failure World

namespace World

def note (w : World) (e : Event) : World := { w with trace := w.trace.push e }

/-- the world after a text has been read: its table, and what the reader has seen -/
def afterReading (w : World) (m : Marks) : World :=
  { w with table := m.table, trace := w.trace ++ (m.seen.reverse.map Event.read).toArray }

end World

/-! ## levels of the reader -/

namespace Reading

/-- the levels that reading takes besides those for open lists -/
def overhead : Nat := 7

/-- what reading is about to do where the overhead is not there: with one level less it finds out
that it has run out, but can no longer say so -/
def overrun (levels : Nat) : Overrun := if levels + 1 = overhead then .wording else .calling

/-- the levels with which an error can be worded: that something follows the expression is found
one call further in, where nothing is prepared to run out -/
def wordingLevels : ParseCause → Nat
  | .trailing _ => overhead + 1
  | _ => overhead

/-- how a text fails that has an error -/
def reported (levels : Nat) (e : ParseError) : Failure :=
  if levels < wordingLevels e.cause then .exhausted .wording else .parse e

theorem wordingLevels_le (cause : ParseCause) : wordingLevels cause ≤ overhead + 1 := by
  cases cause <;> simp [wordingLevels]

theorem reported_of_le {levels : Nat} {e : ParseError} (h : wordingLevels e.cause ≤ levels) :
    reported levels e = .parse e := if_neg (Nat.not_lt_of_le h)

theorem reported_cases {levels : Nat} (hl : ¬ levels < overhead) (e : ParseError) :
    reported levels e = .parse e ∨
      reported levels e = .exhausted .wording ∧ levels = overhead ∧ ∃ c, e.cause = .trailing c := by
  by_cases h : levels < wordingLevels e.cause
  · refine .inr ⟨if_pos h, ?_⟩
    have hle := wordingLevels_le e.cause
    refine ⟨by omega, ?_⟩
    cases hc : e.cause with
    | trailing c => exact ⟨c, rfl⟩
    | _ => exact absurd (by rw [hc] at h; exact h) hl
  · exact .inl (if_neg h)

end Reading

/-- what the reader admits when there are so many levels -/
def Limits.ofLevels (levels : Nat) : Limits :=
  ⟨Integer.standardWidth, (levels - Reading.overhead) / 2⟩

namespace Run

def fail {α : Type} (e : EvalError) : Run α := throw (.eval e)

/-- an error of the language is worded with so many levels; without them the run is exhausted -/
def worded {α : Type} (levels : Nat) (act : Run α) : Run α := fun w =>
  match act w with
  | .error (.eval e) w' =>
    if e.levels ≤ levels then .error (.eval e) w' else .error (.exhausted e.overrun) w'
  | r => r

def raise {α : Type} (levels : Nat) (e : EvalError) : Run α := worded levels (fail e)

/-- what wording does to a run: nothing, unless there is an error that takes more levels -/
theorem worded_cases {α : Type} (levels : Nat) (act : Run α) (w : World) :
    worded levels act w = act w ∨ ∃ e w', act w = .error (.eval e) w' ∧ levels < e.levels ∧
      worded levels act w = .error (.exhausted e.overrun) w' := by
  unfold worded
  split
  · next e w' h =>
    by_cases he : e.levels ≤ levels
    · exact .inl (by rw [if_pos he, h])
    · exact .inr ⟨e, w', h, Nat.lt_of_not_le he, if_neg he⟩
  · exact .inl rfl

theorem worded_of_lt {α : Type} {levels : Nat} {act : Run α} {e : EvalError} {w w' : World}
    (h : act w = .error (.eval e) w') (hl : levels < e.levels) :
    worded levels act w = .error (.exhausted e.overrun) w' := by
  unfold worded
  rw [h]
  exact if_neg (Nat.not_le_of_lt hl)

theorem raise_of_le {α : Type} {levels : Nat} {e : EvalError} (h : e.levels ≤ levels) (w : World) :
    (raise levels e : Run α) w = .error (.eval e) w := if_pos h

theorem raise_of_lt {α : Type} {levels : Nat} {e : EvalError} (h : levels < e.levels) (w : World) :
    (raise levels e : Run α) w = .error (.exhausted e.overrun) w := worded_of_lt rfl h

def note (e : Event) : Run Unit := modify fun w => w.note e

/-- changes the frames; if that fails, they stay as they are -/
def onFrames (f : FrameStack → Except Failure FrameStack) : Run Unit := fun w =>
  match f w.frames with
  | .ok s => .ok () { w with frames := s }
  | .error e => .error e w

def define (name value : Value) : Run Unit := onFrames fun s => s.define name value

def push : Run Unit := modify fun w => { w with frames := w.frames.push }

def lookup (name : Value) : Run Value := fun w =>
  match w.frames.lookup name with
  | .ok v => .ok v w
  | .error e => .error e w

/-- reads a text with the table of the world and so many levels -/
def read {α : Type} (levels : Nat) (reading : Reading α) (text : String) : Run α := fun w =>
  if levels < Reading.overhead then .error (.exhausted (Reading.overrun levels)) w
  else match reading (Reader.ofText text w.table (.ofLevels levels)) with
    | .ok a r => .ok a (w.afterReading r.marks)
    | .error e r => .error (Reading.reported levels e) (w.afterReading r.marks)

section
variable {α : Type} {levels : Nat} {reading : Reading α} {text : String} {w : World} {r : Reader}

theorem read_of_lt (h : levels < Reading.overhead) :
    read levels reading text w = .error (.exhausted (Reading.overrun levels)) w := by
  rw [read, if_pos h]

theorem read_of_ok (h : ¬ levels < Reading.overhead) {a : α}
    (hr : reading (Reader.ofText text w.table (.ofLevels levels)) = .ok a r) :
    read levels reading text w = .ok a (w.afterReading r.marks) := by
  rw [read, if_neg h, hr]

theorem read_of_error (h : ¬ levels < Reading.overhead) {e : ParseError}
    (hr : reading (Reader.ofText text w.table (.ofLevels levels)) = .error e r) :
    read levels reading text w = .error (Reading.reported levels e) (w.afterReading r.marks) := by
  rw [read, if_neg h, hr]

end

end Run

end Lisplet

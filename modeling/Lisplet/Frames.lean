import Lisplet.Failure

/-!
# The stack of frames

A frame binds symbols to values, in the order in which they were first bound, and names its parent
by a handle.  A handle is the number of a frame in the stack; the root frame has the handle zero and
no parent.  One frame is current.  A name is looked up in the current frame, then in its parent, and
so on.

Frames are pushed onto the current one and popped from the top; popping makes the parent of the
popped frame current, whichever frame was current before.  `unwind` drops all frames above a handle
and makes it current.  A handle that names no frame is noticed when it is used.

An operation that fails changes nothing.
-/

namespace Lisplet

structure Frame where
  parent : Option Nat
  vars : List (Symbol × Value)

namespace Frame

/-- bindings after `s` has been bound to `v`: a symbol that is bound already keeps its place -/
def put (s : Symbol) (v : Value) : List (Symbol × Value) → List (Symbol × Value)
  | [] => [(s, v)]
  | (t, w) :: rest => if t = s then (t, v) :: rest else (t, w) :: put s v rest

def get? (f : Frame) (s : Symbol) : Option Value := f.vars.lookup s

def bind (f : Frame) (s : Symbol) (v : Value) : Frame := { f with vars := put s v f.vars }

theorem lookup_put (s t : Symbol) (v : Value) (vars : List (Symbol × Value)) :
    (put s v vars).lookup t = if t = s then some v else vars.lookup t := by
  induction vars with
  | nil =>
    by_cases h : t = s
    · simp [put, h]
    · have ht : (t == s) = false := by simpa using h
      simp only [put, List.lookup_cons, List.lookup_nil, ht, h, if_false]
  | cons b rest ih =>
    obtain ⟨u, w⟩ := b
    by_cases h : t = u
    · subst h
      by_cases hs : t = s
      · simp [put, hs]
      · simp [put, hs]
    · have ht : (t == u) = false := by simpa using h
      by_cases hu : u = s
      · subst hu
        simp only [put, if_true, List.lookup_cons, ht, h, if_false]
      · simp only [put, hu, if_false, List.lookup_cons, ht, ih]

end Frame

/-- frames, bottom first, and the handle of the current one -/
structure FrameStack where
  frames : Array Frame
  current : Nat

namespace FrameStack

def root : FrameStack := ⟨#[⟨none, []⟩], 0⟩

def depth (s : FrameStack) : Nat := s.frames.size

def frame (s : FrameStack) (h : Nat) : Except Failure Frame :=
  match s.frames[h]? with
  | some f => .ok f
  | none => .error (.fault (.noFrame h))

/-- the stack after a symbol has been bound in the frame of a handle; a handle of no frame changes
nothing -/
def bindAt (s : FrameStack) (h : Nat) (n : Symbol) (v : Value) : FrameStack :=
  { s with frames := s.frames.modify h fun f => f.bind n v }

def defineAt (s : FrameStack) (h : Nat) (name value : Value) : Except Failure FrameStack :=
  match name with
  | .symbol n =>
    if h < s.frames.size then .ok (s.bindAt h n value) else .error (.fault (.noFrame h))
  | v => .error (.eval (.undefinable v))

def define (s : FrameStack) (name value : Value) : Except Failure FrameStack :=
  s.defineAt s.current name value

def defineRoot (s : FrameStack) (name value : Value) : Except Failure FrameStack :=
  s.defineAt 0 name value

/-- a frame on top of the current one, which becomes current -/
def push (s : FrameStack) : FrameStack :=
  ⟨s.frames.push ⟨some s.current, []⟩, s.frames.size⟩

/-- drops the top frame and makes its parent current -/
def pop (s : FrameStack) : Except Failure FrameStack :=
  if s.frames.size ≤ 1 then .error (.fault .rootPop)
  else
    match s.frames.back? with
    | some f => .ok ⟨s.frames.pop, f.parent.getD 0⟩
    | none => .error (.fault .rootPop)

/-- drops every frame above a handle and makes it current -/
def unwind (s : FrameStack) (h : Nat) : FrameStack := ⟨s.frames.take (h + 1), h⟩

/-! ## what the operations do to the stack -/

theorem depth_push (s : FrameStack) : s.push.depth = s.depth + 1 := by
  simp [push, depth]

theorem current_push (s : FrameStack) : s.push.current = s.depth := rfl

theorem pop_of_depth_le_one (s : FrameStack) (h : s.depth ≤ 1) : s.pop = .error (.fault .rootPop) :=
  if_pos h

theorem current_unwind (s : FrameStack) (h : Nat) : (s.unwind h).current = h := rfl

theorem depth_unwind (s : FrameStack) (h : Nat) : (s.unwind h).depth = min (h + 1) s.depth := by
  simp [unwind, depth]

theorem depth_bindAt (s : FrameStack) (h : Nat) (n : Symbol) (v : Value) :
    (s.bindAt h n v).depth = s.depth := by
  simp [bindAt, depth]

/-! ## looking up

Parents are followed for at most one step more than there are frames: a longer chain would come to a
frame for the second time, and find nothing new. -/

/-- the first frame that binds the symbol, from a handle outward -/
def findFrom (frames : Array Frame) (bound : Frame → Bool) : (steps : Nat) → (h : Nat) →
    Except Failure (Option Nat)
  | 0, _ => .ok none
  | n + 1, h =>
    match frames[h]? with
    | none => .error (.fault (.noFrame h))
    | some f =>
      if bound f then .ok (some h)
      else match f.parent with
        | none => .ok none
        | some p => findFrom frames bound n p

/-- a frame binds a name; only symbols are ever bound -/
def binds (name : Value) (f : Frame) : Bool :=
  match name with
  | .symbol s => (f.get? s).isSome
  | _ => false

def find (s : FrameStack) (name : Value) : Except Failure (Option Nat) :=
  findFrom s.frames (binds name) (s.frames.size + 1) s.current

def valueAt (s : FrameStack) (h : Nat) (name : Value) : Except Failure Value :=
  match s.frames[h]?, name with
  | some f, .symbol n =>
    match f.get? n with
    | some v => .ok v
    | none => .error (.eval (.unbound name))
  | _, _ => .error (.eval (.unbound name))

def lookup (s : FrameStack) (name : Value) : Except Failure Value := do
  match ← s.find name with
  | some h => s.valueAt h name
  | none => .error (.eval (.unbound name))

/-! ## text -/

def frameText (f : Frame) : String :=
  "\x7b" ++ String.intercalate ", " (f.vars.map fun b => b.1.name ++ ": " ++ b.2.inspect) ++ "\x7d"

def chainFrom (frames : Array Frame) : (steps : Nat) → (h : Nat) → Except Failure (List Frame)
  | 0, _ => .ok []
  | n + 1, h =>
    match frames[h]? with
    | none => .error (.fault (.noFrame h))
    | some f =>
      match f.parent with
      | none => .ok [f]
      | some p => (chainFrom frames n p).map (f :: ·)

/-- the current frame, and a sign that there are more -/
def display (s : FrameStack) : Except Failure String := do
  let f ← s.frame s.current
  return frameText f ++ (if f.parent.isSome then " -> ..." else "")

/-- all frames from the current one outward -/
def inspect (s : FrameStack) : Except Failure String := do
  let chain ← chainFrom s.frames (s.frames.size + 1) s.current
  return "<Environment chain: " ++ String.intercalate " -> " (chain.map frameText) ++ ">"

end FrameStack

end Lisplet

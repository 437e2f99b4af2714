import Mathlib
import Lisplet.Proofs.Scopes

/-!
# Frames as dictionaries

A stack of frames is used through seven operations.  Parents and the handle of the current frame are
not needed to say what they answer: a list of dictionaries does, the top one first, where a name is
searched from the top.

* `Dictionaries.perform`     the operations on a list of dictionaries;
* `refines_perform`          one operation on a proper stack answers as on its dictionaries;
* `refines_performAll`       so do any operations after each other;
* `walks_scan`               following parents from frame to frame comes to an end, and to the frame
  that is found from the top.

A handle that is unwound to has to name a frame (`Legal`).  All else may fail, and then changes
nothing.
-/

namespace Lisplet

open FrameStack

/-- what can be asked of frames -/
inductive Operation where
  | define (name value : Value)
  | defineRoot (name value : Value)
  | push
  | pop
  | unwind (handle : Nat)
  | find (n : Symbol)
  | lookup (n : Symbol)

inductive Answer where
  | done
  | frame (handle : Option Nat)
  | value (v : Value)

/-- the only demand on an operation, where there are `depth` frames -/
def Operation.Allowed (depth : Nat) : Operation → Prop
  | .unwind h => h < depth
  | _ => True

/-! ## operations on frames -/

namespace FrameStack

/-- the answer of a change, and the frames after it -/
def change (s : FrameStack) : Except Failure FrameStack → Except Failure Answer × FrameStack
  | .ok t => (.ok .done, t)
  | .error e => (.error e, s)

def perform (s : FrameStack) : Operation → Except Failure Answer × FrameStack
  | .define name value => s.change (s.define name value)
  | .defineRoot name value => s.change (s.defineRoot name value)
  | .push => (.ok (.frame s.push.current), s.push)
  | .pop => s.change s.pop
  | .unwind h => (.ok .done, s.unwind h)
  | .find n => ((s.find (.symbol n)).map .frame, s)
  | .lookup n => ((s.lookup (.symbol n)).map .value, s)

def performAll : FrameStack → List Operation → List (Except Failure Answer) × FrameStack
  | s, [] => ([], s)
  | s, op :: ops =>
    let (answer, t) := s.perform op
    let (answers, u) := performAll t ops
    (answer :: answers, u)

end FrameStack

/-! ## operations on dictionaries -/

abbrev Dictionary := Symbol → Option Value

def Dictionary.empty : Dictionary := fun _ => none

def Dictionary.write (n : Symbol) (v : Value) (d : Dictionary) : Dictionary := fun m =>
  if m = n then some v else d m

namespace Dictionaries

/-- the highest dictionary that has the name, by the number of those below it, and what it has
there -/
def scan (n : Symbol) : List Dictionary → Option (Nat × Value)
  | [] => none
  | d :: below =>
    match d n with
    | some v => some (below.length, v)
    | none => scan n below

def writeTop (n : Symbol) (v : Value) : List Dictionary → List Dictionary
  | [] => []
  | d :: below => d.write n v :: below

def writeBottom (n : Symbol) (v : Value) : List Dictionary → List Dictionary
  | [] => []
  | [d] => [d.write n v]
  | d :: below => d :: writeBottom n v below

def perform (ds : List Dictionary) : Operation → Except Failure Answer × List Dictionary
  | .define name value =>
    match name with
    | .symbol n => (.ok .done, writeTop n value ds)
    | _ => (.error (.eval (.undefinable name)), ds)
  | .defineRoot name value =>
    match name with
    | .symbol n => (.ok .done, writeBottom n value ds)
    | _ => (.error (.eval (.undefinable name)), ds)
  | .push => (.ok (.frame ds.length), .empty :: ds)
  | .pop => if ds.length ≤ 1 then (.error (.fault .rootPop), ds) else (.ok .done, ds.tail)
  | .unwind h => (.ok .done, ds.drop (ds.length - (h + 1)))
  | .find n => (.ok (.frame ((scan n ds).map Prod.fst)), ds)
  | .lookup n =>
    (((scan n ds).map Prod.snd).elim (.error (.eval (.unbound (.symbol n))))
      (fun v => .ok (.value v)), ds)

def performAll : List Dictionary → List Operation → List (Except Failure Answer) × List Dictionary
  | ds, [] => ([], ds)
  | ds, op :: ops =>
    let (answer, es) := perform ds op
    let (answers, fs) := performAll es ops
    (answer :: answers, fs)

/-- every operation is allowed when its turn comes -/
def Legal : List Dictionary → List Operation → Prop
  | _, [] => True
  | ds, op :: ops => op.Allowed ds.length ∧ Legal (perform ds op).2 ops

end Dictionaries

/-! ## the dictionaries of a stack -/

namespace FrameStack

def dictionaries (s : FrameStack) : List Dictionary := s.scopes.map fun scope n => scope.lookup n

def dictionariesBelow (s : FrameStack) (h : Nat) : List Dictionary :=
  (s.scopesBelow h).map fun scope n => scope.lookup n

section
variable {s : FrameStack}

theorem length_dictionaries (s : FrameStack) : s.dictionaries.length = s.depth := by
  rw [dictionaries, List.length_map, length_scopes]

theorem length_dictionariesBelow {h : Nat} (hh : h ≤ s.depth) :
    (s.dictionariesBelow h).length = h := by
  have hl : h ≤ s.frames.toList.length := hh
  simp only [dictionariesBelow, scopesBelow, List.length_map, List.length_reverse, List.length_take]
  omega

theorem dictionariesBelow_succ {h : Nat} {f : Frame} (hf : s.frame? h = some f) :
    s.dictionariesBelow (h + 1) = f.get? :: s.dictionariesBelow h := by
  rw [dictionariesBelow, scopesBelow_succ hf]
  rfl

theorem Proper.dictionaries_eq (hs : s.Proper) :
    s.dictionaries = s.dictionariesBelow (s.current + 1) := by
  rw [dictionaries, hs.scopes_eq]
  rfl

theorem dictionary_put (n : Symbol) (v : Value) (scope : Scope) :
    (fun m => (Frame.put n v scope).lookup m) = Dictionary.write n v fun m => scope.lookup m := by
  funext m
  exact Frame.lookup_put n m v scope

theorem dictionaries_push (s : FrameStack) : s.push.dictionaries = .empty :: s.dictionaries := by
  rw [dictionaries, scopes_push]
  rfl

theorem dictionaries_popped (s : FrameStack) : s.popped.dictionaries = s.dictionaries.tail := by
  rw [dictionaries, scopes_popped, List.map_tail]
  rfl

theorem dictionaries_unwind (s : FrameStack) (h : Nat) :
    (s.unwind h).dictionaries = s.dictionaries.drop (s.dictionaries.length - (h + 1)) := by
  have hl : (s.unwind h).frames.toList = s.frames.toList.take (h + 1) := by
    simp [FrameStack.unwind]
  simp only [dictionaries, scopes, hl, List.map_take, List.reverse_take, List.length_map,
    List.length_reverse,
    List.map_drop]

theorem Proper.dictionaries_bindAt (hs : s.Proper) (n : Symbol) (v : Value) :
    (s.bindAt s.current n v).dictionaries = Dictionaries.writeTop n v s.dictionaries := by
  have ht := hs.top
  cases hsc : s.scopes with
  | nil =>
    have hl := length_scopes s
    rw [hsc, List.length_nil] at hl
    omega
  | cons inner outer =>
    rw [dictionaries, scopes_bindAt hs hsc, dictionaries, hsc, List.map_cons, dictionary_put]
    rfl

theorem writeBottom_concat (n : Symbol) (v : Value) (ds : List Dictionary) (d : Dictionary) :
    Dictionaries.writeBottom n v (ds ++ [d]) = ds ++ [d.write n v] := by
  induction ds with
  | nil => rfl
  | cons e ds ih =>
    cases ds with
    | nil => rfl
    | cons e' ds =>
      show e :: Dictionaries.writeBottom n v (e' :: ds ++ [d]) = _
      rw [ih]
      rfl

theorem dictionaries_bindAt_zero (s : FrameStack) (n : Symbol) (v : Value) :
    (s.bindAt 0 n v).dictionaries = Dictionaries.writeBottom n v s.dictionaries := by
  have hl : (s.bindAt 0 n v).frames.toList = s.frames.toList.modify 0 fun f => f.bind n v :=
    Array.toList_modify ..
  unfold dictionaries scopes
  rw [hl]
  cases s.frames.toList with
  | nil => rfl
  | cons r frames =>
    have hr : ∀ f : Frame,
        ((f :: frames).map Frame.vars).reverse.map (fun scope n => List.lookup n scope)
        = ((frames.map Frame.vars).reverse.map fun scope n => List.lookup n scope) ++ [f.get?] := by
      intro f
      rw [List.map_cons, List.reverse_cons, List.map_append]
      rfl
    rw [hr, writeBottom_concat]
    show ((r.bind n v :: frames).map Frame.vars).reverse.map _ = _
    rw [hr]
    exact congrArg (fun d => _ ++ [d]) (dictionary_put n v r.vars)

theorem Proper.defineRoot_symbol (hs : s.Proper) (n : Symbol) (value : Value) :
    s.defineRoot (.symbol n) value = .ok (s.bindAt 0 n value) := by
  have h : 0 < s.frames.size := by
    show 0 < s.depth
    have ht := hs.top
    omega
  exact if_pos h

/-! ## following parents -/

/-- the search for a name comes from the frame of a handle to its end -/
inductive Walks (s : FrameStack) (n : Symbol) : Nat → Option Nat → Prop
  | found {h f v} : s.frame? h = some f → f.get? n = some v → Walks s n h (some h)
  | nowhere {h f} : s.frame? h = some f → f.get? n = none → f.parent = none → Walks s n h none
  | outward {h f p r} : s.frame? h = some f → f.get? n = none → f.parent = some p → Walks s n p r →
      Walks s n h r

/-- the frames that are met on the way outward from the current one -/
inductive Reaches (s : FrameStack) : Nat → Prop
  | current : Reaches s s.current
  | parent {h f p} : Reaches s h → s.frame? h = some f → f.parent = some p → Reaches s p

theorem walks_scan (hs : s.Proper) (n : Symbol) {h : Nat} (hh : h < s.depth) :
    Walks s n h ((Dictionaries.scan n (s.dictionariesBelow (h + 1))).map Prod.fst) := by
  induction h with
  | zero =>
    obtain ⟨f, hf⟩ := exists_frame hh
    rw [dictionariesBelow_succ hf, Dictionaries.scan]
    cases hg : f.get? n with
    | some v => exact .found hf hg
    | none => exact .nowhere hf hg (hs.parents 0 f hf)
  | succ h ih =>
    obtain ⟨f, hf⟩ := exists_frame hh
    rw [dictionariesBelow_succ hf, Dictionaries.scan]
    cases hg : f.get? n with
    | some v =>
      have hl := length_dictionariesBelow (s := s) (Nat.le_of_lt hh)
      simp only [hl]
      exact .found hf hg
    | none => exact .outward hf hg (hs.parents (h + 1) f hf) (ih (by omega))

/-- a walk takes one step for each handle, so there are enough steps for it -/
theorem Walks.findFrom (hs : s.Proper) {n : Symbol} {h steps : Nat} {r : Option Nat}
    (hw : Walks s n h r) (hsteps : h < steps) :
    FrameStack.findFrom s.frames (binds (.symbol n)) steps h = .ok r := by
  induction hw generalizing steps with
  | found hf hg =>
    obtain ⟨steps, rfl⟩ : ∃ k, steps = k + 1 := ⟨steps - 1, by omega⟩
    exact (findFrom_of_bound hf steps hg).1
  | nowhere hf hg hp =>
    obtain ⟨steps, rfl⟩ : ∃ k, steps = k + 1 := ⟨steps - 1, by omega⟩
    rw [findFrom_of_not_bound hf steps hg, hp]
    rfl
  | @outward h f p r hf hg hp hw ih =>
    obtain ⟨steps, rfl⟩ : ∃ k, steps = k + 1 := ⟨steps - 1, by omega⟩
    have hpar := hs.parents h f hf
    cases h with
    | zero => cases hp.symm.trans hpar
    | succ h =>
      cases hp.symm.trans hpar
      rw [findFrom_of_not_bound hf steps hg, hp]
      exact ih (by omega)

theorem Proper.walks (hs : s.Proper) (n : Symbol) :
    Walks s n s.current ((Dictionaries.scan n s.dictionaries).map Prod.fst) := by
  have ht := hs.top
  rw [hs.dictionaries_eq]
  exact walks_scan hs n (by omega)

theorem Proper.find_eq (hs : s.Proper) (n : Symbol) :
    s.find (.symbol n) = .ok ((Dictionaries.scan n s.dictionaries).map Prod.fst) := by
  have ht := hs.top
  refine (hs.walks n).findFrom hs ?_
  show s.current < s.depth + 1
  omega

theorem Proper.reaches (hs : s.Proper) {h : Nat} (hh : h < s.depth) : s.Reaches h := by
  have ht := hs.top
  -- from the current frame down: one parent for each handle in between
  obtain ⟨k, hk⟩ : ∃ k, h + k = s.current := ⟨s.current - h, by omega⟩
  induction k generalizing h with
  | zero =>
    obtain rfl : h = s.current := by omega
    exact .current
  | succ k ih =>
    have hup : h + 1 < s.depth := by omega
    obtain ⟨f, hf⟩ := exists_frame hup
    exact .parent (ih hup (by omega)) hf (hs.parents (h + 1) f hf)

theorem scan_scopes (n : Symbol) (scopes : List Scope) :
    (Dictionaries.scan n (scopes.map fun scope n => scope.lookup n)).map Prod.snd
      = Scope.find? n scopes := by
  induction scopes with
  | nil => rfl
  | cons scope outer ih =>
    rw [List.map_cons, Dictionaries.scan, Scope.find?]
    cases hl : scope.lookup n with
    | some v => rfl
    | none => exact ih

theorem Proper.lookup_scan (hs : s.Proper) (n : Symbol) :
    s.lookup (.symbol n) = ((Dictionaries.scan n s.dictionaries).map Prod.snd).elim
      (.error (.eval (.unbound (.symbol n)))) .ok := by
  rw [hs.lookup_eq, dictionaries, scan_scopes]

end

end FrameStack

/-! ## one operation, and any number of them -/

/-- a proper stack with these dictionaries -/
structure FrameStack.Refines (s : FrameStack) (ds : List Dictionary) : Prop where
  proper : s.Proper
  dictionaries : s.dictionaries = ds

section
variable {s : FrameStack} {ds : List Dictionary}

theorem refines_perform (h : s.Refines ds) {op : Operation} (ha : op.Allowed ds.length) :
    (s.perform op).1 = (Dictionaries.perform ds op).1 ∧
      (s.perform op).2.Refines (Dictionaries.perform ds op).2 := by
  obtain ⟨hs, rfl⟩ := h
  have hlen := length_dictionaries s
  cases op with
  | define name value =>
    cases name with
    | symbol n =>
      simp only [FrameStack.perform, hs.define_symbol]
      exact ⟨rfl, hs.bindAt .., hs.dictionaries_bindAt n value⟩
    | _ => exact ⟨rfl, hs, rfl⟩
  | defineRoot name value =>
    cases name with
    | symbol n =>
      simp only [FrameStack.perform, hs.defineRoot_symbol]
      exact ⟨rfl, hs.bindAt .., s.dictionaries_bindAt_zero n value⟩
    | _ => exact ⟨rfl, hs, rfl⟩
  | push =>
    refine ⟨?_, hs.push, s.dictionaries_push⟩
    simp only [FrameStack.perform, Dictionaries.perform, current_push, hlen]
  | pop =>
    by_cases hd : s.depth ≤ 1
    · simp only [FrameStack.perform, Dictionaries.perform, s.pop_of_depth_le_one hd, hlen,
        if_pos hd]
      exact ⟨rfl, hs, rfl⟩
    · have hd' : 1 < s.depth := Nat.lt_of_not_le hd
      simp only [FrameStack.perform, Dictionaries.perform, hs.pop_eq hd', hlen, if_neg hd]
      exact ⟨rfl, hs.popped hd', s.dictionaries_popped⟩
  | unwind handle =>
    have hh : handle < s.depth := by
      rw [← hlen]
      exact ha
    exact ⟨rfl, hs.unwind hh, s.dictionaries_unwind handle⟩
  | find n =>
    refine ⟨?_, hs, rfl⟩
    simp only [FrameStack.perform, hs.find_eq]
    rfl
  | lookup n =>
    refine ⟨?_, hs, rfl⟩
    simp only [FrameStack.perform, Dictionaries.perform, hs.lookup_scan]
    cases (Dictionaries.scan n s.dictionaries).map Prod.snd with
    | none => rfl
    | some v => rfl

theorem refines_performAll (ops : List Operation) (h : s.Refines ds)
    (hl : Dictionaries.Legal ds ops) :
    (s.performAll ops).1 = (Dictionaries.performAll ds ops).1 ∧
      (s.performAll ops).2.Refines (Dictionaries.performAll ds ops).2 := by
  induction ops generalizing s ds with
  | nil => exact ⟨rfl, h⟩
  | cons op ops ih =>
    obtain ⟨ha, hl⟩ := hl
    obtain ⟨hanswer, hstep⟩ := refines_perform h ha
    obtain ⟨hanswers, hrun⟩ := ih hstep hl
    exact ⟨congrArg₂ List.cons hanswer hanswers, hrun⟩

theorem refines_root : FrameStack.root.Refines [.empty] := ⟨Proper.root, rfl⟩

end

/-- what holds of a stack of frames at any time -/
structure FrameStack.Orderly (s : FrameStack) : Prop where
  proper : s.Proper
  reachable : ∀ h, h < s.depth → s.Reaches h
  /-- a search ends, with this result -/
  found : ∀ n, ∃ r, s.Walks n s.current r ∧ s.find (.symbol n) = .ok r
  /-- the root is not popped, and all else is -/
  popped : (∃ e, (s.perform .pop).1 = .error e) ↔ s.depth = 1
  root : s.depth = 1 → s.perform .pop = (.error (.fault .rootPop), s)
  unnamed : ∀ name value, name.symbol? = none →
    s.perform (.define name value) = (.error (.eval (.undefinable name)), s) ∧
    s.perform (.defineRoot name value) = (.error (.eval (.undefinable name)), s)

theorem FrameStack.Proper.orderly {s : FrameStack} (hs : s.Proper) : s.Orderly where
  proper := hs
  reachable := fun h hh => hs.reaches hh
  found := fun n => ⟨_, hs.walks n, hs.find_eq n⟩
  popped := by
    have ht := hs.top
    constructor
    · rintro ⟨e, he⟩
      apply Nat.le_antisymm ?_ (by omega)
      apply Nat.le_of_not_lt
      intro hd
      rw [FrameStack.perform, hs.pop_eq hd] at he
      cases he
    · intro hd
      exact ⟨.fault .rootPop, by rw [FrameStack.perform, s.pop_of_depth_le_one (by omega)]; rfl⟩
  root := by
    intro hd
    rw [FrameStack.perform, s.pop_of_depth_le_one (by omega)]
    rfl
  unnamed := by
    intro name value hn
    cases name with
    | symbol n => cases hn
    | _ => exact ⟨rfl, rfl⟩

/-- Frames are a stack of dictionaries: from a new stack on, any operations answer as they do on
dictionaries that are searched from the top, and come to frames that are in order and have the same
bindings. -/
theorem frames_refine_dictionaries (ops : List Operation) (hl : Dictionaries.Legal [.empty] ops) :
    (FrameStack.root.performAll ops).1 = (Dictionaries.performAll [.empty] ops).1 ∧
      (FrameStack.root.performAll ops).2.dictionaries = (Dictionaries.performAll [.empty] ops).2 ∧
      (FrameStack.root.performAll ops).2.Orderly := by
  obtain ⟨hanswers, hr⟩ := refines_performAll ops refines_root hl
  exact ⟨hanswers, hr.dictionaries, hr.proper.orderly⟩

/-- the root is written to from above, and a name is found again after its frame has been unwound -/
theorem frames_refine_dictionaries_unwound :
    let x : Symbol := ⟨0, "x"⟩
    let ops : List Operation :=
      [.push, .define (.symbol x) (.int 1), .push, .defineRoot (.symbol x) (.int 2),
      .find x, .define (.int 3) .nil, .unwind 0, .lookup x, .pop]
    Dictionaries.Legal [.empty] ops ∧
      (FrameStack.root.performAll ops).1
        = [.ok (.frame (some 1)), .ok .done, .ok (.frame (some 2)), .ok .done,
        .ok (.frame (some 1)), .error (.eval (.undefinable (.int 3))), .ok .done,
          .ok (.value (.int 2)),
        .error (.fault .rootPop)] ∧
      (FrameStack.root.performAll ops).2.Orderly := by
  intro x ops
  have hl : Dictionaries.Legal [.empty] ops :=
    ⟨trivial, trivial, trivial, trivial, trivial, trivial, (by decide : 0 < 3), trivial, trivial,
      trivial⟩
  obtain ⟨hanswers, _, ho⟩ := frames_refine_dictionaries ops hl
  refine ⟨hl, ?_, ho⟩
  rw [hanswers]
  rfl

end Lisplet

import Mathlib
import Lisplet.Proofs.Resemblance

/-!
# Names matter only through their identity

Symbols are compared with each other and never by their spelling, the names of the special forms
apart.  So a renaming that keeps different symbols different, and leaves those three alone, commutes
with evaluation: it may be applied to the expression and to all frames before a run, or to the value
and the frames after it.

This is a `Correspondence` in which all names are renamed.  The bindings of a frame and of its
partner are the same, in the same order, up to the renaming (`Scope.rename`).

* `lookup_rename`, `put_rename`   looking up and binding commute with an injective renaming;
* `of?_rename`                    such a renaming makes no special form and loses none;
* `evaluate_renamed`              evaluation commutes with it, with any number of levels.
-/

namespace Lisplet

open FrameStack

/-! ## renamed frames -/

def Scope.rename (r : Symbol → Symbol) (b : Scope) : Scope := b.map fun x => (r x.1, x.2.rename r)

def Frame.rename (r : Symbol → Symbol) (f : Frame) : Frame := ⟨f.parent, Scope.rename r f.vars⟩

/-- handles and parents stay, names and values are renamed -/
def FrameStack.rename (r : Symbol → Symbol) (s : FrameStack) : FrameStack :=
  ⟨s.frames.map (Frame.rename r), s.current⟩

theorem FrameStack.frame?_rename (r : Symbol → Symbol) (s : FrameStack) (k : Nat) :
    (s.rename r).frame? k = (s.frame? k).map (Frame.rename r) := by
  show (s.frames.map (Frame.rename r))[k]? = _
  rw [Array.getElem?_map]
  rfl

section
variable {r : Symbol → Symbol} (hr : Function.Injective r)
include hr

theorem Scope.lookup_rename (n : Symbol) (b : Scope) :
    (Scope.rename r b).lookup (r n) = (b.lookup n).map (Value.rename r) := by
  induction b with
  | nil => rfl
  | cons x b ih =>
    obtain ⟨m, v⟩ := x
    show List.lookup (r n) ((r m, v.rename r) :: Scope.rename r b) = _
    rw [List.lookup_cons, List.lookup_cons]
    by_cases h : n = m
    · subst h
      rw [beq_self_eq_true, beq_self_eq_true]
      rfl
    · have hm : (n == m) = false := beq_eq_false_iff_ne.2 h
      have hrm : (r n == r m) = false := beq_eq_false_iff_ne.2 fun he => h (hr he)
      rw [hm, hrm]
      exact ih

theorem Scope.put_rename (n : Symbol) (v : Value) (b : Scope) :
    Scope.rename r (Frame.put n v b) = Frame.put (r n) (v.rename r) (Scope.rename r b) := by
  induction b with
  | nil => rfl
  | cons x b ih =>
    obtain ⟨m, u⟩ := x
    show Scope.rename r (if m = n then (m, v) :: b else (m, u) :: Frame.put n v b)
      = if r m = r n then (r m, v.rename r) :: Scope.rename r b
        else (r m, u.rename r) :: Frame.put (r n) (v.rename r) (Scope.rename r b)
    by_cases h : m = n
    · rw [if_pos h, if_pos (congrArg r h)]
      rfl
    · rw [if_neg h, if_neg fun he => h (hr he), ← ih]
      rfl

/-- a special form is known by its symbol, and a symbol that is left alone is met by no other one -/
theorem SpecialForm.of?_rename {table : Nat}
    (hfix : ∀ name ∈ SpecialForm.names, r ⟨table, name⟩ = ⟨table, name⟩) (n : Symbol) :
    SpecialForm.of? table (r n) = SpecialForm.of? table n := by
  have heq : ∀ s : Symbol, SpecialForm.of? table s
      = if s = ⟨table, "if"⟩ then some .ifForm
        else if s = ⟨table, "lambda"⟩ then some .lambdaForm
        else if s = ⟨table, "let"⟩ then some .letForm else none := by
    rintro ⟨t, name⟩
    unfold SpecialForm.of?
    by_cases ht : t = table
    · simp [ht]
    · simp [ht]
  have hiff : ∀ name ∈ SpecialForm.names, r n = ⟨table, name⟩ ↔ n = ⟨table, name⟩ := by
    intro name hname
    rw [← hfix name hname, hr.eq_iff, hfix name hname]
  simp only [heq, hiff "if" (by decide), hiff "lambda" (by decide), hiff "let" (by decide)]

end

/-! ## two runs, one with other names -/

/-- the kinds of failures, those of errors among them -/
inductive FailureKind where
  | parse
  | eval (kind : ErrorKind)
  | fault
  | exhausted
  deriving DecidableEq

def Failure.kind : Failure → FailureKind
  | .parse _ => .parse
  | .eval e => .eval e.kind
  | .fault _ => .fault
  | .exhausted _ => .exhausted

theorem Failure.kind_rename (r : Symbol → Symbol) (e : Failure) : (e.rename r).kind = e.kind := by
  cases e with
  | eval e => cases e <;> rfl
  | _ => rfl

/-- the call of a native that an event is -/
def Event.call? : Event → Option (Native × List Value)
  | .called f args => some (f, args)
  | _ => none

/-- the natives that have been called, with their arguments, first one first -/
def World.calls (w : World) : List (Native × List Value) := w.trace.toList.filterMap Event.call?

theorem calls_of_renamed {r : Symbol → Symbol} {es es' : List Event}
    (h : List.Forall₂ (Event.Renamed r) es es') :
    es'.filterMap Event.call? = (es.filterMap Event.call?).map fun c =>
      (c.1, c.2.map (Value.rename r)) := by
  induction h with
  | nil => rfl
  | cons he _ ih =>
    rw [List.filterMap_cons, List.filterMap_cons]
    cases he with
    | called f args =>
      show (f, args.map (Value.rename r)) :: List.filterMap Event.call? _ = _
      rw [ih]
      rfl
    | _ => exact ih

/-- runs from `w` and `w'` have come to `u` and `u'`: the frames are renamed, and the same natives
were called with renamed arguments -/
structure Renames (r : Symbol → Symbol) (w w' u u' : World) : Prop where
  frames : u'.frames = u.frames.rename r
  calls : ∃ calls, u.calls = w.calls ++ calls ∧
    u'.calls = w'.calls ++ calls.map fun c => (c.1, c.2.map (Value.rename r))

/-- both runs have a value, or both fail in the same way -/
inductive EndsRenamed (r : Symbol → Symbol) (w w' : World) :
    EStateM.Result Failure World Value → EStateM.Result Failure World Value → Prop
  | ok {v u u'} : Renames r w w' u u' → EndsRenamed r w w' (.ok v u) (.ok (v.rename r) u')
  | error {e e' u u'} : e' = e.rename r → e'.kind = e.kind → Renames r w w' u u' →
      EndsRenamed r w w' (.error e u) (.error e' u')

section
variable {r : Symbol → Symbol} {w : World}

/-- two runs that differ in names only -/
def renamedBy (table : Nat) (r : Symbol → Symbol) (hr : Function.Injective r)
    (hfix : ∀ name ∈ SpecialForm.names, r ⟨table, name⟩ = ⟨table, name⟩) : Correspondence :=
  { verbatim table with
    rename := r
    Vars := fun b b' => b' = Scope.rename r b ∧ ∀ x ∈ b, hostless.IsValue x.2
    special := SpecialForm.of?_rename hr hfix
    empty := ⟨rfl, fun _ hx => absurd hx List.not_mem_nil⟩
    get := by
      rintro b b' n ⟨rfl, _⟩ _
      exact Scope.lookup_rename hr n b
    got := by
      rintro b b' n v ⟨_, hb⟩ _ hv
      exact hb (n, v) (Frame.mem_of_get? (f := ⟨none, b⟩) hv)
    put := by
      rintro b b' n v ⟨rfl, hb⟩ _ hv
      refine ⟨(Scope.put_rename hr n v b).symm, fun x hx => ?_⟩
      rcases Frame.mem_put hx with rfl | hx
      · exact hv
      · exact hb x hx }

variable {hr : Function.Injective r}
  {hfix : ∀ name ∈ SpecialForm.names, r ⟨w.table.id, name⟩ = ⟨w.table.id, name⟩}

theorem pairs_renamedBy (hw : w.Hostless) :
    (renamedBy w.table.id r hr hfix).Pairs w { w with frames := w.frames.rename r } := by
  refine ⟨⟨rfl, fun k => ?_⟩, rfl, rfl⟩
  show Option.Rel _ _ ((w.frames.rename r).frame? k)
  rw [frame?_rename]
  cases hf : w.frames.frame? k with
  | none => exact .none
  | some f => exact .some ⟨rfl, rfl, fun x hx => hw x.1 x.2 ⟨k, f, hf, hx⟩⟩

theorem rename_of_matched {s t : FrameStack}
    (h : s.Matched (renamedBy w.table.id r hr hfix).Vars t) :
    t = s.rename r := by
  obtain ⟨frames, current⟩ := t
  have hc : current = s.current := h.current
  have hf : frames = s.frames.map (Frame.rename r) := by
    apply Array.ext_getElem?
    intro k
    have hk : (s.frames.map (Frame.rename r))[k]? = (s.frame? k).map (Frame.rename r) :=
      s.frame?_rename r k
    rw [hk]
    rcases h.frame_cases k with ⟨hs, ht⟩ | ⟨f, ⟨p, b⟩, hs, ht, hp, hb, _⟩
    · rw [hs]
      exact ht
    · have hp' : p = f.parent := hp
      have hb' : b = Scope.rename r f.vars := hb
      rw [hp', hb'] at ht
      rw [hs]
      exact ht
  rw [hc, hf]
  rfl

theorem renames_of_leads {w' u u' : World} (h : (renamedBy w.table.id r hr hfix).Leads w w' u u') :
    Renames r w w' u u' where
  frames := rename_of_matched h.pairs.frames
  calls := by
    obtain ⟨more, more', ht, ht', hm⟩ := h.trace
    refine ⟨more.filterMap Event.call?, ?_, ?_⟩
    · show u.trace.toList.filterMap Event.call? = _
      rw [ht, List.filterMap_append]
      rfl
    · show u'.trace.toList.filterMap Event.call? = _
      rw [ht', List.filterMap_append, calls_of_renamed hm]
      rfl

end

/-- **Names matter only through their identity.** A renaming that is injective and fixes the special
forms is applied to an expression and to all frames.  The run is then the same with other names:
value, failure, calls and frames. -/
theorem evaluate_renamed (host : Host) (levels : Nat) (w : World) (r : Symbol → Symbol) (e : Value)
    (hr : Function.Injective r)
    (hfix : ∀ name ∈ SpecialForm.names, r (w.table.symbol name) = w.table.symbol name)
    (he : e.hostFree = true) (hw : w.Hostless) :
    EndsRenamed r w { w with frames := w.frames.rename r } (Eval.evaluate host levels e w)
      (Eval.evaluate host levels (e.rename r) { w with frames := w.frames.rename r }) := by
  let C := renamedBy w.table.id r hr hfix
  have hc := C.corresponds_evaluate host levels e he _ _ (pairs_renamedBy hw)
  rw [show e.rename C.rename = e.rename r from rfl] at hc
  generalize Eval.evaluate host levels e w = x,
    Eval.evaluate host levels (e.rename r) { w with frames := w.frames.rename r } = y at hc
  cases hc with
  | ok hv hl =>
    obtain ⟨rfl, _⟩ := hv
    exact .ok (renames_of_leads hl)
  | @error e _ _ hl => exact .error rfl (e.kind_rename r) (renames_of_leads hl)

/-- `f` adds `y` of its caller to the last of two arguments with one name -/
def adding : World :=
  let body := Value.list [.symbol ⟨0, "plus"⟩, .symbol ⟨0, "x"⟩, .symbol ⟨0, "y"⟩]
  let frames := (FrameStack.root.bindAt 0 ⟨0, "plus"⟩
    (.native ⟨⟨0, "plus"⟩, .primitive .plus⟩)).bindAt 0 ⟨0, "f"⟩
    (.lambda [.symbol ⟨0, "x"⟩, .symbol ⟨0, "x"⟩] body)
  ⟨frames.bindAt 0 ⟨0, "y"⟩ (.int 1), .empty 0, #[]⟩

/-- the parameter and the primitive exchange their names -/
theorem evaluate_renamed_exchanged :
    let r : Symbol → Symbol := Equiv.swap ⟨0, "plus"⟩ ⟨0, "x"⟩
    let e := Value.list [.symbol ⟨0, "f"⟩, .int 4, .int 5]
    (adding.frames.rename r).lookup (.symbol ⟨0, "x"⟩)
      = .ok (.native ⟨⟨0, "plus"⟩, .primitive .plus⟩) ∧
      (∃ u, Eval.evaluate Session.noHost 10 e adding = .ok (.int 6) u) ∧
      EndsRenamed r adding { adding with frames := adding.frames.rename r }
        (Eval.evaluate Session.noHost 10 e adding)
        (Eval.evaluate Session.noHost 10 (e.rename r)
          { adding with frames := adding.frames.rename r }) := by
  intro r e
  refine ⟨by cbv, ⟨_, rfl⟩, ?_⟩
  apply evaluate_renamed Session.noHost 10 adding r e
  · exact (Equiv.swap _ _).injective
  · decide +kernel
  · decide
  · intro n v hb
    rcases bound_of_bound_bindAt hb with ⟨_, rfl⟩ | hb
    · decide
    · rcases bound_of_bound_bindAt hb with ⟨_, rfl⟩ | hb
      · decide
      · rcases bound_of_bound_bindAt hb with ⟨_, rfl⟩ | hb
        · decide
        · exact absurd hb not_bound_root

end Lisplet

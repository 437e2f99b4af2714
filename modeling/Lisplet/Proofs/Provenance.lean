import Mathlib
import Lisplet.Eval
import Lisplet.Proofs.ProperStack
import Lisplet.Proofs.Sequence

/-!
# Where the values of a run come from

A run makes values in few ways: it takes atoms from the expressions it evaluates, makes functions
from their parts, and computes integers, booleans and nil.  So a set of values that is closed under
these ways is never left.  A `Realm` is such a set, with the expressions and the names that go with
it.

`Secures` says of a computation that it stays in a realm: from a world whose bindings belong to it,
the values that are bound, passed and given back belong to it as well, and an error speaks of
nothing else.  The forms of the language are secured by the evaluation of their parts.

* `secures_bracket`   a body in a frame of its own;
* `secures_step`      one level of evaluation, from those below it;
* `secures_evaluate`  evaluation with any number of levels;
* `secures_guarded`   a run that is made to end.

In a realm all native functions are primitives, so nothing depends on the host.
-/

namespace Lisplet

open FrameStack Sequence

/-! ## the bindings of a stack -/

theorem Frame.mem_put {n : Symbol} {v : Value} {vars : List (Symbol × Value)} {b : Symbol × Value}
    (h : b ∈ Frame.put n v vars) : b = (n, v) ∨ b ∈ vars := by
  induction vars with
  | nil => exact .inl (List.mem_singleton.1 h)
  | cons a vars ih =>
    obtain ⟨m, w⟩ := a
    by_cases hm : m = n
    · rw [Frame.put, if_pos hm] at h
      rcases List.mem_cons.1 h with he | hr
      · exact .inl (hm ▸ he)
      · exact .inr (List.mem_cons_of_mem _ hr)
    · rw [Frame.put, if_neg hm] at h
      rcases List.mem_cons.1 h with he | hr
      · exact .inr (he ▸ List.mem_cons_self ..)
      · rcases ih hr with he | hr
        · exact .inl he
        · exact .inr (List.mem_cons_of_mem _ hr)

theorem Frame.mem_of_get? {f : Frame} {n : Symbol} {v : Value} (h : f.get? n = some v) :
    (n, v) ∈ f.vars := by
  obtain ⟨a, b, he, _⟩ := List.lookup_eq_some_iff.1 h
  rw [he]
  exact List.mem_append_right _ (List.mem_cons_self ..)

namespace FrameStack

def Bound (s : FrameStack) (n : Symbol) (v : Value) : Prop :=
  ∃ h f, s.frame? h = some f ∧ (n, v) ∈ f.vars

section
variable {s : FrameStack} {n m : Symbol} {v u : Value}

theorem not_bound_root : ¬ FrameStack.root.Bound n v := by
  rintro ⟨h, f, hf, hb⟩
  cases h with
  | zero =>
    cases hf
    exact List.not_mem_nil hb
  | succ h => cases hf

theorem bound_of_bound_push (h : s.push.Bound n v) : s.Bound n v := by
  obtain ⟨k, f, hf, hb⟩ := h
  rw [frame?_push] at hf
  split at hf
  · cases hf
    exact absurd hb List.not_mem_nil
  · exact ⟨k, f, hf, hb⟩

theorem bound_of_bound_bindAt {k : Nat} (h : (s.bindAt k m u).Bound n v) :
    n = m ∧ v = u ∨ s.Bound n v := by
  obtain ⟨l, f, hf, hb⟩ := h
  rw [frame?_bindAt] at hf
  split at hf
  · obtain ⟨g, hg, rfl⟩ := Option.map_eq_some_iff.1 hf
    rcases Frame.mem_put hb with he | hb
    · cases he
      exact .inl ⟨rfl, rfl⟩
    · exact .inr ⟨l, g, hg, hb⟩
  · exact .inr ⟨l, f, hf, hb⟩

theorem bound_of_bound_popped (h : s.popped.Bound n v) : s.Bound n v := by
  obtain ⟨k, f, hf, hb⟩ := h
  rw [frame?_popped] at hf
  split at hf
  · exact ⟨k, f, hf, hb⟩
  · cases hf

theorem bound_of_bound_unwind {k : Nat} (h : (s.unwind k).Bound n v) : s.Bound n v := by
  obtain ⟨l, f, hf, hb⟩ := h
  rw [frame?_unwind] at hf
  split at hf
  · exact ⟨l, f, hf, hb⟩
  · cases hf

theorem bound_of_valueAt {h : Nat} (hv : s.valueAt h (.symbol n) = .ok v) : s.Bound n v := by
  unfold valueAt at hv
  cases hf : s.frames[h]? with
  | none =>
    simp only [hf] at hv
    cases hv
  | some f =>
    cases hg : f.get? n with
    | none =>
      simp only [hf, hg] at hv
      cases hv
    | some u =>
      simp only [hf, hg] at hv
      cases hv
      exact ⟨h, f, hf, Frame.mem_of_get? hg⟩

theorem bound_of_lookup (h : s.lookup (.symbol n) = .ok v) : s.Bound n v := by
  cases hf : s.find (.symbol n) with
  | error e =>
    unfold lookup at h
    rw [hf] at h
    cases h
  | ok r =>
    cases r with
    | none =>
      rw [lookup_of_find_none hf] at h
      cases h
    | some k =>
      rw [lookup_of_find_some hf] at h
      exact bound_of_valueAt h

end

end FrameStack

/-! ## what primitives compute -/

namespace Primitive

/-- the results of primitives -/
inductive Computes : Except EvalError Value → Prop
  | int (n : Int) : Computes (.ok (.int (Integer.wrapped n)))
  | bool (b : Bool) : Computes (.ok (.bool b))
  | nil : Computes (.ok .nil)
  | argumentCount (p : Primitive) (wanted got : Nat) :
      Computes (.error (.argumentCount p wanted got))
  | notIntegers (p : Primitive) : Computes (.error (.notIntegers p))
  | notBoolean (p : Primitive) : Computes (.error (.notBoolean p))
  | divisionByZero : Computes (.error .divisionByZero)

section
variable (p : Primitive) (args : List Value)

theorem computes_of_integers {e : EvalError} (h : p.integers args = .error e) :
    Computes (.error e) := by
  unfold integers at h
  split at h
  · cases h
  · cases h
    exact .notIntegers p
  · cases h
    exact .argumentCount p _ _

theorem computes_arithmetic (f : Int → Int → Int) : Computes (p.arithmetic f args) := by
  unfold arithmetic
  cases h : p.integers args with
  | error e => exact computes_of_integers p args h
  | ok x => exact .int (f x.1 x.2)

theorem computes_comparison (f : Int → Int → Bool) : Computes (p.comparison f args) := by
  unfold comparison
  cases h : p.integers args with
  | error e => exact computes_of_integers p args h
  | ok x => exact .bool (f x.1 x.2)

theorem computes_div : Computes (value .div args) := by
  simp only [value]
  cases h : integers .div args with
  | error e => exact computes_of_integers .div args h
  | ok x =>
    show Computes (if x.2 = 0 then .error .divisionByZero
      else .ok (.int (Integer.wrapped (quotient x.1 x.2))))
    split
    · exact .divisionByZero
    · exact .int _

theorem computes_not : Computes (value .not args) := by
  simp only [value, boolean]
  split
  · exact .bool _
  · exact .notBoolean .not
  · exact .argumentCount .not _ _

theorem computes_value : Computes (p.value args) := by
  cases p with
  | div => exact computes_div args
  | not => exact computes_not args
  | println => exact .nil
  | plus => exact computes_arithmetic .plus args _
  | minus => exact computes_arithmetic .minus args _
  | mul => exact computes_arithmetic .mul args _
  | lt => exact computes_comparison .lt args fun a b => decide (a < b)
  | le => exact computes_comparison .le args fun a b => decide (a ≤ b)
  | gt => exact computes_comparison .gt args fun a b => decide (b < a)
  | ge => exact computes_comparison .ge args fun a b => decide (b ≤ a)

end

end Primitive

/-! ## realms -/

/-- expressions, values and names of a run -/
structure Realm where
  IsExpr : Value → Prop
  IsValue : Value → Prop
  IsName : Symbol → Prop
  /-- what is neither a name nor a list is its own value -/
  self {v : Value} : IsExpr v → (∀ n, v ≠ .symbol n) → (∀ items, v ≠ .list items) → IsValue v
  item {items : List Value} {v : Value} : IsExpr (.list items) → v ∈ items → IsExpr v
  name {n : Symbol} : IsExpr (.symbol n) → IsName n
  lambda {params : List Value} {body : Value} : IsExpr (.list params) →
    (∀ p ∈ params, ∃ n, p = .symbol n) → IsExpr body → IsValue (.lambda params body)
  param {params : List Value} {body : Value} {n : Symbol} :
    IsValue (.lambda params body) → .symbol n ∈ params → IsName n
  body {params : List Value} {body : Value} : IsValue (.lambda params body) → IsExpr body
  native {f : Native} : IsValue (.native f) → ∃ p, f.code = .primitive p
  wrapped (n : Int) : IsValue (.int (Integer.wrapped n))
  bool (b : Bool) : IsValue (.bool b)
  nil : IsValue .nil

namespace Realm

variable (R : Realm)

def Records : Event → Prop
  | .applying _ args => ∀ a ∈ args, R.IsValue a
  | .mismatch _ _ args => ∀ a ∈ args, R.IsValue a
  | .called f args => R.IsValue (.native f) ∧ ∀ a ∈ args, R.IsValue a
  | .printed text => ∃ args, (∀ a ∈ args, R.IsValue a) ∧ text = Primitive.printLine args
  | _ => True

/-- the errors of a run, and what they may speak of -/
def Raises : EvalError → Prop
  | .headNotSymbol v => R.IsExpr v
  | .lambdaParams v => R.IsExpr v
  | .lambdaParam v => R.IsExpr v
  | .letName v => R.IsExpr v
  | .notCallable _ v => R.IsValue v
  | .unbound v => ∃ n, v = .symbol n
  | .undefinable v => ∃ params body, R.IsValue (.lambda params body) ∧ v ∈ params ∧ v.symbol? = none
  | .notFunction _ => False
  | .rejected _ => False
  | _ => True

/-- the stack is proper, and its bindings belong to the realm -/
structure Holds (w : World) : Prop where
  proper : w.frames.Proper
  bound : ∀ n v, w.frames.Bound n v → R.IsName n ∧ R.IsValue v

/-- how a run may change a world: no frame is lost, and the trace goes on inside the realm -/
structure Leads (w w' : World) : Prop where
  holds : R.Holds w'
  table : w'.table = w.table
  depth : w.frames.depth ≤ w'.frames.depth
  trace : ∀ e ∈ w'.trace, e ∈ w.trace ∨ R.Records e

section
variable {α β : Type}

/-- how a run from `w` may end; `Q` is for its value -/
def Yields (Q : α → Prop) (w : World) : EStateM.Result Failure World α → Prop
  | .ok a w' => Q a ∧ R.Leads w w'
  | .error (.eval e) w' => R.Raises e ∧ R.Leads w w'
  | .error (.exhausted _) w' => R.Leads w w'
  | .error (.parse _) _ => False
  | .error (.fault _) _ => False

/-- a computation that does not leave the realm -/
def Secures (Q : α → Prop) (act : Run α) : Prop := ∀ w, R.Holds w → R.Yields Q w (act w)

end

variable {R}

theorem Holds.note {w : World} (h : R.Holds w) (e : Event) :
    R.Holds (w.note e) := ⟨h.proper, h.bound⟩

theorem Holds.push {w : World} (h : R.Holds w) : R.Holds { w with frames := w.frames.push } where
  proper := h.proper.push
  bound := fun n v hb => h.bound n v (bound_of_bound_push hb)

theorem Leads.refl {w : World} (h : R.Holds w) : R.Leads w w where
  holds := h
  table := rfl
  depth := Nat.le_refl _
  trace := fun _ he => .inl he

theorem Leads.trans {w w₁ w₂ : World} (h₁ : R.Leads w w₁) (h₂ : R.Leads w₁ w₂) : R.Leads w w₂ where
  holds := h₂.holds
  table := h₂.table.trans h₁.table
  depth := Nat.le_trans h₁.depth h₂.depth
  trace := by
    intro e he
    rcases h₂.trace e he with he | hr
    · exact h₁.trace e he
    · exact .inr hr

theorem leads_frames {w : World} {s : FrameStack} (hp : s.Proper) (hd : w.frames.depth ≤ s.depth)
    (hb : ∀ n v, s.Bound n v → R.IsName n ∧ R.IsValue v) : R.Leads w { w with frames := s } where
  holds := ⟨hp, hb⟩
  table := rfl
  depth := hd
  trace := fun _ he => .inl he

section
variable {α β : Type} {Q : α → Prop} {P : β → Prop}

theorem Yields.trans {w w₁ : World} {r : EStateM.Result Failure World α} (h₁ : R.Leads w w₁)
    (h₂ : R.Yields Q w₁ r) : R.Yields Q w r := by
  cases r with
  | ok a w' => exact ⟨h₂.1, h₁.trans h₂.2⟩
  | error e w' =>
    cases e with
    | parse p => exact h₂
    | eval e => exact ⟨h₂.1, h₁.trans h₂.2⟩
    | fault f => exact h₂
    | exhausted o => exact Leads.trans h₁ h₂

theorem Yields.error {w w' : World} {e : Failure}
    (h : R.Yields Q w (.error e w' : EStateM.Result Failure World α)) :
    R.Yields P w (.error e w' : EStateM.Result Failure World β) := by
  cases e with
  | parse p => exact h
  | eval e => exact h
  | fault f => exact h
  | exhausted o => exact h

theorem Secures.bind {x : Run α} {f : α → Run β} (hx : R.Secures Q x)
    (hf : ∀ a, Q a → R.Secures P (f a)) : R.Secures P (x >>= f) := by
  intro w hw
  have hy := hx w hw
  cases h : x w with
  | ok a w' =>
    rw [h] at hy
    rw [bind_of_ok h]
    exact Yields.trans hy.2 (hf a hy.1 w' hy.2.holds)
  | error e w' =>
    rw [h] at hy
    rw [bind_of_error h]
    exact hy.error

/-! ## single operations -/

theorem secures_pure {a : α} (ha : Q a) : R.Secures Q (pure a : Run α) :=
  fun _ hw => ⟨ha, Leads.refl hw⟩

theorem secures_fail {e : EvalError} (he : R.Raises e) : R.Secures Q (Run.fail e : Run α) :=
  fun _ hw => ⟨he, Leads.refl hw⟩

theorem secures_exhausted (o : Overrun) : R.Secures Q (throw (.exhausted o) : Run α) :=
  fun _ hw => Leads.refl hw

/-- an error that is too deep to be worded is gone, and the world it was raised in is left -/
theorem secures_worded {act : Run α} (levels : Nat) (h : R.Secures Q act) :
    R.Secures Q (Run.worded levels act) := by
  intro w hw
  have hy := h w hw
  rcases Run.worded_cases levels act w with he | ⟨e, w', ha, _, he⟩
  · rw [he]
    exact hy
  · rw [ha] at hy
    rw [he]
    exact hy.2

theorem secures_raise (levels : Nat) {e : EvalError} (he : R.Raises e) :
    R.Secures Q (Run.raise levels e : Run α) :=
  secures_worded levels (secures_fail he)

theorem secures_get : R.Secures (fun _ => True) (get : Run World) :=
  fun _ hw => ⟨trivial, Leads.refl hw⟩

theorem secures_note {e : Event} (he : R.Records e) : R.Secures (fun _ => True) (Run.note e) := by
  intro w hw
  refine ⟨trivial, hw.note e, rfl, Nat.le_refl _, ?_⟩
  intro e' he'
  rcases Array.mem_push.1 he' with hm | rfl
  · exact .inl hm
  · exact .inr he

theorem secures_lookup (n : Symbol) : R.Secures R.IsValue (Run.lookup (.symbol n)) := by
  intro w hw
  unfold Run.lookup
  rcases hw.proper.lookup_cases (.symbol n) with ⟨v, hv⟩ | he
  · rw [hv]
    exact ⟨(hw.bound n v (bound_of_lookup hv)).2, Leads.refl hw⟩
  · rw [he]
    exact ⟨⟨n, rfl⟩, Leads.refl hw⟩

theorem secures_define {n : Symbol} {v : Value} (hn : R.IsName n) (hv : R.IsValue v) :
    R.Secures (fun _ => True) (Run.define (.symbol n) v) := by
  intro w hw
  simp only [Run.define, Run.onFrames, hw.proper.define_symbol n v]
  refine ⟨trivial, leads_frames (hw.proper.bindAt ..) (Nat.le_of_eq (depth_bindAt ..).symm) ?_⟩
  intro m u hb
  rcases bound_of_bound_bindAt hb with ⟨rfl, rfl⟩ | hb
  · exact ⟨hn, hv⟩
  · exact hw.bound m u hb

theorem secures_define_unfit {p v : Value} (hp : p.symbol? = none)
    (he : R.Raises (.undefinable p)) :
    R.Secures (fun _ => True) (Run.define p v) := by
  intro w hw
  simp only [Run.define, Run.onFrames, define_of_not_symbol hp v]
  exact ⟨he, Leads.refl hw⟩

/-! ## frames of their own -/

/-- a frame that was pushed can be popped -/
theorem Leads.popped {w w' : World} (hw : R.Holds w)
    (h : R.Leads { w with frames := w.frames.push } w') :
    w'.frames.pop = .ok w'.frames.popped ∧ R.Leads w { w' with frames := w'.frames.popped } := by
  have ht := hw.proper.top
  have hd : w.frames.depth + 1 ≤ w'.frames.depth := by
    have hd := h.depth
    rw [depth_push] at hd
    exact hd
  have hone : 1 < w'.frames.depth := by omega
  refine ⟨h.holds.proper.pop_eq hone, ⟨h.holds.proper.popped hone, ?_⟩, h.table, ?_, h.trace⟩
  · intro n v hb
    exact h.holds.bound n v (bound_of_bound_popped hb)
  · show w.frames.depth ≤ w'.frames.popped.depth
    rw [depth_popped]
    omega

theorem secures_bracket {act : Run α} (levels : Nat) (h : R.Secures Q act) :
    R.Secures Q (Run.push >>= fun _ => Eval.leaving levels act) := by
  intro w hw
  show R.Yields Q w (Eval.leaving levels act { w with frames := w.frames.push })
  have hpush : R.Leads w { w with frames := w.frames.push } :=
    leads_frames hw.push.proper (by rw [depth_push]; omega) hw.push.bound
  have hy := h _ hpush.holds
  cases hr : act { w with frames := w.frames.push } with
  | ok a w' =>
    rw [hr] at hy
    obtain ⟨hp, hl⟩ := Leads.popped hw hy.2
    simp only [Eval.leaving, hr, hp]
    exact ⟨hy.1, hl⟩
  | error e w' =>
    rw [hr] at hy
    cases e with
    | parse p => exact hy.elim
    | fault f => exact hy.elim
    | eval e =>
      obtain ⟨hp, hl⟩ := Leads.popped hw hy.2
      simp only [Eval.leaving, hr, hp]
      exact ⟨hy.1, hl⟩
    | exhausted o =>
      by_cases hz : levels = 0
      · simp only [Eval.leaving, hr, if_pos hz]
        exact hpush.trans hy
      · obtain ⟨hp, hl⟩ := Leads.popped hw hy
        simp only [Eval.leaving, hr, if_neg hz, hp]
        exact hl

theorem secures_guarded {act : Run α} (h : R.Secures Q act) : R.Secures Q (Eval.guarded act) := by
  intro w hw
  have hy := h w hw
  cases hr : act w with
  | ok a w' =>
    rw [hr] at hy
    simp only [Eval.guarded, hr]
    exact hy
  | error e w' =>
    rw [hr] at hy
    cases e with
    | exhausted o =>
      simp only [Eval.guarded, hr]
      have hl : R.Leads w w' := hy
      have hd := hl.depth
      have ht := hw.proper.top
      refine ⟨trivial, ⟨hl.holds.proper.unwind (by omega), ?_⟩, hl.table, ?_, hl.trace⟩
      · intro n v hb
        exact hl.holds.bound n v (bound_of_bound_unwind hb)
      · show w.frames.depth ≤ (w'.frames.unwind w.frames.current).depth
        rw [depth_unwind]
        omega
    | _ =>
      simp only [Eval.guarded, hr]
      exact hy

end

/-! ## the forms of the language -/

section
variable {ev : Value → Run Value} (hev : ∀ e, R.IsExpr e → R.Secures R.IsValue (ev e))
include hev

theorem secures_arguments {es : List Value} (hes : ∀ e ∈ es, R.IsExpr e) :
    R.Secures (fun vs => ∀ v ∈ vs, R.IsValue v) (Eval.arguments ev es) := by
  induction es with
  | nil => exact secures_pure fun v hv => absurd hv List.not_mem_nil
  | cons e es ih =>
    have he := hes e (List.mem_cons_self ..)
    have hrest := ih fun e' h' => hes e' (List.mem_cons_of_mem _ h')
    refine (hev e he).bind fun v hv => ?_
    refine hrest.bind fun vs hvs => ?_
    exact secures_pure (List.forall_mem_cons.2 ⟨hv, hvs⟩)

theorem secures_formsFrom {last : Value} (hl : R.IsValue last) {es : List Value}
    (hes : ∀ e ∈ es, R.IsExpr e) :
    R.Secures R.IsValue (Eval.formsFrom ev last es) := by
  induction es generalizing last with
  | nil => exact secures_pure hl
  | cons e es ih =>
    have he := hes e (List.mem_cons_self ..)
    refine (hev e he).bind fun v hv => ?_
    exact ih hv fun e' h' => hes e' (List.mem_cons_of_mem _ h')

theorem secures_ifForm {tail : List Value} (ht : ∀ e ∈ tail, R.IsExpr e) :
    R.Secures R.IsValue (Eval.ifForm ev tail) := by
  unfold Eval.ifForm
  split
  · next condition yes rest =>
    refine (hev condition (ht _ (by simp))).bind fun c _ => ?_
    split
    · exact hev yes (ht _ (by simp))
    · split
      · exact secures_pure R.nil
      · next no _ => exact hev no (ht _ (by simp))
    · exact secures_fail trivial
  · exact secures_fail trivial

theorem secures_letForm (levels : Nat) {tail : List Value} (ht : ∀ e ∈ tail, R.IsExpr e) :
    R.Secures R.IsValue (Eval.letForm levels ev tail) := by
  unfold Eval.letForm
  split
  · exact secures_fail trivial
  · next n rest =>
    split
    · exact secures_fail trivial
    · next e _ =>
      refine (hev e (ht _ (by simp))).bind fun v hv => ?_
      refine (secures_define (R.name (ht _ (by simp))) hv).bind fun _ _ => ?_
      exact secures_pure R.nil
  · next v _ _ => exact secures_raise levels (ht v (by simp))

end

theorem mem_of_notSymbol? {vs : List Value} {v : Value} (h : Eval.notSymbol? vs = some v) :
    v ∈ vs :=
  List.mem_of_find?_eq_some h

theorem symbols_of_notSymbol? {vs : List Value} (h : Eval.notSymbol? vs = none) :
    ∀ p ∈ vs, ∃ n, p = .symbol n := by
  intro p hp
  have hs := List.find?_eq_none.1 h p hp
  cases p with
  | symbol n => exact ⟨n, rfl⟩
  | _ => exact absurd rfl hs

theorem secures_lambdaForm (levels : Nat) {tail : List Value} (ht : ∀ e ∈ tail, R.IsExpr e) :
    R.Secures R.IsValue (Eval.lambdaForm levels tail) := by
  unfold Eval.lambdaForm
  split
  · exact secures_fail trivial
  · exact secures_fail trivial
  · next params body _ =>
    have hp : R.IsExpr (.list params) := ht _ (by simp)
    split
    · next v hv => exact secures_raise levels (R.item hp (mem_of_notSymbol? hv))
    · next hn => exact secures_pure (R.lambda hp (symbols_of_notSymbol? hn) (ht _ (by simp)))
  · next v _ _ _ => exact secures_raise levels (ht v (by simp))

/-- parameters are names, or an error that the realm may raise -/
theorem secures_bindAll (levels : Nat) {params args : List Value}
    (hn : ∀ n, .symbol n ∈ params → R.IsName n) (hu : ∀ p ∈ params, p.symbol? = none →
      R.Raises (.undefinable p)) (ha : ∀ a ∈ args, R.IsValue a) :
    R.Secures (fun _ => True) (Eval.bindAll levels params args) := by
  induction params generalizing args with
  | nil => exact secures_pure trivial
  | cons p ps ih =>
    cases args with
    | nil => exact secures_pure trivial
    | cons a as =>
      have hrest : R.Secures (fun _ => True) (Eval.bindAll levels ps as) := by
        apply ih
        · exact fun n h => hn n (List.mem_cons_of_mem _ h)
        · exact fun q h => hu q (List.mem_cons_of_mem _ h)
        · exact fun b h => ha b (List.mem_cons_of_mem _ h)
      have hav := ha a (List.mem_cons_self ..)
      cases p with
      | symbol n =>
        have hd := secures_worded levels (secures_define (hn n (List.mem_cons_self ..)) hav)
        exact hd.bind fun _ _ => hrest
      | _ =>
        have hd := secures_define_unfit (v := a) rfl (hu _ (List.mem_cons_self ..) rfl)
        exact (secures_worded levels hd).bind fun _ _ => hrest

theorem secures_parameters (levels : Nat) {params args : List Value} {body : Value}
    (hf : R.IsValue (.lambda params body)) (ha : ∀ a ∈ args, R.IsValue a) :
    R.Secures (fun _ => True) (Eval.bindAll levels params args) := by
  refine secures_bindAll levels (fun n hn => R.param hf hn) ?_ ha
  intro p hp hs
  exact ⟨params, body, hf, hp, hs⟩

theorem secures_applyLambda {ev : Value → Run Value}
    (hev : ∀ e, R.IsExpr e → R.Secures R.IsValue (ev e)) (levels : Nat) {params args : List Value}
    {body : Value} (hf : R.IsValue (.lambda params body)) (ha : ∀ a ∈ args, R.IsValue a) :
    R.Secures R.IsValue (Eval.applyLambda levels ev params body args) := by
  have hb : R.Secures R.IsValue (Run.push >>= fun _ => Eval.leaving levels do
      Eval.bindAll levels params args
      ev body) := by
    apply secures_bracket
    exact (secures_parameters levels hf ha).bind fun _ _ => hev body (R.body hf)
  unfold Eval.applyLambda
  split
  · exact (secures_note (e := .mismatch params body args) ha).bind fun _ _ => hb
  · exact hb

theorem secures_print (levels : Nat) {args : List Value} (ha : ∀ a ∈ args, R.IsValue a) :
    R.Secures (fun _ => True) (Primitive.print levels args) := by
  unfold Primitive.print
  split
  · exact secures_note (e := .printed _) ⟨args, ha, rfl⟩
  · exact secures_exhausted _

theorem secures_primitive (levels : Nat) (p : Primitive) {args : List Value}
    (ha : ∀ a ∈ args, R.IsValue a) : R.Secures R.IsValue (p.run levels args) := by
  have hc := p.computes_value args
  -- a line may be printed before the result is given
  have hprint : ∀ next : Run Value, R.Secures R.IsValue next → R.Secures R.IsValue
      (if p = .println then Primitive.print levels args >>= fun _ => next else next) := by
    intro next hn
    split
    · exact (secures_print levels ha).bind fun _ _ => hn
    · exact hn
  unfold Primitive.run
  generalize p.value args = result at hc
  cases hc with
  | int n => exact hprint _ (secures_pure (R.wrapped n))
  | bool b => exact hprint _ (secures_pure (R.bool b))
  | nil => exact hprint _ (secures_pure R.nil)
  | _ => exact hprint _ (secures_fail trivial)

theorem secures_apply (host : Host) {ev : Value → Run Value}
    (hev : ∀ e, R.IsExpr e → R.Secures R.IsValue (ev e)) (levels : Nat) {f : Value}
    {args : List Value} (hf : R.IsValue f) (hfun : f.isFunction = true)
    (ha : ∀ a ∈ args, R.IsValue a) :
    R.Secures R.IsValue (Eval.apply host levels ev f args) := by
  cases f with
  | native g =>
    obtain ⟨p, hp⟩ := R.native hf
    refine (secures_note (e := .called g args) ⟨hf, ha⟩).bind fun _ _ => ?_
    rw [hp]
    exact secures_primitive levels p ha
  | lambda params body => exact secures_applyLambda hev levels hf ha
  | _ => cases hfun

/-! ## evaluation -/

theorem secures_step (host : Host) {part below : Value → Run Value}
    (hp : ∀ e, R.IsExpr e → R.Secures R.IsValue (part e))
    (hb : ∀ e, R.IsExpr e → R.Secures R.IsValue (below e)) (levels : Nat) {e : Value}
    (he : R.IsExpr e) :
    R.Secures R.IsValue (Eval.step host levels part below e) := by
  cases e with
  | symbol n => exact secures_lookup n
  | list items =>
    cases items with
    | nil => exact secures_fail trivial
    | cons head tail =>
      have ht : ∀ e ∈ tail, R.IsExpr e := fun e h => R.item he (List.mem_cons_of_mem _ h)
      cases head with
      | symbol n =>
        refine secures_get.bind fun w _ => ?_
        split
        · exact secures_ifForm hp ht
        · exact secures_lambdaForm _ ht
        · exact secures_letForm hp _ ht
        · refine (secures_lookup n).bind fun f hf => ?_
          split
          · next hfun =>
            refine (secures_arguments hp ht).bind fun args ha => ?_
            refine (secures_note (e := .applying n args) ha).bind fun _ _ => ?_
            exact secures_apply host hb levels hf hfun ha
          · exact secures_raise _ hf
      | _ => exact secures_raise _ (R.item he (List.mem_cons_self ..))
  | _ => exact secures_pure (R.self he nofun nofun)

theorem secures_evaluate (host : Host) : ∀ (levels : Nat) {e : Value}, R.IsExpr e →
    R.Secures R.IsValue (Eval.evaluate host levels e)
  | 0, _, _ => fun _ hw => Leads.refl hw
  | 1, _, _ => fun _ hw => Leads.refl hw
  | 2, _, _ => fun _ hw => Leads.refl hw
  | n + 3, e, he => by
    rw [Eval.evaluate_add_three]
    exact secures_step host (fun _ => secures_evaluate host (n + 1))
      (fun _ => secures_evaluate host n) n he

end Realm

end Lisplet

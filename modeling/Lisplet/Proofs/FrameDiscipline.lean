import Mathlib
import Lisplet.Session
import Lisplet.Proofs.ProperStack
import Lisplet.Proofs.Sequence

/-!
# What a run leaves of the frames

A run that starts on a proper stack and ends, with a value or an error, leaves the stack
undisturbed; one that is exhausted may leave frames on top.  `Disciplined` says this of a
computation.  It is closed under sequence, so every form of the language has it if the evaluation of
its parts has it:

* `disciplined_bracket`   a body in a frame of its own, which is popped when the body has ended;
* `disciplined_host`      a procedure of the host that changes frames only by calling back;
* `disciplined_step`      one level of evaluation, from those below it;
* `disciplined_evaluate`  evaluation with any number of levels.

No pop and no look-up of a handle goes wrong on the way: a fault that ends a run is one that the
host has raised.  A computation that leaves the stack undisturbed even when it is exhausted is
`Contained`; `guarded` makes one from a disciplined run.
-/

namespace Lisplet

open FrameStack Sequence

section
variable {α β : Type}

/-- the world that a run has reached -/
def World.after : EStateM.Result Failure World α → World
  | .ok _ w => w
  | .error _ w => w

/-- what a run from a stack `s` may end with; `own` are the faults it may raise -/
def Keeps (own : Fault → Prop) (s : FrameStack) : EStateM.Result Failure World α → Prop
  | .ok _ w => Undisturbed s w.frames
  | .error (.parse _) w => Undisturbed s w.frames
  | .error (.eval _) w => Undisturbed s w.frames
  | .error (.fault f) w => own f ∧ Undisturbed s w.frames
  | .error (.exhausted _) w => Covers s w.frames

/-- from a proper stack, a run keeps what it should -/
def Disciplined (own : Fault → Prop) (act : Run α) : Prop :=
  ∀ w : World, w.frames.Proper → Keeps own w.frames (act w)

/-- from a proper stack, a run leaves the stack undisturbed however it ends -/
structure Contained (own : Fault → Prop) (act : Run α) : Prop where
  undisturbed : ∀ {w : World}, w.frames.Proper → Undisturbed w.frames (World.after (act w)).frames
  own_fault : ∀ {w w' : World} {f : Fault}, w.frames.Proper → act w = .error (.fault f) w' → own f

variable {own : Fault → Prop} {s t : FrameStack}

theorem Keeps.trans {r : EStateM.Result Failure World α} (h₁ : Undisturbed s t)
    (h₂ : Keeps own t r) :
    Keeps own s r := by
  cases r with
  | ok a w => exact Undisturbed.trans h₁ h₂
  | error e w =>
    cases e with
    | parse p => exact Undisturbed.trans h₁ h₂
    | eval e => exact Undisturbed.trans h₁ h₂
    | fault f => exact ⟨h₂.1, h₁.trans h₂.2⟩
    | exhausted o => exact Undisturbed.trans_covers h₁ h₂

/-- a failure is kept whatever value was expected in its place -/
theorem Keeps.error {e : Failure} {w : World}
    (h : Keeps own s (.error e w : EStateM.Result Failure World α)) :
    Keeps own s (.error e w : EStateM.Result Failure World β) := by
  cases e with
  | parse p => exact h
  | eval e => exact h
  | fault f => exact h
  | exhausted o => exact h

theorem keeps_of_undisturbed {r : EStateM.Result Failure World α} (hs : s.Proper)
    (h : Undisturbed s (World.after r).frames) (hf : ∀ f w, r = .error (.fault f) w → own f) :
    Keeps own s r := by
  cases r with
  | ok a w => exact h
  | error e w =>
    cases e with
    | parse p => exact h
    | eval e => exact h
    | fault f => exact ⟨hf f w rfl, h⟩
    | exhausted o => exact h.covers hs

theorem Contained.disciplined {act : Run α} (h : Contained own act) : Disciplined own act :=
  fun _ hw => keeps_of_undisturbed hw (h.undisturbed hw) fun _ _ hr => h.own_fault hw hr

/-! ## single operations -/

/-- a run ends without a fault, with the frames as they were -/
def Leaves (s : FrameStack) : EStateM.Result Failure World α → Prop
  | .ok _ w => w.frames = s
  | .error (.parse _) w => w.frames = s
  | .error (.eval _) w => w.frames = s
  | .error (.fault _) _ => False
  | .error (.exhausted _) w => w.frames = s

theorem contained_of_leaves {act : Run α} (h : ∀ w, Leaves w.frames (act w)) :
    Contained own act where
  undisturbed := by
    intro w _
    have hw := h w
    have heq : (World.after (act w)).frames = w.frames := by
      generalize act w = r at hw
      cases r with
      | ok a w' => exact hw
      | error e w' =>
        cases e with
        | fault f => exact hw.elim
        | _ => exact hw
    rw [heq]
    exact Undisturbed.refl _
  own_fault := by
    intro w w' f _ hr
    have hw := h w
    rw [hr] at hw
    exact hw.elim

theorem contained_pure (a : α) : Contained own (pure a : Run α) := contained_of_leaves fun _ => rfl

theorem contained_fail (e : EvalError) : Contained own (Run.fail e : Run α) :=
  contained_of_leaves fun _ => rfl

theorem contained_raise (levels : Nat) (e : EvalError) :
    Contained own (Run.raise levels e : Run α) := by
  apply contained_of_leaves
  intro w
  rcases Run.worded_cases levels (Run.fail e : Run α) w with he | ⟨e', w', hf, _, he⟩
  · rw [Run.raise, he]
    rfl
  · cases hf
    rw [Run.raise, he]
    rfl

theorem contained_note (e : Event) : Contained own (Run.note e) := contained_of_leaves fun _ => rfl

theorem contained_get : Contained own (get : Run World) := contained_of_leaves fun _ => rfl

theorem contained_read (levels : Nat) (reading : Reading α) (text : String) :
    Contained own (Run.read levels reading text) := by
  apply contained_of_leaves
  intro w
  by_cases hl : levels < Reading.overhead
  · rw [Run.read_of_lt hl]
    rfl
  · cases hr : reading (Reader.ofText text w.table (.ofLevels levels)) with
    | ok a r =>
      rw [Run.read_of_ok hl hr]
      rfl
    | error e r =>
      rw [Run.read_of_error hl hr]
      rcases Reading.reported_cases hl e with he | ⟨he, _⟩ <;> rw [he] <;> rfl

theorem contained_print (levels : Nat) (args : List Value) :
    Contained own (Primitive.print levels args) := by
  unfold Primitive.print
  split
  · exact contained_note _
  · exact contained_of_leaves fun _ => rfl

theorem disciplined_lookup (name : Value) : Disciplined own (Run.lookup name) := by
  intro w hw
  unfold Run.lookup
  rcases hw.lookup_cases name with ⟨v, hv⟩ | he
  · rw [hv]
    exact Undisturbed.refl _
  · rw [he]
    exact Undisturbed.refl _

theorem disciplined_define (name value : Value) : Disciplined own (Run.define name value) := by
  intro w hw
  rcases hw.define_cases name value with ⟨n, _, hd⟩ | he
  · simp only [Run.define, Run.onFrames, hd]
    exact undisturbed_bindAt ..
  · simp only [Run.define, Run.onFrames, he]
    exact Undisturbed.refl _

/-- an error that is too deep to be worded is gone, and the stack it was raised on is left -/
theorem disciplined_worded {act : Run α} (levels : Nat) (h : Disciplined own act) :
    Disciplined own (Run.worded levels act) := by
  intro w hw
  have hk := h w hw
  rcases Run.worded_cases levels act w with he | ⟨e, w', ha, _, he⟩
  · rw [he]
    exact hk
  · rw [ha] at hk
    rw [he]
    exact Undisturbed.covers hk hw

/-! ## one run after another -/

theorem Disciplined.bind {x : Run α} {f : α → Run β} (hx : Disciplined own x)
    (hf : ∀ a, Disciplined own (f a)) : Disciplined own (x >>= f) := by
  intro w hw
  have hk := hx w hw
  cases h : x w with
  | ok a w' =>
    rw [h] at hk
    rw [bind_of_ok h]
    exact Keeps.trans hk (hf a w' (Undisturbed.proper hk hw))
  | error e w' =>
    rw [h] at hk
    rw [bind_of_error h]
    exact hk.error

theorem Contained.bind {x : Run α} {f : α → Run β} (hx : Contained own x)
    (hf : ∀ a, Contained own (f a)) : Contained own (x >>= f) where
  undisturbed := by
    intro w hw
    have hu := hx.undisturbed hw
    cases h : x w with
    | ok a w₁ =>
      rw [h] at hu
      rw [bind_of_ok h]
      exact hu.trans ((hf a).undisturbed (hu.proper hw))
    | error e w₁ =>
      rw [h] at hu
      rw [bind_of_error h]
      exact hu
  own_fault := by
    intro w w' g hw hr
    have hu := hx.undisturbed hw
    cases h : x w with
    | ok a w₁ =>
      rw [h] at hu
      rw [bind_of_ok h] at hr
      exact (hf a).own_fault (hu.proper hw) hr
    | error e w₁ =>
      rw [bind_of_error h] at hr
      cases hr
      exact hx.own_fault hw h

theorem contained_primitive (levels : Nat) (p : Primitive) (args : List Value) :
    Contained own (p.run levels args) := by
  have hprint : ∀ next : Run Value, Contained own next → Contained own
      (if p = .println then Primitive.print levels args >>= fun _ => next else next) := by
    intro next hn
    split
    · exact (contained_print levels args).bind fun _ => hn
    · exact hn
  unfold Primitive.run
  cases p.value args with
  | ok v => exact hprint _ (contained_pure v)
  | error e => exact hprint _ (contained_fail e)

/-- a body in a frame of its own: the frame is popped, or the run is exhausted -/
theorem disciplined_bracket {act : Run α} (levels : Nat) (h : Disciplined own act) :
    Disciplined own (Run.push >>= fun _ => Eval.leaving levels act) := by
  intro w hw
  show Keeps own w.frames (Eval.leaving levels act { w with frames := w.frames.push })
  have hk := h { w with frames := w.frames.push } hw.push
  cases hr : act { w with frames := w.frames.push } with
  | ok a w' =>
    rw [hr] at hk
    have hp : w'.frames.pop = .ok w.frames := Undisturbed.pop_push hw hk
    simp only [Eval.leaving, hr, hp]
    exact Undisturbed.refl _
  | error e w' =>
    rw [hr] at hk
    cases e with
    | parse p =>
      have hp : w'.frames.pop = .ok w.frames := Undisturbed.pop_push hw hk
      simp only [Eval.leaving, hr, hp]
      exact Undisturbed.refl _
    | eval e =>
      have hp : w'.frames.pop = .ok w.frames := Undisturbed.pop_push hw hk
      simp only [Eval.leaving, hr, hp]
      exact Undisturbed.refl _
    | fault f =>
      have hp : w'.frames.pop = .ok w.frames := Undisturbed.pop_push hw hk.2
      simp only [Eval.leaving, hr, hp]
      exact ⟨hk.1, Undisturbed.refl _⟩
    | exhausted o =>
      -- without a level left all frames stay; else one is popped, and not one that was there before
      by_cases hl : levels = 0
      · simp only [Eval.leaving, hr, if_pos hl]
        exact Covers.of_push hw hk
      · obtain ⟨hp, hc⟩ := Covers.pop_push hw hk
        simp only [Eval.leaving, hr, if_neg hl, hp]
        exact hc

theorem guarded_ne_exhausted (act : Run α) (w w' : World) (o : Overrun) :
    Eval.guarded act w ≠ .error (.exhausted o) w' := by
  intro he
  cases hr : act w with
  | ok a w₁ =>
    simp only [Eval.guarded, hr] at he
    cases he
  | error e w₁ => cases e <;> simp [Eval.guarded, hr] at he

/-- whatever an exhausted run has left on top is taken off -/
theorem contained_guarded {act : Run α} (h : Disciplined own act) :
    Contained own (Eval.guarded act) where
  undisturbed := by
    intro w hw
    have hk := h w hw
    cases hr : act w with
    | ok a w' =>
      rw [hr] at hk
      simp only [Eval.guarded, hr]
      exact hk
    | error e w' =>
      rw [hr] at hk
      cases e with
      | exhausted o =>
        simp only [Eval.guarded, hr]
        exact Covers.unwind hw hk
      | fault f =>
        simp only [Eval.guarded, hr]
        exact hk.2
      | _ =>
        simp only [Eval.guarded, hr]
        exact hk
  own_fault := by
    intro w w' f hw hg
    have hk := h w hw
    cases hr : act w with
    | ok a w₁ =>
      simp only [Eval.guarded, hr] at hg
      cases hg
    | error e w₁ =>
      rw [hr] at hk
      cases e with
      | fault g =>
        simp only [Eval.guarded, hr] at hg
        cases hg
        exact hk.1
      | _ =>
        simp only [Eval.guarded, hr] at hg
        cases hg

end

/-! ## procedures of the host -/

/-- the worlds that a procedure can come to if it changes frames only by calling back -/
inductive Reentry.Reaches (re : Reentry) (w : World) : World → Prop
  | here : Reaches re w w
  | leave {w₁ w₂ : World} (h : Reaches re w w₁) (hf : w₂.frames = w₁.frames) : Reaches re w w₂
  | runUnit {w₁ : World} (h : Reaches re w w₁) (text : String) :
      Reaches re w (World.after (re.runUnit text w₁))
  | runExpression {w₁ : World} (h : Reaches re w w₁) (text : String) :
      Reaches re w (World.after (re.runExpression text w₁))

/-- a text on which a call back ends with a fault -/
def Reentry.Faults (re : Reentry) (f : Fault) (w : World) : Prop :=
  ∃ text w', re.runUnit text w = .error (.fault f) w' ∨
    re.runExpression text w = .error (.fault f) w'

/-- no procedure changes frames in any other way than by calling back -/
def Host.Confined (host : Host) : Prop :=
  ∀ id args w, ∀ re : Reentry, re.Reaches w (World.after (host id re args w))

/-- some procedure ends with a fault that it did not get by calling back -/
def Host.Raises (host : Host) (f : Fault) : Prop :=
  ∃ id args w w', ∃ re : Reentry, host id re args w = .error (.fault f) w' ∧
    ∀ w₁, re.Reaches w w₁ → ¬ re.Faults f w₁

/-- a host is confined in particular if its procedures leave the frames alone -/
theorem Host.confined_of_frames_eq {host : Host}
    (h : ∀ id re args w, (World.after (host id re args w)).frames = w.frames) : host.Confined := by
  intro id args w re
  exact .leave .here (h id re args w)

section
variable {own : Fault → Prop} {host : Host} {re : Reentry}

/-- both ways of calling back are contained -/
structure Reentry.Safe (own : Fault → Prop) (re : Reentry) : Prop where
  runUnit : ∀ text, Contained own (re.runUnit text)
  runExpression : ∀ text, Contained own (re.runExpression text)

theorem Reentry.Reaches.undisturbed (hre : re.Safe own) {w w' : World} (hw : w.frames.Proper)
    (h : re.Reaches w w') : Undisturbed w.frames w'.frames := by
  induction h with
  | here => exact Undisturbed.refl _
  | leave _ hf ih => exact hf ▸ ih
  | runUnit _ text ih => exact ih.trans ((hre.runUnit text).undisturbed (ih.proper hw))
  | runExpression _ text ih => exact ih.trans ((hre.runExpression text).undisturbed (ih.proper hw))

theorem disciplined_host (hh : host.Confined) (hre : re.Safe host.Raises) (id : Nat)
    (args : List Value) :
    Disciplined host.Raises (host id re args) := by
  intro w hw
  apply keeps_of_undisturbed hw
  · exact (hh id args w re).undisturbed hre hw
  · intro f w' hr
    by_cases hf : ∃ w₁, re.Reaches w w₁ ∧ re.Faults f w₁
    · -- the fault came back from a call, and calls back have no faults but those of the host
      obtain ⟨w₁, h₁, text, w₂, hu | he⟩ := hf
      · exact (hre.runUnit text).own_fault ((h₁.undisturbed hre hw).proper hw) hu
      · exact (hre.runExpression text).own_fault ((h₁.undisturbed hre hw).proper hw) he
    · refine ⟨id, args, w, w', re, hr, ?_⟩
      intro w₁ h₁ h₂
      exact hf ⟨w₁, h₁, h₂⟩

end

/-! ## the forms of the language -/

section
variable {own : Fault → Prop} {ev : Value → Run Value}

theorem disciplined_arguments (hev : ∀ e, Disciplined own (ev e)) (es : List Value) :
    Disciplined own (Eval.arguments ev es) := by
  induction es with
  | nil => exact (contained_pure _).disciplined
  | cons e es ih =>
    refine (hev e).bind fun v => ?_
    refine ih.bind fun vs => ?_
    exact (contained_pure _).disciplined

theorem disciplined_bindAll (levels : Nat) (params args : List Value) :
    Disciplined own (Eval.bindAll levels params args) := by
  induction params generalizing args with
  | nil => exact (contained_pure _).disciplined
  | cons p ps ih =>
    cases args with
    | nil => exact (contained_pure _).disciplined
    | cons a as => exact (disciplined_worded levels (disciplined_define p a)).bind fun _ => ih as

theorem disciplined_formsFrom (hev : ∀ e, Disciplined own (ev e)) (last : Value) (es : List Value) :
    Disciplined own (Eval.formsFrom ev last es) := by
  induction es generalizing last with
  | nil => exact (contained_pure _).disciplined
  | cons e es ih => exact (hev e).bind fun v => ih v

theorem disciplined_ifForm (hev : ∀ e, Disciplined own (ev e)) (tail : List Value) :
    Disciplined own (Eval.ifForm ev tail) := by
  unfold Eval.ifForm
  split
  · next condition yes rest =>
    refine (hev condition).bind fun c => ?_
    split
    · exact hev yes
    · split
      · exact (contained_pure _).disciplined
      · next no _ => exact hev no
    · exact (contained_fail _).disciplined
  · exact (contained_fail _).disciplined

theorem disciplined_lambdaForm (levels : Nat) (tail : List Value) :
    Disciplined own (Eval.lambdaForm levels tail) := by
  unfold Eval.lambdaForm
  split
  · exact (contained_fail _).disciplined
  · exact (contained_fail _).disciplined
  · split
    · exact (contained_raise _ _).disciplined
    · exact (contained_pure _).disciplined
  · exact (contained_raise _ _).disciplined

theorem disciplined_letForm (hev : ∀ e, Disciplined own (ev e)) (levels : Nat) (tail : List Value) :
    Disciplined own (Eval.letForm levels ev tail) := by
  unfold Eval.letForm
  split
  · exact (contained_fail _).disciplined
  · next n rest =>
    split
    · exact (contained_fail _).disciplined
    · next e _ =>
      refine (hev e).bind fun v => ?_
      refine (disciplined_define _ v).bind fun _ => ?_
      exact (contained_pure _).disciplined
  · exact (contained_raise _ _).disciplined

theorem disciplined_applyLambda (hev : ∀ e, Disciplined own (ev e)) (levels : Nat)
    (params : List Value) (body : Value) (args : List Value) :
    Disciplined own (Eval.applyLambda levels ev params body args) := by
  have hb : Disciplined own (Run.push >>= fun _ => Eval.leaving levels do
      Eval.bindAll levels params args
      ev body) :=
    disciplined_bracket levels ((disciplined_bindAll levels params args).bind fun _ => hev body)
  unfold Eval.applyLambda
  split
  · exact (contained_note _).disciplined.bind fun _ => hb
  · exact hb

theorem safe_reentry (hev : ∀ e, Disciplined own (ev e)) (levels : Nat) :
    (Eval.reentry levels ev).Safe own where
  runUnit := by
    intro text
    refine (contained_read _ _ text).bind fun es => ?_
    refine (contained_note _).bind fun _ => ?_
    exact contained_guarded (disciplined_formsFrom hev .nil es)
  runExpression := by
    intro text
    refine (contained_read _ _ text).bind fun e => ?_
    exact contained_guarded (hev e)

end

/-! ## evaluation -/

section
variable {host : Host} (hh : host.Confined)
include hh

theorem disciplined_apply {ev : Value → Run Value} (hev : ∀ e, Disciplined host.Raises (ev e))
    (levels : Nat) (f : Value) (args : List Value) :
    Disciplined host.Raises (Eval.apply host levels ev f args) := by
  cases f with
  | native g =>
    refine (contained_note _).disciplined.bind fun _ => ?_
    cases g.code with
    | primitive p => exact (contained_primitive levels p args).disciplined
    | host id => exact disciplined_host hh (safe_reentry hev levels) id args
  | lambda params body => exact disciplined_applyLambda hev levels params body args
  | _ => exact (contained_raise _ _).disciplined

/-- one level of evaluation, from the evaluation of parts and of what runs below a call -/
theorem disciplined_step {part below : Value → Run Value}
    (hp : ∀ e, Disciplined host.Raises (part e)) (hb : ∀ e, Disciplined host.Raises (below e))
    (levels : Nat) (e : Value) :
    Disciplined host.Raises (Eval.step host levels part below e) := by
  unfold Eval.step
  split
  · exact (contained_fail _).disciplined
  · next head tail =>
    refine contained_get.disciplined.bind fun w => ?_
    split
    · exact disciplined_ifForm hp tail
    · exact disciplined_lambdaForm _ tail
    · exact disciplined_letForm hp _ tail
    · refine (disciplined_lookup _).bind fun f => ?_
      split
      · refine (disciplined_arguments hp tail).bind fun args => ?_
        refine (contained_note _).disciplined.bind fun _ => ?_
        exact disciplined_apply hh hb levels f args
      · exact (contained_raise _ _).disciplined
  · exact (contained_raise _ _).disciplined
  · exact disciplined_lookup _
  · exact (contained_pure _).disciplined

-- parts have two levels less and what runs below a call three, so both are covered by the recursion
theorem disciplined_evaluate : ∀ (levels : Nat) (e : Value),
    Disciplined host.Raises (Eval.evaluate host levels e)
  | 0, _ => fun w hw => (Undisturbed.refl w.frames).covers hw
  | 1, _ => fun w hw => (Undisturbed.refl w.frames).covers hw
  | 2, _ => fun w hw => (Undisturbed.refl w.frames).covers hw
  | n + 3, e => by
    rw [Eval.evaluate_add_three]
    exact disciplined_step hh (disciplined_evaluate (n + 1)) (disciplined_evaluate n) n e

end

/-! ## runs that end -/

/-- a run from `w` ends in `w'`, with a value or with an error, and is not exhausted -/
def EndsIn {α : Type} (act : Run α) (w w' : World) : Prop :=
  (∃ a, act w = .ok a w') ∨ ∃ e, (∀ o, e ≠ Failure.exhausted o) ∧ act w = .error e w'

theorem Disciplined.undisturbed {α : Type} {own : Fault → Prop} {act : Run α}
    (h : Disciplined own act) {w w' : World} (hw : w.frames.Proper) (he : EndsIn act w w') :
    Undisturbed w.frames w'.frames := by
  have hk := h w hw
  rcases he with ⟨a, ha⟩ | ⟨e, hn, he⟩
  · rw [ha] at hk
    exact hk
  · rw [he] at hk
    cases e with
    | parse p => exact hk
    | eval e => exact hk
    | fault f => exact hk.2
    | exhausted o => exact absurd rfl (hn o)

/-- evaluating an expression, evaluating the forms of a program and applying a function all leave a
proper stack undisturbed when they end, however they end -/
theorem undisturbed_of_endsIn (host : Host) (hh : host.Confined) (levels : Nat) (w w' : World)
    (hw : w.frames.Proper) :
    (∀ e, EndsIn (Eval.evaluate host levels e) w w' → Undisturbed w.frames w'.frames) ∧
    (∀ es, EndsIn (Eval.forms (Eval.evaluate host levels) es) w w' →
      Undisturbed w.frames w'.frames) ∧
    (∀ room f args, EndsIn (Eval.apply host room (Eval.evaluate host levels) f args) w w' →
      Undisturbed w.frames w'.frames) := by
  have hev := disciplined_evaluate hh levels
  refine ⟨?_, ?_, ?_⟩
  · intro e he
    exact (hev e).undisturbed hw he
  · intro es he
    exact (disciplined_formsFrom hev .nil es).undisturbed hw he
  · intro room f args he
    exact (disciplined_apply hh hev room f args).undisturbed hw he

/-- a function whose second parameter is no symbol fails after its first one was bound -/
theorem undisturbed_by_unfit_parameter :
    let f : Symbol := ⟨0, "f"⟩
    let s := FrameStack.root.push.bindAt 1 f (.lambda [.symbol ⟨0, "x"⟩, .int 7] (.int 1))
    let w : World := { Session.emptyWorld with frames := s }
    let act := Eval.evaluate Session.noHost 9 (.list [.symbol f, .int 2, .int 3])
    Session.noHost.Confined ∧ s.Proper ∧
      act w = .error (.eval (.undefinable (.int 7))) (World.after (act w)) ∧
      Undisturbed s (World.after (act w)).frames := by
  intro f s w act
  have hh : Session.noHost.Confined := Host.confined_of_frames_eq fun _ _ _ _ => rfl
  have hs : s.Proper := Proper.root.push.bindAt ..
  have hr : act w = .error (.eval (.undefinable (.int 7))) (World.after (act w)) := rfl
  have he : EndsIn act w (World.after (act w)) := .inr ⟨.eval (.undefinable (.int 7)), nofun, hr⟩
  exact ⟨hh, hs, hr, (undisturbed_of_endsIn Session.noHost hh 9 w _ hs).1 _ he⟩

end Lisplet

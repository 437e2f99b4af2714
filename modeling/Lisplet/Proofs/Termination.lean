import Mathlib
import Lisplet.Proofs.Derivation
import Lisplet.Proofs.Tree

/-!
# Programs without lambda

Evaluation goes down into the parts of an expression, and from a call into the body of the function
that the frames bind to its head.  Only the second way can go on forever.  A program that makes no
lambda, where none is bound, never takes it: all its calls are calls of primitives, and these run
nothing of the program.

* `Value.inert`       what may be bound: no lambda, no list, and no procedure of the host;
* `Value.lambdaless`  what may be evaluated: no list in it starts with the symbol `lambda`;
* `Halts`             a computation that comes to an end of its own, and binds nothing else than
  inert values.

`Halts` goes through sequences, so each form of the language halts if its parts do.  A part of a
list is less nested than the list and has two levels less.  But an error may show a part, and to
print it takes three levels for each of its lists (`Value.printLevels_le`); and a primitive prints
its arguments with the levels that are left to it.  Hence three levels for each list around a place
and eight for the place itself are enough, however long the program is and whatever is bound
(`halts_evaluate`).
-/

namespace Lisplet

open FrameStack Sequence

/-! ## values and expressions -/

namespace Value

/-- a call of the value runs nothing of a program, and the value is no list -/
def inert : Value → Bool
  | .list _ => false
  | .lambda _ _ => false
  | .native f => f.code.isPrimitive
  | _ => true

def IsInert (v : Value) : Prop := v.inert = true

/-- a list of these items starts with the symbol `lambda` of the table -/
def startsLambda (table : Nat) : List Value → Bool
  | .symbol n :: _ => SpecialForm.of? table n = some .lambdaForm
  | _ => false

mutual

/-- no list of the value starts with the symbol `lambda` of the table; all else of it is inert -/
def lambdaless (table : Nat) : Value → Bool
  | .list items => !startsLambda table items && lambdalessAll table items
  | v => v.inert

def lambdalessAll (table : Nat) : List Value → Bool
  | [] => true
  | v :: vs => lambdaless table v && lambdalessAll table vs

end

theorem lambdalessAll_iff {table : Nat} {vs : List Value} :
    lambdalessAll table vs = true ↔ ∀ v ∈ vs, v.lambdaless table = true := by
  induction vs with
  | nil => simp [lambdalessAll]
  | cons v vs ih => rw [lambdalessAll, Bool.and_eq_true, ih, List.forall_mem_cons]

theorem lambdaless_list {table : Nat} {items : List Value} :
    (Value.list items).lambdaless table = true ↔
      startsLambda table items = false ∧ ∀ v ∈ items, v.lambdaless table = true := by
  rw [lambdaless, Bool.and_eq_true, lambdalessAll_iff, Bool.not_eq_true']

theorem inert_of_lambdaless {table : Nat} {v : Value} (h : v.lambdaless table = true)
    (hv : ∀ items, v ≠ .list items) : v.IsInert := by
  cases v with
  | list items => exact absurd rfl (hv items)
  | _ => simpa [lambdaless, IsInert] using h

/-- a head that is not `lambda` is one of the other forms, or the head of a call -/
theorem of?_ne_lambda {table : Nat} {n : Symbol} {tail : List Value}
    (h : startsLambda table (.symbol n :: tail) = false) :
    SpecialForm.of? table n ≠ some .lambdaForm :=
  of_decide_eq_false h

/-- a native takes most levels -/
theorem IsInert.printLevels_le {v : Value} (h : v.IsInert) (b : Bool) : v.printLevels b ≤ 6 := by
  cases v with
  | list items => cases h
  | lambda params body => cases h
  | str s => cases b <;> simp [printLevels]
  | _ => simp [printLevels]

theorem IsInert.inspectLevels_le {v : Value} (h : v.IsInert) : v.inspectLevels ≤ 6 := by
  cases v with
  | list items => cases h
  | lambda params body => cases h
  | _ => simp [inspectLevels]

mutual
/-- three levels for each list around the deepest place, and six for the place itself -/
theorem printLevels_le (b : Bool) {table : Nat} :
    (v : Value) → v.lambdaless table = true → v.printLevels b ≤ 3 * v.nesting + 6
  | .list items, h => by
    have hi := printLevelsOf_le_nestingOf b items (lambdaless_list.1 h).2
    rw [printLevels, nesting_list]
    omega
  | .nil, h | .bool _, h | .int _, h | .str _, h | .symbol _, h | .native _, h | .lambda _ _, h
  | .foreign _, h =>
    Nat.le_trans ((inert_of_lambdaless h nofun).printLevels_le b) (Nat.le_add_left ..)

theorem printLevelsOf_le_nestingOf (b : Bool) {table : Nat} :
    (vs : List Value) → (∀ v ∈ vs, v.lambdaless table = true) →
      printLevelsOf b vs ≤ 3 * nestingOf vs + 6
  | [], _ => by
    rw [printLevelsOf]
    exact Nat.zero_le _
  | v :: vs, h => by
    obtain ⟨hv, hvs⟩ := List.forall_mem_cons.1 h
    have h₁ := printLevels_le b v hv
    have h₂ := printLevelsOf_le_nestingOf b vs hvs
    rw [printLevelsOf, nestingOf_cons]
    omega
end

mutual
/-- a list takes one level only to be inspected -/
theorem inspectLevels_le {table : Nat} :
    (v : Value) → v.lambdaless table = true → v.inspectLevels ≤ v.nesting + 6
  | .list items, h => by
    have hi := inspectLevelsOf_le_nestingOf items (lambdaless_list.1 h).2
    rw [inspectLevels, nesting_list]
    omega
  | .nil, h | .bool _, h | .int _, h | .str _, h | .symbol _, h | .native _, h | .lambda _ _, h
  | .foreign _, h =>
    Nat.le_trans (inert_of_lambdaless h nofun).inspectLevels_le (Nat.le_add_left ..)

theorem inspectLevelsOf_le_nestingOf {table : Nat} :
    (vs : List Value) → (∀ v ∈ vs, v.lambdaless table = true) →
      inspectLevelsOf vs ≤ nestingOf vs + 6
  | [], _ => by
    rw [inspectLevelsOf]
    exact Nat.zero_le _
  | v :: vs, h => by
    obtain ⟨hv, hvs⟩ := List.forall_mem_cons.1 h
    have h₁ := inspectLevels_le v hv
    have h₂ := inspectLevelsOf_le_nestingOf vs hvs
    rw [inspectLevelsOf, nestingOf_cons]
    omega
end

theorem exists_primitive {f : Native} (h : (Value.native f).IsInert) :
    ∃ p, f.code = .primitive p := by
  have hc : f.code.isPrimitive = true := h
  cases hf : f.code with
  | primitive p => exact ⟨p, rfl⟩
  | host id =>
    rw [hf] at hc
    cases hc

end Value

/-! ## computations that come to an end -/

/-- a proper stack that binds inert values only, and a table of this number -/
structure World.Inert (table : Nat) (w : World) : Prop where
  table : w.table.id = table
  proper : w.frames.Proper
  bound : ∀ n v, w.frames.Bound n v → v.IsInert

section
variable {α β : Type}

/-- an end with a value of `Q`, or with an error of the program; the levels were enough -/
def Halted (table : Nat) (Q : α → Prop) : EStateM.Result Failure World α → Prop
  | .ok a w' => Q a ∧ w'.Inert table
  | .error (.eval e) w' => e ≠ .tooDeep ∧ w'.Inert table
  | .error _ _ => False

def Halts (table : Nat) (Q : α → Prop) (act : Run α) : Prop :=
  ∀ w, w.Inert table → Halted table Q (act w)

variable {table : Nat} {Q : α → Prop} {P : β → Prop}

theorem Halted.error {e : Failure} {w : World}
    (h : Halted table Q (.error e w : EStateM.Result Failure World α)) :
    Halted table P (.error e w : EStateM.Result Failure World β) := by
  cases e with
  | eval e => exact h
  | _ => exact h

theorem Halts.bind {x : Run α} {f : α → Run β} (hx : Halts table Q x)
    (hf : ∀ a, Q a → Halts table P (f a)) : Halts table P (x >>= f) := by
  intro w hw
  have hs := hx w hw
  cases h : x w with
  | ok a w₁ =>
    rw [h] at hs
    rw [bind_of_ok h]
    exact hf a hs.1 w₁ hs.2
  | error e w₁ =>
    rw [h] at hs
    rw [bind_of_error h]
    exact hs.error

/-! ## single operations -/

theorem halts_pure {a : α} (ha : Q a) : Halts table Q (pure a : Run α) := fun _ hw => ⟨ha, hw⟩

theorem halts_fail {e : EvalError} (he : e ≠ .tooDeep) : Halts table Q (Run.fail e : Run α) :=
  fun _ hw => ⟨he, hw⟩

/-- an error is worded if there are the levels for it -/
theorem halts_raise {levels : Nat} {e : EvalError} (he : e ≠ .tooDeep) (hl : e.levels ≤ levels) :
    Halts table Q (Run.raise levels e : Run α) := by
  intro w hw
  rw [Run.raise_of_le hl]
  exact ⟨he, hw⟩

theorem halts_note (e : Event) : Halts table (fun _ => True) (Run.note e) :=
  fun _ hw => ⟨trivial, hw.table, hw.proper, hw.bound⟩

end

section
variable {table : Nat}

theorem halts_lookup (n : Symbol) : Halts table Value.IsInert (Run.lookup (.symbol n)) := by
  intro w hw
  unfold Run.lookup
  rcases hw.proper.lookup_cases (.symbol n) with ⟨v, hv⟩ | he
  · rw [hv]
    exact ⟨hw.bound n v (bound_of_lookup hv), hw⟩
  · rw [he]
    exact ⟨EvalError.noConfusion, hw⟩

theorem World.Inert.bindAt {w : World} (hw : w.Inert table) (h : Nat) (n : Symbol) {v : Value}
    (hv : v.IsInert) :
    World.Inert table { w with frames := w.frames.bindAt h n v } where
  table := hw.table
  proper := hw.proper.bindAt h n v
  bound := by
    intro m u hb
    rcases bound_of_bound_bindAt hb with ⟨_, he⟩ | hb
    · rw [he]
      exact hv
    · exact hw.bound m u hb

theorem halts_define (n : Symbol) {v : Value} (hv : v.IsInert) :
    Halts table (fun _ => True) (Run.define (.symbol n) v) := by
  intro w hw
  simp only [Run.define, Run.onFrames, hw.proper.define_symbol n v]
  exact ⟨trivial, hw.bindAt _ n hv⟩

theorem halts_print {levels : Nat} {args : List Value} (ha : ∀ a ∈ args, a.IsInert)
    (hl : 8 ≤ levels) : Halts table (fun _ => True) (Primitive.print levels args) := by
  have hp : Value.printLevelsOf false args ≤ 6 :=
    Value.printLevelsOf_le fun a hm => (ha a hm).printLevels_le false
  unfold Primitive.print
  rw [if_pos (by omega)]
  exact halts_note _

theorem halts_primitive {levels : Nat} (p : Primitive) {args : List Value}
    (ha : ∀ a ∈ args, a.IsInert) (hl : 8 ≤ levels) :
    Halts table Value.IsInert (p.run levels args) := by
  have hc := p.computes_value args
  -- a line may be printed before the result is given
  have hprint : ∀ next : Run Value, Halts table Value.IsInert next →
      Halts table Value.IsInert
        (if p = .println then Primitive.print levels args >>= fun _ => next else next) := by
    intro next hn
    split
    · exact (halts_print ha hl).bind fun _ _ => hn
    · exact hn
  unfold Primitive.run
  generalize p.value args = result at hc
  cases hc with
  | int n => exact hprint _ (halts_pure rfl)
  | bool b => exact hprint _ (halts_pure rfl)
  | nil => exact hprint _ (halts_pure rfl)
  | _ => exact hprint _ (halts_fail EvalError.noConfusion)

/-! ## the forms of the language -/

variable {part : Value → Run Value} {tail : List Value}

theorem halts_arguments (ht : ∀ e ∈ tail, Halts table Value.IsInert (part e)) :
    Halts table (fun vs => ∀ v ∈ vs, v.IsInert) (Eval.arguments part tail) := by
  induction tail with
  | nil => exact halts_pure fun v hv => absurd hv List.not_mem_nil
  | cons e es ih =>
    obtain ⟨he, hes⟩ := List.forall_mem_cons.1 ht
    apply he.bind
    intro v hv
    apply (ih hes).bind
    intro vs hvs
    exact halts_pure (List.forall_mem_cons.2 ⟨hv, hvs⟩)

theorem halts_ifForm (ht : ∀ e ∈ tail, Halts table Value.IsInert (part e)) :
    Halts table Value.IsInert (Eval.ifForm part tail) := by
  unfold Eval.ifForm
  split
  · next condition yes rest =>
    apply (ht condition (by simp)).bind
    intro c _
    split
    · exact ht yes (by simp)
    · split
      · exact halts_pure rfl
      · next no _ => exact ht no (by simp)
    · exact halts_fail EvalError.noConfusion
  · exact halts_fail EvalError.noConfusion

theorem halts_letForm {levels : Nat} (ht : ∀ e ∈ tail, Halts table Value.IsInert (part e))
    (hl : ∀ e ∈ tail, e.inspectLevels ≤ levels) :
    Halts table Value.IsInert (Eval.letForm levels part tail) := by
  unfold Eval.letForm
  split
  · exact halts_fail EvalError.noConfusion
  · next n rest =>
    split
    · exact halts_fail EvalError.noConfusion
    · next e _ =>
      apply (ht e (by simp)).bind
      intro v hv
      apply (halts_define n hv).bind
      intro _ _
      exact halts_pure rfl
  · next v _ _ => exact halts_raise EvalError.noConfusion (hl v (by simp))

/-- a call ends with its arguments: what is bound to its head is a primitive, or no function -/
theorem halts_call (host : Host) {levels : Nat} (below : Value → Run Value) (head : Symbol)
    (ht : ∀ e ∈ tail, Halts table Value.IsInert (part e)) (hl : 8 ≤ levels) :
    Halts table Value.IsInert (Eval.call host levels part below head tail) := by
  unfold Eval.call
  apply (halts_lookup head).bind
  intro f hf
  split
  · next hfun =>
    apply (halts_arguments ht).bind
    intro args ha
    apply (halts_note _).bind
    intro _ _
    cases f with
    | native g =>
      obtain ⟨p, hp⟩ := Value.exists_primitive hf
      show Halts table _ (Eval.applyNative host levels (Eval.reentry levels below) g args)
      unfold Eval.applyNative
      apply (halts_note _).bind
      intro _ _
      rw [hp]
      exact halts_primitive p ha hl
    | lambda params body => cases hf
    | _ => cases hfun
  · have hp : f.printLevels true ≤ 6 := Value.IsInert.printLevels_le hf true
    exact halts_raise EvalError.noConfusion (show f.printLevels true ≤ levels + 2 by omega)

/-! ## evaluation -/

theorem halts_list (host : Host) {levels : Nat} (below : Value → Run Value) {items : List Value}
    (he : (Value.list items).lambdaless table = true)
    (hi : ∀ e ∈ items, Halts table Value.IsInert (part e))
    (hl : 3 * Value.nestingOf items + 8 ≤ levels) :
    Halts table Value.IsInert (Eval.step host levels part below (.list items)) := by
  obtain ⟨hs, hless⟩ := Value.lambdaless_list.1 he
  cases items with
  | nil => exact halts_fail EvalError.noConfusion
  | cons head tail =>
    obtain ⟨_, ht⟩ := List.forall_mem_cons.1 hi
    have hprinted : head.printLevels true ≤ levels + 2 := by
      have hm : head ∈ head :: tail := List.mem_cons_self ..
      have hd := Value.nesting_le_nestingOf hm
      have hle := Value.printLevels_le true head (hless head hm)
      omega
    have hshown : ∀ e ∈ tail, e.inspectLevels ≤ levels + 1 := by
      intro e hm
      have hm' := List.mem_cons_of_mem head hm
      have hd := Value.nesting_le_nestingOf hm'
      have hle := Value.inspectLevels_le e (hless e hm')
      omega
    cases head with
    | symbol n =>
      intro w hw
      rw [step_list, hw.table]
      have hn := Value.of?_ne_lambda hs
      cases hf : SpecialForm.of? table n with
      | none => exact halts_call host below n ht (by omega) w hw
      | some form =>
        cases form with
        | ifForm => exact halts_ifForm ht w hw
        | lambdaForm => exact absurd hf hn
        | letForm => exact halts_letForm ht hshown w hw
    | _ => exact halts_raise EvalError.noConfusion hprinted

/-- three levels for each list around the deepest place, and eight for the place itself -/
theorem halts_evaluate (host : Host) (levels : Nat) {e : Value} (he : e.lambdaless table = true)
    (hl : 3 * e.nesting + 8 ≤ levels) :
    Halts table Value.IsInert (Eval.evaluate host levels e) := by
  induction levels using Nat.strong_induction_on generalizing e with
  | _ levels ih =>
    obtain ⟨n, rfl⟩ : ∃ n, levels = n + 3 := ⟨levels - 3, by omega⟩
    rw [Eval.evaluate_add_three]
    cases e with
    | list items =>
      rw [Value.nesting_list] at hl
      refine halts_list host _ he ?_ (by omega)
      intro item hm
      have hd := Value.nesting_le_nestingOf hm
      exact ih (n + 1) (by omega) ((Value.lambdaless_list.1 he).2 item hm) (by omega)
    | symbol s => exact halts_lookup s
    | native f => exact halts_pure (Value.inert_of_lambdaless he nofun)
    | lambda params body => cases Value.inert_of_lambdaless he nofun
    | _ => exact halts_pure rfl

theorem halts_formsFrom {last : Value} {es : List Value} (hl : last.IsInert)
    (hes : ∀ e ∈ es, Halts table Value.IsInert (part e)) :
    Halts table Value.IsInert (Eval.formsFrom part last es) := by
  induction es generalizing last with
  | nil => exact halts_pure hl
  | cons e es ih =>
    obtain ⟨he, hrest⟩ := List.forall_mem_cons.1 hes
    apply he.bind
    intro v hv
    exact ih hv hrest

end

/-- **A program without lambda ends.** From a proper stack that binds no lambda, no list and no
procedure of the host, the forms of the program end with a value or with an error of the program, if
there are three levels for each list around their deepest place and eight more; and after that
nothing else is bound either. -/
theorem lambdaless_programs_end (host : Host) (w : World) (unit : List Value) (levels : Nat)
    (hp : w.frames.Proper) (hb : ∀ n v, w.frames.Bound n v → v.IsInert)
    (hu : ∀ e ∈ unit, e.lambdaless w.table.id = true) (hl : 3 * Value.nestingOf unit + 8 ≤ levels) :
    ∃ w', ((∃ v, v.IsInert ∧ Eval.forms (Eval.evaluate host levels) unit w = .ok v w') ∨
        ∃ e, e ≠ .tooDeep ∧ Eval.forms (Eval.evaluate host levels) unit w = .error (.eval e) w') ∧
      w'.frames.Proper ∧ ∀ n v, w'.frames.Bound n v → v.IsInert := by
  have hforms : Halts w.table.id Value.IsInert (Eval.forms (Eval.evaluate host levels) unit) := by
    have hnil : Value.nil.IsInert := rfl
    apply halts_formsFrom hnil
    intro e he
    have hd := Value.nesting_le_nestingOf he
    exact halts_evaluate host levels (hu e he) (by omega)
  have hs := hforms w ⟨rfl, hp, hb⟩
  cases hr : Eval.forms (Eval.evaluate host levels) unit w with
  | ok v w' =>
    rw [hr] at hs
    exact ⟨w', .inl ⟨v, hs.1, rfl⟩, hs.2.proper, hs.2.bound⟩
  | error f w' =>
    rw [hr] at hs
    cases f with
    | eval e => exact ⟨w', .inr ⟨e, hs.1, rfl⟩, hs.2.proper, hs.2.bound⟩
    | _ => exact hs.elim

/-! ## new sessions -/

theorem World.Inert.registerIn {table : Nat} {w : World} (hw : w.Inert table) (p : Primitive) :
    (Session.registerIn w p.name (.primitive p)).Inert table := by
  have h := hw.bindAt 0 (w.table.symbol p.name) (v := Session.nativeIn w p.name (.primitive p)) rfl
  exact ⟨(w.table.id_intern p.name).trans hw.table, h.proper, h.bound⟩

theorem inert_emptyWorld : Session.emptyWorld.Inert Session.tableId :=
  ⟨rfl, Proper.root, fun _ _ hb => absurd hb not_bound_root⟩

theorem inert_standardWorld : Session.standardWorld.Inert Session.tableId := by
  apply Session.standardWorld_induction inert_emptyWorld (fun _ hw p => hw.registerIn p)
  exact fun _ hw => ⟨hw.table, hw.proper, hw.bound⟩

/-- `(let x (plus 1 2))`, then `(if (lt x 4) (println (plus x x)) (f))`, then `(((x)) 1)` -/
def doublingProgram : List Value :=
  let name := fun n => Value.symbol ⟨Session.tableId, n⟩
  [.list [name "let", name "x", .list [name "plus", .int 1, .int 2]],
    .list [name "if", .list [name "lt", name "x", .int 4],
      .list [name "println", .list [name "plus", name "x", name "x"]], .list [name "f"]],
    .list [.list [.list [name "x"]], .int 1]]

/-- three lists are around its deepest place, so seventeen levels are enough -/
theorem doublingProgram_ends :
    Value.nestingOf doublingProgram = 3 ∧ Session.standardWorld.frames.Proper ∧
      (∀ e ∈ doublingProgram, e.lambdaless Session.standardWorld.table.id = true) ∧
      ∃ w', ((∃ v, v.IsInert ∧
            Eval.forms (Eval.evaluate Session.noHost 17) doublingProgram Session.standardWorld
              = .ok v w') ∨
          ∃ e, e ≠ .tooDeep ∧
            Eval.forms (Eval.evaluate Session.noHost 17) doublingProgram Session.standardWorld
              = .error (.eval e) w') ∧
        w'.frames.Proper ∧ ∀ n v, w'.frames.Bound n v → v.IsInert := by
  have hd : Value.nestingOf doublingProgram = 3 := by decide +kernel
  have hu : ∀ e ∈ doublingProgram, e.lambdaless Session.standardWorld.table.id = true := by
    decide +kernel
  have hp := inert_standardWorld.proper
  refine ⟨hd, hp, hu, ?_⟩
  apply lambdaless_programs_end Session.noHost Session.standardWorld doublingProgram 17 hp
    inert_standardWorld.bound hu
  rw [hd]

end Lisplet
